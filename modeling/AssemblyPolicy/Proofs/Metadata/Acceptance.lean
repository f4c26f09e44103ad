import AssemblyPolicy.Proofs.Metadata.WellFormed

/-!
# Which snapshots are accepted

`AssemblyModel.Judged` lists what can become of a text. One that cannot be decoded is no snapshot; of
the others those with a foreign schema are rejected before their content is looked at, and those with
defective content after it.
-/

namespace AssemblyPolicy.AssemblyModel

/-- If a schema is named, it is that of snapshots. -/
def Supported (a : AssemblyModel) : Prop := ∀ s ∈ a.schema, s = "modguard.assembly.v1"

/-- What becomes of a text. -/
inductive Judged (text : String) : Except SnapshotError AssemblyModel → Prop where
  | undecodable {e : Json.LocatedError} (h : decode.ofText text = .error e) :
      Judged text (.error (.undecodable e))
  | unsupported {a : AssemblyModel} {s : String} (h : decode.ofText text = .ok a)
      (hs : a.schema = some s) (hne : s ≠ "modguard.assembly.v1") :
      Judged text (.error (.unsupportedSchema s))
  | defective {a : AssemblyModel} {d : Defect} (h : decode.ofText text = .ok a)
      (hs : a.Supported) (hwf : ¬ a.WellFormed) : Judged text (.error (.defective a.name d))
  | accepted {a : AssemblyModel} (h : decode.ofText text = .ok a) (hs : a.Supported)
      (hwf : a.WellFormed) : Judged text (.ok a)

variable {a : AssemblyModel} {text : String}

/-- The content decides about metadata with the schema of snapshots. -/
lemma judged_of_supported (h : decode.ofText text = .ok a) (hs : a.Supported) :
    Judged text ((a.check.mapError (SnapshotError.defective a.name)).map fun _ => a) := by
  cases hc : a.check with
  | ok u => exact .accepted h hs (check_eq_ok_iff.mp hc)
  | error d =>
    refine .defective h hs fun hwf => ?_
    rw [check_eq_ok_iff.mpr hwf] at hc
    cases hc

lemma judged_accept (h : decode.ofText text = .ok a) : Judged text a.accept := by
  cases hs : a.schema with
  | none =>
    simp only [accept, hs]
    exact judged_of_supported h (by simp [Supported, hs])
  | some s =>
    simp only [accept, hs]
    split_ifs with hschema
    · exact judged_of_supported h (by simp [Supported, hs, hschema, snapshotSchema])
    · exact .unsupported h hs hschema

lemma judged_ofSnapshot (text : String) : Judged text (ofSnapshot text) := by
  cases h : decode.ofText text with
  | ok a =>
    rw [ofSnapshot_eq_accept h]
    exact judged_accept h
  | error e =>
    have hsnapshot : ofSnapshot text = .error (.undecodable e) := by
      simp only [ofSnapshot, h]
      rfl
    rw [hsnapshot]
    exact .undecodable h

/-- The snapshots that are accepted are those that decode to well-formed metadata with the right
schema or none, and nothing in them is changed. Of the others that can be decoded a foreign schema is
reported first, else a defect of the assembly; these errors count as malformed, and no other. -/
theorem ofSnapshot_decides (text : String) :
    (∀ a, ofSnapshot text = .ok a ↔
      decode.ofText text = .ok a ∧ a.Supported ∧ a.WellFormed) ∧
    (∀ s, ofSnapshot text = .error (.unsupportedSchema s) ↔
      ∃ a, decode.ofText text = .ok a ∧ a.schema = some s ∧ s ≠ "modguard.assembly.v1") ∧
    (∀ name, (∃ d, ofSnapshot text = .error (.defective name d)) ↔
      ∃ a, decode.ofText text = .ok a ∧ a.name = name ∧ a.Supported ∧ ¬ a.WellFormed) ∧
    (∀ e, ofSnapshot text = .error (.undecodable e) ↔ decode.ofText text = .error e) ∧
    ((∃ e, ofSnapshot text = .error e ∧ e.isMalformed = true) ↔
      ∃ a, decode.ofText text = .ok a ∧ ¬ (a.Supported ∧ a.WellFormed)) := by
  have hj := judged_ofSnapshot text
  generalize ofSnapshot text = out at hj
  cases hj with
  | undecodable h => simp [h, SnapshotError.isMalformed]
  | @unsupported a s h hs hne =>
    have hsupp : ¬ a.Supported := fun hsupp => hne (hsupp s hs)
    simp [h, hs, hne, hsupp, SnapshotError.isMalformed]
  | @defective a d h hs hwf =>
    have hnone : ∀ s, a.schema = some s → s = "modguard.assembly.v1" := hs
    simpa [h, hs, hwf, SnapshotError.isMalformed] using hnone
  | @accepted a h hs hwf =>
    have hnone : ∀ s, a.schema = some s → s = "modguard.assembly.v1" := hs
    simpa [h, hs, hwf, SnapshotError.isMalformed] using hnone

/-- Of a foreign schema and a blank name the schema is reported. -/
example : ofSnapshot "[\"modguard.assembly.v9\",\" \",[]]" =
    .error (.unsupportedSchema "modguard.assembly.v9") := by
  cbv

end AssemblyPolicy.AssemblyModel
