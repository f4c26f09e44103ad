import AssemblyPolicy.Proofs.Report.Normalization
import AssemblyPolicy.Proofs.Report.Roundtrip

/-!
# Comparing reports

Two reports are compared by their normalized values. These are equal exactly when the reports differ at
most in when and by which version of the tool they were made, and in timestamps that findings have
among their details (`Report.normalize_toJson_eq_iff`).
-/

namespace AssemblyPolicy

open Json

variable {members : List (String × Json)}

/-! ### Masks in records -/

@[simp] lemma maskTimestamps_string (t : String) : maskTimestamps (.string t) = .string t := rfl

@[simp] lemma maskTimestamps_bool (b : Bool) : maskTimestamps (.bool b) = .bool b := rfl

@[simp] lemma maskTimestamps_nat (n : Nat) : maskTimestamps (.nat n) = .nat n := rfl

@[simp] lemma maskTimestamps_array (items : List Json) :
    maskTimestamps (.array items) = .array (items.map maskTimestamps) :=
  congrArg Json.array (maskItems_eq_map items)

lemma object_updateMember_sortMembers (key : String) (f : Json → Json)
    (members : List (String × Json)) :
    Json.object (updateMember key f (sortMembers members)) =
      .ofMembers (updateMember key f members) := by
  rw [updateMember_eq_mapValues, updateMember_eq_mapValues, ← sortMembers_mapValues, ofMembers]

lemma maskVersion_ofMembers (members : List (String × Json)) : maskVersion (.ofMembers members) =
    .ofMembers (updateMember "version" (fun _ => versionMask) members) :=
  object_updateMember_sortMembers _ _ members

lemma maskTool_ofMembers (h : (Json.ofMembers members).IsReport) :
    maskTool (.ofMembers members) = .ofMembers (updateMember "tool" maskVersion members) := by
  obtain ⟨_, heq, hmask⟩ := exists_maskTool_of_isReport h
  rw [hmask, ← Json.object.inj heq, object_updateMember_sortMembers]

lemma maskTimestamps_ofMembers (members : List (String × Json)) :
    maskTimestamps (.ofMembers members) = .ofMembers (mapValues maskValue members) := by
  rw [ofMembers, maskTimestamps, maskMembers_eq_mapValues, ← sortMembers_mapValues, ofMembers]

lemma maskTimestamps_sorted_record (entries : List (String × Option Json)) :
    maskTimestamps (Json.record entries).sorted =
      .ofMembers (present (entries.map fun e => (e.1, e.2.map fun v => maskValue e.1 v.sorted))) := by
  rw [sorted_record, maskTimestamps_ofMembers]
  refine congrArg Json.ofMembers ?_
  simp [present, mapValues, sortedEntries, List.map_filterMap, Function.comp_def]

/-- A record without timestamps. -/
lemma maskTimestamps_sorted_record_eq_self {entries : List (String × Option Json)}
    (h : ∀ e ∈ entries, ∀ v, e.2 = some v → maskValue e.1 v.sorted = v.sorted) :
    maskTimestamps (Json.record entries).sorted = (Json.record entries).sorted := by
  rw [maskTimestamps_sorted_record, sorted_record, sortedEntries]
  refine congrArg (Json.ofMembers <| present ·) (List.map_congr_left fun e he => ?_)
  exact congrArg (e.1, ·) (Option.map_congr (h e he))

/-! ### Parts of reports -/

@[simp] lemma Location.maskTimestamps_toJson (l : Location) :
    maskTimestamps l.toJson.sorted = l.toJson.sorted :=
  maskTimestamps_sorted_record_eq_self (by simp [maskValue, timestampKeys])

@[simp] lemma AssemblyVerdict.maskTimestamps_toJson (a : AssemblyVerdict) :
    maskTimestamps a.toJson.sorted = a.toJson.sorted :=
  maskTimestamps_sorted_record_eq_self (by simp [maskValue, timestampKeys])

@[simp] lemma Summary.maskTimestamps_toJson (s : Summary) :
    maskTimestamps s.toJson.sorted = s.toJson.sorted :=
  maskTimestamps_sorted_record_eq_self (by simp [maskValue, timestampKeys])

lemma Tool.maskVersion_toJson (t : Tool) :
    maskVersion t.toJson.sorted =
      .ofMembers [("name", .string t.name), ("version", versionMask)] := by
  rw [toJson, sorted_record, maskVersion_ofMembers]
  simp [present, sortedEntries, updateMember]

/-- A finding without the timestamps among its details. -/
def Finding.masked (f : Finding) : Finding := { f with data := maskTimestamps f.data }

lemma map_unlessNull_maskTimestamps {v : Json} (h : v.Sorted) :
    v.unlessNull.map (fun x => maskTimestamps x.sorted) =
      (maskTimestamps v).unlessNull.map Json.sorted := by
  have hmask : maskTimestamps v.sorted = (maskTimestamps v).sorted := by
    rw [h.sorted_eq, h.maskTimestamps.sorted_eq]
  cases v with
  | null => rfl
  | bool | number | string | array | object => exact congrArg some hmask

lemma Finding.maskTimestamps_toJson {f : Finding} (h : f.data.Sorted) :
    maskTimestamps f.toJson.sorted = f.masked.toJson.sorted := by
  rw [toJson, maskTimestamps_sorted_record, toJson, sorted_record]
  simp [sortedEntries, maskValue, timestampKeys, Function.comp_def, masked,
    map_unlessNull_maskTimestamps h]

lemma Report.normalize_toJson {r : Report} (h : ∀ f ∈ r.findings, f.data.Sorted) :
    normalize r.toJson.sorted = .ofMembers
      [("schema", .string r.schema),
        ("tool", .ofMembers [("name", .string r.tool.name), ("version", versionMask)]),
        ("started_at", timestampMask), ("finished_at", timestampMask),
        ("verdict", .string r.verdict.name),
        ("findings", .array (r.findings.map fun f => f.masked.toJson.sorted)),
        ("data", r.summary.toJson.sorted)] := by
  have hfindings : r.findings.map (fun f => maskTimestamps f.toJson.sorted) =
      r.findings.map fun f => f.masked.toJson.sorted :=
    List.map_congr_left fun f hf => Finding.maskTimestamps_toJson (h f hf)
  have hreport := r.isReport_toJson
  rw [normalize]
  rw [sorted_toJson] at hreport ⊢
  rw [maskTool_ofMembers hreport, maskTimestamps_ofMembers]
  simp [updateMember, mapValues, maskValue, timestampKeys, Tool.maskVersion_toJson,
    maskTimestamps_ofMembers, versionMask, Function.comp_def, hfindings]

/-! ### Reports with the same normalization -/

/-- A decoder reads one thing only from a value. -/
lemma Json.Decoder.Reads.unique {α : Type} {d : Decoder α} {n m : Nat} {v : Json} {a b : α}
    (ha : d.Reads n v a) (hb : d.Reads m v b) : a = b :=
  Except.ok.inj (ha.ofValue.symm.trans hb.ofValue)

lemma Verdict.name_inj {v v' : Verdict} : v.name = v'.name ↔ v = v' :=
  ⟨fun h => (v.reads 0).unique (h ▸ v'.reads 0), congrArg _⟩

lemma Summary.Fits.toJson_inj {s s' : Summary} (h : s.Fits) (h' : s'.Fits) :
    s.toJson.sorted = s'.toJson.sorted ↔ s = s' :=
  ⟨fun heq => (h.reads (n := 0)).unique (heq ▸ h'.reads (n := 0)),
    congrArg fun s : Summary => s.toJson.sorted⟩

/-- Values of findings are equal when the findings are. -/
lemma Finding.map_masked_toJson_inj {fs fs' : List Finding} (h : ∀ f ∈ fs, f.data.Sorted)
    (h' : ∀ f ∈ fs', f.data.Sorted) :
    (fs.map fun f => f.masked.toJson.sorted) = (fs'.map fun f => f.masked.toJson.sorted) ↔
      fs.map masked = fs'.map masked := by
  have hread : ∀ f : Finding, f.data.Sorted →
      decode.ofValue f.masked.toJson.sorted = .ok f.masked :=
    fun f hf => (reads (f := f.masked) hf.maskTimestamps (Nat.le_succ _)).ofValue
  have hdecode : ∀ fs : List Finding, (∀ f ∈ fs, f.data.Sorted) →
      (fs.map fun f => f.masked.toJson.sorted).map decode.ofValue = (fs.map masked).map .ok := by
    intro fs hfs
    rw [List.map_map, List.map_map]
    exact List.map_congr_left fun f hf => hread f (hfs f hf)
  constructor
  · intro heq
    have hok := congrArg (List.map decode.ofValue) heq
    rw [hdecode fs h, hdecode fs' h'] at hok
    exact List.map_injective_iff.mpr (fun _ _ => Except.ok.inj) hok
  · intro heq
    simpa [Function.comp_def] using congrArg (List.map fun f => f.toJson.sorted) heq

/-- The values of two reports have one normalization exactly when the reports have the same tool,
verdict, summary and findings, but for the version of the tool and the timestamps among the details of
the findings. -/
theorem Report.normalize_toJson_eq_iff {r r' : Report} (h : r.Writable) (h' : r'.Writable) :
    normalize r.toJson.sorted = normalize r'.toJson.sorted ↔
      r.tool.name = r'.tool.name ∧ r.verdict = r'.verdict ∧
        r.findings.map Finding.masked = r'.findings.map Finding.masked ∧
        r.summary = r'.summary := by
  have hsorted : ∀ f ∈ r.findings, f.data.Sorted := fun f hf => (h.findings f hf).sorted
  have hsorted' : ∀ f ∈ r'.findings, f.data.Sorted := fun f hf => (h'.findings f hf).sorted
  rw [normalize_toJson hsorted, normalize_toJson hsorted', ofMembers_inj (by simp) (by simp)]
  have htool : ∀ name name' : String,
      (Json.ofMembers [("name", .string name), ("version", versionMask)] =
        .ofMembers [("name", .string name'), ("version", versionMask)]) ↔ name = name' := by
    intro name name'
    rw [ofMembers_inj (by simp) (by simp)]
    simp
  simp [htool, h.schema, h'.schema, Verdict.name_inj, h.summary.toJson_inj h'.summary,
    Finding.map_masked_toJson_inj hsorted hsorted']

end AssemblyPolicy
