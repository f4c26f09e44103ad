import AssemblyPolicy.Check.Basic
import AssemblyPolicy.Proofs.Verification.Basic
import AssemblyPolicy.Proofs.Walk.Presence
import Mathlib

/-!
# Direct uses

A use that stands in a method of the checked assembly itself is reported, whatever the limits and
whatever the methods do that it calls (`violation_mem_sweepWith`). The check of a snapshot makes the
declarations of an assembly distinct, so the walk starts in the very method that is checked.
-/

namespace AssemblyPolicy

variable {a : AssemblyModel} {t : TypeDef} {d : MethodDef} {b : MethodBody} {r : Restriction}
  {policy : Policy} {refs s : AssemblySet} {m : MemberRef}

/-! ### Checked pairs -/

lemma TypeDef.mem_product_iff {members : List MemberRef} {restrictions : List Restriction} :
    (m, r) ∈ TypeDef.product members restrictions ↔ m ∈ members ∧ r ∈ restrictions := by
  simp only [TypeDef.product, List.mem_flatMap, List.mem_map, Prod.mk.injEq]
  constructor
  · rintro ⟨m', hm, r', hr, rfl, rfl⟩
    exact ⟨hm, hr⟩
  · rintro ⟨hm, hr⟩
    exact ⟨m, hm, r, hr, rfl, rfl⟩

lemma TypeDef.mem_bodies (hd : d ∈ t.methods) (hb : d.body = some b) (owner : TypeRef) :
    .method (d.reference owner) ∈ t.bodies owner := by
  refine List.mem_map.mpr ⟨d, List.mem_filter.mpr ⟨hd, ?_⟩, rfl⟩
  rw [hb, Option.isSome_some]

/-- A method with a body is checked against all restrictions but those on inheritance. -/
lemma TypeDef.mem_pairs (hd : d ∈ t.methods) (hb : d.body = some b) (hr : r ∈ policy.restrictions)
    (htarget : r.target.isInheritance = false) (assembly : String) :
    (.method (d.reference (t.reference assembly)), r) ∈ t.pairs policy assembly := by
  have hbody := TypeDef.mem_bodies hd hb (t.reference assembly)
  simp only [TypeDef.pairs, List.mem_append, TypeDef.mem_product_iff, Policy.usageRestrictions,
    Policy.memberRestrictions, List.mem_filter]
  cases ht : r.target with
  | inNamespace ns nested => exact .inl (.inr ⟨.inr hbody, hr, rfl⟩)
  | type n => exact .inl (.inr ⟨.inr hbody, hr, rfl⟩)
  | member n => exact .inr ⟨hbody, hr, rfl⟩
  | inheritance n => rw [ht] at htarget; cases htarget

lemma AssemblyModel.mem_checks (ht : t ∈ a.types) (h : (m, r) ∈ t.pairs policy a.name) :
    ⟨m, r, r.verify policy s m⟩ ∈ a.checks policy s :=
  List.mem_map.mpr ⟨(m, r), List.mem_flatMap.mpr ⟨t, ht, h⟩, rfl⟩

lemma AssemblyModel.violation_mem_sweep {message : String}
    (h : ⟨m, r, .violation message⟩ ∈ a.checks policy s) :
    Violation.of r m a.name message ∈ (a.sweep policy s).violations :=
  List.mem_filterMap.mpr ⟨_, h, rfl⟩

/-! ### Uses in a body -/

/-- A restriction's target is used in a body: in the type of a local variable, or in a reference to a
member of the assembly or to one outside the host. -/
def Restriction.UsedIn (r : Restriction) (policy : Policy) (s : AssemblySet) (assembly : String)
    (b : MethodBody) : Prop :=
  (∃ l ∈ b.locals, r.target.isInLocal l.varType = true) ∨
    ∃ o ∈ b.operands, (o.assembly = assembly ∨ policy.isInterface o.assembly = false) ∧
      r.target.isIn s o = true

/-- What a walk looks for in a body is what the restriction is about. -/
lemma Restriction.usedIn_iff {n : MethodRef} :
    (Walk.startingAt (r.pattern s) policy s n).UsedIn b ↔
      r.UsedIn policy s n.declaringType.assembly b :=
  Iff.rfl

/-- A method of a snapshot that uses what is prohibited violates the restriction, and the check of
the assembly says so. -/
theorem violation_mem_sweepWith {text : String} (ha : AssemblyModel.ofSnapshot text = .ok a)
    (hdepth : 1 ≤ policy.limits.maxDepth) (hmethods : 1 ≤ policy.limits.maxMethods)
    (ht : t ∈ a.types) (hd : d ∈ t.methods) (hb : d.body = some b)
    (hr : r ∈ policy.restrictions) (htarget : r.target.isInheritance = false)
    (hmode : r.mode = .prohibited)
    (happlies : r.appliesTo (refs.insert a) (.method (d.reference (t.reference a.name))) = true)
    (huse : r.UsedIn policy (refs.insert a) a.name b) :
    ⟨.method (d.reference (t.reference a.name)), r, .violation r.message⟩ ∈
        a.checks policy (refs.insert a) ∧
      Violation.of r (.method (d.reference (t.reference a.name))) a.name r.message ∈
        (a.sweepWith policy refs).violations := by
  have hwf := (AssemblyModel.accept_eq_ok_iff.mp (AssemblyModel.accept_of_ofSnapshot ha)).2.2
  have hbody := AssemblySet.methodBody?_insert_of_declares refs hwf ⟨t, ht, d, hd, rfl, hb⟩
  have hit : (Walk.startingAt (r.pattern (refs.insert a)) policy (refs.insert a)
      (d.reference (t.reference a.name))).Hit (d.reference (t.reference a.name)) :=
    (Walk.hit_iff hbody).mpr (Restriction.usedIn_iff.mpr huse)
  have hverify : r.verify policy (refs.insert a) (.method (d.reference (t.reference a.name))) =
      .violation r.message := by
    rw [Restriction.verify_eq_judge happlies, Restriction.judge_eq_violation_iff hmode]
    exact presenceInCalls_eq_present_of_hit hdepth hmethods hit
  have hchecks := AssemblyModel.mem_checks (s := refs.insert a) ht
    (TypeDef.mem_pairs hd hb hr htarget a.name)
  rw [hverify] at hchecks
  exact ⟨hchecks, AssemblyModel.violation_mem_sweep hchecks⟩

/-! ### A local variable -/

namespace FileUse

/-- An assembly with one method, which has a local variable of type `File`. -/
def run : MethodDef := ⟨"Run", "", some ⟨[⟨0, ⟨"System", "", "File"⟩⟩], []⟩⟩

def plugin : TypeDef := ⟨"", "Plugin", none, [], [], [run]⟩

def loaded : AssemblyModel := ⟨none, "Mod", [plugin]⟩

/-- Its snapshot, each record as an array of its fields. -/
def snapshot : String :=
  "[null,\"Mod\",[[\"\",\"Plugin\",null,[],[],[[\"Run\",\"\",[[[0,[\"System\",\"\",\"File\"]]]]]]]]]"

def noFiles : Restriction := ⟨.type ⟨"", "File"⟩, "no files", none, .prohibited, .error⟩

def strict : Policy := { Policy.empty with restrictions := [noFiles], limits := ⟨1, 1⟩ }

/-- References that hold another assembly of the same name. -/
def references : AssemblySet := AssemblySet.empty.insert ⟨none, "Mod", []⟩

lemma ofSnapshot_snapshot : AssemblyModel.ofSnapshot snapshot = .ok loaded := by
  have hdecode : AssemblyModel.decode.ofText snapshot = .ok loaded := by cbv
  rw [AssemblyModel.ofSnapshot_eq_accept hdecode]
  rfl

/-- The local variable is reported with limits that allow one method. -/
theorem violation_mem_sweep_run :
    AssemblyModel.ofSnapshot snapshot = .ok loaded ∧
      Violation.of noFiles (.method (run.reference (plugin.reference "Mod"))) "Mod" "no files" ∈
        (loaded.sweepWith strict references).violations := by
  have huse : noFiles.UsedIn strict (references.insert loaded) loaded.name
      ⟨[⟨0, ⟨"System", "", "File"⟩⟩], []⟩ :=
    .inl ⟨_, List.mem_singleton_self _, rfl⟩
  have hlimit : 1 ≤ strict.limits.maxDepth ∧ 1 ≤ strict.limits.maxMethods := by decide
  have hr : noFiles ∈ strict.restrictions := List.mem_singleton_self noFiles
  have h := violation_mem_sweepWith ofSnapshot_snapshot hlimit.1 hlimit.2
    (List.mem_singleton_self plugin) (List.mem_singleton_self run) rfl hr rfl rfl rfl huse
  exact ⟨ofSnapshot_snapshot, h.2⟩

end FileUse

end AssemblyPolicy
