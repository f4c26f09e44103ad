import AssemblyPolicy.Check.Basic
import AssemblyPolicy.Proofs.Metadata.Reordering
import AssemblyPolicy.Proofs.Verification.Coverage
import Mathlib

/-!
# Checks of reordered assemblies

What is checked for an assembly depends on the order of its declarations only by the order of the
checks, and the result of a check does not depend on it at all. So a sweep reports the same in
another order (`AssemblyModel.Reorders.rearranges`).
-/

namespace AssemblyPolicy

/-! ### Checks in sets that are alike -/

namespace AssemblySet.Alike

variable {s s' : AssemblySet} (h : s.Alike s')

include h

lemma isIn (m : MemberRef) (target : Target) : target.isIn s' m = target.isIn s m := by
  cases target with
  | inheritance base =>
    cases m with
    | type t => exact h.inherits t base
    | _ => rfl
  | _ => rfl

lemma appliesTo (r : Restriction) (m : MemberRef) : r.appliesTo s' m = r.appliesTo s m := by
  simp only [Restriction.appliesTo, h.inherits]

lemma pattern (r : Restriction) : r.pattern s' = r.pattern s := by
  simp only [Restriction.pattern, h.isIn]

/-- Walks see the loaded assemblies by the bodies of methods only. -/
lemma presenceInCalls (p : Pattern) (policy : Policy) (m : MethodRef) :
    presenceInCalls p policy s' m = presenceInCalls p policy s m := by
  rw [presenceInCalls_eq_search, presenceInCalls_eq_search]
  apply Walk.search_eq_of_react_eq
  · intro o _
    rfl
  · intro st n depth
    simp only [Walk.enter, Walk.startingAt, h.methodBody?]
    rfl

lemma presence (r : Restriction) (policy : Policy) (m : MemberRef) :
    r.presence policy s' m = r.presence policy s m := by
  cases m with
  | method n => simp only [Restriction.presence, h.pattern, h.presenceInCalls]
  | _ => simp only [Restriction.presence, h.isIn]

lemma verify (r : Restriction) (policy : Policy) (m : MemberRef) :
    r.verify policy s' m = r.verify policy s m := by
  rw [Restriction.verify, Restriction.verify, h.appliesTo, h.presence]

end AssemblySet.Alike

/-! ### What is checked -/

namespace TypeDef

variable {t t' : TypeDef}

lemma Reorders.values (h : t.Reorders t') (owner : TypeRef) :
    (t.values owner).Perm (t'.values owner) :=
  (h.fields.map _).append (h.properties.map _)

lemma Reorders.bodies (h : t.Reorders t') (owner : TypeRef) :
    (t.bodies owner).Perm (t'.bodies owner) :=
  (h.methods.filter _).map _

lemma Reorders.pairs (h : t.Reorders t') (policy : Policy) (assembly : String) :
    (t.pairs policy assembly).Perm (t'.pairs policy assembly) := by
  have hmembers := (h.values (t.reference assembly)).append (h.bodies (t.reference assembly))
  simp only [TypeDef.pairs, h.reference]
  refine List.Perm.append (List.Perm.append ?_ ?_) ?_
  · exact .refl _
  · exact hmembers.flatMap_right _
  · exact (h.bodies _).flatMap_right _

end TypeDef

/-- What is gathered from each of some types, in whatever order of their members, is gathered from
them in another order. -/
lemma flatMap_perm_of_reorders {α : Type} {types types' : List TypeDef} {f : TypeDef → List α}
    (h : List.Forall₂ TypeDef.Reorders types types')
    (hf : ∀ t t', t.Reorders t' → (f t).Perm (f t')) :
    (types.flatMap f).Perm (types'.flatMap f) := by
  induction h with
  | nil => exact .refl _
  | cons ht _ ih => exact (hf _ _ ht).append ih

namespace AssemblyModel.Reorders

variable {a a' : AssemblyModel} (h : a.Reorders a')

include h

lemma flatMap {α : Type} {f : TypeDef → List α} (hf : ∀ t t', t.Reorders t' → (f t).Perm (f t')) :
    (a.types.flatMap f).Perm (a'.types.flatMap f) := by
  obtain ⟨types, hperm, hforall⟩ := h.types
  exact (hperm.flatMap_right f).trans (flatMap_perm_of_reorders hforall hf)

lemma length_types : a'.types.length = a.types.length := by
  obtain ⟨types, hperm, hforall⟩ := h.types
  rw [hperm.length_eq, hforall.length_eq]

lemma pairs (policy : Policy) : (a.pairs policy).Perm (a'.pairs policy) := by
  rw [AssemblyModel.pairs, AssemblyModel.pairs, h.name]
  apply h.flatMap
  intro t t' ht
  exact ht.pairs policy a.name

end AssemblyModel.Reorders

/-! ### What is found -/

/-- A sweep that reports the same in another order. -/
structure Sweep.Rearranges (x y : Sweep) : Prop where
  violations : x.violations.Perm y.violations
  inconclusive : x.inconclusive.Perm y.inconclusive
  typesScanned : y.typesScanned = x.typesScanned
  membersScanned : y.membersScanned = x.membersScanned
  restrictionsEvaluated : y.restrictionsEvaluated = x.restrictionsEvaluated

/-- The order of declarations in an assembly that passes its check does not matter to what is found
in it. -/
theorem AssemblyModel.Reorders.rearranges {a a' : AssemblyModel} (h : a.Reorders a')
    (ha : a.check = .ok ()) (policy : Policy) (refs : AssemblySet) :
    (a.sweepWith policy refs).Rearranges (a'.sweepWith policy refs) := by
  have halike := h.alike_insert (check_eq_ok_iff.mp ha) refs
  have hpairs := h.pairs policy
  constructor
  case violations =>
    simp only [sweepWith, violations_sweep, halike.verify, h.name]
    exact (hpairs.filter _).map _
  case inconclusive =>
    simp only [sweepWith, inconclusive_sweep, halike.verify, h.name]
    exact (hpairs.filter _).map _
  case typesScanned =>
    simp only [sweepWith, sweep, h.length_types]
  case membersScanned =>
    have hmembers : (a.types.flatMap fun t =>
        t.values (t.reference a.name) ++ t.bodies (t.reference a.name)).Perm
          (a'.types.flatMap fun t =>
            t.values (t.reference a.name) ++ t.bodies (t.reference a.name)) := by
      apply h.flatMap
      intro t t' ht
      rw [ht.reference]
      exact (ht.values _).append (ht.bodies _)
    simp only [sweepWith, sweep, h.name, hmembers.length_eq]
  case restrictionsEvaluated =>
    simp only [sweepWith, sweep, checks, List.length_map, hpairs.length_eq]

/-! ### A method that uses a file through its base type -/

namespace Reshuffle

def delete : MethodDef := ⟨"Delete", "()", some ⟨[⟨0, ⟨"mscorlib", "System.IO", "File"⟩⟩], []⟩⟩

/-- A subtype of a type of the host, with a method that has a local variable of type `File`. -/
def base : TypeDef := ⟨"Mod", "Base", some ⟨"Game", "Game", "Behaviour"⟩, [], [], [delete]⟩

/-- A method that calls the one of the base type. -/
def run : MethodDef :=
  ⟨"Run", "()",
    some ⟨[], [⟨0, "call", some (.method ⟨⟨"Mod", "Mod", "Base"⟩, "Delete", "()"⟩)⟩]⟩⟩

def stop : MethodDef := ⟨"Stop", "()", some ⟨[], []⟩⟩

def plugin (methods : List MethodDef) : TypeDef :=
  ⟨"Mod", "Plugin", some ⟨"Mod", "Mod", "Base"⟩, [], [], methods⟩

def assembly : AssemblyModel := ⟨none, "Mod", [base, plugin [run, stop]]⟩

/-- The same declarations, the last of them first. -/
def shuffled : AssemblyModel := ⟨none, "Mod", [plugin [stop, run], base]⟩

def noFiles : Restriction :=
  ⟨.type ⟨"System.IO", "File"⟩, "no files", some ⟨"Game", "Behaviour"⟩, .prohibited, .error⟩

def policy : Policy := { Policy.empty with restrictions := [noFiles] }

lemma reorders_shuffled : assembly.Reorders shuffled := by
  refine ⟨rfl, rfl, [plugin [run, stop], base], .swap _ _ _, .cons ?_ (.cons ?_ .nil)⟩
  · exact ⟨rfl, rfl, rfl, .refl _, .refl _, .swap _ _ _⟩
  · exact ⟨rfl, rfl, rfl, .refl _, .refl _, .refl _⟩

/-- The method `Run` of the type that inherits. -/
def runRef : MethodRef := run.reference ((plugin [run, stop]).reference "Mod")

lemma inherits_behaviour :
    (AssemblySet.empty.insert assembly).inherits runRef.declaringType ⟨"Game", "Behaviour"⟩ =
      true := by
  have hbase : (AssemblySet.empty.insert assembly).inheritsFrom ⟨"Game", "Behaviour"⟩ []
      ⟨"Mod", "Mod", "Base"⟩ = true :=
    AssemblySet.inheritsFrom_iff.mpr ⟨_, rfl, .inl rfl⟩
  exact AssemblySet.inheritsFrom_iff.mpr ⟨_, rfl, .inr ⟨rfl, by decide, hbase⟩⟩

lemma presence_eq_present :
    noFiles.presence policy (AssemblySet.empty.insert assembly) (.method runRef) = .present := by
  rw [Restriction.presence]
  exact Walk.search_eq_of_searchWithin (n := 1) rfl

lemma violation_mem_sweepWith_assembly :
    Violation.of noFiles (.method runRef) "Mod" "no files" ∈
      (assembly.sweepWith policy .empty).violations := by
  have happlies : noFiles.appliesTo (AssemblySet.empty.insert assembly) (.method runRef) = true :=
    inherits_behaviour
  have hverify : noFiles.verify policy (AssemblySet.empty.insert assembly) (.method runRef) =
      .violation "no files" := by
    rw [Restriction.verify_eq_judge happlies, presence_eq_present]
    rfl
  rw [AssemblyModel.sweepWith, AssemblyModel.violations_sweep]
  refine List.mem_map.mpr ⟨(.method runRef, noFiles), List.mem_filter.mpr ⟨by decide, ?_⟩, rfl⟩
  simp only [hverify, Result.isViolation]

/-- The call is reported in either order. -/
theorem rearranges_shuffled : assembly.check = .ok () ∧ assembly.Reorders shuffled ∧
    Violation.of noFiles (.method runRef) "Mod" "no files" ∈
      (shuffled.sweepWith policy .empty).violations := by
  have hcheck : assembly.check = .ok () := by decide
  have hrearranges := reorders_shuffled.rearranges hcheck policy .empty
  exact ⟨hcheck, reorders_shuffled,
    hrearranges.violations.mem_iff.mp violation_mem_sweepWith_assembly⟩

end Reshuffle

end AssemblyPolicy
