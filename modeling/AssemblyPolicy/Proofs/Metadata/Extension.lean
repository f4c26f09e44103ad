import AssemblyPolicy.Metadata.Hierarchy
import AssemblyPolicy.Proofs.Metadata.Insertion

/-!
# Sets with more assemblies

A set extends another when it holds all of its assemblies unchanged, as it does after assemblies
with new names were inserted (`extends_foldl_insert`). What resolves keeps its meaning in such a
set, so chains of base types only grow at their ends (`Extends.inherits`).
-/

namespace AssemblyPolicy

namespace AssemblySet

variable {s s' : AssemblySet} {a : AssemblyModel} {models : List AssemblyModel} {t : TypeDef}
  {r base : TypeRef} {m : MethodRef} {b : MethodBody}

/-- Every assembly of `s` is in `s'` too. -/
def Extends (s' s : AssemblySet) : Prop :=
  ∀ name a, s.find? name = some a → s'.find? name = some a

/-! ### Insertion -/

lemma Extends.refl (s : AssemblySet) : s.Extends s := fun _ _ h => h

lemma Extends.insert (h : s'.Extends s) (ha : s.find? a.name = none) :
    (s'.insert a).Extends s := by
  intro name c hc
  have hne : a.name ≠ name := by
    rintro rfl
    rw [ha] at hc
    cases hc
  rw [find?_insert_of_ne s' hne]
  exact h name c hc

/-- The names have to be new in `s` only: of several new assemblies with one name the last stays. -/
lemma Extends.foldl_insert (h : s'.Extends s) (hnew : ∀ c ∈ models, s.find? c.name = none) :
    (models.foldl AssemblySet.insert s').Extends s := by
  induction models generalizing s' with
  | nil => exact h
  | cons c models ih =>
    obtain ⟨hc, hnew⟩ := List.forall_mem_cons.mp hnew
    exact ih (h.insert hc) hnew

lemma extends_foldl_insert (hnew : ∀ c ∈ models, s.find? c.name = none) :
    (models.foldl AssemblySet.insert s).Extends s :=
  (Extends.refl s).foldl_insert hnew

/-! ### Lookups -/

/-- A set finds each of its assemblies under its name. -/
lemma find?_eq_some_of_mem (h : a ∈ s.assemblies) : s.find? a.name = some a := by
  have hnodup : (s.assemblies.map AssemblyModel.name).Nodup := by
    refine List.Pairwise.map _ ?_ s.sorted
    intro c d hlt heq
    exact String.lt_irrefl _ (heq ▸ hlt)
  exact find?_eq_some_of_nodup_map hnodup h (by simp)

lemma baseType?_eq_some_iff : s.baseType? r = some base ↔
    ∃ t, s.resolveType r = .ok t ∧ t.baseType = some base := by
  cases ht : s.resolveType r with
  | error e => simp [baseType?, ht]
  | ok t => simp [baseType?, ht]

lemma mem_declaredTypes_iff : r ∈ s.declaredTypes ↔
    ∃ a ∈ s.assemblies, ∃ t ∈ a.types, t.reference a.name = r := by
  simp [declaredTypes]

namespace Extends

lemma mem_assemblies (h : s'.Extends s) (ha : a ∈ s.assemblies) : a ∈ s'.assemblies :=
  (mem_of_find?_eq_some (h _ _ (find?_eq_some_of_mem ha))).1

lemma declaredTypes_subset (h : s'.Extends s) : s.declaredTypes ⊆ s'.declaredTypes := by
  intro r hr
  obtain ⟨a, ha, t, ht, rfl⟩ := mem_declaredTypes_iff.mp hr
  exact mem_declaredTypes_iff.mpr ⟨a, h.mem_assemblies ha, t, ht, rfl⟩

lemma resolveType_eq_ok (h : s'.Extends s) (hr : s.resolveType r = .ok t) :
    s'.resolveType r = .ok t := by
  obtain ⟨a, ha, ht⟩ := resolveType_eq_ok_iff.mp hr
  exact resolveType_eq_ok_iff.mpr ⟨a, h _ _ ha, ht⟩

lemma baseType?_eq_some (h : s'.Extends s) (hr : s.baseType? r = some base) :
    s'.baseType? r = some base := by
  obtain ⟨t, ht, hbase⟩ := baseType?_eq_some_iff.mp hr
  exact baseType?_eq_some_iff.mpr ⟨t, h.resolveType_eq_ok ht, hbase⟩

lemma methodBody?_eq_some (h : s'.Extends s) (hm : s.methodBody? m = some b) :
    s'.methodBody? m = some b := by
  obtain ⟨a, t, d, ha, htype, hmethod, hbody⟩ := methodBody?_eq_some_iff.mp hm
  exact methodBody?_eq_some_iff.mpr ⟨a, t, d, h _ _ ha, htype, hmethod, hbody⟩

end Extends

/-! ### Chains of base types -/

variable {name : TypeName} {ahead ahead' : List TypeRef}

/-- The chain meets a name at the next type, or further on if the next type is still ahead. -/
lemma inheritsFrom_iff : s.inheritsFrom name ahead r = true ↔
    ∃ base, s.baseType? r = some base ∧ (name.names base = true ∨ base.isRoot = false ∧
      base ∈ ahead ∧ s.inheritsFrom name (base.without ahead) base = true) := by
  rw [inheritsFrom]
  cases hbase : s.baseType? r with
  | none => simp
  | some base =>
    dsimp only
    split_ifs <;> simp_all

/-- Where base types are kept, a chain through more types meets what the shorter one met. -/
lemma inheritsFrom_of_subset
    (hbase : ∀ r base, s.baseType? r = some base → s'.baseType? r = some base)
    (hsub : ahead ⊆ ahead') (hr : s.inheritsFrom name ahead r = true) :
    s'.inheritsFrom name ahead' r = true := by
  -- Both chains strike out the same type at each turn, so `ahead` stays within `ahead'`.
  induction hn : ahead.length using Nat.strongRecOn generalizing ahead ahead' r with
  | _ n ih =>
    obtain ⟨base, hr, hor⟩ := inheritsFrom_iff.mp hr
    refine inheritsFrom_iff.mpr ⟨base, hbase r base hr, hor.imp id ?_⟩
    rintro ⟨hroot, hmem, hr⟩
    refine ⟨hroot, hsub hmem, ?_⟩
    have hlt : (base.without ahead).length < n := hn ▸ TypeRef.length_without hmem
    exact ih _ hlt (List.filter_subset _ hsub) hr rfl

/-- A proper subtype stays one where base types are kept and types stay declared. -/
lemma inherits_of_subset
    (hbase : ∀ r base, s.baseType? r = some base → s'.baseType? r = some base)
    (hsub : s.declaredTypes ⊆ s'.declaredTypes) (hr : s.inherits r name = true) :
    s'.inherits r name = true :=
  inheritsFrom_of_subset hbase (List.filter_subset _ hsub) hr

/-- A subtype stays one in a set with more assemblies. -/
theorem Extends.inherits (h : s'.Extends s) (hr : s.inherits r name = true) :
    s'.inherits r name = true :=
  inherits_of_subset (fun _ _ => h.baseType?_eq_some) h.declaredTypes_subset hr

end AssemblySet

end AssemblyPolicy
