import AssemblyPolicy.Proofs.Metadata.Extension
import Mathlib.Data.List.Forall2
import Mathlib.Data.List.Perm.Basic

/-!
# The order of declarations

Lookups take the first declaration of a key. In a well-formed assembly keys are distinct, so
references resolve alike when its types, and the members inside its types, come in another order
(`AssemblyModel.Reorders.alike_insert`).
-/

namespace AssemblyPolicy

/-- A type whose members come in another order. -/
structure TypeDef.Reorders (t t' : TypeDef) : Prop where
  ns : t'.ns = t.ns
  name : t'.name = t.name
  baseType : t'.baseType = t.baseType
  fields : t.fields.Perm t'.fields
  properties : t.properties.Perm t'.properties
  methods : t.methods.Perm t'.methods

/-- An assembly whose types come in another order, and so do the members inside each of them. -/
structure AssemblyModel.Reorders (a a' : AssemblyModel) : Prop where
  schema : a'.schema = a.schema
  name : a'.name = a.name
  types : ∃ types, a.types.Perm types ∧ List.Forall₂ TypeDef.Reorders types a'.types

/-- Sets in which every reference means the same: the same types are declared, and they have the
same base types and the same method bodies. -/
structure AssemblySet.Alike (s s' : AssemblySet) : Prop where
  declaredTypes : ∀ r, r ∈ s'.declaredTypes ↔ r ∈ s.declaredTypes
  baseType? : ∀ r, s'.baseType? r = s.baseType? r
  methodBody? : ∀ m, s'.methodBody? m = s.methodBody? m

/-- Where keys are distinct, the order does not matter to a search for a key. -/
lemma find?_eq_of_perm {α β : Type} {l l' : List α} {key : α → β} {k : β} {p : α → Bool}
    (h : l.Perm l') (hnodup : (l.map key).Nodup) (hp : ∀ x, p x = true ↔ key x = k) :
    l'.find? p = l.find? p := by
  by_cases hk : ∃ x ∈ l, key x = k
  · obtain ⟨x, hx, rfl⟩ := hk
    have hnodup' : (l'.map key).Nodup := (h.map key).nodup_iff.mp hnodup
    rw [find?_eq_some_of_nodup_map hnodup hx hp,
      find?_eq_some_of_nodup_map hnodup' (h.mem_iff.mp hx) hp]
  · have hnone : ∀ x ∈ l, ¬ p x = true := by
      intro x hx hpx
      exact hk ⟨x, hx, (hp x).mp hpx⟩
    rw [List.find?_eq_none.mpr hnone, List.find?_eq_none]
    intro x hx
    exact hnone x (h.mem_iff.mpr hx)

/-! ### Declarations -/

namespace TypeDef.Reorders

variable {t t' : TypeDef} (h : t.Reorders t')

include h

lemma reference (assembly : String) : t'.reference assembly = t.reference assembly := by
  rw [TypeDef.reference, TypeDef.reference, h.ns, h.name]

lemma findMethod? (ht : (t.methods.map MethodDef.key).Nodup) (name signature : String) :
    t'.findMethod? name signature = t.findMethod? name signature :=
  find?_eq_of_perm h.methods ht (k := (name, signature)) (by simp [MethodDef.key])

end TypeDef.Reorders

namespace AssemblyModel.Reorders

variable {a a' : AssemblyModel} (h : a.Reorders a')

include h

/-- The type that is found is the same but for the order of its members. -/
lemma findType? (ha : (a.types.map TypeDef.key).Nodup) (ns name : String) :
    Option.Rel TypeDef.Reorders (a.findType? ns name) (a'.findType? ns name) := by
  obtain ⟨types, hperm, hforall⟩ := h.types
  have hfind : types.find? (fun t => t.ns = ns && t.name = name) = a.findType? ns name :=
    find?_eq_of_perm hperm ha (k := (ns, name)) (by simp [TypeDef.key])
  rw [← hfind, AssemblyModel.findType?]
  clear hfind hperm
  generalize a'.types = types' at hforall ⊢
  induction hforall with
  | nil => exact .none
  | cons ht _ ih =>
    rw [List.find?_cons, List.find?_cons, ht.ns, ht.name]
    split
    · exact .some ht
    · exact ih

end AssemblyModel.Reorders

/-! ### Sets -/

namespace AssemblySet

variable {s s' : AssemblySet} {r : TypeRef} {m : MethodRef} {name : TypeName}

/-- The declared types are those that resolve. -/
lemma mem_declaredTypes_iff_resolveType :
    r ∈ s.declaredTypes ↔ ∃ t, s.resolveType r = .ok t := by
  simp only [mem_declaredTypes_iff, resolveType_eq_ok_iff]
  constructor
  · rintro ⟨a, ha, t, ht, rfl⟩
    have hsome : (a.findType? t.ns t.name).isSome := by
      rw [AssemblyModel.findType?, List.find?_isSome]
      exact ⟨t, ht, by simp⟩
    obtain ⟨d, hd⟩ := Option.isSome_iff_exists.mp hsome
    exact ⟨d, a, find?_eq_some_of_mem ha, hd⟩
  · rintro ⟨t, a, ha, ht⟩
    obtain ⟨hmem, hname⟩ := mem_of_find?_eq_some ha
    have hkey : t.ns = r.ns ∧ t.name = r.name := by simpa using List.find?_some ht
    refine ⟨a, hmem, t, List.mem_of_find?_eq_some ht, ?_⟩
    rw [TypeDef.reference, hname, hkey.1, hkey.2]

/-- A type is a proper subtype in both sets or in neither. -/
lemma Alike.inherits (h : s.Alike s') (r : TypeRef) (name : TypeName) :
    s'.inherits r name = s.inherits r name := by
  rw [Bool.eq_iff_iff]
  constructor
  · apply inherits_of_subset
    · intro r base hr
      rw [← h.baseType?, hr]
    · intro r hr
      exact (h.declaredTypes r).mp hr
  · apply inherits_of_subset
    · intro r base hr
      rw [h.baseType?, hr]
    · intro r hr
      exact (h.declaredTypes r).mpr hr

end AssemblySet

namespace AssemblyModel.Reorders

variable {a a' : AssemblyModel} (h : a.Reorders a')

include h

/-- Among the same references, a type resolves as before, or to one whose members come in another
order. -/
lemma resolveType_insert (ha : (a.types.map TypeDef.key).Nodup) (refs : AssemblySet)
    (r : TypeRef) : (refs.insert a').resolveType r = (refs.insert a).resolveType r ∨
      ∃ t ∈ a.types, ∃ t', t.Reorders t' ∧ (refs.insert a).resolveType r = .ok t ∧
        (refs.insert a').resolveType r = .ok t' := by
  by_cases hr : a.name = r.assembly
  · have hfound := AssemblySet.find?_insert_self refs a
    have hfound' := AssemblySet.find?_insert_self refs a'
    rw [hr] at hfound
    rw [h.name, hr] at hfound'
    have htype := h.findType? ha r.ns r.name
    simp only [AssemblySet.resolveType, hfound, hfound']
    cases ht : a.findType? r.ns r.name with
    | none =>
      cases ht' : a'.findType? r.ns r.name with
      | none => exact .inl rfl
      | some t' => rw [ht, ht'] at htype; cases htype
    | some t =>
      cases ht' : a'.findType? r.ns r.name with
      | none => rw [ht, ht'] at htype; cases htype
      | some t' =>
        rw [ht, ht'] at htype
        cases htype with
        | some hreorders =>
          exact .inr ⟨t, List.mem_of_find?_eq_some ht, t', hreorders, rfl, rfl⟩
  · have hr' : a'.name ≠ r.assembly := by rwa [h.name]
    left
    rw [AssemblySet.resolveType_insert_of_ne refs hr, AssemblySet.resolveType_insert_of_ne refs hr']

/-- Among the same references, an assembly and one in another order cannot be told apart. -/
theorem alike_insert (ha : a.WellFormed) (refs : AssemblySet) :
    (refs.insert a).Alike (refs.insert a') := by
  constructor
  case declaredTypes =>
    intro r
    rw [AssemblySet.mem_declaredTypes_iff_resolveType, AssemblySet.mem_declaredTypes_iff_resolveType]
    rcases h.resolveType_insert ha.distinct refs r with heq | ⟨t, -, t', -, ht, ht'⟩
    · rw [heq]
    · exact iff_of_true ⟨t', ht'⟩ ⟨t, ht⟩
  case baseType? =>
    intro r
    rw [AssemblySet.baseType?, AssemblySet.baseType?]
    rcases h.resolveType_insert ha.distinct refs r with heq | ⟨t, -, t', hreorders, ht, ht'⟩
    · rw [heq]
    · rw [ht, ht']
      exact hreorders.baseType
  case methodBody? =>
    intro m
    rw [AssemblySet.methodBody?, AssemblySet.methodBody?, AssemblySet.resolveMethod,
      AssemblySet.resolveMethod]
    rcases h.resolveType_insert ha.distinct refs m.declaringType with
      heq | ⟨t, hmem, t', hreorders, ht, ht'⟩
    · rw [heq]
    · rw [ht, ht']
      simp only [hreorders.findMethod? (ha.types t hmem).overloads]

end AssemblyModel.Reorders

end AssemblyPolicy
