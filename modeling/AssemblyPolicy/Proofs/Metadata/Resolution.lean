import AssemblyPolicy.Metadata.AssemblySet
import AssemblyPolicy.Proofs.Metadata.WellFormed
import Mathlib.Data.List.Nodup

/-!
# Resolving references

What `AssemblySet.resolveMethod` finds, in terms of what assemblies declare
(`AssemblyModel.Declares`). In a well-formed assembly that was just inserted, every declared method is
found under its own reference (`methodBody?_insert_of_declares`).
-/

namespace AssemblyPolicy

/-- Where keys are distinct, looking for the key of a member finds that member. -/
lemma find?_eq_some_of_nodup_map {α β : Type} {f : α → β} {p : α → Bool} {l : List α} {a : α}
    (h : (l.map f).Nodup) (ha : a ∈ l) (hp : ∀ x, p x = true ↔ f x = f a) :
    l.find? p = some a := by
  induction l with
  | nil => cases ha
  | cons b l ih =>
    rw [List.map_cons, List.nodup_cons] at h
    rcases List.mem_cons.mp ha with rfl | ha
    · exact List.find?_cons_of_pos ((hp a).mpr rfl)
    · have hb : ¬ p b = true := by
        intro hpb
        exact h.1 ((hp b).mp hpb ▸ List.mem_map_of_mem ha)
      rw [List.find?_cons_of_neg hb]
      exact ih h.2 ha

/-! ### Declarations of an assembly -/

lemma AssemblyModel.findType?_eq_some {a : AssemblyModel} {t : TypeDef}
    (h : (a.types.map TypeDef.key).Nodup) (ht : t ∈ a.types) : a.findType? t.ns t.name = some t :=
  find?_eq_some_of_nodup_map h ht (by simp [TypeDef.key])

lemma TypeDef.findMethod?_eq_some {t : TypeDef} {m : MethodDef}
    (h : (t.methods.map MethodDef.key).Nodup) (hm : m ∈ t.methods) :
    t.findMethod? m.name m.signature = some m :=
  find?_eq_some_of_nodup_map h hm (by simp [MethodDef.key])

/-- The reference to a method that a type of an assembly declares. -/
def MethodDef.reference (m : MethodDef) (owner : TypeRef) : MethodRef :=
  ⟨owner, m.name, m.signature⟩

/-- The assembly declares a method with a body. -/
def AssemblyModel.Declares (a : AssemblyModel) (m : MethodRef) (b : MethodBody) : Prop :=
  ∃ t ∈ a.types, ∃ d ∈ t.methods, m = d.reference (t.reference a.name) ∧ d.body = some b

/-- The methods that a body refers to. -/
def MethodBody.callees (b : MethodBody) : List MethodRef :=
  b.operands.filterMap fun
    | .method n => some n
    | _ => none

lemma MethodBody.mem_callees_iff {b : MethodBody} {n : MethodRef} :
    n ∈ b.callees ↔ .method n ∈ b.operands := by
  rw [MethodBody.callees, List.mem_filterMap]
  constructor
  · rintro ⟨o, ho, h⟩
    cases o with
    | method n' => exact Option.some.inj h ▸ ho
    | _ => cases h
  · intro h
    exact ⟨_, h, rfl⟩

/-! ### Sets -/

lemma find?_insertByName (a : AssemblyModel) (name : String) (l : List AssemblyModel) :
    (insertByName a l).find? (·.name = name) =
      if a.name = name then some a else l.find? (·.name = name) := by
  induction l with
  | nil => by_cases ha : a.name = name <;> simp [insertByName, ha]
  | cons b l ih =>
    simp only [insertByName]
    by_cases ha : a.name = name
    · split_ifs with hlt hab
      · simp [ha]
      · simp [ha]
      · have hb : b.name ≠ name := fun hb => hab (ha.trans hb.symm)
        simpa [hb, ha] using ih
    · split_ifs with hlt hab
      · simp [ha]
      · simp [ha, ← hab]
      · by_cases hb : b.name = name
        · simp [hb]
        · simpa [hb, ha] using ih

namespace AssemblySet

variable {s : AssemblySet} {a : AssemblyModel} {t : TypeDef} {d : MethodDef} {r : TypeRef}
  {m : MethodRef} {b : MethodBody}

lemma find?_insert (s : AssemblySet) (a : AssemblyModel) (name : String) :
    (s.insert a).find? name = if a.name = name then some a else s.find? name :=
  find?_insertByName a name s.assemblies

lemma find?_insert_self (s : AssemblySet) (a : AssemblyModel) :
    (s.insert a).find? a.name = some a := by
  rw [find?_insert, if_pos rfl]

lemma find?_insert_of_ne (s : AssemblySet) {name : String} (h : a.name ≠ name) :
    (s.insert a).find? name = s.find? name := by
  rw [find?_insert, if_neg h]

lemma mem_of_find?_eq_some {name : String} (h : s.find? name = some a) :
    a ∈ s.assemblies ∧ a.name = name :=
  ⟨List.mem_of_find?_eq_some h, by simpa using List.find?_some h⟩

/-- A set built by insertion holds nothing but what was inserted. -/
lemma mem_assemblies_foldl_insert {models : List AssemblyModel}
    (h : a ∈ (models.foldl insert s).assemblies) : a ∈ models ∨ a ∈ s.assemblies := by
  induction models generalizing s with
  | nil => exact .inr h
  | cons c models ih =>
    rcases ih h with h | h
    · exact .inl (List.mem_cons_of_mem c h)
    · rcases mem_insertByName h with rfl | h
      · exact .inl List.mem_cons_self
      · exact .inr h

/-! ### Lookups -/

lemma resolveType_eq_ok_iff : s.resolveType r = .ok t ↔
    ∃ a, s.find? r.assembly = some a ∧ a.findType? r.ns r.name = some t := by
  cases ha : s.find? r.assembly with
  | none => simp [resolveType, ha]
  | some a =>
    cases ht : a.findType? r.ns r.name with
    | none => simp [resolveType, ha, ht]
    | some t => simp [resolveType, ha, ht]

lemma resolveMethod_eq_ok_iff : s.resolveMethod m = .ok d ↔
    ∃ t, s.resolveType m.declaringType = .ok t ∧ t.findMethod? m.name m.signature = some d := by
  cases ht : s.resolveType m.declaringType with
  | error e => simp [resolveMethod, ht]
  | ok t =>
    cases hd : t.findMethod? m.name m.signature with
    | none => simp [resolveMethod, ht, hd]
    | some d => simp [resolveMethod, ht, hd]

/-- A method has a body when all three lookups succeed, and the declaration found has one. -/
lemma methodBody?_eq_some_iff : s.methodBody? m = some b ↔
    ∃ a t d, s.find? m.declaringType.assembly = some a ∧
      a.findType? m.declaringType.ns m.declaringType.name = some t ∧
      t.findMethod? m.name m.signature = some d ∧ d.body = some b := by
  have hbody : s.methodBody? m = some b ↔ ∃ d, s.resolveMethod m = .ok d ∧ d.body = some b := by
    cases hd : s.resolveMethod m with
    | error e => simp [methodBody?, hd]
    | ok d => simp [methodBody?, hd]
  simp only [hbody, resolveMethod_eq_ok_iff, resolveType_eq_ok_iff]
  constructor
  · rintro ⟨d, ⟨t, ⟨a, ha, ht⟩, hd⟩, hb⟩
    exact ⟨a, t, d, ha, ht, hd, hb⟩
  · rintro ⟨a, t, d, ha, ht, hd, hb⟩
    exact ⟨d, ⟨t, ⟨a, ha, ht⟩, hd⟩, hb⟩

/-- A method with a body is declared by some assembly of the set. -/
lemma exists_declares (h : s.methodBody? m = some b) : ∃ a ∈ s.assemblies, a.Declares m b := by
  obtain ⟨a, t, d, ha, ht, hd, hb⟩ := methodBody?_eq_some_iff.mp h
  obtain ⟨hmem, hname⟩ := mem_of_find?_eq_some ha
  have htype : t.ns = m.declaringType.ns ∧ t.name = m.declaringType.name := by
    simpa using List.find?_some ht
  have hmethod : d.name = m.name ∧ d.signature = m.signature := by
    simpa using List.find?_some hd
  refine ⟨a, hmem, t, List.mem_of_find?_eq_some ht, d, List.mem_of_find?_eq_some hd, ?_, hb⟩
  simp [MethodDef.reference, TypeDef.reference, hname, htype, hmethod]

/-- Each type of an inserted assembly is found under its own reference. -/
lemma resolveType_insert_reference (s : AssemblySet) (ha : a.WellFormed) (ht : t ∈ a.types) :
    (s.insert a).resolveType (t.reference a.name) = .ok t := by
  have htype : a.findType? t.ns t.name = some t := AssemblyModel.findType?_eq_some ha.distinct ht
  exact resolveType_eq_ok_iff.mpr ⟨a, find?_insert_self s a, htype⟩

lemma resolveMethod_insert_reference (s : AssemblySet) (ha : a.WellFormed) (ht : t ∈ a.types)
    (hd : d ∈ t.methods) :
    (s.insert a).resolveMethod (d.reference (t.reference a.name)) = .ok d := by
  have hmethod : t.findMethod? d.name d.signature = some d :=
    TypeDef.findMethod?_eq_some (ha.types t ht).overloads hd
  exact resolveMethod_eq_ok_iff.mpr ⟨t, resolveType_insert_reference s ha ht, hmethod⟩

/-- What a well-formed assembly declares is found under its own reference once it is inserted. -/
lemma methodBody?_insert_of_declares (s : AssemblySet) (ha : a.WellFormed) (h : a.Declares m b) :
    (s.insert a).methodBody? m = some b := by
  obtain ⟨t, ht, d, hd, rfl, hb⟩ := h
  simp only [methodBody?, resolveMethod_insert_reference s ha ht hd, hb]

lemma resolveType_insert_of_ne (s : AssemblySet) (h : a.name ≠ r.assembly) :
    (s.insert a).resolveType r = s.resolveType r := by
  rw [resolveType, resolveType, find?_insert_of_ne s h]

lemma resolveMethod_insert_of_ne (s : AssemblySet) (h : a.name ≠ m.declaringType.assembly) :
    (s.insert a).resolveMethod m = s.resolveMethod m := by
  rw [resolveMethod, resolveMethod, resolveType_insert_of_ne s h]

/-- Methods of other assemblies are found as before. -/
lemma methodBody?_insert_of_ne (s : AssemblySet) (h : a.name ≠ m.declaringType.assembly) :
    (s.insert a).methodBody? m = s.methodBody? m := by
  rw [methodBody?, methodBody?, resolveMethod_insert_of_ne s h]

/-! ### Calls in a set -/

/-- The methods that the bodies of a set refer to. -/
def callees (s : AssemblySet) : List MethodRef :=
  s.assemblies.flatMap fun a => a.types.flatMap fun t => t.methods.flatMap fun d =>
    d.body.elim [] MethodBody.callees

lemma mem_callees_iff {n : MethodRef} : n ∈ s.callees ↔
    ∃ a ∈ s.assemblies, ∃ m b, a.Declares m b ∧ .method n ∈ b.operands := by
  have hbody : ∀ d : MethodDef, n ∈ d.body.elim [] MethodBody.callees ↔
      ∃ b, d.body = some b ∧ .method n ∈ b.operands := by
    intro d
    cases d.body with
    | none => simp
    | some b => simp [MethodBody.mem_callees_iff]
  simp only [callees, List.mem_flatMap, hbody]
  constructor
  · rintro ⟨a, ha, t, ht, d, hd, b, hb, hn⟩
    exact ⟨a, ha, _, b, ⟨t, ht, d, hd, rfl, hb⟩, hn⟩
  · rintro ⟨a, ha, m, b, ⟨t, ht, d, hd, -, hb⟩, hn⟩
    exact ⟨a, ha, t, ht, d, hd, b, hb, hn⟩

lemma mem_callees {n : MethodRef} (hb : s.methodBody? m = some b) (hn : .method n ∈ b.operands) :
    n ∈ s.callees := by
  obtain ⟨a, ha, hdecl⟩ := exists_declares hb
  exact mem_callees_iff.mpr ⟨a, ha, m, b, hdecl, hn⟩

end AssemblySet

end AssemblyPolicy
