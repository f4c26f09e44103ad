import AssemblyPolicy.Proofs.Metadata.Resolution
import Mathlib.Data.List.Dedup

/-!
# Declaring methods

`MethodRef.Declarable` holds of the references under which accepted assemblies declare methods, and
any finite number of them can be declared together with any bodies
(`Declarations.methodBody?_eq_some`).
-/

namespace AssemblyPolicy

/-- A reference under which an accepted assembly can declare a method. -/
structure MethodRef.Declarable (m : MethodRef) : Prop where
  owned : allBlank m.declaringType.assembly = false
  typed : m.declaringType.name ≠ ""
  segments : [] ∉ splitAll '/' m.declaringType.name.toList
  named : m.name ≠ ""

variable {m : MethodRef} {x : MethodBody} {a : AssemblyModel} {s : AssemblySet}

lemma AssemblyModel.Declares.declarable (h : a.Declares m x) (ha : a.WellFormed) :
    m.Declarable := by
  obtain ⟨t, ht, d, hd, rfl, -⟩ := h
  have hwf := ha.types t ht
  exact ⟨ha.named, hwf.named, hwf.segments, (hwf.methods d hd).named⟩

lemma AssemblyModel.Declares.name_eq (h : a.Declares m x) :
    a.name = m.declaringType.assembly := by
  obtain ⟨t, ht, d, hd, rfl, -⟩ := h
  rfl

/-- A reference to a declared method is in order. -/
lemma MethodRef.Declarable.wellFormed (h : m.Declarable) : (MemberRef.method m).WellFormed where
  named := h.named
  types := by
    intro t ht
    obtain rfl : t = m.declaringType := by simpa [MemberRef.types] using ht
    exact ⟨h.owned, h.typed⟩

/-! ### Inserting several assemblies -/

namespace AssemblySet

variable {models : List AssemblyModel}

lemma methodBody?_foldl_insert_of_ne (h : ∀ c ∈ models, c.name ≠ m.declaringType.assembly) :
    (models.foldl insert s).methodBody? m = s.methodBody? m := by
  induction models generalizing s with
  | nil => rfl
  | cons c models ih =>
    obtain ⟨hc, h⟩ := List.forall_mem_cons.mp h
    rw [List.foldl_cons, ih h, methodBody?_insert_of_ne s hc]

/-- Of assemblies with different names, all that any of them declares is found. -/
lemma methodBody?_foldl_insert (hwf : ∀ c ∈ models, c.WellFormed)
    (hnames : (models.map AssemblyModel.name).Nodup) (ha : a ∈ models) (h : a.Declares m x) :
    (models.foldl insert s).methodBody? m = some x := by
  induction models generalizing s with
  | nil => cases ha
  | cons c models ih =>
    rw [List.map_cons, List.nodup_cons] at hnames
    obtain ⟨hc, hwf⟩ := List.forall_mem_cons.mp hwf
    rw [List.foldl_cons]
    rcases List.mem_cons.mp ha with rfl | ha
    · rw [methodBody?_foldl_insert_of_ne, methodBody?_insert_of_declares s hc h]
      intro c hcmem hname
      apply hnames.1
      rw [h.name_eq, ← hname]
      exact List.mem_map_of_mem hcmem
    · exact ih hwf hnames.2 ha

end AssemblySet

/-! ### Assemblies with given methods -/

/-- Methods with bodies that can be declared together. -/
structure Declarations (ms : List (MethodRef × MethodBody)) : Prop where
  declarable : ∀ p ∈ ms, p.1.Declarable
  bodies : ∀ p ∈ ms, p.2.WellFormed
  distinct : (ms.map Prod.fst).Nodup

variable (ms : List (MethodRef × MethodBody))

/-- A type with those of the methods that belong to it. -/
def typeOf (t : TypeRef) : TypeDef where
  ns := t.ns
  name := t.name
  baseType := none
  fields := []
  properties := []
  methods := (ms.filter (·.1.declaringType = t)).map fun p => ⟨p.1.name, p.1.signature, some p.2⟩

/-- An assembly with those of the methods that belong to it. -/
def assemblyOf (name : String) : AssemblyModel where
  schema := none
  name := name
  types := ((ms.map (·.1.declaringType)).dedup.filter (·.assembly = name)).map (typeOf ms)

/-- The assemblies that the methods belong to. -/
def assembliesOf : List AssemblyModel :=
  (ms.map (·.1.declaringType.assembly)).dedup.map (assemblyOf ms)

lemma mem_types_assemblyOf {name : String} {t : TypeDef} : t ∈ (assemblyOf ms name).types ↔
    ∃ p ∈ ms, p.1.declaringType.assembly = name ∧ t = typeOf ms p.1.declaringType := by
  simp only [assemblyOf, List.mem_map, List.mem_filter, List.mem_dedup, decide_eq_true_eq]
  constructor
  · rintro ⟨_, ⟨⟨p, hp, rfl⟩, hname⟩, rfl⟩
    exact ⟨p, hp, hname, rfl⟩
  · rintro ⟨p, hp, hname, rfl⟩
    exact ⟨_, ⟨⟨p, hp, rfl⟩, hname⟩, rfl⟩

lemma declares_assemblyOf_iff {name : String} : (assemblyOf ms name).Declares m x ↔
    (m, x) ∈ ms ∧ m.declaringType.assembly = name := by
  constructor
  · rintro ⟨_, ht, d, hd, rfl, hx⟩
    obtain ⟨p, -, rfl, rfl⟩ := (mem_types_assemblyOf ms).mp ht
    obtain ⟨⟨n, y⟩, hq, rfl⟩ := List.mem_map.mp hd
    obtain ⟨hn, htype⟩ := List.mem_filter.mp hq
    obtain rfl : y = x := Option.some.inj hx
    have htype : n.declaringType = p.1.declaringType := by simpa using htype
    refine ⟨?_, rfl⟩
    rw [MethodDef.reference, TypeDef.reference, typeOf, assemblyOf, ← htype]
    exact hn
  · rintro ⟨hm, rfl⟩
    refine ⟨typeOf ms m.declaringType, (mem_types_assemblyOf ms).mpr ⟨_, hm, rfl, rfl⟩,
      ⟨m.name, m.signature, some x⟩, ?_, rfl, rfl⟩
    exact List.mem_map.mpr ⟨(m, x), List.mem_filter.mpr ⟨hm, by simp⟩, rfl⟩

variable {ms}

namespace Declarations

lemma wellFormed_typeOf (h : Declarations ms) (hm : m ∈ ms.map Prod.fst) :
    (typeOf ms m.declaringType).WellFormed := by
  obtain ⟨p, hp, rfl⟩ := List.mem_map.mp hm
  have hdecl := h.declarable p hp
  refine ⟨hdecl.typed, hdecl.segments, by simp [typeOf], by simp [typeOf], by simp [typeOf], ?_, ?_⟩
  · intro d hd
    obtain ⟨q, hq, rfl⟩ := List.mem_map.mp hd
    have hq := (List.mem_filter.mp hq).1
    refine ⟨(h.declarable q hq).named, fun b hb => ?_⟩
    exact Option.some.inj hb ▸ h.bodies q hq
  · rw [typeOf, List.map_map]
    refine List.Nodup.map_on ?_ ((List.Nodup.of_map _ h.distinct).filter _)
    intro q hq q' hq' hkey
    simp only [List.mem_filter, decide_eq_true_eq] at hq hq'
    refine List.inj_on_of_nodup_map h.distinct hq.1 hq'.1 ?_
    obtain ⟨⟨t, n, sig⟩, y⟩ := q
    obtain ⟨⟨t', n', sig'⟩, y'⟩ := q'
    obtain rfl : t = t' := hq.2.trans hq'.2.symm
    simpa [MethodDef.key] using hkey

lemma wellFormed_assemblyOf (h : Declarations ms) (hm : m ∈ ms.map Prod.fst) :
    (assemblyOf ms m.declaringType.assembly).WellFormed := by
  obtain ⟨p, hp, rfl⟩ := List.mem_map.mp hm
  refine ⟨(h.declarable p hp).owned, ?_, ?_⟩
  · intro t ht
    obtain ⟨q, hq, -, rfl⟩ := (mem_types_assemblyOf ms).mp ht
    exact h.wellFormed_typeOf (List.mem_map_of_mem hq)
  · rw [assemblyOf, List.map_map]
    refine List.Nodup.map_on ?_ ((List.nodup_dedup _).filter _)
    intro t ht t' ht' hkey
    simp only [List.mem_filter, decide_eq_true_eq] at ht ht'
    obtain ⟨assembly, ns, name⟩ := t
    obtain ⟨assembly', ns', name'⟩ := t'
    obtain rfl : assembly = assembly' := ht.2.trans ht'.2.symm
    simpa [TypeDef.key, typeOf] using hkey

lemma wellFormed_of_mem (h : Declarations ms) (ha : a ∈ assembliesOf ms) : a.WellFormed := by
  obtain ⟨name, hname, rfl⟩ := List.mem_map.mp ha
  obtain ⟨p, hp, rfl⟩ := List.mem_map.mp (List.mem_dedup.mp hname)
  exact h.wellFormed_assemblyOf (List.mem_map_of_mem hp)

lemma accept_eq_ok (h : Declarations ms) (ha : a ∈ assembliesOf ms) : a.accept = .ok a := by
  have hwf := h.wellFormed_of_mem ha
  obtain ⟨name, -, rfl⟩ := List.mem_map.mp ha
  exact AssemblyModel.accept_eq_ok_iff.mpr ⟨rfl, by simp [assemblyOf], hwf⟩

/-- The assemblies that the methods belong to have these methods with their bodies. -/
theorem methodBody?_eq_some (h : Declarations ms) (hm : (m, x) ∈ ms) :
    ((assembliesOf ms).foldl AssemblySet.insert .empty).methodBody? m = some x := by
  have hnames : ((assembliesOf ms).map AssemblyModel.name).Nodup := by
    rw [assembliesOf, List.map_map]
    exact (List.map_id _).symm ▸ List.nodup_dedup _
  refine AssemblySet.methodBody?_foldl_insert (fun _ => h.wellFormed_of_mem) hnames ?_
    ((declares_assemblyOf_iff ms).mpr ⟨hm, rfl⟩)
  refine List.mem_map_of_mem (List.mem_dedup.mpr ?_)
  exact List.mem_map.mpr ⟨_, hm, rfl⟩

end Declarations

/-- The assemblies that the methods belong to refer to no other methods than these do. -/
lemma exists_of_mem_callees {n : MethodRef}
    (h : n ∈ ((assembliesOf ms).foldl AssemblySet.insert .empty).callees) :
    ∃ p ∈ ms, .method n ∈ p.2.operands := by
  obtain ⟨a, ha, m, x, hdecl, hn⟩ := AssemblySet.mem_callees_iff.mp h
  rcases AssemblySet.mem_assemblies_foldl_insert ha with ha | ha
  · obtain ⟨name, -, rfl⟩ := List.mem_map.mp ha
    exact ⟨(m, x), ((declares_assemblyOf_iff ms).mp hdecl).1, hn⟩
  · cases ha

end AssemblyPolicy
