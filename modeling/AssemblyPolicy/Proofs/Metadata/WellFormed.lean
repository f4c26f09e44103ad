import AssemblyPolicy.Metadata.Snapshot
import AssemblyPolicy.Proofs.Result
import Mathlib.Tactic.SplitIfs
import Mathlib.Tactic.Tauto

/-!
# Well-formed metadata

`WellFormed` says of each record what the check of an assembly asks of it: names that are not empty,
references with an owner, types and overloads that are declared once. `AssemblyModel.check` accepts
exactly the well-formed assemblies (`AssemblyModel.check_eq_ok_iff`).
-/

namespace AssemblyPolicy

/-! ### Results of checks -/

section

variable {ε α : Type}

lemma checkAll_eq_ok_iff {check : α → Except ε Unit} {l : List α} :
    checkAll check l = .ok () ↔ ∀ a ∈ l, check a = .ok () := by
  induction l with
  | nil => simp [checkAll]
  | cons a l ih => simp [checkAll, ih]

end

/-! ### References -/

/-- A reference to a type has an owner and a name. -/
structure TypeRef.WellFormed (t : TypeRef) : Prop where
  owned : allBlank t.assembly = false
  named : t.name ≠ ""

lemma TypeRef.check_eq_ok_iff {t : TypeRef} : t.check = .ok () ↔ t.WellFormed := by
  simp only [TypeRef.check]
  split_ifs with ho hn
  · simp only [false_iff]
    intro h
    simp [h.owned] at ho
  · simp only [false_iff]
    intro h
    exact h.named (String.isEmpty_iff.mp hn)
  · simp only [true_iff]
    exact ⟨Bool.eq_false_iff.mpr ho, fun h => hn (String.isEmpty_iff.mpr h)⟩

/-- The types that a reference to a member names: the declaring type, and that of the value. -/
def MemberRef.types : MemberRef → List TypeRef
  | .type t => [t]
  | .field f => [f.declaringType, f.fieldType]
  | .property p => [p.declaringType, p.propertyType]
  | .method m => [m.declaringType]

/-- A reference to a member has a name, and so have its types. -/
structure MemberRef.WellFormed (o : MemberRef) : Prop where
  named : o.name ≠ ""
  types : ∀ t ∈ o.types, t.WellFormed

lemma MemberRef.check_eq_ok_iff {o : MemberRef} : o.check = .ok () ↔ o.WellFormed := by
  have htypes : o.WellFormed ↔ o.name ≠ "" ∧ ∀ t ∈ o.types, t.WellFormed :=
    ⟨fun h => ⟨h.named, h.types⟩, fun h => ⟨h.1, h.2⟩⟩
  rw [htypes, MemberRef.check.eq_def]
  split_ifs with hn
  · simp [String.isEmpty_iff.mp hn]
  · have hne : o.name ≠ "" := fun h => hn (String.isEmpty_iff.mpr h)
    cases o <;> simp [hne, MemberRef.types, TypeRef.checkOperand, TypeRef.check_eq_ok_iff]

/-! ### Declarations -/

/-- The locals and operands of a method body are in order. -/
structure MethodBody.WellFormed (b : MethodBody) : Prop where
  locals : ∀ l ∈ b.locals, l.varType.WellFormed
  operands : ∀ o ∈ b.operands, o.WellFormed

lemma MethodBody.check_eq_ok_iff {method : String} {b : MethodBody} :
    b.check method = .ok () ↔ b.WellFormed := by
  have hinstr : ∀ i : Instruction,
      i.check method = .ok () ↔ ∀ o ∈ i.operand, o.WellFormed := by
    intro i
    cases ho : i.operand with
    | none => simp [Instruction.check, ho]
    | some o => simp [Instruction.check, ho, MemberRef.check_eq_ok_iff]
  simp only [MethodBody.check, check_bind_eq_ok_iff, checkAll_eq_ok_iff, hinstr, LocalVar.check,
    TypeRef.checkRole, mapError_eq_ok_iff, TypeRef.check_eq_ok_iff]
  constructor
  · rintro ⟨hl, hi⟩
    refine ⟨hl, fun o ho => ?_⟩
    obtain ⟨i, hmem, hio⟩ := List.mem_filterMap.mp ho
    exact hi i hmem o hio
  · intro h
    exact ⟨h.locals, fun i hi o ho => h.operands o (List.mem_filterMap.mpr ⟨i, hi, ho⟩)⟩

/-- The name and signature that tell the methods of a type apart. -/
def MethodDef.key (m : MethodDef) : String × String := (m.name, m.signature)

/-- A declared method has a name, and its body is in order. -/
structure MethodDef.WellFormed (m : MethodDef) : Prop where
  named : m.name ≠ ""
  body : ∀ b ∈ m.body, b.WellFormed

lemma MethodDef.checkBody_eq_ok_iff {m : MethodDef} :
    m.checkBody = .ok () ↔ ∀ b ∈ m.body, b.WellFormed := by
  cases hb : m.body with
  | none => simp [MethodDef.checkBody, hb]
  | some b => simp [MethodDef.checkBody, hb, MethodBody.check_eq_ok_iff]

lemma checkMethods_eq_ok_iff {seen : List (String × String)} {ms : List MethodDef} :
    checkMethods seen ms = .ok () ↔
      (∀ m ∈ ms, m.WellFormed) ∧ (ms.map MethodDef.key).Nodup ∧
        ∀ m ∈ ms, m.key ∉ seen := by
  induction ms generalizing seen with
  | nil => simp [checkMethods]
  | cons m ms ih =>
    simp only [checkMethods]
    split_ifs with hn hseen
    · simp only [false_iff]
      rintro ⟨h, -⟩
      exact (h m List.mem_cons_self).named (String.isEmpty_iff.mp hn)
    · simp only [false_iff]
      rintro ⟨-, -, h⟩
      exact h m List.mem_cons_self hseen
    · have hwf : m.WellFormed ↔ ∀ b ∈ m.body, b.WellFormed :=
        ⟨fun h => h.body, fun h => ⟨fun hm => hn (String.isEmpty_iff.mpr hm), h⟩⟩
      have hkey : (∀ m' ∈ ms, m'.key ∉ (m.name, m.signature) :: seen) ↔
          m.key ∉ ms.map MethodDef.key ∧ ∀ m' ∈ ms, m'.key ∉ seen := by
        simp only [List.mem_cons, not_or, List.mem_map, not_exists, not_and, forall_and,
          MethodDef.key]
      simp only [check_bind_eq_ok_iff, MethodDef.checkBody_eq_ok_iff, ih, hkey,
        List.forall_mem_cons, List.map_cons, List.nodup_cons, hwf]
      have : m.key ∉ seen := hseen
      tauto

/-- A declared type has a name without empty segments, its members are in order, and no overload is
declared twice. -/
structure TypeDef.WellFormed (t : TypeDef) : Prop where
  named : t.name ≠ ""
  segments : [] ∉ splitAll '/' t.name.toList
  base : ∀ b ∈ t.baseType, b.WellFormed
  fields : ∀ f ∈ t.fields, f.name ≠ "" ∧ f.fieldType.WellFormed
  properties : ∀ p ∈ t.properties, p.name ≠ "" ∧ p.propertyType.WellFormed
  methods : ∀ m ∈ t.methods, m.WellFormed
  overloads : (t.methods.map MethodDef.key).Nodup

/-- A check that a value has a name and a type in order. -/
lemma checkValue_eq_ok_iff {name role : String} {e : TypeDefect} {t : TypeRef} :
    (if name.isEmpty then .error e else t.checkRole role) = .ok () ↔
      name ≠ "" ∧ t.WellFormed := by
  split_ifs with hn
  · simp [String.isEmpty_iff.mp hn]
  · have hne : name ≠ "" := fun h => hn (String.isEmpty_iff.mpr h)
    simp [hne, TypeRef.checkRole, TypeRef.check_eq_ok_iff]

lemma TypeDef.check_eq_ok_iff {t : TypeDef} (hn : t.name ≠ "")
    (hs : [] ∉ splitAll '/' t.name.toList) : t.check = .ok () ↔ t.WellFormed := by
  have hmembers : (do
        checkAll FieldDef.check t.fields
        checkAll PropertyDef.check t.properties
        checkMethods [] t.methods) = .ok () ∧ (∀ b ∈ t.baseType, b.WellFormed) ↔
      t.WellFormed := by
    simp only [check_bind_eq_ok_iff, checkAll_eq_ok_iff, FieldDef.check, PropertyDef.check,
      checkValue_eq_ok_iff, checkMethods_eq_ok_iff]
    constructor
    · rintro ⟨⟨hf, hp, hm, ho, -⟩, hb⟩
      exact ⟨hn, hs, hb, hf, hp, hm, ho⟩
    · intro h
      exact ⟨⟨h.fields, h.properties, h.methods, h.overloads, by simp⟩, h.base⟩
  rw [← hmembers]
  cases hb : t.baseType with
  | none => simp [TypeDef.check, hb]
  | some b => simp [TypeDef.check, hb, TypeRef.checkRole, TypeRef.check_eq_ok_iff, and_comm]

/-! ### Assemblies -/

/-- The namespace and name that tell the types of an assembly apart. -/
def TypeDef.key (t : TypeDef) : String × String := (t.ns, t.name)

lemma checkTypes_eq_ok_iff {seen : List (String × String)} {ts : List TypeDef} :
    checkTypes seen ts = .ok () ↔
      (∀ t ∈ ts, t.WellFormed) ∧ (ts.map TypeDef.key).Nodup ∧ ∀ t ∈ ts, t.key ∉ seen := by
  induction ts generalizing seen with
  | nil => simp [checkTypes]
  | cons t ts ih =>
    simp only [checkTypes]
    split_ifs with hn hs hseen
    · simp only [false_iff]
      rintro ⟨h, -⟩
      exact (h t List.mem_cons_self).named (String.isEmpty_iff.mp hn)
    · simp only [false_iff]
      rintro ⟨h, -⟩
      exact (h t List.mem_cons_self).segments hs
    · simp only [false_iff]
      rintro ⟨-, -, h⟩
      exact h t List.mem_cons_self hseen
    · have hne : t.name ≠ "" := fun h => hn (String.isEmpty_iff.mpr h)
      have hkey : (∀ t' ∈ ts, t'.key ∉ (t.ns, t.name) :: seen) ↔
          t.key ∉ ts.map TypeDef.key ∧ ∀ t' ∈ ts, t'.key ∉ seen := by
        simp only [List.mem_cons, not_or, List.mem_map, not_exists, not_and, forall_and,
          TypeDef.key]
      simp only [check_bind_eq_ok_iff, mapError_eq_ok_iff, TypeDef.check_eq_ok_iff hne hs, ih, hkey,
        List.forall_mem_cons, List.map_cons, List.nodup_cons]
      have : t.key ∉ seen := hseen
      tauto

/-- An assembly has a name, its types are in order, and none is declared twice. -/
structure AssemblyModel.WellFormed (a : AssemblyModel) : Prop where
  named : allBlank a.name = false
  types : ∀ t ∈ a.types, t.WellFormed
  distinct : (a.types.map TypeDef.key).Nodup

namespace AssemblyModel

variable {a a' : AssemblyModel} {text : String}

/-- The check of an assembly accepts the well-formed ones, and no others. -/
theorem check_eq_ok_iff : a.check = .ok () ↔ a.WellFormed := by
  simp only [check]
  split_ifs with hn
  · simp only [false_iff]
    intro h
    simp [h.named] at hn
  · rw [checkTypes_eq_ok_iff]
    constructor
    · rintro ⟨ht, hd, -⟩
      exact ⟨Bool.eq_false_iff.mpr hn, ht, hd⟩
    · intro h
      exact ⟨h.types, h.distinct, by simp⟩

/-- Acceptance changes nothing, and asks for the schema of snapshots where one is named. -/
theorem accept_eq_ok_iff :
    a.accept = .ok a' ↔ a' = a ∧ (∀ s ∈ a.schema, s = snapshotSchema) ∧ a.WellFormed := by
  have hcheck : (a.check.mapError (SnapshotError.defective a.name)).map (fun _ => a) = .ok a' ↔
      a' = a ∧ a.WellFormed := by
    simp only [map_eq_ok_iff, mapError_eq_ok_iff]
    constructor
    · rintro ⟨_, h, rfl⟩
      exact ⟨rfl, check_eq_ok_iff.mp h⟩
    · rintro ⟨rfl, h⟩
      exact ⟨(), check_eq_ok_iff.mpr h, rfl⟩
  cases hs : a.schema with
  | none => simp [accept, hs, hcheck]
  | some s =>
    by_cases h : s = snapshotSchema
    · simp [accept, hs, h, hcheck]
    · simp [accept, hs, h]

/-- What was decoded is read if it is accepted. -/
lemma ofSnapshot_eq_accept (h : decode.ofText text = .ok a) : ofSnapshot text = a.accept := by
  simp only [ofSnapshot, h]
  rfl

lemma accept_of_ofSnapshot (h : ofSnapshot text = .ok a) : a.accept = .ok a := by
  obtain ⟨b, -, hb⟩ := bind_eq_ok_iff.mp h
  obtain rfl := (accept_eq_ok_iff.mp hb).1
  exact hb

end AssemblyModel

end AssemblyPolicy
