import AssemblyPolicy.Proofs.Metadata.Resolution

/-!
# What resolves after an insertion

The check of an assembly and the lookup of references agree on what counts as the same type and the
same method. Once a checked assembly is inserted, references into it resolve to exactly what it
declares, and all other references resolve as before (`resolvedIn_insert`).
-/

namespace AssemblyPolicy

variable {a : AssemblyModel} {t : TypeDef} {d : MethodDef} {s : AssemblySet} {r : TypeRef}
  {m : MethodRef}

/-! ### Declarations that are not found -/

lemma AssemblyModel.findType?_eq_none_iff (hr : r.assembly = a.name) :
    a.findType? r.ns r.name = none ↔ ∀ t ∈ a.types, t.reference a.name ≠ r := by
  obtain ⟨assembly, ns, name⟩ := r
  obtain rfl : assembly = a.name := hr
  rw [AssemblyModel.findType?, List.find?_eq_none]
  simp [TypeDef.reference]

lemma TypeDef.findMethod?_eq_none_iff {owner : TypeRef} (hm : m.declaringType = owner) :
    t.findMethod? m.name m.signature = none ↔ ∀ d ∈ t.methods, d.reference owner ≠ m := by
  obtain ⟨declaringType, name, signature⟩ := m
  obtain rfl : declaringType = owner := hm
  rw [TypeDef.findMethod?, List.find?_eq_none]
  simp [MethodDef.reference]

/-! ### References that do not resolve -/

namespace AssemblySet

lemma resolveType_eq_typeNotFound (ha : s.find? r.assembly = some a)
    (ht : a.findType? r.ns r.name = none) : s.resolveType r = .error (.typeNotFound r) := by
  simp only [resolveType, ha, ht]

lemma resolveMethod_eq_methodNotFound (ht : s.resolveType m.declaringType = .ok t)
    (hd : t.findMethod? m.name m.signature = none) :
    s.resolveMethod m = .error (.methodNotFound m) := by
  simp only [resolveMethod, ht, hd]

/-- Without its declaring type a method does not resolve either. -/
lemma resolveMethod_eq_error {e : ResolutionError} (h : s.resolveType m.declaringType = .error e) :
    s.resolveMethod m = .error e := by
  rw [resolveMethod, h]

lemma resolveType_insert_undeclared (s : AssemblySet) (hr : r.assembly = a.name)
    (h : ∀ t ∈ a.types, t.reference a.name ≠ r) :
    (s.insert a).resolveType r = .error (.typeNotFound r) := by
  have hfind : (s.insert a).find? r.assembly = some a := by rw [hr, find?_insert_self]
  exact resolveType_eq_typeNotFound hfind ((AssemblyModel.findType?_eq_none_iff hr).mpr h)

lemma resolveMethod_insert_undeclared (s : AssemblySet) (ha : a.WellFormed) (ht : t ∈ a.types)
    (hm : m.declaringType = t.reference a.name)
    (h : ∀ d ∈ t.methods, d.reference (t.reference a.name) ≠ m) :
    (s.insert a).resolveMethod m = .error (.methodNotFound m) := by
  have htype : (s.insert a).resolveType m.declaringType = .ok t := by
    rw [hm, resolveType_insert_reference s ha ht]
  exact resolveMethod_eq_methodNotFound htype ((TypeDef.findMethod?_eq_none_iff hm).mpr h)

end AssemblySet

/-- References into the assembly resolve in `s'` to what it declares and to nothing else, and those
into other assemblies as they do in `s`. -/
structure AssemblyModel.ResolvedIn (a : AssemblyModel) (s s' : AssemblySet) : Prop where
  types : ∀ t ∈ a.types, s'.resolveType (t.reference a.name) = .ok t
  methods : ∀ t ∈ a.types, ∀ d ∈ t.methods,
    s'.resolveMethod (d.reference (t.reference a.name)) = .ok d
  undeclaredTypes : ∀ r : TypeRef, r.assembly = a.name → (∀ t ∈ a.types, t.reference a.name ≠ r) →
    s'.resolveType r = .error (.typeNotFound r)
  undeclaredOwners : ∀ m : MethodRef, m.declaringType.assembly = a.name →
    (∀ t ∈ a.types, t.reference a.name ≠ m.declaringType) →
      s'.resolveMethod m = .error (.typeNotFound m.declaringType)
  undeclaredMethods : ∀ m : MethodRef, ∀ t ∈ a.types, m.declaringType = t.reference a.name →
    (∀ d ∈ t.methods, d.reference (t.reference a.name) ≠ m) →
      s'.resolveMethod m = .error (.methodNotFound m)
  otherTypes : ∀ r : TypeRef, r.assembly ≠ a.name → s'.resolveType r = s.resolveType r
  otherMethods : ∀ m : MethodRef, m.declaringType.assembly ≠ a.name →
    s'.resolveMethod m = s.resolveMethod m

/-- An assembly that passes its check resolves to what it declares wherever it is inserted, also in
place of another of its name. -/
theorem resolvedIn_insert (s : AssemblySet) (h : a.check = .ok ()) :
    a.ResolvedIn s (s.insert a) := by
  have ha : a.WellFormed := AssemblyModel.check_eq_ok_iff.mp h
  constructor
  case types =>
    intro t ht
    exact AssemblySet.resolveType_insert_reference s ha ht
  case methods =>
    intro t ht d hd
    exact AssemblySet.resolveMethod_insert_reference s ha ht hd
  case undeclaredTypes =>
    intro r hr hundeclared
    exact AssemblySet.resolveType_insert_undeclared s hr hundeclared
  case undeclaredOwners =>
    intro m hm hundeclared
    exact AssemblySet.resolveMethod_eq_error
      (AssemblySet.resolveType_insert_undeclared s hm hundeclared)
  case undeclaredMethods =>
    intro m t ht hm hundeclared
    exact AssemblySet.resolveMethod_insert_undeclared s ha ht hm hundeclared
  case otherTypes =>
    intro r hr
    exact AssemblySet.resolveType_insert_of_ne s hr.symm
  case otherMethods =>
    intro m hm
    exact AssemblySet.resolveMethod_insert_of_ne s hm.symm

/-! ### Names that look alike -/

namespace Lookalikes

/-- A type in a namespace, with two methods of one full name. -/
def short : TypeDef := ⟨"A", "B", none, [], [], [⟨"Go", "()", some ⟨[], []⟩⟩, ⟨"Go()", "", none⟩]⟩

/-- A type outside of all namespaces, with the full name of the other. -/
def long : TypeDef := ⟨"", "A.B", none, [], [], [⟨"Go", "()", none⟩]⟩

def assembly : AssemblyModel := ⟨none, "Mod", [short, long]⟩

/-- References that hold an assembly of the same name and one that declares the type as well. -/
def references : AssemblySet :=
  (AssemblySet.empty.insert ⟨none, "Mod", [⟨"", "Old", none, [], [], []⟩]⟩).insert
    ⟨none, "Lib", [short]⟩

/-- Each of them resolves to itself, and the type of the assembly that was replaced is gone. -/
theorem resolvedIn_assembly : assembly.check = .ok () ∧
    (references.insert assembly).resolveType ⟨"Mod", "A", "B"⟩ = .ok short ∧
    (references.insert assembly).resolveType ⟨"Mod", "", "A.B"⟩ = .ok long ∧
    (references.insert assembly).resolveMethod ⟨⟨"Mod", "A", "B"⟩, "Go()", ""⟩ =
      .ok ⟨"Go()", "", none⟩ ∧
    (references.insert assembly).resolveMethod ⟨⟨"Mod", "", "A.B"⟩, "Go()", ""⟩ =
      .error (.methodNotFound ⟨⟨"Mod", "", "A.B"⟩, "Go()", ""⟩) ∧
    (references.insert assembly).resolveType ⟨"Mod", "", "Old"⟩ =
      .error (.typeNotFound ⟨"Mod", "", "Old"⟩) ∧
    (references.insert assembly).resolveType ⟨"Lib", "A", "B"⟩ =
      references.resolveType ⟨"Lib", "A", "B"⟩ := by
  have hcheck : assembly.check = .ok () := by decide
  have hresolved := resolvedIn_insert references hcheck
  have hshort : short ∈ assembly.types := List.mem_cons_self
  have hlong : long ∈ assembly.types := List.mem_cons_of_mem _ List.mem_cons_self
  refine ⟨hcheck, ?_, ?_, ?_, ?_, ?_, ?_⟩
  · exact hresolved.types short hshort
  · exact hresolved.types long hlong
  · exact hresolved.methods short hshort _ (List.mem_cons_of_mem _ List.mem_cons_self)
  · exact hresolved.undeclaredMethods _ long hlong rfl (by decide)
  · exact hresolved.undeclaredTypes _ rfl (by decide)
  · exact hresolved.otherTypes _ (by decide)

end Lookalikes

end AssemblyPolicy
