import AssemblyPolicy.Metadata.Assembly

/-!
# Sets of assemblies

An `AssemblySet` holds assemblies by name and resolves references to their types and methods. The
assemblies are kept in order of their names, so that equal sets are equal as data.
-/

namespace AssemblyPolicy

/-- Of two different texts one is less. -/
theorem lt_of_not_lt_of_ne {a b : String} (h : ¬ a < b) (hne : a ≠ b) : b < a := by
  false_or_by_contra
  rename_i h'
  exact hne (String.le_antisymm (String.not_lt.1 h') (String.not_lt.1 h))

/-- Put an assembly at its place, replacing one of the same name. -/
def insertByName (a : AssemblyModel) : List AssemblyModel → List AssemblyModel
  | [] => [a]
  | b :: rest =>
    if a.name < b.name then a :: b :: rest
    else if a.name = b.name then a :: rest
    else b :: insertByName a rest

theorem mem_insertByName {a b : AssemblyModel} {l : List AssemblyModel}
    (h : b ∈ insertByName a l) : b = a ∨ b ∈ l := by
  induction l with
  | nil => simpa [insertByName] using h
  | cons c rest ih =>
    simp only [insertByName] at h
    split at h
    · simpa using h
    · split at h
      · rcases List.mem_cons.1 h with h | h
        · exact .inl h
        · exact .inr (List.mem_cons_of_mem _ h)
      · rcases List.mem_cons.1 h with h | h
        · exact .inr (by simp [h])
        · rcases ih h with h | h
          · exact .inl h
          · exact .inr (List.mem_cons_of_mem _ h)

theorem sorted_insertByName (a : AssemblyModel) {l : List AssemblyModel}
    (h : l.Pairwise (·.name < ·.name)) : (insertByName a l).Pairwise (·.name < ·.name) := by
  induction l with
  | nil => simp [insertByName]
  | cons b rest ih =>
    have hb := List.pairwise_cons.1 h
    simp only [insertByName]
    split
    · rename_i hab
      refine List.pairwise_cons.2 ⟨fun c hc => ?_, h⟩
      rcases List.mem_cons.1 hc with rfl | hc
      · exact hab
      · exact String.lt_trans hab (hb.1 c hc)
    · split
      · rename_i heq
        exact List.pairwise_cons.2 ⟨fun c hc => heq ▸ hb.1 c hc, hb.2⟩
      · rename_i hlt hne
        refine List.pairwise_cons.2 ⟨fun c hc => ?_, ih hb.2⟩
        rcases mem_insertByName hc with rfl | hc
        · exact lt_of_not_lt_of_ne hlt hne
        · exact hb.1 c hc

/-- Assemblies with different names, in order of their names. -/
structure AssemblySet where
  assemblies : List AssemblyModel
  sorted : assemblies.Pairwise (·.name < ·.name)

inductive ResolutionError where
  | assemblyNotFound (name : String)
  | typeNotFound (t : TypeRef)
  | methodNotFound (m : MethodRef)
  deriving DecidableEq

def ResolutionError.message : ResolutionError → String
  | assemblyNotFound name => s!"assembly '{name}' is not loaded"
  | typeNotFound t => s!"type '{t.text}' is not defined in its assembly"
  | methodNotFound m => s!"method '{m.fullName}' is not defined on its declaring type"

namespace AssemblySet

def empty : AssemblySet := ⟨[], .nil⟩

instance : Inhabited AssemblySet := ⟨empty⟩

/-- Add an assembly, in place of one with its name. -/
def insert (s : AssemblySet) (a : AssemblyModel) : AssemblySet :=
  ⟨insertByName a s.assemblies, sorted_insertByName a s.sorted⟩

def find? (s : AssemblySet) (name : String) : Option AssemblyModel :=
  s.assemblies.find? (·.name = name)

def names (s : AssemblySet) : List String := s.assemblies.map (·.name)

def resolveType (s : AssemblySet) (t : TypeRef) : Except ResolutionError TypeDef :=
  match s.find? t.assembly with
  | none => .error (.assemblyNotFound t.assembly)
  | some a =>
    match a.findType? t.ns t.name with
    | none => .error (.typeNotFound t)
    | some d => .ok d

def resolveMethod (s : AssemblySet) (m : MethodRef) : Except ResolutionError MethodDef :=
  match s.resolveType m.declaringType with
  | .error e => .error e
  | .ok d =>
    match d.findMethod? m.name m.signature with
    | none => .error (.methodNotFound m)
    | some d => .ok d

/-- References to all types that the assemblies declare. -/
def declaredTypes (s : AssemblySet) : List TypeRef :=
  s.assemblies.flatMap fun a => a.types.map (·.reference a.name)

/-- The body of the method that a reference means, if there is one. -/
def methodBody? (s : AssemblySet) (m : MethodRef) : Option MethodBody :=
  match s.resolveMethod m with
  | .ok d => d.body
  | .error _ => none

/-- The base type of the type that a reference means, if there is one. -/
def baseType? (s : AssemblySet) (t : TypeRef) : Option TypeRef :=
  match s.resolveType t with
  | .ok d => d.baseType
  | .error _ => none

end AssemblySet

end AssemblyPolicy
