import AssemblyPolicy.Text.Split

/-!
# Names of types and members

A `TypeName` names a type in a policy, a `TypeRef` a type of a given assembly, and a `MemberRef` a
type, field, property or method. `MethodRef.fullName` is the identity under which a method counts
as visited.
-/

namespace AssemblyPolicy

/-- A namespace and a simple name. The global namespace is empty. -/
structure TypeName where
  ns : String
  name : String
  deriving DecidableEq, Inhabited

/-- A type that an assembly is said to define. -/
structure TypeRef where
  assembly : String
  ns : String
  name : String
  deriving DecidableEq, Inhabited

/-- `Namespace.Name`, or the name alone in the global namespace. -/
def dotted (ns name : String) : String := if ns.isEmpty then name else ns ++ "." ++ name

namespace TypeName

/-- Split a full name at its last dot. -/
def ofDotted (full : String) : TypeName :=
  match splitLast? '.' full.toList with
  | some (ns, name) => ⟨String.ofList ns, String.ofList name⟩
  | none => ⟨"", full⟩

/-- The full name. -/
def text (n : TypeName) : String := dotted n.ns n.name

/-- Does the reference have this namespace and name? The assembly does not matter. -/
def names (n : TypeName) (t : TypeRef) : Bool := n.ns = t.ns && n.name = t.name

end TypeName

namespace TypeRef

def typeName (t : TypeRef) : TypeName := ⟨t.ns, t.name⟩

/-- The full name, without the assembly. -/
def fullName (t : TypeRef) : String := t.typeName.text

/-- The full name after the assembly in brackets. -/
def text (t : TypeRef) : String := "[" ++ t.assembly ++ "]" ++ t.fullName

end TypeRef

/-- A member of a type, as a policy names it. -/
structure MemberName where
  declaringType : TypeName
  member : String
  deriving DecidableEq, Inhabited

def MemberName.text (m : MemberName) : String := m.declaringType.text ++ "::" ++ m.member

structure FieldRef where
  declaringType : TypeRef
  name : String
  fieldType : TypeRef
  deriving DecidableEq, Inhabited

structure PropertyRef where
  declaringType : TypeRef
  name : String
  propertyType : TypeRef
  deriving DecidableEq, Inhabited

/-- A method. The signature, a list of parameters in parentheses, tells overloads apart. -/
structure MethodRef where
  declaringType : TypeRef
  name : String
  signature : String
  deriving DecidableEq, Inhabited

/-- The identity of a method. -/
def MethodRef.fullName (m : MethodRef) : String :=
  "[" ++ m.declaringType.assembly ++ "]" ++ m.declaringType.fullName ++ "::" ++ m.name ++
    m.signature

/-- A type or one of its members. -/
inductive MemberRef where
  | type (t : TypeRef)
  | field (f : FieldRef)
  | property (p : PropertyRef)
  | method (m : MethodRef)
  deriving DecidableEq, Inhabited

namespace MemberRef

def name : MemberRef → String
  | type t => t.name
  | field f => f.name
  | property p => p.name
  | method m => m.name

/-- The type that declares the member; a type has none. -/
def declaringType? : MemberRef → Option TypeRef
  | type _ => none
  | field f => some f.declaringType
  | property p => some p.declaringType
  | method m => some m.declaringType

/-- The type itself, or the type that declares the member. -/
def subject : MemberRef → TypeRef
  | type t => t
  | field f => f.declaringType
  | property p => p.declaringType
  | method m => m.declaringType

def assembly (m : MemberRef) : String := m.subject.assembly

def qualifiedName : MemberRef → String
  | type t => t.fullName
  | field f => f.declaringType.fullName ++ "::" ++ f.name
  | property p => p.declaringType.fullName ++ "::" ++ p.name
  | method m => m.declaringType.fullName ++ "::" ++ m.name ++ m.signature

end MemberRef

end AssemblyPolicy
