import AssemblyPolicy.Metadata.Name

/-!
# Assemblies

The metadata of an assembly: its types with their fields, properties and methods, and of each
method body the local variables and those instructions' operands that refer to members.
-/

namespace AssemblyPolicy

structure LocalVar where
  index : Nat
  varType : TypeRef
  deriving DecidableEq, Inhabited

/-- An instruction. Only operands that refer to a member are kept. -/
structure Instruction where
  offset : Nat
  opcode : String
  operand : Option MemberRef
  deriving DecidableEq, Inhabited

structure MethodBody where
  locals : List LocalVar
  instructions : List Instruction
  deriving DecidableEq, Inhabited

/-- A declared method. Abstract and external methods have no body. -/
structure MethodDef where
  name : String
  signature : String
  body : Option MethodBody
  deriving DecidableEq, Inhabited

structure FieldDef where
  name : String
  fieldType : TypeRef
  deriving DecidableEq, Inhabited

structure PropertyDef where
  name : String
  propertyType : TypeRef
  deriving DecidableEq, Inhabited

/-- A declared type. A nested type has the path from its outermost type as its name, with slashes
between the segments. -/
structure TypeDef where
  ns : String
  name : String
  baseType : Option TypeRef
  fields : List FieldDef
  properties : List PropertyDef
  methods : List MethodDef
  deriving DecidableEq, Inhabited

structure AssemblyModel where
  schema : Option String
  name : String
  types : List TypeDef
  deriving DecidableEq, Inhabited

namespace MethodBody

/-- The members that the instructions refer to, in order. -/
def operands (b : MethodBody) : List MemberRef := b.instructions.filterMap (·.operand)

end MethodBody

namespace TypeDef

def typeName (t : TypeDef) : TypeName := ⟨t.ns, t.name⟩

/-- The reference to a type that `assembly` declares. -/
def reference (t : TypeDef) (assembly : String) : TypeRef := ⟨assembly, t.ns, t.name⟩

/-- The first method with a name and signature. -/
def findMethod? (t : TypeDef) (name signature : String) : Option MethodDef :=
  t.methods.find? fun m => m.name = name && m.signature = signature

end TypeDef

/-- The first type with a namespace and name. -/
def AssemblyModel.findType? (a : AssemblyModel) (ns name : String) : Option TypeDef :=
  a.types.find? fun t => t.ns = ns && t.name = name

end AssemblyPolicy
