import AssemblyPolicy.Metadata.Assembly
import AssemblyPolicy.Text.Blank

/-!
# Defects of metadata

`AssemblyModel.check` finds the first defect of an assembly, in reading order: names that are empty,
types or overloads that are declared twice, and references without an owner. `Defect.message` puts a
defect into words.
-/

namespace AssemblyPolicy

inductive ReferenceDefect where
  | unowned (fullName : String)
  | nameless
  deriving DecidableEq

inductive OperandDefect where
  | nameless
  | reference (role : String) (d : ReferenceDefect)
  deriving DecidableEq

inductive TypeDefect where
  | reference (role : String) (d : ReferenceDefect)
  | namelessField
  | namelessProperty
  | namelessMethod
  | duplicateOverload (method : String)
  | operand (method : String) (offset : Nat) (d : OperandDefect)
  deriving DecidableEq

inductive Defect where
  | blankName
  | namelessType (ns : String)
  | emptySegment (name : String)
  | duplicateType (fullName : String)
  | inType (fullName : String) (d : TypeDefect)
  deriving DecidableEq

/-! ### Words -/

/-- A defect of a reference that plays some role, in words. -/
def ReferenceDefect.message (role : String) : ReferenceDefect → String
  | unowned fullName => s!"{role} {fullName} has no owning assembly"
  | nameless => s!"{role} references a type with an empty name"

def OperandDefect.message : OperandDefect → String
  | nameless => "operand with empty member name"
  | reference role d => d.message role

/-- An offset in hexadecimal, with at least four digits. -/
def offsetLabel (offset : Nat) : String :=
  let digits := Nat.toDigits 16 offset
  "IL_" ++ String.ofList (List.replicate (4 - digits.length) '0' ++ digits)

def TypeDefect.message : TypeDefect → String
  | reference role d => d.message role
  | namelessField => "field with empty name"
  | namelessProperty => "property with empty name"
  | namelessMethod => "method with empty name"
  | duplicateOverload method => s!"duplicate method overload {method}"
  | operand method offset d => s!"{method} at {offsetLabel offset}: {d.message}"

def Defect.message : Defect → String
  | blankName => "assembly name is empty"
  | namelessType ns => s!"type with empty name in namespace '{ns}'"
  | emptySegment name => s!"type {name} has an empty nested name segment"
  | duplicateType fullName => s!"duplicate type definition {fullName}"
  | inType fullName d => s!"{fullName}: {d.message}"

/-! ### The check -/

/-- Run a check on all elements, up to the first defect. -/
def checkAll {α ε : Type} (check : α → Except ε Unit) : List α → Except ε Unit
  | [] => .ok ()
  | a :: rest => do
    check a
    checkAll check rest

/-- A reference has an owner and a name. -/
def TypeRef.check (t : TypeRef) : Except ReferenceDefect Unit :=
  if allBlank t.assembly then .error (.unowned t.fullName)
  else if t.name.isEmpty then .error .nameless
  else .ok ()

/-- Check a reference that plays some role in an operand. -/
def TypeRef.checkOperand (role : String) (t : TypeRef) : Except OperandDefect Unit :=
  t.check.mapError (.reference role)

def TypeRef.checkRole (role : String) (t : TypeRef) : Except TypeDefect Unit :=
  t.check.mapError (.reference role)

/-- An operand has a name, and its types are in order. -/
def MemberRef.check (m : MemberRef) : Except OperandDefect Unit :=
  if m.name.isEmpty then .error .nameless
  else match m with
    | .type t => t.checkOperand "operand"
    | .field f => do
      f.declaringType.checkOperand "operand declaring type"
      f.fieldType.checkOperand "operand field type"
    | .property p => do
      p.declaringType.checkOperand "operand declaring type"
      p.propertyType.checkOperand "operand property type"
    | .method m => m.declaringType.checkOperand "operand declaring type"

def LocalVar.check (method : String) (l : LocalVar) : Except TypeDefect Unit :=
  l.varType.checkRole s!"{method} local {l.index}"

def Instruction.check (method : String) (i : Instruction) : Except TypeDefect Unit :=
  match i.operand with
  | some m => m.check.mapError (.operand method i.offset)
  | none => .ok ()

def MethodBody.check (method : String) (b : MethodBody) : Except TypeDefect Unit := do
  checkAll (LocalVar.check method) b.locals
  checkAll (Instruction.check method) b.instructions

def FieldDef.check (f : FieldDef) : Except TypeDefect Unit :=
  if f.name.isEmpty then .error .namelessField
  else f.fieldType.checkRole s!"field {f.name}"

def PropertyDef.check (p : PropertyDef) : Except TypeDefect Unit :=
  if p.name.isEmpty then .error .namelessProperty
  else p.propertyType.checkRole s!"property {p.name}"

def MethodDef.label (m : MethodDef) : String := m.name ++ m.signature

def MethodDef.checkBody (m : MethodDef) : Except TypeDefect Unit :=
  match m.body with
  | some b => b.check m.label
  | none => .ok ()

/-- Check methods, given the names and signatures of those before them. -/
def checkMethods (seen : List (String × String)) : List MethodDef → Except TypeDefect Unit
  | [] => .ok ()
  | m :: rest =>
    if m.name.isEmpty then .error .namelessMethod
    else if (m.name, m.signature) ∈ seen then .error (.duplicateOverload m.label)
    else do
      m.checkBody
      checkMethods ((m.name, m.signature) :: seen) rest

def TypeDef.check (t : TypeDef) : Except TypeDefect Unit := do
  match t.baseType with
  | some base => base.checkRole "base type"
  | none => .ok ()
  checkAll FieldDef.check t.fields
  checkAll PropertyDef.check t.properties
  checkMethods [] t.methods

/-- Check types, given the namespaces and names of those before them. -/
def checkTypes (seen : List (String × String)) : List TypeDef → Except Defect Unit
  | [] => .ok ()
  | t :: rest =>
    if t.name.isEmpty then .error (.namelessType t.ns)
    else if [] ∈ splitAll '/' t.name.toList then .error (.emptySegment t.name)
    else if (t.ns, t.name) ∈ seen then .error (.duplicateType t.typeName.text)
    else do
      t.check.mapError (.inType t.typeName.text)
      checkTypes ((t.ns, t.name) :: seen) rest

def AssemblyModel.check (a : AssemblyModel) : Except Defect Unit :=
  if allBlank a.name then .error .blankName else checkTypes [] a.types

end AssemblyPolicy
