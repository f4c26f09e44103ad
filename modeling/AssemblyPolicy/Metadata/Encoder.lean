import AssemblyPolicy.Json.Basic
import AssemblyPolicy.Metadata.Assembly

/-!
# Metadata as JSON

Each record is an object with its fields in a fixed order. Absent optional fields are left out, all
others are written even when empty.
-/

namespace AssemblyPolicy

def TypeRef.members (t : TypeRef) : List (String × Option Json) :=
  [("assembly", t.assembly), ("namespace", t.ns), ("name", t.name)].map fun (k, v) =>
    (k, some (.string v))

def TypeRef.toJson (t : TypeRef) : Json := .record t.members

def MethodRef.members (m : MethodRef) : List (String × Option Json) :=
  [("declaring_type", some m.declaringType.toJson), ("name", some (.string m.name)),
    ("signature", some (.string m.signature))]

def MethodRef.toJson (m : MethodRef) : Json := .record m.members

/-- A reference to a member as JSON, its kind first. -/
def MemberRef.toJson : MemberRef → Json
  | .type t => .record (("kind", some (.string "type")) :: t.members)
  | .field f => .record
    [("kind", some (.string "field")), ("declaring_type", some f.declaringType.toJson),
      ("name", some (.string f.name)), ("field_type", some f.fieldType.toJson)]
  | .property p => .record
    [("kind", some (.string "property")), ("declaring_type", some p.declaringType.toJson),
      ("name", some (.string p.name)), ("property_type", some p.propertyType.toJson)]
  | .method m => .record (("kind", some (.string "method")) :: m.members)

def LocalVar.toJson (l : LocalVar) : Json :=
  .record [("index", some (.nat l.index)), ("var_type", some l.varType.toJson)]

def Instruction.toJson (i : Instruction) : Json :=
  .record [("offset", some (.nat i.offset)), ("opcode", some (.string i.opcode)),
    ("operand", i.operand.map MemberRef.toJson)]

def MethodBody.toJson (b : MethodBody) : Json :=
  .record [("locals", some (.array (b.locals.map LocalVar.toJson))),
    ("instructions", some (.array (b.instructions.map Instruction.toJson)))]

def MethodDef.toJson (m : MethodDef) : Json :=
  .record [("name", some (.string m.name)), ("signature", some (.string m.signature)),
    ("body", m.body.map MethodBody.toJson)]

def FieldDef.toJson (f : FieldDef) : Json :=
  .record [("name", some (.string f.name)), ("field_type", some f.fieldType.toJson)]

def PropertyDef.toJson (p : PropertyDef) : Json :=
  .record [("name", some (.string p.name)), ("property_type", some p.propertyType.toJson)]

def TypeDef.toJson (t : TypeDef) : Json :=
  .record [("namespace", some (.string t.ns)), ("name", some (.string t.name)),
    ("base_type", t.baseType.map TypeRef.toJson),
    ("fields", some (.array (t.fields.map FieldDef.toJson))),
    ("properties", some (.array (t.properties.map PropertyDef.toJson))),
    ("methods", some (.array (t.methods.map MethodDef.toJson)))]

def AssemblyModel.toJson (a : AssemblyModel) : Json :=
  .record [("schema", a.schema.map .string), ("name", some (.string a.name)),
    ("types", some (.array (a.types.map TypeDef.toJson)))]

end AssemblyPolicy
