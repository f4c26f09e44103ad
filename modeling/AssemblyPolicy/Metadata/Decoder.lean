import AssemblyPolicy.Json.Decoder
import AssemblyPolicy.Metadata.Assembly

/-!
# Metadata from JSON

The inverse of the encoder, and more lenient than it: keys come in any order, unknown ones are
passed over, fields with a default may be left out, and a record may be an array of its fields.
-/

namespace AssemblyPolicy

open Json

namespace TypeRef

def fields : Fields TypeRef :=
  ((Fields.required "assembly" Decoder.string).and <|
    (Fields.withDefault "namespace" "" Decoder.string).and <|
    Fields.required "name" Decoder.string).map
    fun (assembly, ns, name) => ⟨assembly, ns, name⟩

def decode : Decoder TypeRef := Decoder.record "TypeRef" fields

end TypeRef

def FieldRef.decode : Decoder FieldRef := Decoder.record "FieldRef" <|
  ((Fields.required "declaring_type" TypeRef.decode).and <|
    (Fields.required "name" Decoder.string).and <|
    Fields.required "field_type" TypeRef.decode).map
    fun (declaringType, name, fieldType) => ⟨declaringType, name, fieldType⟩

def PropertyRef.decode : Decoder PropertyRef := Decoder.record "PropertyRef" <|
  ((Fields.required "declaring_type" TypeRef.decode).and <|
    (Fields.required "name" Decoder.string).and <|
    Fields.required "property_type" TypeRef.decode).map
    fun (declaringType, name, propertyType) => ⟨declaringType, name, propertyType⟩

def MethodRef.decode : Decoder MethodRef := Decoder.record "MethodRef" <|
  ((Fields.required "declaring_type" TypeRef.decode).and <|
    (Fields.required "name" Decoder.string).and <|
    Fields.withDefault "signature" "" Decoder.string).map
    fun (declaringType, name, signature) => ⟨declaringType, name, signature⟩

namespace MemberRef

inductive Kind where
  | type
  | field
  | property
  | method
  deriving DecidableEq

def Kind.byName : List (String × Kind) :=
  [("type", .type), ("field", .field), ("property", .property), ("method", .method)]

def Kind.decode : Decoder Kind
  | o, .string s span => (Decoder.variant byName s).mapError (o.failAt span)
  | o, s => .error (o.mismatch "variant identifier" s)

/-- Decode the rest of a member whose kind is known. -/
def decodeAs (kind : Kind) : Decoder MemberRef
  | o, s =>
    match kind with
    | .type => (TypeRef.decode o s).map .type
    | .field => (FieldRef.decode o s).map .field
    | .property => (PropertyRef.decode o s).map .property
    | .method => (MethodRef.decode o s).map .method

/-- Go through the members of an object, which are followed by `rest`: decode the kind, and check that
all else has a value. -/
def findKind (o : Origin) (stop : Option Break) (rest : List Char) (found : Option Kind) :
    List (Member Source) → Except Failure Kind
  | [] => do
    orFault (atEnd stop ())
    match found with
    | some kind => .ok kind
    | none => .error (o.fail (objectEnd rest) (.missingField "kind"))
  | m :: ms =>
    match m.key, found with
    | .error f, _ => .error (.ofFault f)
    | .ok "kind", some _ => .error (o.fail (objectEnd m.afterKey) (.duplicateField "kind"))
    | .ok "kind", none => do findKind o stop rest (some (← Kind.decode o m.value)) ms
    | .ok _, _ => do
      let _ ← Decoder.any o m.value
      findKind o stop rest found ms

/-- Decode a member. Its kind may come anywhere in an object, and comes first in an array; the rest
is set aside until all of it is read. -/
def decode : Decoder MemberRef
  | o, .object ms stop span => do
    let kind ← findKind (← o.enter span) stop (afterMembers span ms) none ms
    decodeAs kind .buffer (.object (ms.filter (!·.hasKey "kind")) none span)
  | o, .array is stop span => do
    let o ← o.enter span
    match is with
    | [] => do
      orFault (atEnd stop ())
      .error (o.fail (arrayEnd (afterItems span [])) (.missingField "kind"))
    | k :: rest => do
      let kind ← Kind.decode o k
      let _ ← Decoder.items Decoder.any o rest
      orFault (atEnd stop ())
      decodeAs kind .buffer (.array rest none span)
  | o, s => .error (o.mismatch "internally tagged enum MemberRef" s)

end MemberRef

def LocalVar.decode : Decoder LocalVar := Decoder.record "LocalVar" <|
  ((Fields.withDefault "index" 0 Decoder.u32).and <|
    Fields.required "var_type" TypeRef.decode).map
    fun (index, varType) => ⟨index, varType⟩

def Instruction.decode : Decoder Instruction := Decoder.record "Instruction" <|
  ((Fields.withDefault "offset" 0 Decoder.u32).and <|
    (Fields.required "opcode" Decoder.string).and <|
    Fields.optional "operand" MemberRef.decode).map
    fun (offset, opcode, operand) => ⟨offset, opcode, operand⟩

def MethodBody.decode : Decoder MethodBody := Decoder.record "MethodBody" <|
  ((Fields.withDefault "locals" [] LocalVar.decode.list).and <|
    Fields.withDefault "instructions" [] Instruction.decode.list).map
    fun (locals, instructions) => ⟨locals, instructions⟩

def MethodDef.decode : Decoder MethodDef := Decoder.record "MethodDef" <|
  ((Fields.required "name" Decoder.string).and <|
    (Fields.withDefault "signature" "" Decoder.string).and <|
    Fields.optional "body" MethodBody.decode).map
    fun (name, signature, body) => ⟨name, signature, body⟩

def FieldDef.decode : Decoder FieldDef := Decoder.record "FieldDef" <|
  ((Fields.required "name" Decoder.string).and <|
    Fields.required "field_type" TypeRef.decode).map
    fun (name, fieldType) => ⟨name, fieldType⟩

def PropertyDef.decode : Decoder PropertyDef := Decoder.record "PropertyDef" <|
  ((Fields.required "name" Decoder.string).and <|
    Fields.required "property_type" TypeRef.decode).map
    fun (name, propertyType) => ⟨name, propertyType⟩

def TypeDef.decode : Decoder TypeDef := Decoder.record "TypeDef" <|
  ((Fields.withDefault "namespace" "" Decoder.string).and <|
    (Fields.required "name" Decoder.string).and <|
    (Fields.optional "base_type" TypeRef.decode).and <|
    (Fields.withDefault "fields" [] FieldDef.decode.list).and <|
    (Fields.withDefault "properties" [] PropertyDef.decode.list).and <|
    Fields.withDefault "methods" [] MethodDef.decode.list).map
    fun (ns, name, baseType, fields, properties, methods) =>
      ⟨ns, name, baseType, fields, properties, methods⟩

def AssemblyModel.decode : Decoder AssemblyModel := Decoder.record "AssemblyModel" <|
  ((Fields.optional "schema" Decoder.string).and <|
    (Fields.required "name" Decoder.string).and <|
    Fields.withDefault "types" [] TypeDef.decode.list).map
    fun (schema, name, types) => ⟨schema, name, types⟩

end AssemblyPolicy
