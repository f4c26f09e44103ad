import AssemblyPolicy.Metadata.Decoder
import AssemblyPolicy.Metadata.Defect

/-!
# Snapshots

A snapshot is a JSON text that holds the metadata of one assembly. `AssemblyModel.ofSnapshot` reads
and checks it.
-/

namespace AssemblyPolicy

def snapshotSchema : String := "modguard.assembly.v1"

inductive SnapshotError where
  | undecodable (e : Json.LocatedError)
  | unsupportedSchema (schema : String)
  | defective (assembly : String) (d : Defect)
  deriving DecidableEq

namespace SnapshotError

def message (w : Json.Wording) : SnapshotError → String
  | undecodable e => "not an assembly snapshot: " ++ e.message w
  | unsupportedSchema schema =>
    s!"unsupported snapshot schema '{schema}' (expected {snapshotSchema})"
  | defective assembly d => s!"assembly '{assembly}': {d.message}"

/-- Was the text decoded, only to turn out inconsistent? -/
def isMalformed : SnapshotError → Bool
  | undecodable _ => false
  | unsupportedSchema _ => true
  | defective _ _ => true

/-- The name of the assembly, when it is known and not empty. -/
def assembly? : SnapshotError → Option String
  | defective assembly _ => if assembly.isEmpty then none else some assembly
  | _ => none

end SnapshotError

/-- Check the schema and content of decoded metadata. -/
def AssemblyModel.accept (a : AssemblyModel) : Except SnapshotError AssemblyModel :=
  match a.schema with
  | some schema =>
    if schema = snapshotSchema then (a.check.mapError (.defective a.name)).map fun _ => a
    else .error (.unsupportedSchema schema)
  | none => (a.check.mapError (.defective a.name)).map fun _ => a

def AssemblyModel.ofSnapshot (text : String) : Except SnapshotError AssemblyModel := do
  let a ← (AssemblyModel.decode.ofText text).mapError .undecodable
  a.accept

end AssemblyPolicy
