import AssemblyPolicy.Text.Split

/-!
# Artifact paths

The path of a checked file as reports show it: with slashes, and without a leading `./`.
-/

namespace AssemblyPolicy

/-- The path of a checked file in a report. -/
structure ArtifactPath where
  text : String
  deriving DecidableEq

namespace ArtifactPath

/-- Slashes in place of backslashes. -/
def slashes (cs : List Char) : List Char := cs.map fun c => if c = '\\' then '/' else c

/-- What follows any number of `./` at the start. -/
def stripDots : List Char → List Char
  | '.' :: '/' :: rest => stripDots rest
  | cs => cs

def ofString (s : String) : ArtifactPath :=
  match stripDots (slashes s.toList) with
  | [] => ⟨"."⟩
  | cs => ⟨String.ofList cs⟩

def current : ArtifactPath := ofString "."

instance : Inhabited ArtifactPath := ⟨current⟩

/-- The last segment of the path. -/
def fileName (p : ArtifactPath) : String :=
  match splitLast? '/' p.text.toList with
  | some (_, last) => String.ofList last
  | none => p.text

end ArtifactPath

end AssemblyPolicy
