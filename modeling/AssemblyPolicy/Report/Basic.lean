import AssemblyPolicy.Json.Basic
import AssemblyPolicy.Report.Path
import AssemblyPolicy.Report.Severity

/-!
# Reports

A report lists findings, each with its severity and place, and sums up the run.
-/

namespace AssemblyPolicy

/-- Where a finding was made: a file, and a member when it is known. -/
structure Location where
  path : ArtifactPath
  member : Option String
  deriving DecidableEq, Inhabited

structure Finding where
  severity : Severity
  checkId : String
  code : String
  message : String
  location : Option Location
  help : Option String
  url : Option String
  /-- An identifier that stays the same from run to run. -/
  fingerprint : Option String
  /-- Details of the check; null if there are none. -/
  data : Json
  deriving Inhabited

/-- Whether a file was accepted. -/
structure AssemblyVerdict where
  path : ArtifactPath
  assembly : Option String
  accepted : Bool
  violations : Nat
  deriving DecidableEq, Inhabited

/-- The sums of a run. -/
structure Summary where
  profile : String
  assembliesScanned : Nat
  assembliesRejected : Nat
  typesScanned : Nat
  membersScanned : Nat
  restrictionsEvaluated : Nat
  findingsTotal : Nat
  assemblies : List AssemblyVerdict
  deriving DecidableEq, Inhabited

structure SeverityCounts where
  info : Nat
  warning : Nat
  error : Nat
  deriving DecidableEq, Inhabited

/-- What a run comes to. -/
structure Evaluation where
  verdict : Verdict
  findings : List Finding
  summary : Summary
  counts : SeverityCounts
  deriving Inhabited

end AssemblyPolicy
