import AssemblyPolicy.Report.Basic
import AssemblyPolicy.Report.Sha256
import AssemblyPolicy.Text.Order
import AssemblyPolicy.Verification.Sweep

/-!
# From checks to findings

`evaluate` turns the outcomes for some files into findings, sorted with the most severe first, and
into a verdict. A file is accepted when none of its findings is blocking.
-/

namespace AssemblyPolicy

/-- What came of one file. -/
inductive FileResult where
  | verified (assembly : String) (sweep : Sweep)
  /-- The metadata was read but is inconsistent. -/
  | malformed (assembly : Option String) (error : String)
  /-- The file holds no metadata. -/
  | unreadable (error : String)

structure FileOutcome where
  path : ArtifactPath
  result : FileResult

/-! ### Findings -/

/-- The identity of a finding: a hash of what makes it the same from run to run. -/
def fingerprint (checkId code assembly : String) (member target : Option String) : String :=
  Sha256.hexDigest ("|".intercalate [checkId, code, assembly, member.getD "", target.getD ""])

namespace Violation

def code (v : Violation) : String :=
  match v.mode with
  | .prohibited => "prohibited_present"
  | .required => "required_absent"

def help (v : Violation) : String :=
  match v.mode with
  | .prohibited => "Remove every use of " ++ v.target ++ " reachable from this member."
  | .required => "This member must use " ++ v.target ++ "."

def finding (path : ArtifactPath) (v : Violation) : Finding where
  severity := v.severity
  checkId := v.checkId
  code := v.code
  message := v.text
  location := some ⟨path, some v.member⟩
  help := some v.help
  url := none
  fingerprint := some (fingerprint v.checkId v.code v.assembly v.member v.target)
  data := .ofMembers
    [("assembly", v.assembly), ("member", v.member), ("restriction", v.restriction),
      ("target", v.target), ("mode", v.mode.name), ("restriction_message", v.restrictionMessage)]

end Violation

/-- The check that searches through called methods. -/
def callGraphCheck : String := "analysis.call_graph"

/-- The code of a search that hit a limit. -/
def limitCode : String := "walk_limit_exceeded"

/-- The finding of an undecided check in a file. -/
def Inconclusive.finding (path : ArtifactPath) (limits : WalkLimits) (i : Inconclusive) :
    Finding where
  severity := .error
  checkId := callGraphCheck
  code := limitCode
  message :=
    "call graph of " ++ i.member ++ " exceeded the walk limits while checking " ++ i.target
  location := some ⟨path, some i.member⟩
  help := some ("Simplify the call chain, trust the assemblies it passes through, or raise " ++
    "limits.max_depth / limits.max_methods.")
  url := none
  fingerprint := some (fingerprint callGraphCheck limitCode i.assembly i.member i.target)
  data := .ofMembers
    [("assembly", i.assembly), ("member", i.member), ("restriction_check", i.checkId),
      ("target", i.target), ("max_depth", .nat limits.maxDepth),
      ("max_methods", .nat limits.maxMethods)]

/-- The check that reads metadata. -/
def metadataCheck : String := "assembly.metadata"

/-- The finding of a file whose metadata cannot be used. -/
def metadataFinding (path : ArtifactPath) (assembly : Option String) (code help error : String) :
    Finding where
  severity := .error
  checkId := metadataCheck
  code := code
  message := path.text ++ ": " ++ error
  location := some ⟨path, none⟩
  help := some help
  url := none
  fingerprint := some (fingerprint metadataCheck code (assembly.getD path.text) none none)
  data := .ofMembers [("assembly", assembly.elim .null .string), ("error", error)]

namespace FileOutcome

def findings (limits : WalkLimits) (o : FileOutcome) : List Finding :=
  match o.result with
  | .verified _ sweep =>
    sweep.violations.map (·.finding o.path) ++ sweep.inconclusive.map (·.finding o.path limits)
  | .malformed assembly error =>
    [metadataFinding o.path assembly "malformed_metadata"
      "The metadata snapshot is inconsistent; regenerate it with a current reader." error]
  | .unreadable error =>
    [metadataFinding o.path none "unreadable_assembly"
      "Regenerate the metadata snapshot for this assembly." error]

/-- The name of the assembly in the file, when it is known. -/
def assembly? (o : FileOutcome) : Option String :=
  match o.result with
  | .verified assembly _ => some assembly
  | .malformed assembly _ => assembly
  | .unreadable _ => none

/-- What was counted in the file, if it was checked. -/
def count (f : Sweep → Nat) (o : FileOutcome) : Nat :=
  match o.result with
  | .verified _ sweep => f sweep
  | _ => 0

def verdict (policy : Policy) (o : FileOutcome) : AssemblyVerdict where
  path := o.path
  assembly := o.assembly?
  accepted := !(o.findings policy.limits).any (·.severity.isBlocking policy.failOn)
  violations := counter (o.findings policy.limits).length

end FileOutcome

/-! ### Order -/

namespace Finding

/-- The path in the place of a finding; findings without a place come after most paths. -/
def pathKey (f : Finding) : String := (f.location.map (·.path.text)).getD "~"

/-- The member in the place of a finding, or the empty text. -/
def memberKey (f : Finding) : String := (f.location.bind (·.member)).getD ""

/-- The order of findings: by severity, then by place, check, code and message. -/
def compare (a b : Finding) : Ordering :=
  (Ord.compare a.severity.rank b.severity.rank).then <|
    (compareText a.pathKey b.pathKey).then <|
    (compareText a.memberKey b.memberKey).then <|
    (compareText a.checkId b.checkId).then <|
    (compareText a.code b.code).then <|
    compareText a.message b.message

/-- Does one finding come no later than another? -/
def precedes (a b : Finding) : Bool := (compare a b).isLE

end Finding

/-! ### The whole -/

def countSeverity (findings : List Finding) (s : Severity) : Nat :=
  counter (findings.countP (·.severity = s))

def SeverityCounts.of (findings : List Finding) : SeverityCounts :=
  ⟨countSeverity findings .info, countSeverity findings .warning, countSeverity findings .error⟩

def verdictOf (failOn : FailOn) (findings : List Finding) : Verdict :=
  if findings.any (·.severity = .error) then .fail
  else if findings.any (·.severity = .warning) then
    match failOn with
    | .warning => .fail
    | .error => .warn
  else .pass

/-- What some outcomes count together. -/
def total (outcomes : List FileOutcome) (of : Sweep → Nat) : Nat :=
  counter (outcomes.foldr (fun o n => o.count of + n) 0)

/-- Evaluate the outcomes for all files. Sorting keeps the order of equal findings and paths. -/
def evaluate (policy : Policy) (outcomes : List FileOutcome) : Evaluation :=
  let findings := (outcomes.flatMap (·.findings policy.limits)).mergeSort Finding.precedes
  let verdicts := outcomes.map (·.verdict policy)
  { verdict := verdictOf policy.failOn findings
    findings
    summary :=
      { profile := policy.profile
        assembliesScanned := counter outcomes.length
        assembliesRejected := counter (verdicts.countP (!·.accepted))
        typesScanned := total outcomes Sweep.typesScanned
        membersScanned := total outcomes Sweep.membersScanned
        restrictionsEvaluated := total outcomes Sweep.restrictionsEvaluated
        findingsTotal := counter findings.length
        assemblies := verdicts.mergeSort fun a b => (compareText a.path.text b.path.text).isLE }
    counts := .of findings }

end AssemblyPolicy
