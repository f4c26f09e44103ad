import AssemblyPolicy.Configuration.Reader
import AssemblyPolicy.Configuration.Resolution
import AssemblyPolicy.Metadata.Loading
import AssemblyPolicy.Report.Envelope
import AssemblyPolicy.Report.Evaluation

/-!
# Checking files

`FileTree.check` checks the candidates of a request against the policy of a configuration and
evaluates what came of all of them. `FileTree.verify` checks one file and gives its violations.
-/

namespace AssemblyPolicy

/-- Check an assembly together with the assemblies that it may refer to. -/
def AssemblyModel.sweepWith (a : AssemblyModel) (policy : Policy) (references : AssemblySet) :
    Sweep :=
  a.sweep policy (references.insert a)

/-! ### One file -/

/-- What the check of one file says. -/
inductive Verification where
  | verified (violations : List Violation)
  /-- The snapshot is inconsistent and was not checked. -/
  | malformed (error : String)
  deriving DecidableEq

def Verification.isAccepted : Verification → Bool
  | verified violations => violations.isEmpty
  | malformed _ => false

/-- Why the check of one file says nothing. -/
inductive VerificationError where
  | unreadable (p : Path) (e : LoadError)
  /-- Some checks hit a limit, this being the first. -/
  | undecided (p : Path) (count : Nat) (first : Inconclusive)

def VerificationError.complaint (w : Json.Wording) : VerificationError → Complaint
  | unreadable p e => (e.complaint w).during ("load " ++ p.text)
  | undecided p count first =>
    .plain (p.text ++ ": " ++ toString count ++ " member check(s) exceeded the walk limits (first: "
      ++ first.member ++ ")")

/-- What a finished sweep of a file says. -/
def Sweep.conclude (p : Path) (sweep : Sweep) : Except VerificationError Verification :=
  match sweep.inconclusive with
  | [] => .ok (.verified sweep.violations)
  | first :: _ => .error (.undecided p sweep.inconclusive.length first)

namespace FileTree

def verify (t : FileTree) (policy : Policy) (references : AssemblySet) (p : Path) :
    Except VerificationError Verification :=
  match t.loadAssembly p with
  | .ok a => (a.sweepWith policy references).conclude p
  | .error e =>
    if e.isMalformed then .ok (.malformed (e.complaint .brief).text)
    else .error (.unreadable p e)

/-- What comes of one of several files. -/
def outcome (t : FileTree) (w : Json.Wording) (policy : Policy) (references : AssemblySet)
    (p : Path) : FileOutcome :=
  ⟨.ofString p.text,
    match t.loadAssembly p with
    | .ok a => .verified a.name (a.sweepWith policy references)
    | .error e =>
      if e.isMalformed then .malformed e.assembly? (e.complaint w).text
      else .unreadable (e.complaint w).inline⟩

/-! ### Several files -/

/-- The files that a path means: itself, or the snapshots below it. -/
def expand (t : FileTree) (p : Path) : List Path :=
  match t.discover p with
  | .ok found => found
  | .error _ => [p]

/-- The files that some paths mean, in the order of paths. -/
def candidates (t : FileTree) (paths : List Path) : List Path :=
  dropRepeats ((paths.flatMap t.expand).mergeSort Path.precedes)

end FileTree

/-- What to check, and against what. -/
structure CheckRequest where
  /-- Snapshots, or directories that hold them. -/
  candidates : List Path
  /-- Directories that hold snapshots of assemblies which candidates refer to. -/
  references : List Path
  /-- The text of a configuration. -/
  configuration : String
  overrides : Overrides
  /-- How closely unreadable snapshots are described. -/
  wording : Json.Wording

inductive CheckError where
  | unreadableConfiguration
  | configuration (e : ConfigurationError)
  | noCandidates
  | references (e : DiscoveryError)
  deriving DecidableEq

def CheckError.complaint : CheckError → Complaint
  | unreadableConfiguration => ⟨"parse config", ["<toml>"]⟩
  | configuration e => ⟨"resolve config", [e.message]⟩
  | noCandidates => .plain "no assemblies to check"
  | references e => e.referenceComplaint.during "load reference assemblies"

/-- What a check used and found. -/
structure Checkup where
  policy : Policy
  evaluation : Evaluation

def Checkup.report (c : Checkup) (startedAt finishedAt : Timestamp) : Report where
  schema := reportSchema
  tool := modguard
  startedAt := startedAt
  finishedAt := finishedAt
  verdict := c.evaluation.verdict
  findings := c.evaluation.findings
  summary := c.evaluation.summary

/-- Read a configuration. A blank one leaves everything as it is. -/
def Configuration.read (text : String) : Except CheckError Configuration :=
  if allBlank text then .ok .empty
  else match Configuration.ofToml? text with
    | none => .error .unreadableConfiguration
    | some c => .ok c

def CheckRequest.policy (q : CheckRequest) : Except CheckError Policy := do
  let c ← Configuration.read q.configuration
  (c.resolve q.overrides).mapError .configuration

def FileTree.check (t : FileTree) (q : CheckRequest) : Except CheckError Checkup := do
  let policy ← q.policy
  let files := t.candidates q.candidates
  if files.isEmpty then .error .noCandidates
  else
    let references ← (t.loadReferences q.references).mapError .references
    .ok ⟨policy, evaluate policy (files.map (t.outcome q.wording policy references))⟩

end AssemblyPolicy
