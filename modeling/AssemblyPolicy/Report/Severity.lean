/-!
# Severities and verdicts
-/

namespace AssemblyPolicy

inductive Severity where
  | info
  | warning
  | error
  deriving DecidableEq, Inhabited

namespace Severity

def name : Severity → String
  | info => "info"
  | warning => "warning"
  | error => "error"

def byName : List (String × Severity) :=
  [("info", .info), ("warning", .warning), ("error", .error)]

/-- The place of a severity in reports: errors come first. -/
def rank : Severity → Nat
  | error => 0
  | warning => 1
  | info => 2

end Severity

/-- The outcome of a run. -/
inductive Verdict where
  | pass
  | warn
  | fail
  deriving DecidableEq, Inhabited

namespace Verdict

def name : Verdict → String
  | pass => "pass"
  | warn => "warn"
  | fail => "fail"

def byName : List (String × Verdict) := [("pass", .pass), ("warn", .warn), ("fail", .fail)]

/-- The exit code that announces a verdict: only a failure differs from success. -/
def exitCode : Verdict → Nat
  | fail => 2
  | _ => 0

end Verdict

/-- The least severity that makes a run fail. -/
inductive FailOn where
  | error
  | warning
  deriving DecidableEq, Inhabited

def FailOn.name : FailOn → String
  | error => "error"
  | warning => "warning"

/-- Does a finding of this severity make a run fail? -/
def Severity.isBlocking (failOn : FailOn) : Severity → Bool
  | error => true
  | warning => failOn = .warning
  | info => false

end AssemblyPolicy
