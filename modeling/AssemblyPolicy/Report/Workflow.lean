import AssemblyPolicy.Report.View

/-!
# Findings as workflow annotations

One line for each finding, a command that makes a build service attach the message to a file. Line
breaks and percent signs are escaped everywhere, colons and commas in properties too.
-/

namespace AssemblyPolicy.Workflow

/-- The escape of a character in a message. -/
def escapeDataChar : Char → List Char
  | '%' => ['%', '2', '5']
  | '\r' => ['%', '0', 'D']
  | '\n' => ['%', '0', 'A']
  | c => [c]

/-- The escape of a character in a property. -/
def escapePropertyChar : Char → List Char
  | ':' => ['%', '3', 'A']
  | ',' => ['%', '2', 'C']
  | c => escapeDataChar c

def escapeData (s : String) : String := String.ofList (s.toList.flatMap escapeDataChar)

def escapeProperty (s : String) : String := String.ofList (s.toList.flatMap escapePropertyChar)

/-- The level of a severity. -/
def level : Severity → String
  | .error => "error"
  | .warning => "warning"
  | .info => "notice"

/-- The properties that give the place of a finding. -/
def properties (l : Location) : String :=
  "file=" ++ escapeProperty l.path.text ++
    l.member.elim "" fun m => ",title=" ++ escapeProperty m

/-- The message of a finding with its check and code. -/
def message (f : FindingView) : String :=
  "[" ++ f.checkId.getD "modguard" ++ ":" ++ f.code ++ "] " ++ f.message

def render (f : FindingView) : String :=
  "::" ++ level f.severity ++ f.location.elim "" (fun l => " " ++ properties l) ++ "::" ++
    escapeData (message f)

/-- The lines for a report, at most `limit` of them. -/
def lines (limit : Nat) (r : ReportView) : List String := (r.findings.map render).take limit

end AssemblyPolicy.Workflow
