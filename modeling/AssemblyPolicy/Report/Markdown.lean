import AssemblyPolicy.Report.View

/-!
# Reports in Markdown

A heading with the sums, a table of the files with one row each, and a list of the findings with one
item each. Texts are inserted as they are.
-/

namespace AssemblyPolicy.Markdown

def line (s : String) : String := s ++ "\n"

def code (s : String) : String := "`" ++ s ++ "`"

def verdictLabel : Verdict → String
  | .pass => "PASS"
  | .warn => "WARN"
  | .fail => "FAIL"

def severityLabel : Severity → String
  | .info => "INFO"
  | .warning => "WARN"
  | .error => "ERROR"

/-- The heading and the sums. -/
def header (r : ReportView) : String :=
  line "# Modguard report" ++ line "" ++
    line ("- Verdict: **" ++ verdictLabel r.verdict ++ "**") ++
    line ("- Profile: " ++ code r.profile) ++
    line ("- Assemblies: " ++ toString r.assemblies.length ++ " scanned / " ++
      toString (r.assemblies.countP (!·.accepted)) ++ " rejected") ++
    line ("- Findings: " ++ toString r.findingsTotal) ++ line ""

def assemblyRow (a : AssemblyVerdict) : String :=
  "| " ++ a.assembly.getD "?" ++ " | " ++ code a.path.text ++ " | " ++
    (if a.accepted then "accepted" else "rejected") ++ " | " ++ toString a.violations ++ " |"

/-- The table of the files, if there are any. -/
def assemblies (as : List AssemblyVerdict) : String :=
  if as.isEmpty then ""
  else
    line "## Assemblies" ++ line "" ++ line "| Assembly | File | Result | Findings |" ++
      line "|---|---|---|---|" ++ String.join (as.map fun a => line (assemblyRow a)) ++ line ""

def place (l : Location) : String :=
  match l.member with
  | some member => " (" ++ code member ++ " in " ++ code l.path.text ++ ")"
  | none => " (" ++ code l.path.text ++ ")"

/-- A line of advice below a finding, if there is any. -/
def advice (label : String) (text : Option String) : String :=
  text.elim "" fun t => line ("  - " ++ label ++ ": " ++ t)

def findingItem (f : FindingView) : String :=
  line ("- [" ++ severityLabel f.severity ++ "] " ++ code (f.checkId.getD "") ++ " / " ++
      code f.code ++ ": " ++ f.message ++ f.location.elim "" place) ++
    advice "help" f.help ++ advice "url" f.url

def findings (fs : List FindingView) : String :=
  if fs.isEmpty then line "No findings."
  else line "## Findings" ++ line "" ++ String.join (fs.map findingItem)

def render (r : ReportView) : String := header r ++ assemblies r.assemblies ++ findings r.findings

end AssemblyPolicy.Markdown
