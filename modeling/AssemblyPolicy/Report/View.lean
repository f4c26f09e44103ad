import AssemblyPolicy.Report.Basic

/-!
# What is shown of a report

The part of a report that the renderers need. The check of a finding may be unknown there.
-/

namespace AssemblyPolicy

/-- What is shown of a finding. -/
structure FindingView where
  severity : Severity
  checkId : Option String
  code : String
  message : String
  location : Option Location
  help : Option String
  url : Option String
  deriving DecidableEq

/-- What is shown of a report. -/
structure ReportView where
  verdict : Verdict
  profile : String
  findingsTotal : Nat
  assemblies : List AssemblyVerdict
  findings : List FindingView
  deriving DecidableEq

def Finding.view (f : Finding) : FindingView :=
  ⟨f.severity, some f.checkId, f.code, f.message, f.location, f.help, f.url⟩

/-- What is shown of a verdict with its findings and sums. -/
def ReportView.of (verdict : Verdict) (findings : List Finding) (summary : Summary) : ReportView :=
  ⟨verdict, summary.profile, summary.findingsTotal, summary.assemblies, findings.map (·.view)⟩

end AssemblyPolicy
