import AssemblyPolicy.Check.Basic
import AssemblyPolicy.CommandLine.Command
import AssemblyPolicy.Files.Change
import AssemblyPolicy.Report.Explanation
import AssemblyPolicy.Report.Markdown
import AssemblyPolicy.Report.Workflow

/-!
# Carrying out commands

`Invocation.run` carries out a command on a tree of files and gives what it writes. A check that fails
still leaves a report, which says why.
-/

namespace AssemblyPolicy.CommandLine

/-- A computation on files that may fail. What it changed stays when it fails. -/
abbrev Action (α : Type) := ExceptT Complaint (StateM FileTree) α

structure Outcome where
  exitCode : Nat
  output : String
  errors : String
  files : FileTree

def asLines (texts : List String) : String := String.join (texts.map (· ++ "\n"))

/-! ### Files -/

/-- Fail with a file error that arose while something was done. -/
def failWith {α : Type} (context : String) (e : FileError) : Action α :=
  throw ⟨context, [e.message]⟩

/-- Make the directory that a path is in. -/
def makeRoom (p : Path) : Action Unit := do
  match p.above with
  | [] => pure ()
  | directory :: above =>
    let (t, result) := (← get).ensureDirectories (directory :: above)
    set t
    match result with
    | .ok () => pure ()
    | .error e => failWith ("create directory: " ++ directory.text) e

def writeFile (kind : String) (p : Path) (text : String) : Action Unit := do
  makeRoom p
  match (← get).writeText p text with
  | .ok t => set t
  | .error e => failWith ("write " ++ kind ++ ": " ++ p.text) e

/-- Say what was being done when an action fails. -/
def during {α : Type} (context : String) (a : Action α) : Action α :=
  tryCatch a fun c => throw (c.during context)

def orComplain {α ε : Type} (complaint : ε → Complaint) (result : Except ε α) : Action α :=
  match result with
  | .ok a => pure a
  | .error e => throw (complaint e)

/-! ### Reports -/

def readReport (p : Path) : Action Report := do
  match (← get).readText p with
  | .error e => failWith ("read report: " ++ p.text) e
  | .ok text => orComplain (ReportError.complaint .exact) (Report.parse text)

/-- The text of a configuration. A missing one is empty. -/
def readConfiguration (p : Path) : Action String := do
  match (← get).readText p with
  | .ok text => pure text
  | .error .notFound => pure ""
  | .error e => failWith ("read config: " ++ p.text) e

def rejection (a : AssemblyVerdict) : String :=
  "modguard: rejected " ++ a.path.text ++ " (" ++ toString a.violations ++ " finding(s))"

/-! ### Commands -/

def CheckCommand.request (c : CheckCommand) (configuration : String) (profile : Option String) :
    CheckRequest where
  candidates := c.candidates
  references := c.references
  configuration := configuration
  overrides := ⟨profile, c.trusted, c.maxDepth, c.maxMethods⟩
  wording := .exact

/-- Check the candidates, write what was found, and give the report. -/
def CheckCommand.carryOut (c : CheckCommand) (i : Invocation) (startedAt finishedAt : Timestamp) :
    Action Report := do
  let configuration ← readConfiguration i.configuration
  let checkup ← orComplain CheckError.complaint
    ((← get).check (c.request configuration i.profile))
  let report := checkup.report startedAt finishedAt
  during "write report json" (writeFile "report" c.report report.serialize)
  if c.writesMarkdown then
    during "write markdown" (writeFile "text" c.markdown (Markdown.render report.view))
  pure report

def CheckCommand.run (c : CheckCommand) (i : Invocation) (startedAt finishedAt : Timestamp)
    (t : FileTree) : Outcome :=
  match (c.carryOut i startedAt finishedAt).run t with
  | (.ok report, files) =>
    { exitCode := report.verdict.exitCode
      output := ""
      errors := asLines ((report.summary.assemblies.filter (!·.accepted)).map rejection)
      files }
  | (.error complaint, files) =>
    let report := Report.ofRuntimeError complaint.inline finishedAt
    { exitCode := 1
      output := ""
      errors := asLines ["modguard error: " ++ complaint.inline]
      files := ((writeFile "report" c.report report.serialize).run files).2 }

def Action.outcome (a : Action String) (t : FileTree) : Outcome :=
  match a.run t with
  | (.ok output, files) => { exitCode := 0, output, errors := "", files }
  | (.error complaint, files) =>
    { exitCode := 1, output := "", errors := "Error: " ++ complaint.block ++ "\n", files }

def showMarkdown (report : Path) (output : Option Path) : Action String := do
  let text := Markdown.render (← readReport report).view
  match output with
  | none => pure text
  | some p => do
    during "write markdown output" (writeFile "text" p text)
    pure ""

/-- Write the first findings of a report as workflow commands. -/
def showAnnotations (report : Path) (limit : Nat) : Action String := do
  pure (asLines (Workflow.lines limit (← readReport report).view))

def explain (identifier : String) (files : FileTree) : Outcome :=
  match Explanation.find? identifier with
  | some e => { exitCode := 0, output := e.text, errors := "", files }
  | none => { exitCode := 1, output := "", errors := Explanation.notFoundText identifier, files }

/-- Carry out a command. The times are those of a report that it makes. -/
def Invocation.run (i : Invocation) (startedAt finishedAt : Timestamp) (t : FileTree) : Outcome :=
  match i.command with
  | .check c => c.run i startedAt finishedAt t
  | .markdown report output => (showMarkdown report output).outcome t
  | .annotations report limit => (showAnnotations report limit).outcome t
  | .explain identifier => explain identifier t

def usage : List String :=
  ["Usage: modguard [OPTIONS] <COMMAND>", "", "Commands:",
    "  check <ASSEMBLIES>...  Verify candidate assemblies and write artifacts",
    "  md                     Render markdown from an existing JSON report",
    "  annotations            Render GitHub Actions annotations from an existing JSON report",
    "  explain <IDENTIFIER>   Explain a check_id or code with remediation guidance",
    "  help                   Print this message"]

def Stop.outcome (s : Stop) (files : FileTree) : Outcome :=
  match s with
  | misuse => { exitCode := 2, output := "", errors := asLines usage, files }
  | help => { exitCode := 0, output := asLines usage, errors := "", files }
  | version =>
    { exitCode := 0, output := asLines [modguard.name ++ " " ++ modguard.version], errors := "",
      files }

end AssemblyPolicy.CommandLine
