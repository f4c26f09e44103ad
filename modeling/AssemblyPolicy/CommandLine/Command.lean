import AssemblyPolicy.CommandLine.Arguments
import AssemblyPolicy.Files.Path

/-!
# Commands

What the program can be asked to do. `Invocation.parse` reads a command line.
-/

namespace AssemblyPolicy.CommandLine

/-- What to check, and where to write what was found. -/
structure CheckCommand where
  candidates : List Path
  references : List Path
  trusted : List String
  maxDepth : Option Nat
  maxMethods : Option Nat
  report : Path
  writesMarkdown : Bool
  markdown : Path
  deriving DecidableEq

inductive Command where
  | check (c : CheckCommand)
  /-- Write a report as Markdown, into a file or to the output. -/
  | markdown (report : Path) (output : Option Path)
  /-- Write the first findings of a report as workflow commands. -/
  | annotations (report : Path) (limit : Nat)
  | explain (identifier : String)
  deriving DecidableEq

/-- A command with what is common to all commands. -/
structure Invocation where
  configuration : Path
  profile : Option String
  command : Command
  deriving DecidableEq

namespace Command

def inputs : Command → List Path
  | check c => c.candidates ++ c.references
  | markdown report _ => [report]
  | annotations report _ => [report]
  | explain _ => []

def outputs : Command → List Path
  | check c => [c.report, c.markdown]
  | markdown _ output => output.toList
  | annotations _ _ => []
  | explain _ => []

end Command

/-! ### Numbers -/

/-- The value of decimal digits; there must be at least one. -/
def digits? (cs : List Char) : Option Nat :=
  if cs ≠ [] && cs.all Char.isDigit then
    some (cs.foldl (fun n c => n * 10 + (c.toNat - '0'.toNat)) 0)
  else none

/-- Read a number that may have a sign. A minus sign leaves only zero. -/
def signed? (text : String) : Option Nat :=
  match text.toList with
  | '+' :: cs => digits? cs
  | '-' :: cs => (digits? cs).filter (· = 0)
  | cs => digits? cs

def word32? (text : String) : Option Nat := (signed? text).filter (· < UInt32.size)

/-- Read a number of 64 bits. There is no minus sign. -/
def word64? (text : String) : Option Nat :=
  if text.toList.head? = some '-' then none else (signed? text).filter (· < UInt64.size)

/-! ### Settings -/

def textSetting (name : String) (usage : Usage) : Setting := ⟨name, none, usage, fun _ => true⟩

def numberSetting (name : String) (read? : String → Option Nat) : Setting :=
  ⟨name, none, .single, fun text => (read? text).isSome⟩

/-- The settings that come before or after the name of a command. -/
def commonSettings : List Setting :=
  [textSetting "config" .single, textSetting "profile" .single,
    ⟨"verbose", some 'v', .counted, fun _ => true⟩, ⟨"help", some 'h', .stops .help, fun _ => true⟩]

def programSettings : List Setting :=
  ⟨"version", some 'V', .stops .version, fun _ => true⟩ :: commonSettings

structure Grammar where
  name : String
  settings : List Setting
  /-- The least number of operands. -/
  least : Nat
  /-- The greatest number of operands. -/
  most : Option Nat
  build : Given → Option Command

def Given.path? (g : Given) (name : String) : Option Path := (g.value? name).map Path.mk

def standardReport : Path := ⟨"artifacts/modguard/report.json"⟩

def standardMarkdown : Path := ⟨"artifacts/modguard/comment.md"⟩

def standardConfiguration : Path := ⟨"modguard.toml"⟩

def checkGrammar : Grammar where
  name := "check"
  settings :=
    [textSetting "refs" .repeated, textSetting "trust" .repeated, numberSetting "max-depth" word32?,
      numberSetting "max-methods" word32?, textSetting "report-out" .single,
      textSetting "write-markdown" .flag, textSetting "markdown-out" .single]
  least := 1
  most := none
  build g := some <| .check
    { candidates := g.operands.map Path.mk
      references := (g.valuesOf "refs").map Path.mk
      trusted := g.valuesOf "trust"
      maxDepth := (g.value? "max-depth").bind word32?
      maxMethods := (g.value? "max-methods").bind word32?
      report := (g.path? "report-out").getD standardReport
      writesMarkdown := (g.value? "write-markdown").isSome
      markdown := (g.path? "markdown-out").getD standardMarkdown }

def markdownGrammar : Grammar where
  name := "md"
  settings := [textSetting "report" .single, ⟨"output", some 'o', .single, fun _ => true⟩]
  least := 0
  most := some 0
  build g := some (.markdown ((g.path? "report").getD standardReport) (g.path? "output"))

def annotationsGrammar : Grammar where
  name := "annotations"
  settings := [textSetting "report" .single, numberSetting "max" word64?]
  least := 0
  most := some 0
  build g := some <| .annotations ((g.path? "report").getD standardReport)
    (((g.value? "max").bind word64?).getD 10)

def explainGrammar : Grammar where
  name := "explain"
  settings := []
  least := 1
  most := some 1
  build g := g.operands.head?.map .explain

def commands : List Grammar := [checkGrammar, markdownGrammar, annotationsGrammar, explainGrammar]

/-! ### Command lines -/

def Grammar.parse (c : Grammar) (program : Given) (arguments : List String) :
    Except Stop Invocation := do
  let g ← collect c.most [] (mentions (c.settings ++ commonSettings) .all arguments).1
  if g.operands.length < c.least then .error .misuse
  else match c.build g with
    | none => .error .misuse
    | some command =>
      .ok
        { configuration :=
            ((g.path? "config").or (program.path? "config")).getD standardConfiguration
          profile := (g.value? "profile").or (program.value? "profile")
          command }

/-- Read what follows the word help: nothing, or the name of a command. -/
def parseHelp (arguments : List String) : Stop :=
  match arguments with
  | [] => .help
  | [name] => if name = "help" || commands.any (·.name = name) then .help else .misuse
  | _ => .misuse

/-- Read a command line. Settings after the name of the command come before those in front of it. -/
def Invocation.parse (arguments : List String) : Except Stop Invocation := do
  let (found, unread) := mentions programSettings .firstOperand arguments
  let program ← collect (some 0) [] found
  match unread with
  | [] => .error .misuse
  | name :: rest =>
    if name = "help" then .error (parseHelp rest)
    else match commands.find? (·.name = name) with
      | none => .error .misuse
      | some c => c.parse program rest

end AssemblyPolicy.CommandLine
