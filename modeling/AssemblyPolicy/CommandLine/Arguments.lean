/-!
# Arguments

A command line is read in two steps. `mentions` says which settings and operands the arguments
mention, and `collect` puts them together, up to the first that is wrong or that ends the reading.
Settings are written `--name value` or `--name=value`; those with a letter also `-x value`, `-xvalue`
or `-x=value`, and letters without a value may be joined. After `--` there are only operands.
-/

namespace AssemblyPolicy.CommandLine

/-- Why a command line is not carried out. -/
inductive Stop where
  /-- The command line is wrong. -/
  | misuse
  /-- It asks for help. -/
  | help
  /-- It asks for the version of the program. -/
  | version
  deriving DecidableEq

/-- How a setting is used. -/
inductive Usage where
  /-- At most once, without a value. -/
  | flag
  /-- Any number of times, without a value. -/
  | counted
  /-- At most once, with a value. -/
  | single
  /-- Any number of times, each time with a value. -/
  | repeated
  /-- In place of everything else. -/
  | stops (s : Stop)
  deriving DecidableEq

namespace Usage

def takesValue : Usage → Bool
  | single => true
  | repeated => true
  | _ => false

def isUnique : Usage → Bool
  | flag => true
  | single => true
  | _ => false

end Usage

structure Setting where
  name : String
  letter : Option Char
  usage : Usage
  /-- Is this a value for the setting? -/
  accepts : String → Bool

/-- What an argument, or two of them, mention. -/
inductive Mention where
  | setting (s : Setting) (value : String)
  | operand (text : String)
  /-- An argument that cannot be read. -/
  | fault

/-! ### Reading single arguments -/

inductive Form where
  | operand
  /-- From here on there are only operands. -/
  | onlyOperands
  | long (name : List Char) (value : Option (List Char))
  | letters (cs : List Char)

/-- The parts before and after the first equals sign. -/
def splitValue : List Char → List Char × Option (List Char)
  | [] => ([], none)
  | '=' :: rest => ([], some rest)
  | c :: rest => (c :: (splitValue rest).1, (splitValue rest).2)

/-- The form of an argument. A single dash is an operand. -/
def formOf (argument : String) : Form :=
  match argument.toList with
  | ['-'] => .operand
  | ['-', '-'] => .onlyOperands
  | '-' :: '-' :: rest => .long (splitValue rest).1 (splitValue rest).2
  | '-' :: rest => .letters rest
  | _ => .operand

/-- May the argument be the value of the setting before it? -/
def isValue (argument : String) : Bool :=
  match formOf argument with
  | .operand => true
  | _ => false

/-- What joined letters mention. The last of them may be a setting whose value is missing. -/
def letterMentions (settings : List Setting) : List Char → List Mention × Option Setting
  | [] => ([], none)
  | c :: rest =>
    match settings.find? (·.letter = some c) with
    | none => ([.fault], none)
    | some s =>
      if s.usage.takesValue then
        match rest with
        | [] => ([], some s)
        | '=' :: value => ([.setting s (String.ofList value)], none)
        | value => ([.setting s (String.ofList value)], none)
      else
        let (mentions, open?) := letterMentions settings rest
        (.setting s "" :: mentions, open?)

/-- What a long form mentions. It may be a setting whose value is missing. -/
def longMentions (settings : List Setting) (name : List Char) (value : Option (List Char)) :
    List Mention × Option Setting :=
  match settings.find? (·.name = String.ofList name), value with
  | none, _ => ([.fault], none)
  | some s, some value =>
    if s.usage.takesValue then ([.setting s (String.ofList value)], none) else ([.fault], none)
  | some s, none => if s.usage.takesValue then ([], some s) else ([.setting s ""], none)

/-! ### Reading all arguments -/

/-- Where the reading of arguments ends. -/
inductive Extent where
  | all
  /-- The first operand, which names a command. -/
  | firstOperand
  deriving DecidableEq

/-- What arguments mention, and those that were not read. -/
def mentions (settings : List Setting) (extent : Extent) : List String → List Mention × List String
  | [] => ([], [])
  | argument :: rest =>
    match formOf argument with
    | .operand =>
      match extent with
      | .firstOperand => ([], argument :: rest)
      | .all =>
        let (more, unread) := mentions settings extent rest
        (.operand argument :: more, unread)
    | .onlyOperands => (rest.map .operand, [])
    | .long name value => settle rest (longMentions settings name value)
    | .letters cs => settle rest (letterMentions settings cs)
where
  /-- Give the value that is missing, if one is, and read on. -/
  settle : List String → List Mention × Option Setting → List Mention × List String
    | rest, (found, none) =>
      let (more, unread) := mentions settings extent rest
      (found ++ more, unread)
    | value :: rest, (found, some s) =>
      if isValue value then
        let (more, unread) := mentions settings extent rest
        (found ++ .setting s value :: more, unread)
      else (found ++ [.fault], [])
    | [], (found, some _) => (found ++ [.fault], [])

/-- What a command line gives to a command: values by the names of their settings, and operands. -/
structure Given where
  values : List (String × String)
  operands : List String

namespace Given

def value? (g : Given) (name : String) : Option String := g.values.lookup name

def valuesOf (g : Given) (name : String) : List String :=
  g.values.filterMap fun (n, v) => if n = name then some v else none

end Given

/-- Put together what is mentioned, with at most a given number of operands. The names are those of
unique settings that were given before. -/
def collect (room : Option Nat) (seen : List String) : List Mention → Except Stop Given
  | [] => .ok ⟨[], []⟩
  | .fault :: _ => .error .misuse
  | .operand text :: rest =>
    match room with
    | some 0 => .error .misuse
    | room => do
      let g ← collect (room.map (· - 1)) seen rest
      .ok { g with operands := text :: g.operands }
  | .setting s value :: rest =>
    match s.usage with
    | .stops stop => .error stop
    | usage =>
      if usage.isUnique && seen.contains s.name then .error .misuse
      else if usage.takesValue && !s.accepts value then .error .misuse
      else do
        let g ← collect room (s.name :: seen) rest
        .ok { g with values := (s.name, value) :: g.values }

end AssemblyPolicy.CommandLine
