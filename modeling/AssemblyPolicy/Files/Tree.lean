import AssemblyPolicy.Files.Path

/-!
# Trees of files

A `FileTree` is what a program can see of a file system: files and directories by their places, and
the working directory, from which paths are followed. There are no links.
-/

namespace AssemblyPolicy

inductive Entry where
  | directory
  | file (text : String)
  /-- A file whose bytes are no text. -/
  | binary
  deriving DecidableEq, Inhabited

/-- The names that lead from the root to a file or directory. -/
abbrev Place := List String

inductive FileError where
  | notFound
  | alreadyExists
  | notDirectory
  | isDirectory
  | nameTooLong
  | nulCharacter
  | notText
  deriving DecidableEq

def FileError.message : FileError → String
  | notFound => "No such file or directory (os error 2)"
  | .alreadyExists => "File exists (os error 17)"
  | notDirectory => "Not a directory (os error 20)"
  | isDirectory => "Is a directory (os error 21)"
  | nameTooLong => "File name too long (os error 36)"
  | nulCharacter => "file name contained an unexpected NUL byte"
  | notText => "stream did not contain valid UTF-8"

/-- The greatest number of bytes in a name. -/
def nameLimit : Nat := 255

def Part.isTooLong (part : Part) : Bool := part.name?.any fun s => nameLimit < s.utf8ByteSize

/-- The number of bytes that a path must stay below. -/
def pathLimit : Nat := 4096

def Path.checkText (p : Path) : Except FileError Unit :=
  if p.text.toList.contains '\x00' then .error .nulCharacter
  else if p.text.isEmpty then .error .notFound
  else if pathLimit ≤ p.text.utf8ByteSize then .error .nameTooLong
  else .ok ()

/-- The place that a part of a path leads to. The root is above itself. -/
def Part.step (place : Place) : Part → Place
  | root => []
  | here => place
  | up => place.dropLast
  | name s => place ++ [s]

/-- Files and directories. A directory that holds something need not have an entry of its own. -/
structure FileTree where
  entries : List (Place × Entry)
  /-- The working directory. -/
  home : Place
  deriving Inhabited

/-- The place that a path names, whatever is there. -/
def Path.place (home : Place) (p : Path) : Place := p.parts.foldl Part.step home

namespace FileTree

def put (t : FileTree) (place : Place) (e : Entry) : FileTree :=
  if (t.entries.lookup place).isSome then
    { t with entries := t.entries.map fun old => if old.1 = place then (place, e) else old }
  else { t with entries := t.entries ++ [(place, e)] }

/-- The tree of some files and directories, with its working directory. Of two for one place the later
one is there. -/
def ofFiles (home : Place) (files : List (Path × Entry)) : FileTree :=
  files.foldl (fun t (p, e) => t.put (p.place home) e) ⟨[(home, .directory)], home⟩

def entryAt? (t : FileTree) (place : Place) : Option Entry :=
  (t.entries.lookup place).or <|
    if t.entries.any fun e => place.isPrefixOf e.1 then some .directory else none

def requireDirectory (t : FileTree) (place : Place) : Except FileError Unit :=
  match t.entryAt? place with
  | none => .error .notFound
  | some .directory => .ok ()
  | some _ => .error .notDirectory

/-- Follow the parts of a path. Each of them starts from a directory. -/
def follow (t : FileTree) : Place → List Part → Except FileError Place
  | place, [] => .ok place
  | place, part :: rest => do
    t.requireDirectory place
    if part.isTooLong then .error .nameTooLong else t.follow (part.step place) rest

/-- The place that a path leads to, with what is there. -/
def locate (t : FileTree) (p : Path) : Except FileError (Place × Entry) := do
  p.checkText
  let place ← t.follow t.home p.parts
  match t.entryAt? place with
  | none => .error .notFound
  | some .directory => .ok (place, .directory)
  | some e => if p.endsOpen then .error .notDirectory else .ok (place, e)

def isDirectory (t : FileTree) (p : Path) : Bool :=
  match t.locate p with
  | .ok (_, .directory) => true
  | _ => false

def readText (t : FileTree) (p : Path) : Except FileError String :=
  match t.locate p with
  | .error e => .error e
  | .ok (_, .directory) => .error .isDirectory
  | .ok (_, .binary) => .error .notText
  | .ok (_, .file text) => .ok text

/-- The names that lead from one place to another below it. -/
def relative? : Place → Place → Option Place
  | [], place => some place
  | _ :: _, [] => none
  | a :: as, b :: bs => if a = b then relative? as bs else none

/-- The files below a place, each by the names that lead to it from there. -/
def filesBelow (t : FileTree) (place : Place) : List Place :=
  t.entries.filterMap fun (p, e) =>
    match e with
    | .directory => none
    | _ => (relative? place p).filter fun names => names ≠ []

end FileTree

end AssemblyPolicy
