import AssemblyPolicy.Files.Tree

/-!
# Changing files

Files are written and directories are made in a `FileTree`. Whatever is put somewhere goes into a
directory that is already there.
-/

namespace AssemblyPolicy.FileTree

/-- The place for something new at a path, in a directory that is there. There is no such place for a
path that does not end in a name, which leads to a directory that is there. -/
def placeFor (t : FileTree) (p : Path) : Except FileError (Option Place) := do
  p.checkText
  match p.lastName? with
  | some name =>
    let directory ← t.follow t.home p.parts.dropLast
    t.requireDirectory directory
    .ok (some (directory ++ [name]))
  | none =>
    t.requireDirectory (← t.follow t.home p.parts)
    .ok none

/-- Check that something new may have the name that a place ends in. -/
def checkName (place : Place) : Except FileError Unit :=
  if place.getLast?.any fun name => (Part.name name).isTooLong then .error .nameTooLong else .ok ()

def writeText (t : FileTree) (p : Path) (text : String) : Except FileError FileTree := do
  match ← t.placeFor p with
  | none => .error .isDirectory
  | some place =>
    if p.endsOpen then .error .isDirectory
    else
      checkName place
      if t.entryAt? place = some .directory then .error .isDirectory
      else .ok (t.put place (.file text))

def makeDirectory (t : FileTree) (p : Path) : Except FileError FileTree := do
  match ← t.placeFor p with
  | none => .error .alreadyExists
  | some place =>
    checkName place
    if (t.entryAt? place).isSome then .error .alreadyExists else .ok (t.put place .directory)

/-- Make a directory where some directories above it may be missing; these are given from the nearest
on. What was made stays when something fails later. -/
def ensureDirectories (t : FileTree) : List Path → FileTree × Except FileError Unit
  | [] => (t, .ok ())
  | p :: above =>
    let settle (t : FileTree) (e : FileError) : FileTree × Except FileError Unit :=
      (t, if t.isDirectory p then .ok () else .error e)
    if p.text.isEmpty then (t, .ok ())
    else
      match t.makeDirectory p with
      | .ok t => (t, .ok ())
      | .error .notFound =>
        match t.ensureDirectories above with
        | (t, .error e) => (t, .error e)
        | (t, .ok ()) =>
          match t.makeDirectory p with
          | .ok t => (t, .ok ())
          | .error e => settle t e
      | .error e => settle t e

/-- What was put into a tree since it looked like another one. -/
def changesSince (t before : FileTree) : List (Place × Entry) :=
  t.entries.filter fun e => e ∉ before.entries

end AssemblyPolicy.FileTree
