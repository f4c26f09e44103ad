import AssemblyPolicy.CommandLine.Run
import Std.Time.DateTime.Timestamp

/-!
# The program

The files that a command names are read into a tree, the command is carried out on the tree, and what
it changed is written back.
-/

namespace AssemblyPolicy.CommandLine

def currentTime : IO Timestamp := do
  let now ← Std.Time.Timestamp.now
  pure (.ofNanoseconds now.toNanosecondsSinceUnixEpoch.val.toNat)

def fileEntry (path : String) : IO Entry := do
  match String.fromUTF8? (← IO.FS.readBinFile path) with
  | some text => pure (.file text)
  | none => pure .binary

/-- What is at a path, with all snapshots below it. Links are not followed below a directory. -/
partial def explore (place : Place) (path : String) : IO (List (Place × Entry)) := do
  match ← (IO.FS.realPath path).toBaseIO with
  | .error _ => pure []
  | .ok found =>
    if ← found.isDir then
      let inside ← (← found.readDir).toList.mapM fun e => do
        let place := place ++ [e.fileName]
        match (← e.path.symlinkMetadata).type with
        | .dir => explore place e.path.toString
        | .file => if isSnapshotName place then explore place e.path.toString else pure []
        | _ => pure []
      pure ((place, .directory) :: inside.flatten)
    else pure [(place, ← fileEntry path)]

/-- Whether a file or a directory is at a path. -/
def glance (place : Place) (path : String) : IO (List (Place × Entry)) := do
  match ← (IO.FS.realPath path).toBaseIO with
  | .error _ => pure []
  | .ok found => pure [(place, if ← found.isDir then .directory else .binary)]

/-- What a command can see of the file system. -/
def visibleTree (i : Invocation) : IO FileTree := do
  let home := (Path.mk (← IO.currentDir).toString).place []
  let read := i.configuration :: i.command.inputs
  let seen ← read.mapM fun p => explore (p.place home) p.text
  let near := (read ++ i.command.outputs).flatMap fun p => p :: p.above
  let glimpsed ← near.mapM fun p => glance (p.place home) p.text
  pure ⟨(home, .directory) :: (seen ++ glimpsed).flatten, home⟩

/-- Write what was put somewhere. -/
def writeEntry (place : Place) (e : Entry) : IO Unit := do
  let path := "/" ++ "/".intercalate place
  match e with
  | .directory => IO.FS.createDirAll path
  | .file text => IO.FS.writeFile path text
  | .binary => pure ()

/-- Carry out a command line, and give the exit code. -/
def execute (arguments : List String) : IO UInt32 := do
  let outcome ← match Invocation.parse arguments with
    | .error s => pure (s.outcome default)
    | .ok i =>
      let startedAt ← currentTime
      let t ← visibleTree i
      let outcome := i.run startedAt (← currentTime) t
      (outcome.files.changesSince t).forM fun (place, e) => writeEntry place e
      pure outcome
  IO.print outcome.output
  IO.eprint outcome.errors
  pure outcome.exitCode.toUInt32

end AssemblyPolicy.CommandLine

def main (arguments : List String) : IO UInt32 := AssemblyPolicy.CommandLine.execute arguments
