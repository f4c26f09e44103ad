import AssemblyPolicy.Files.Tree
import AssemblyPolicy.Metadata.AssemblySet
import AssemblyPolicy.Metadata.Snapshot
import AssemblyPolicy.Text.Complaint

/-!
# Loading snapshots

Snapshots are files whose names end in `.json`. `FileTree.discover` finds them below a directory, and
`FileTree.loadReferences` loads those of several directories into one set.
-/

namespace AssemblyPolicy

/-! ### One file -/

/-- Why a file gives no assembly. -/
inductive LoadError where
  | unreadable (p : Path) (e : FileError)
  | rejected (e : SnapshotError)
  deriving DecidableEq

namespace LoadError

/-- The error in words. What is wrong with the JSON is also named as the cause. -/
def complaint (w : Json.Wording) : LoadError → Complaint
  | unreadable p e => ⟨"cannot read " ++ p.text, [e.message]⟩
  | rejected (.undecodable e) => ⟨(SnapshotError.undecodable e).message w, [e.message w]⟩
  | rejected e => .plain (e.message w)

/-- Was a snapshot decoded, only to turn out inconsistent? -/
def isMalformed : LoadError → Bool
  | unreadable _ _ => false
  | rejected e => e.isMalformed

/-- The name of the assembly, when it is known and not empty. -/
def assembly? : LoadError → Option String
  | unreadable _ _ => none
  | rejected e => e.assembly?

end LoadError

def FileTree.loadAssembly (t : FileTree) (p : Path) : Except LoadError AssemblyModel :=
  match t.readText p with
  | .error e => .error (.unreadable p e)
  | .ok text => (AssemblyModel.ofSnapshot text).mapError .rejected

/-! ### Directories -/

inductive DiscoveryError where
  | unreachable (directory : Path) (e : FileError)
  | notDirectory (directory : Path)
  deriving DecidableEq

def DiscoveryError.complaint : DiscoveryError → Complaint
  | unreachable directory e => ⟨"stat " ++ directory.text, [e.message]⟩
  | notDirectory directory => .plain (directory.text ++ " is not a directory")

def DiscoveryError.directory : DiscoveryError → Path
  | unreachable directory _ => directory
  | notDirectory directory => directory

def isSnapshotName (names : Place) : Bool :=
  names.getLast?.any fun name => Path.extension? name = some "json"

/-- Can the directory at the end of some names below another be listed? Its path must not be too
long. -/
def Path.canList (directory : Path) (names : List String) : Bool :=
  names = [] || (directory.below names).text.utf8ByteSize < pathLimit

namespace FileTree

/-- The snapshots below a place that a directory path leads to, in the order of paths. Directories
that cannot be listed are passed over. -/
def snapshotsBelow (t : FileTree) (directory : Path) (place : Place) : List Path :=
  let found := (t.filesBelow place).filter fun names =>
    isSnapshotName names && directory.canList names.dropLast
  (found.map directory.below).mergeSort Path.precedes

/-- The snapshots in a directory, in the order of paths. -/
def discover (t : FileTree) (directory : Path) : Except DiscoveryError (List Path) :=
  match t.locate directory with
  | .error e => .error (.unreachable directory e)
  | .ok (place, .directory) => .ok (t.snapshotsBelow directory place)
  | .ok _ => .error (.notDirectory directory)

/-- The snapshots in some directories, one directory after the other. -/
def discoverAll (t : FileTree) : List Path → Except DiscoveryError (List Path)
  | [] => .ok []
  | directory :: rest => do
    let found ← t.discover directory
    let more ← t.discoverAll rest
    .ok (found ++ more)

/-- The assembly in a file, if there is one that can be used. -/
def loadAssembly? (t : FileTree) (p : Path) : Option AssemblyModel :=
  (t.loadAssembly p).toOption

/-- The assemblies in some files. Files without one are left out, and of assemblies with the same
name the last stays. -/
def loadAll (t : FileTree) (paths : List Path) : AssemblySet :=
  (paths.filterMap t.loadAssembly?).foldl .insert .empty

def loadReferences (t : FileTree) (directories : List Path) :
    Except DiscoveryError AssemblySet :=
  (t.discoverAll directories).map fun paths =>
    t.loadAll (dropRepeats (paths.mergeSort Path.precedes))

end FileTree

def DiscoveryError.referenceComplaint (e : DiscoveryError) : Complaint :=
  e.complaint.during ("discover reference assemblies in " ++ e.directory.text)

end AssemblyPolicy
