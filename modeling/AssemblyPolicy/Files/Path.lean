import AssemblyPolicy.Text.Order
import AssemblyPolicy.Text.Split

/-!
# Paths

A `Path` is kept as it was written and compared by its parts: repeated and trailing slashes do not
count, and neither does a `.` that is not at the start.
-/

namespace AssemblyPolicy

/-- A path as it was written. -/
structure Path where
  text : String
  deriving DecidableEq, Inhabited

inductive Part where
  | root
  /-- The directory that is reached so far. -/
  | here
  /-- The directory above. -/
  | up
  | name (text : String)
  deriving DecidableEq

namespace Part

def ofSegment (segment : List Char) : Part :=
  if segment = ['.'] then .here
  else if segment = ['.', '.'] then .up
  else .name (String.ofList segment)

def name? : Part → Option String
  | name s => some s
  | _ => none

def rank : Part → Nat
  | root => 0
  | here => 1
  | up => 2
  | name _ => 3

/-- The order of parts: names come last, and in the order of their texts. -/
def compare (a b : Part) : Ordering :=
  (Ord.compare a.rank b.rank).then (compareText (a.name?.getD "") (b.name?.getD ""))

/-- The order of lists of parts: that of the first parts that differ. -/
def compareAll : List Part → List Part → Ordering
  | [], [] => .eq
  | [], _ :: _ => .lt
  | _ :: _, [] => .gt
  | a :: as, b :: bs => (compare a b).then (compareAll as bs)

end Part

namespace Path

/-- Does a text between slashes add nothing to a path, when it is not the first? -/
def isFiller (segment : List Char) : Bool := segment = [] || segment = ['.']

def segments (p : Path) : List (List Char) := splitAll '/' p.text.toList

def parts (p : Path) : List Part :=
  match p.segments with
  | [] => []
  | [[]] => []
  | first :: rest =>
    (if first = [] then .root else .ofSegment first) ::
      (rest.filter fun s => !isFiller s).map .ofSegment

/-- Does the last slash of a path say that it is a directory? -/
def endsOpen (p : Path) : Bool :=
  match p.segments with
  | [] => false
  | _ :: rest => rest.getLast?.any isFiller

/-- The name that a path ends in, if it does. A `.` at the end hides it, a slash does not. -/
def lastName? (p : Path) : Option String :=
  ((p.segments.filter (· ≠ [])).getLast?.map Part.ofSegment).bind Part.name?

def compare (a b : Path) : Ordering := Part.compareAll a.parts b.parts

def precedes (a b : Path) : Bool := (compare a b).isLE

def same (a b : Path) : Bool := a.parts = b.parts

def below (p : Path) (names : List String) : Path :=
  let slash := if p.text.toList.getLast? = some '/' then "" else "/"
  ⟨p.text ++ slash ++ "/".intercalate names⟩

/-- What follows the last dot of a name. A dot at the start of the name does not count. -/
def extension? (name : String) : Option String :=
  match splitLast? '.' name.toList with
  | none => none
  | some ([], _) => none
  | some (_, after) => some (String.ofList after)

/-! ### The directories above a path -/

/-- The path with some segments. The later ones are given from the last to the second. -/
def ofSegments (first : List Char) (later : List (List Char)) : Path :=
  if first = [] ∧ later = [] then ⟨"/"⟩
  else ⟨"/".intercalate ((first :: later.reverse).map String.ofList)⟩

def directoriesAbove (first : List Char) : List (List Char) → List Path
  | [] => if first = [] then [] else [⟨""⟩]
  | s :: before =>
    if isFiller s then directoriesAbove first before
    else ofSegments first (before.dropWhile isFiller) :: directoriesAbove first before

/-- The directories above a path, from the nearest to the farthest. The working directory is the
empty path. -/
def above (p : Path) : List Path :=
  match p.segments with
  | [] => []
  | first :: rest => directoriesAbove first rest.reverse

end Path

/-- Keep the first of each run of paths with the same parts. -/
def dropRepeats : List Path → List Path
  | [] => []
  | p :: rest =>
    match dropRepeats rest with
    | [] => [p]
    | q :: qs => if p.same q then p :: qs else p :: q :: qs

end AssemblyPolicy
