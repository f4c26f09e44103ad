/-!
# Cutting texts

`splitAll` cuts at every separator, `splitFirst?` and `splitLast?` at one of them.
-/

namespace AssemblyPolicy

/-- The parts between separators. There is always one more part than there are separators. -/
def splitAll (sep : Char) : List Char → List (List Char)
  | [] => [[]]
  | c :: rest =>
    if c = sep then [] :: splitAll sep rest
    else match splitAll sep rest with
      | [] => [[c]]
      | part :: parts => (c :: part) :: parts

/-- The parts before and after the first separator. -/
def splitFirst? (sep : Char) : List Char → Option (List Char × List Char)
  | [] => none
  | c :: rest =>
    if c = sep then some ([], rest)
    else (splitFirst? sep rest).map fun p => (c :: p.1, p.2)

/-- The parts before and after the last separator. -/
def splitLast? (sep : Char) : List Char → Option (List Char × List Char)
  | [] => none
  | c :: rest =>
    match splitLast? sep rest with
    | some (before, after) => some (c :: before, after)
    | none => if c = sep then some ([], rest) else none

def beginsWith (start s : String) : Bool := start.toList.isPrefixOf s.toList

end AssemblyPolicy
