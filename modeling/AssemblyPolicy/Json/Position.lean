/-!
# Places in a text

A reader stands at a `Place` of the text that it reads, given by what is still ahead of it.
`Place.position` gives the line and the column, which people count from the start.
-/

namespace AssemblyPolicy.Json

/-- A place in a text. It may lie inside a character of several bytes. -/
structure Place where
  /-- What follows the last character that was read as a whole. -/
  rest : List Char
  /-- How many bytes of the rest were read as well. -/
  bytes : Nat
  deriving DecidableEq, Inhabited

/-- A line, counted from one, and the number of bytes before the place on that line. -/
structure Position where
  line : Nat
  column : Nat
  deriving DecidableEq

def byteCount (cs : List Char) : Nat := cs.foldr (fun c n => c.utf8Size + n) 0

namespace Position

def after (p : Position) (c : Char) : Position :=
  if c = '\n' then ⟨p.line + 1, 0⟩ else ⟨p.line, p.column + c.utf8Size⟩

/-- The position some bytes further into a text, or at its end. -/
def afterBytes (p : Position) (count : Nat) : List Char → Position
  | [] => p
  | c :: cs =>
    if count = 0 then p
    else if c.utf8Size ≤ count then (p.after c).afterBytes (count - c.utf8Size) cs
    else ⟨p.line, p.column + count⟩

def message (p : Position) : String := s!"at line {p.line} column {p.column}"

end Position

def Place.position (text : List Char) (p : Place) : Position :=
  Position.afterBytes ⟨1, 0⟩ (byteCount text - byteCount p.rest + p.bytes) text

/-- Where something stands in a text: the text from its start on, and what follows it. Things that
stand in no text have the empty span. -/
structure Span where
  start : List Char
  stop : List Char
  deriving DecidableEq, Inhabited

def Span.none : Span := ⟨[], []⟩

end AssemblyPolicy.Json
