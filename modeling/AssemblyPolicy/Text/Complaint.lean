import AssemblyPolicy.Text.Split

/-!
# Complaints

A `Complaint` says what went wrong and what caused it. It is written on one line by `inline`, and as
a block with the causes below each other by `block`.
-/

namespace AssemblyPolicy

/-- What went wrong, and the causes of it from the nearest to the deepest. -/
structure Complaint where
  text : String
  causes : List String
  deriving DecidableEq

namespace Complaint

def plain (text : String) : Complaint := ⟨text, []⟩

/-- Say what was being done when a complaint arose. -/
def during (c : Complaint) (text : String) : Complaint := ⟨text, c.text :: c.causes⟩

/-- The complaint on one line, with colons between causes. -/
def inline (c : Complaint) : String := ": ".intercalate (c.text :: c.causes)

/-- A text whose lines after the first are indented. -/
def indented (width : Nat) (text : String) : String :=
  String.ofList <| text.toList.flatMap fun c =>
    if c = '\n' then '\n' :: List.replicate width ' ' else [c]

def numbered (index : Nat) (cause : String) : String :=
  let number := toString index
  String.ofList (List.replicate (5 - number.length) ' ') ++ number ++ ": " ++ indented 7 cause

/-- The lines that list causes. A single cause has no number. -/
def causeLines : List String → List String
  | [] => []
  | [cause] => ["", "Caused by:", "    " ++ indented 4 cause]
  | causes => "" :: "Caused by:" :: causes.mapIdx numbered

def block (c : Complaint) : String := "\n".intercalate (c.text :: causeLines c.causes)

end Complaint

end AssemblyPolicy
