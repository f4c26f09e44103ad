import AssemblyPolicy.Glob.Expression
import AssemblyPolicy.Glob.Parser

/-!
# Lists of patterns

`Glob.parseAll` reads patterns that are used together. A pattern that is searched for may turn out to
nest too deep only then: those with an extension are looked at one by one, the others as one list.
-/

namespace AssemblyPolicy.Glob

inductive Error where
  | unreadable (pattern : String) (cause : ParseError)
  | tooDeep (expression : String)
  /-- The number of the pattern among those that are searched for. -/
  | tooDeepAt (index : Nat)
  deriving DecidableEq

def Error.message : Error → String
  | unreadable pattern cause => "error parsing glob '" ++ pattern ++ "': " ++ cause.message
  | tooDeep expression => "error parsing glob '" ++ expression ++ "': error parsing pattern 0"
  | tooDeepAt index => "error parsing pattern " ++ toString index

def parse (pattern : String) : Except Error Glob :=
  match readTokens [] [] none pattern.toList with
  | .ok tokens => .ok ⟨pattern, tokens⟩
  | .error cause => .error (.unreadable pattern cause)

def parseEach : List String → Except Error (List Glob)
  | [] => .ok []
  | p :: rest => do
    let g ← parse p
    let gs ← parseEach rest
    .ok (g :: gs)

/-- The patterns that are matched in a certain way. -/
def matchedBy (s : Strategy) (gs : List Glob) : List Glob := gs.filter fun g => strategy g.tokens = s

/-- What is wrong with patterns that are read, when some of them nest too deep. -/
def nestingError? (gs : List Glob) : Option Error :=
  match (matchedBy .extension gs).find? fun g => isTooDeep g.tokens with
  | some g => some (.tooDeep (expression g.tokens))
  | none => ((matchedBy .search gs).findIdx? fun g => isTooDeep g.tokens).map .tooDeepAt

/-- Read patterns that are used together. -/
def parseAll (patterns : List String) : Except Error (List Glob) := do
  let gs ← parseEach patterns
  match nestingError? gs with
  | some e => .error e
  | none => .ok gs

end AssemblyPolicy.Glob
