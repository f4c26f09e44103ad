import AssemblyPolicy.Glob.Basic

/-!
# Patterns as regular expressions

A pattern that no comparison decides is searched for by a regular expression over bytes. Its text
stands in messages, and how deep it nests decides whether it can be used.
-/

namespace AssemblyPolicy.Glob

/-! ### The text of an expression -/

/-- The characters with a meaning in expressions. -/
def metaCharacters : List Char :=
  ['\\', '.', '+', '*', '?', '(', ')', '|', '[', ']', '\x7b', '\x7d', '^', '$', '#', '&', '-', '~']

/-- A character that stands for itself. One beyond ASCII is given by its bytes. -/
def escapeChar (c : Char) : List Char :=
  if c ∈ metaCharacters then ['\\', c]
  else if c.toNat < 0x80 then [c]
  else (charBytes c).flatMap fun b => ['\\', 'x'] ++ Nat.toDigits 16 b.toNat

def rangeExpression (r : Char × Char) : List Char :=
  if r.1 = r.2 then escapeChar r.1 else escapeChar r.1 ++ '-' :: escapeChar r.2

mutual

def Token.expression : Token → List Char
  | .literal c => escapeChar c
  | .any => ['.']
  | .many => ['.', '*']
  | .leading => "(?:/?|.*/)".toList
  | .trailing => "/.*".toList
  | .between => "(?:/|/.*/)".toList
  | .oneOf negated ranges =>
    '[' :: (if negated then ['^'] else []) ++ ranges.flatMap rangeExpression ++ [']']
  | .alternatives branches =>
    if branchesEmpty branches then []
    else "(?:".toList ++ ['|'].intercalate (branchExpressions branches) ++ [')']

def tokensExpression : List Token → List Char
  | [] => []
  | t :: rest => t.expression ++ tokensExpression rest

/-- The expressions of branches; empty branches do not count. -/
def branchExpressions : List (List Token) → List (List Char)
  | [] => []
  | b :: rest =>
    if tokensEmpty b then branchExpressions rest
    else tokensExpression b :: branchExpressions rest

end

/-- The expression that a whole name must match. -/
def expression (tokens : List Token) : String :=
  let inner := match tokens with
    | [.leading] => ['.', '*']
    | tokens => tokensExpression tokens
  "(?-u)^" ++ String.ofList inner ++ "$"

/-! ### Its nesting -/

/-- The number of characters and ranges in a class. Of characters of several bytes each byte counts,
save the two that form a range. -/
def classSize (ranges : List (Char × Char)) : Nat := (ranges.flatMap byteRanges).length

/-- How many parts in a row a token gives. -/
def Token.width : Token → Nat
  | .literal c => c.utf8Size
  | .trailing => 2
  | .alternatives branches => if branchesEmpty branches then 0 else 1
  | _ => 1

def rowWidth (row : List Token) : Nat := row.foldr (fun t n => t.width + n) 0

/-- The depth of parts in a row, given their number and the depth of the deepest. -/
def rowDepth (width deepest : Nat) : Nat := if width ≤ 1 then deepest else deepest + 1

mutual

/-- How deep the expression of a token nests: repetitions, classes, groups, choices and rows each
count. -/
def Token.depth : Token → Nat
  | .literal _ => 0
  | .any => 0
  | .many => 1
  | .leading => 4
  | .trailing => 1
  | .between => 4
  | .oneOf _ ranges => if classSize ranges ≤ 1 then 1 else 2
  | .alternatives branches =>
    let (count, deepest) := branchDepths branches
    if count = 0 then 0 else if count = 1 then deepest + 1 else deepest + 2

def deepest : List Token → Nat
  | [] => 0
  | t :: rest => max t.depth (deepest rest)

/-- How many branches there are, and the depth of the deepest; empty branches do not count. -/
def branchDepths : List (List Token) → Nat × Nat
  | [] => (0, 0)
  | b :: rest =>
    let (count, depth) := branchDepths rest
    if tokensEmpty b then (count, depth)
    else (count + 1, max depth (rowDepth (rowWidth b) (deepest b)))

end

def depthLimit : Nat := 250

def isTooDeep (tokens : List Token) : Bool := depthLimit ≤ deepest tokens

end AssemblyPolicy.Glob
