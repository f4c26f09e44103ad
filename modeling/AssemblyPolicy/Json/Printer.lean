import AssemblyPolicy.Json.Basic
import AssemblyPolicy.Decimal.Shortest

/-!
# Printing JSON

`Json.compact` writes a value on one line without blanks, `Json.pretty` with one item or member a
line and two blanks of indentation for each level.
-/

namespace AssemblyPolicy.Json

def hexChar (n : Nat) : Char := Char.ofNat (if n < 10 then 48 + n else 87 + n)

def escapeChar : Char → List Char
  | '"' => ['\\', '"']
  | '\\' => ['\\', '\\']
  | '\x08' => ['\\', 'b']
  | '\x0c' => ['\\', 'f']
  | '\n' => ['\\', 'n']
  | '\r' => ['\\', 'r']
  | '\t' => ['\\', 't']
  | c =>
    if c.toNat < 0x20 then ['\\', 'u', '0', '0', hexChar (c.toNat / 16), hexChar (c.toNat % 16)]
    else [c]

def quote (s : String) : List Char := '"' :: s.toList.flatMap escapeChar ++ ['"']

def Number.render : Number → List Char
  | .int n => (toString n).toList
  | .double d => d.render

/-- How the parts of a container are set: on one line, or each on a line of its own. -/
inductive Layout where
  | compact
  | pretty (indent : Nat)

namespace Layout

def inner : Layout → Layout
  | .compact => .compact
  | .pretty n => .pretty (n + 1)

/-- The line break before a part set in this layout. -/
def lineBreak : Layout → List Char
  | .compact => []
  | .pretty n => '\n' :: List.replicate (2 * n) ' '

def colon : Layout → List Char
  | .compact => [':']
  | .pretty _ => [':', ' ']

/-- Set rendered parts between brackets. -/
def enclose (layout : Layout) (start stop : Char) : List (List Char) → List Char
  | [] => [start, stop]
  | p :: ps =>
    let sep := ',' :: layout.inner.lineBreak
    start :: layout.inner.lineBreak ++ p ++ ps.flatMap (sep ++ ·) ++ layout.lineBreak ++ [stop]

end Layout

mutual

def render (layout : Layout) : Json → List Char
  | .null => ['n', 'u', 'l', 'l']
  | .bool true => ['t', 'r', 'u', 'e']
  | .bool false => ['f', 'a', 'l', 's', 'e']
  | .number n => n.render
  | .string s => quote s
  | .array items => layout.enclose '[' ']' (renderItems layout.inner items)
  | .object members => layout.enclose '\x7b' '\x7d' (renderMembers layout.inner members)

def renderItems (layout : Layout) : List Json → List (List Char)
  | [] => []
  | v :: rest => render layout v :: renderItems layout rest

def renderMembers (layout : Layout) : List (String × Json) → List (List Char)
  | [] => []
  | (k, v) :: rest =>
    (quote k ++ layout.colon ++ render layout v) :: renderMembers layout rest

end

/-- The text of a value on one line. -/
def compact (v : Json) : String := String.ofList (render .compact v)

/-- The text of a value, one part a line. -/
def pretty (v : Json) : String := String.ofList (render (.pretty 0) v)

end AssemblyPolicy.Json
