import AssemblyPolicy.Text.Printable

/-!
# Quoted texts in messages

A text between double quotes. Quotes, backslashes and a few control characters have short escapes,
and every other hidden character is given by its code point.
-/

namespace AssemblyPolicy.Quoted

/-- A character inside a quoted text. -/
def escapeChar (c : Char) : List Char :=
  match c with
  | '"' => ['\\', '"']
  | '\\' => ['\\', '\\']
  | '\t' => ['\\', 't']
  | '\r' => ['\\', 'r']
  | '\n' => ['\\', 'n']
  | c =>
    if c.toNat = 0 then ['\\', '0']
    else if isHidden c then
      ['\\', 'u', '\x7b'] ++ Nat.toDigits 16 c.toNat ++ ['\x7d']
    else [c]

def quote (s : String) : String := String.ofList ('"' :: s.toList.flatMap escapeChar ++ ['"'])

/-- A list of texts in quotes, between brackets. -/
def list (texts : List String) : String := "[" ++ ", ".intercalate (texts.map quote) ++ "]"

end AssemblyPolicy.Quoted
