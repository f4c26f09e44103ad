import AssemblyPolicy.Json.Token
import AssemblyPolicy.Toml.Value

/-!
# TOML texts

Blanks and comments between the parts of a document, quoted texts of the four kinds, and keys.
-/

namespace AssemblyPolicy.Toml

/-! ### Between the parts -/

/-- A blank inside a line. -/
def isSpace (c : Char) : Bool := c = ' ' || c = '\t'

def skipSpaces (cs : List Char) : List Char := cs.dropWhile isSpace

/-- May the character stand in a comment or a quoted text as it is? -/
def isPlain (c : Char) : Bool := c = '\t' || (0x20 ≤ c.toNat && c.toNat ≠ 0x7F)

/-- What follows blanks, line breaks and comments. -/
def skipFiller (inComment : Bool) : List Char → Option (List Char)
  | [] => some []
  | '\n' :: rest => skipFiller false rest
  | '\r' :: '\n' :: rest => skipFiller false rest
  | c :: rest =>
    if inComment then
      if isPlain c then skipFiller true rest else none
    else if isSpace c then skipFiller false rest
    else if c = '#' then skipFiller true rest
    else some (c :: rest)

/-- What follows blanks, and line breaks and comments too when a gap may have several lines. -/
def skipGap (severalLines : Bool) (cs : List Char) : Option (List Char) :=
  if severalLines then skipFiller false cs else some (skipSpaces cs)

/-- What follows the end of a line, with a comment before it or not. -/
def endLine (cs : List Char) : Option (List Char) :=
  let cs := skipSpaces cs
  let cs := match cs with
    | '#' :: rest => rest.dropWhile isPlain
    | cs => cs
  match cs with
  | [] => some []
  | '\n' :: rest => some rest
  | '\r' :: '\n' :: rest => some rest
  | _ => none

/-! ### Escapes -/

/-- The character with a code point, unless it is a surrogate or out of range. -/
def scalar? (n : Nat) : Option Char := if h : n.isValidChar then some (Char.ofNatAux n h) else none

/-- A character given by a number of hexadecimal digits. -/
def hexChar? (count : Nat) (cs : List Char) : Option (Char × List Char) := do
  let digits := cs.take count
  if digits.length < count then none
  else
    let values ← digits.mapM Json.hexDigit?
    let c ← scalar? (values.foldl (fun n d => n * 16 + d) 0)
    some (c, cs.drop count)

/-- The character of an escape after its backslash. -/
def escape? : List Char → Option (Char × List Char)
  | 'b' :: rest => some ('\x08', rest)
  | 't' :: rest => some ('\t', rest)
  | 'n' :: rest => some ('\n', rest)
  | 'f' :: rest => some ('\x0c', rest)
  | 'r' :: rest => some ('\r', rest)
  | 'e' :: rest => some ('\x1b', rest)
  | '"' :: rest => some ('"', rest)
  | '\\' :: rest => some ('\\', rest)
  | 'x' :: rest => hexChar? 2 rest
  | 'u' :: rest => hexChar? 4 rest
  | 'U' :: rest => hexChar? 8 rest
  | _ => none

/-! ### Quoted texts -/

/-- The rest of a literal text, in single quotes. -/
def literal? (done : List Char) : List Char → Option (String × List Char)
  | [] => none
  | '\x27' :: rest => some (String.ofList done.reverse, rest)
  | c :: rest => if isPlain c then literal? (c :: done) rest else none

/-- The rest of a basic text, in double quotes, with at most `fuel` characters. -/
def basic? (fuel : Nat) (done : List Char) (cs : List Char) : Option (String × List Char) :=
  match fuel, cs with
  | 0, _ => none
  | _ + 1, [] => none
  | _ + 1, '"' :: rest => some (String.ofList done.reverse, rest)
  | fuel + 1, '\\' :: rest => do
    let (c, rest) ← escape? rest
    basic? fuel (c :: done) rest
  | fuel + 1, c :: rest => if isPlain c then basic? fuel (c :: done) rest else none

/-- Three or more quotes end a text over several lines; up to two more belong to it. -/
def closing? (quote : Char) (done : List Char) (cs : List Char) : Option (String × List Char) :=
  let run := (cs.takeWhile (· = quote)).length
  if 3 ≤ run then
    let inside := min run 5 - 3
    some (String.ofList (List.replicate inside quote ++ done).reverse, cs.drop (inside + 3))
  else none

/-- A line break right after the opening quotes does not count. -/
def skipFirstBreak : List Char → List Char
  | '\n' :: rest => rest
  | '\r' :: '\n' :: rest => rest
  | cs => cs

def longLiteral? (done : List Char) : List Char → Option (String × List Char)
  | [] => none
  | c :: rest =>
    match closing? '\x27' done (c :: rest) with
    | some r => some r
    | none =>
      if c = '\r' then
        if rest.head? = some '\n' then longLiteral? (c :: done) rest else none
      else if c = '\n' || isPlain c then longLiteral? (c :: done) rest
      else none

def skipBlankLines : List Char → List Char
  | '\r' :: '\n' :: rest => skipBlankLines rest
  | c :: rest => if isSpace c || c = '\n' then skipBlankLines rest else c :: rest
  | [] => []

/-- What follows a backslash at the end of a line: all blanks and line breaks are skipped. -/
def foldedLine? (cs : List Char) : Option (List Char) :=
  match skipSpaces cs with
  | '\n' :: rest => some (skipBlankLines rest)
  | '\r' :: '\n' :: rest => some (skipBlankLines rest)
  | _ => none

/-- The rest of a basic text over several lines, with at most `fuel` characters. -/
def longBasic? (fuel : Nat) (done : List Char) (cs : List Char) : Option (String × List Char) :=
  match fuel, cs with
  | 0, _ => none
  | _ + 1, [] => none
  | fuel + 1, '\\' :: rest =>
    match foldedLine? rest with
    | some rest => longBasic? fuel done rest
    | none => do
      let (c, rest) ← escape? rest
      longBasic? fuel (c :: done) rest
  | fuel + 1, c :: rest =>
    match closing? '"' done (c :: rest) with
    | some r => some r
    | none =>
      if c = '\r' then
        if rest.head? = some '\n' then longBasic? fuel (c :: done) rest else none
      else if c = '\n' || isPlain c then longBasic? fuel (c :: done) rest
      else none

/-- A text in quotes of any kind, if one begins here. -/
def quoted? (cs : List Char) : Option (Option (String × List Char)) :=
  match cs with
  | '"' :: '"' :: '"' :: rest =>
    let rest := skipFirstBreak rest
    some (longBasic? (rest.length + 1) [] rest)
  | '\x27' :: '\x27' :: '\x27' :: rest => some (longLiteral? [] (skipFirstBreak rest))
  | '"' :: rest => some (basic? (rest.length + 1) [] rest)
  | '\x27' :: rest => some (literal? [] rest)
  | _ => none

/-! ### Keys -/

def isKeyChar (c : Char) : Bool := c.isAlphanum || c = '_' || c = '-'

/-- A single key. Texts over several lines are no keys. -/
def simpleKey? (cs : List Char) : Option (String × List Char) :=
  match cs with
  | '"' :: '"' :: '"' :: _ => none
  | '\x27' :: '\x27' :: '\x27' :: _ => none
  | '"' :: rest => basic? (rest.length + 1) [] rest
  | '\x27' :: rest => literal? [] rest
  | cs =>
    let key := cs.takeWhile isKeyChar
    if key = [] then none else some (String.ofList key, cs.dropWhile isKeyChar)

/-- The keys after a dot, with at most `fuel` of them. -/
def moreKeys? (fuel : Nat) (cs : List Char) : Option (List String × List Char) :=
  match fuel, skipSpaces cs with
  | 0, _ => none
  | fuel + 1, '.' :: rest => do
    let (key, rest) ← simpleKey? (skipSpaces rest)
    let (keys, rest) ← moreKeys? fuel rest
    some (key :: keys, rest)
  | _ + 1, rest => some ([], rest)

/-- A key has at most this many parts. -/
def keyLimit : Nat := 80

/-- A key with dots in it or not, and blanks after it. -/
def key? (cs : List Char) : Option (List String × List Char) := do
  let (key, rest) ← simpleKey? cs
  let (keys, rest) ← moreKeys? (rest.length + 1) rest
  if (key :: keys).length ≤ keyLimit then some (key :: keys, rest) else none

end AssemblyPolicy.Toml
