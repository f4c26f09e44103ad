import AssemblyPolicy.Json.Basic
import AssemblyPolicy.Json.Position

/-!
# JSON tokens

A text is cut into tokens from left to right. A token that is broken keeps the fault a reader meets
in it, and there may be two of those: a reader that needs the value looks closer than one that only
passes over it.
-/

namespace AssemblyPolicy.Json

inductive FaultKind where
  | endInList
  | endInObject
  | endInString
  | endInValue
  | noColon
  | noItemSeparator
  | noMemberSeparator
  | noKeyword
  | noValue
  | badEscape
  | badNumber
  | numberOutOfRange
  | controlCharacter
  | keyNotString
  | loneSurrogate
  | brokenPair
  | trailingComma
  | trailingCharacters
  | tooDeep
  deriving DecidableEq, Inhabited

namespace FaultKind

def isEnd : FaultKind → Bool
  | endInList => true
  | endInObject => true
  | endInString => true
  | endInValue => true
  | _ => false

def message : FaultKind → String
  | endInList => "EOF while parsing a list"
  | endInObject => "EOF while parsing an object"
  | endInString => "EOF while parsing a string"
  | endInValue => "EOF while parsing a value"
  | noColon => "expected `:`"
  | noItemSeparator => "expected `,` or `]`"
  | noMemberSeparator => "expected `,` or `\x7d`"
  | noKeyword => "expected ident"
  | noValue => "expected value"
  | badEscape => "invalid escape"
  | badNumber => "invalid number"
  | numberOutOfRange => "number out of range"
  | controlCharacter => "control character (\\u0000-\\u001F) found while parsing a string"
  | keyNotString => "key must be a string"
  | loneSurrogate => "lone leading surrogate in hex escape"
  | brokenPair => "unexpected end of hex escape"
  | trailingComma => "trailing comma"
  | trailingCharacters => "trailing characters"
  | tooDeep => "recursion limit exceeded"

end FaultKind

/-- Why a text is not JSON, and where a reader notices. -/
structure Fault where
  kind : FaultKind
  place : Place
  deriving DecidableEq, Inhabited

namespace Fault

/-- A fault that is noticed before the next character. -/
def ahead (kind : FaultKind) (rest : List Char) : Fault := ⟨kind, ⟨rest, 0⟩⟩

/-- A fault that is noticed by the next byte, when there is one. -/
def inNext (kind : FaultKind) (rest : List Char) : Fault := ⟨kind, ⟨rest, 1⟩⟩

end Fault

/-- A place where a text stops being JSON: the fault met when the value there is wanted, and the
one met when it is passed over. -/
structure Break where
  reading : Fault
  skipping : Fault
  deriving DecidableEq, Inhabited

/-- The same fault for every reader. -/
def Break.of (f : Fault) : Break := ⟨f, f⟩

/-- A token. A text or number that can be passed over but has no value keeps its fault. -/
inductive Token where
  | openArray
  | closeArray
  | openObject
  | closeObject
  | comma
  | colon
  | null
  | bool (b : Bool)
  | number (n : Except Fault Number)
  | string (s : Except Fault String)
  /-- The text breaks off inside a quoted text. -/
  | brokenString (b : Break)
  /-- The text breaks off here. -/
  | broken (b : Break)

/-! ### Quoted texts -/

def hexDigit? (c : Char) : Option Nat :=
  if '0' ≤ c ∧ c ≤ '9' then some (c.toNat - 48)
  else if 'a' ≤ c ∧ c ≤ 'f' then some (c.toNat - 87)
  else if 'A' ≤ c ∧ c ≤ 'F' then some (c.toNat - 55)
  else none

/-- What four characters after `\u` give. Fewer than four bytes left are an early end. -/
inductive HexRead where
  | unit (n : Nat) (rest : List Char)
  | fault (f : Fault)

def readHex (cs : List Char) : HexRead :=
  if byteCount (cs.take 4) < 4 then .fault (.ahead .endInString [])
  else match cs with
    | a :: b :: c :: d :: rest =>
      match hexDigit? a, hexDigit? b, hexDigit? c, hexDigit? d with
      | some a, some b, some c, some d => .unit (((a * 16 + b) * 16 + c) * 16 + d) rest
      | _, _, _, _ => .fault ⟨.badEscape, ⟨cs, 4⟩⟩
    | _ => .fault ⟨.badEscape, ⟨cs, 4⟩⟩

theorem readHex_length {cs rest : List Char} {n : Nat} (h : readHex cs = .unit n rest) :
    rest.length < cs.length := by
  unfold readHex at h
  split at h
  · cases h
  · split at h
    · split at h
      · cases h
        simp only [List.length_cons]
        omega
      · cases h
    · cases h

/-- The character of an escape of one letter. -/
def shortEscape? : Char → Option Char
  | '"' => some '"'
  | '\\' => some '\\'
  | '/' => some '/'
  | 'b' => some '\x08'
  | 'f' => some '\x0c'
  | 'n' => some '\n'
  | 'r' => some '\r'
  | 't' => some '\t'
  | _ => none

def pairChar (high low : Nat) : Char :=
  Char.ofNat ((high - 0xD800) * 0x400 + (low - 0xDC00) + 0x10000)

/-- How passing over the rest of a quoted text ends: after its closing quote, or at a fault. -/
inductive StringSkip where
  | done (rest : List Char)
  | fault (f : Fault)

/-- Pass over a quoted text. Escapes are checked for their form only. -/
def skipString (cs : List Char) : StringSkip :=
  match cs with
  | [] => .fault (.ahead .endInString [])
  | '"' :: rest => .done rest
  | '\\' :: rest =>
    match rest with
    | [] => .fault (.ahead .endInString [])
    | 'u' :: hex =>
      match h : readHex hex with
      | .unit _ rest' =>
        have := readHex_length h
        skipString rest'
      | .fault f => .fault f
    | c :: rest' =>
      if (shortEscape? c).isSome then skipString rest' else .fault (.inNext .badEscape (c :: rest'))
  | c :: rest =>
    if c.toNat < 0x20 then .fault (.ahead .controlCharacter (c :: rest)) else skipString rest
termination_by cs.length

inductive PartnerRead where
  | partner (low : Nat) (rest : List Char)
  | fault (f : Fault)

/-- Read the low surrogate that must follow a high one. -/
def readPartner : List Char → PartnerRead
  | [] | ['\\'] => .fault (.ahead .endInString [])
  | '\\' :: 'u' :: hex =>
    match readHex hex with
    | .fault f => .fault f
    | .unit n rest =>
      if 0xDC00 ≤ n ∧ n ≤ 0xDFFF then .partner n rest else .fault (.ahead .loneSurrogate rest)
  | '\\' :: cs | cs => .fault (.inNext .brokenPair cs)

theorem readPartner_length {cs rest : List Char} {n : Nat} (h : readPartner cs = .partner n rest) :
    rest.length < cs.length := by
  unfold readPartner at h
  split at h
  · cases h
  · cases h
  · split at h
    · cases h
    · rename_i hx
      split at h
      · cases h
        have := readHex_length hx
        simp only [List.length_cons]
        omega
      · cases h
  · cases h
  · cases h

/-- Read a quoted text after its opening quote, given the characters read so far in reverse. -/
def readString (cs : List Char) (done : List Char) : Except Fault (List Char × List Char) :=
  match cs with
  | [] => .error (.ahead .endInString [])
  | '"' :: rest => .ok (done.reverse, rest)
  | '\\' :: rest =>
    match rest with
    | [] => .error (.ahead .endInString [])
    | 'u' :: hex =>
      match h : readHex hex with
      | .fault f => .error f
      | .unit n rest' =>
        have := readHex_length h
        if 0xDC00 ≤ n ∧ n ≤ 0xDFFF then .error (.ahead .loneSurrogate rest')
        else if n < 0xD800 ∨ 0xDBFF < n then readString rest' (Char.ofNat n :: done)
        else
          match h' : readPartner rest' with
          | .fault f => .error f
          | .partner m rest'' =>
            have := readPartner_length h'
            readString rest'' (pairChar n m :: done)
    | c :: rest' =>
      match shortEscape? c with
      | some e => readString rest' (e :: done)
      | none => .error (.inNext .badEscape (c :: rest'))
  | c :: rest =>
    if c.toNat < 0x20 then .error (.inNext .controlCharacter (c :: rest))
    else readString rest (c :: done)
termination_by cs.length

/-! ### Numbers -/

def digitsValue (digits : List Char) : Nat :=
  digits.foldl (fun n c => n * 10 + (c.toNat - 48)) 0

/-- Take digits into a 64-bit significand as long as they fit. -/
def takeFitting : Nat → List Char → Nat × List Char
  | n, [] => (n, [])
  | n, c :: rest =>
    let m := n * 10 + (c.toNat - 48)
    if m < UInt64.size then takeFitting m rest else (n, c :: rest)

/-- The number with this sign, integer digits, fraction digits and exponent; `none` when it is out
of range. Integers that fit 64 bits stay integers, minus zero apart. -/
def Number.ofNumeral? (negative : Bool) (whole fraction : List Char) (exponent : Option Int) :
    Option Number :=
  let (n, lost) := takeFitting 0 whole
  if fraction = [] ∧ exponent = none ∧ lost = [] ∧ (!negative || (0 < n ∧ 2 * n ≤ UInt64.size)) then
    some (.int (if negative then -(n : Int) else n))
  else
    let (m, ignored) := takeFitting n fraction
    let places : Int := lost.length - (fraction.length - ignored.length : Nat)
    (Double.ofDecimal? negative m.toUInt64 (places + exponent.getD 0)).map .double

/-- The exponent part of a number: none, a value, or a break. -/
inductive ExponentRead where
  | absent
  | value (e : Int) (rest : List Char)
  | fault (b : Break)

/-- The break where a digit is missing: at the end of the text, or at another character. -/
def noDigit (cs : List Char) : Break :=
  ⟨if cs = [] then .ahead .endInValue [] else .inNext .badNumber cs, .inNext .badNumber cs⟩

def readExponentDigits (negative : Bool) (cs : List Char) : ExponentRead :=
  let digits := cs.takeWhile Char.isDigit
  if digits = [] then .fault (noDigit cs)
  else
    let e : Int := digitsValue digits
    .value (if negative then -e else e) (cs.dropWhile Char.isDigit)

def readExponent : List Char → ExponentRead
  | 'e' :: rest | 'E' :: rest =>
    match rest with
    | '+' :: rest' => readExponentDigits false rest'
    | '-' :: rest' => readExponentDigits true rest'
    | _ => readExponentDigits false rest
  | _ => .absent

/-- Exponents above this one are out of range whatever comes after. -/
def exponentLimit : Nat := 2147483647

/-- The place where digits of an exponent, of which some value is known, pass the limit, or else their
end. -/
def exponentEnd (value : Nat) : List Char → List Char
  | [] => []
  | c :: rest =>
    if c.isDigit then
      let value := value * 10 + (c.toNat - 48)
      if exponentLimit < value then rest else exponentEnd value rest
    else c :: rest

/-- The token of a number whose digits are known. One that is out of range is noticed at `stop`. -/
def numberToken (negative : Bool) (whole fraction : List Char) (exponent : Option Int)
    (stop : List Char) : Token :=
  .number ((Number.ofNumeral? negative whole fraction exponent).elim
    (.error (.ahead .numberOutOfRange stop)) .ok)

def finishNumber (negative : Bool) (whole fraction : List Char) (cs : List Char) :
    Token × List Char :=
  match readExponent cs with
  | .absent => (numberToken negative whole fraction none cs, cs)
  | .value e rest =>
    let stop := exponentEnd 0 (cs.dropWhile (!·.isDigit))
    (numberToken negative whole fraction (some e) stop, rest)
  | .fault b => (.broken b, [])

/-- Read a number after its sign. A leading zero stands alone, and a point is followed by a
digit. -/
def readNumber (negative : Bool) (cs : List Char) : Token × List Char :=
  let whole := cs.takeWhile Char.isDigit
  let rest := cs.dropWhile Char.isDigit
  match whole with
  | [] => (.broken (noDigit cs), [])
  | '0' :: _ :: _ => (.broken (.of (.inNext .badNumber (cs.drop 1))), [])
  | _ =>
    match rest with
    | '.' :: rest' =>
      let fraction := rest'.takeWhile Char.isDigit
      if fraction = [] then (.broken (noDigit rest'), [])
      else finishNumber negative whole fraction (rest'.dropWhile Char.isDigit)
    | _ => finishNumber negative whole [] rest

/-! ### All tokens -/

def readKeyword (token : Token) : List Char → List Char → Token × List Char
  | [], cs => (token, cs)
  | _ :: _, [] => (.broken (.of (.ahead .endInValue [])), [])
  | k :: ks, c :: cs =>
    if k = c then readKeyword token ks cs
    else (.broken (.of (.inNext .noKeyword (c :: cs))), [])

def quotedToken (cs : List Char) : Token × List Char :=
  match readString cs [], skipString cs with
  | .ok (s, rest), _ => (.string (.ok (String.ofList s)), rest)
  | .error f, .done rest => (.string (.error f), rest)
  | .error f, .fault g => (.brokenString ⟨f, g⟩, [])

def isSpace (c : Char) : Bool := c = ' ' || c = '\n' || c = '\t' || c = '\r'

def tokenAt (c : Char) (rest : List Char) : Token × List Char :=
  match c with
  | '[' => (.openArray, rest)
  | ']' => (.closeArray, rest)
  | '\x7b' => (.openObject, rest)
  | '\x7d' => (.closeObject, rest)
  | ',' => (.comma, rest)
  | ':' => (.colon, rest)
  | '"' => quotedToken rest
  | 'n' => readKeyword .null ['u', 'l', 'l'] rest
  | 't' => readKeyword (.bool true) ['r', 'u', 'e'] rest
  | 'f' => readKeyword (.bool false) ['a', 'l', 's', 'e'] rest
  | '-' => readNumber true rest
  | c =>
    if c.isDigit then readNumber false (c :: rest)
    else (.broken (.of (.inNext .noValue (c :: rest))), [])

/-- The tokens of a text with their spans, at most `n` of them. Each takes at least one character. -/
def tokensUpTo : Nat → List Char → List (Token × Span)
  | 0, _ => []
  | n + 1, cs =>
    match cs.dropWhile isSpace with
    | [] => []
    | c :: rest =>
      let (token, rest') := tokenAt c rest
      (token, ⟨c :: rest, rest'⟩) :: tokensUpTo n rest'

/-- The tokens of a text with their spans; after a break there are no more. -/
def tokens (text : List Char) : List (Token × Span) := tokensUpTo text.length text

end AssemblyPolicy.Json
