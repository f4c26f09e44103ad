import AssemblyPolicy.Report.Timestamp
import AssemblyPolicy.Text.Split
import AssemblyPolicy.Toml.Text

/-!
# TOML numbers, dates and times

Values without quotes. Digits may have single underscores between them; a decimal number has no
leading zero, unless a sign and an underscore stand before it.
-/

namespace AssemblyPolicy.Toml

/-! ### Digits -/

/-- The digits of a run without its underscores, each of which must stand between two digits. -/
def digitRun? (isDigit : Char → Bool) : List Char → Option (List Char)
  | [] => none
  | [c] => if isDigit c then some [c] else none
  | c :: '_' :: rest =>
    if isDigit c then (digitRun? isDigit rest).map (c :: ·) else none
  | c :: rest => if isDigit c then (digitRun? isDigit rest).map (c :: ·) else none

/-- The digits of a decimal number in front of its fraction. There is no leading zero, but right after
a sign an underscore may stand, and any digits behind it. -/
def wholeDigits? (afterSign : Bool) (cs : List Char) : Option (List Char) :=
  match afterSign, cs with
  | true, '_' :: cs => digitRun? Char.isDigit cs
  | _, cs => do
    let ds ← digitRun? Char.isDigit cs
    match ds with
    | '0' :: _ :: _ => none
    | ds => some ds

def valueIn (base : Nat) (ds : List Char) : Nat :=
  ds.foldl (fun n c => n * base + (Json.hexDigit? c).getD 0) 0

def isDigitIn (base : Nat) (c : Char) : Bool := (Json.hexDigit? c).any (· < base)

inductive Sign where
  | plus
  | minus
  deriving DecidableEq

def splitSign (cs : List Char) : Option Sign × List Char :=
  match cs with
  | '+' :: rest => (some .plus, rest)
  | '-' :: rest => (some .minus, rest)
  | cs => (none, cs)

/-! ### Numbers -/

/-- An integer in base sixteen, eight or two. -/
def prefixedInteger? : List Char → Option Value
  | '0' :: 'x' :: ds => (digitRun? (isDigitIn 16) ds).map fun ds => .integer (valueIn 16 ds)
  | '0' :: 'o' :: ds => (digitRun? (isDigitIn 8) ds).map fun ds => .integer (valueIn 8 ds)
  | '0' :: 'b' :: ds => (digitRun? (isDigitIn 2) ds).map fun ds => .integer (valueIn 2 ds)
  | _ => none

def decimalInteger? (cs : List Char) : Option Value := do
  let (sign, cs) := splitSign cs
  let ds ← wholeDigits? sign.isSome cs
  let n : Int := valueIn 10 ds
  some (.integer (if sign = some .minus then -n else n))

/-- The double nearest to a decimal, or nothing if that is infinite. -/
def finite? (negative : Bool) (ds : List Char) (exponent : Int) : Option Double :=
  let digits := ds.dropWhile (· = '0')
  let scientific := exponent + digits.length
  if digits = [] ∨ scientific < -400 then some (.ofFloat (if negative then -0.0 else 0.0))
  else if 400 < scientific then none
  else
    let x := Float.ofScientific (valueIn 10 digits) (exponent < 0) exponent.natAbs
    if x.isInf then none else some (.ofFloat (if negative then -x else x))

/-- The exponent of a float after its mark. -/
def exponent? (cs : List Char) : Option Int := do
  let (sign, cs) := splitSign cs
  let ds ← digitRun? Char.isDigit cs
  let n : Int := valueIn 10 ds
  some (if sign = some .minus then -n else n)

/-- A finite float: digits with a fraction, an exponent or both. -/
def finiteFloat? (cs : List Char) : Option Value := do
  let (sign, cs) := splitSign cs
  let negative : Bool := sign = some .minus
  let isMark (c : Char) : Bool := c = 'e' || c = 'E'
  let mantissa := cs.takeWhile (!isMark ·)
  let exponent ← match cs.dropWhile (!isMark ·) with
    | [] => some 0
    | _ :: rest => exponent? rest
  match splitFirst? '.' mantissa with
  | none => do
    let ds ← wholeDigits? sign.isSome mantissa
    some (.float (finite? negative ds exponent))
  | some (whole, fraction) => do
    let ds ← wholeDigits? sign.isSome whole
    let fs ← digitRun? Char.isDigit fraction
    some (.float (finite? negative (ds ++ fs) (exponent - fs.length)))

/-- An infinity or a value that is no number. -/
def specialFloat? (cs : List Char) : Option Value :=
  let (sign, cs) := splitSign cs
  let infinite : Float := 1.0 / 0.0
  if cs = ['i', 'n', 'f'] then
    some (.float (some (.ofFloat (if sign = some .minus then -infinite else infinite))))
  else if cs = ['n', 'a', 'n'] then some (.float (some (.ofFloat (0.0 / 0.0))))
  else none

/-! ### Dates and times -/

/-- What follows a date. -/
def date? (cs : List Char) : Option (List Char) := do
  let (year, cs) ← Timestamp.digits? 4 cs
  let cs ← Timestamp.char? '-' cs
  let (month, cs) ← Timestamp.digits? 2 cs
  let cs ← Timestamp.char? '-' cs
  let (day, cs) ← Timestamp.digits? 2 cs
  if Timestamp.isDate year month day then some cs else none

/-- What follows a time, the seconds of which may be missing. -/
def time? (cs : List Char) : Option (List Char) := do
  let (hour, cs) ← Timestamp.digits? 2 cs
  let cs ← Timestamp.char? ':' cs
  let (minute, cs) ← Timestamp.digits? 2 cs
  if hour > 23 || minute > 59 then none
  else match cs with
    | ':' :: cs => do
      let (second, cs) ← Timestamp.digits? 2 cs
      let (_, cs) ← (Timestamp.readFraction cs).toOption
      if second ≤ 60 then some cs else none
    | cs => some cs

/-- Is this a date, a time, or both with an offset or without? -/
def isDatetime (cs : List Char) : Bool :=
  match date? cs with
  | some [] => true
  | some (c :: rest) =>
    (c = 'T' || c = 't' || c = ' ') &&
      match time? rest with
      | some [] => true
      | some rest => ((Timestamp.readOffset rest).toOption.map (·.2)) = some []
      | none => false
  | none => time? cs = some []

/-! ### All values without quotes -/

/-- May the character stand in a value without quotes? -/
def isBareChar (c : Char) : Bool := c.isAlphanum || c = '+' || c = '-' || c = '_' || c = '.' || c = ':'

def bareValue? (cs : List Char) : Option Value :=
  if cs = ['t', 'r', 'u', 'e'] then some (.bool true)
  else if cs = ['f', 'a', 'l', 's', 'e'] then some (.bool false)
  else if isDatetime cs then some (.datetime (String.ofList cs))
  else
    ((prefixedInteger? cs).or (decimalInteger? cs)).or
      ((finiteFloat? cs).or (specialFloat? cs))

/-- A value without quotes. A date may be followed by a blank and a time. -/
def bare? (cs : List Char) : Option (Value × List Char) := do
  let run := cs.takeWhile isBareChar
  let rest := cs.dropWhile isBareChar
  match rest with
  | ' ' :: c :: rest' =>
    if date? run = some [] ∧ c.isDigit then
      let run := run ++ ' ' :: (c :: rest').takeWhile isBareChar
      let v ← bareValue? run
      some (v, (c :: rest').dropWhile isBareChar)
    else
      let v ← bareValue? run
      some (v, rest)
  | rest =>
    let v ← bareValue? run
    some (v, rest)

end AssemblyPolicy.Toml
