/-!
# Timestamps

Dates with a time of day and an offset, in the notation of RFC 3339. Reading accepts any one ASCII
character between date and time, and a lower case `z`; writing uses `T` and `Z`, and as few digits of
a fraction as keep its value.
-/

namespace AssemblyPolicy

/-- A point in time as seen at some offset from UTC. -/
structure Timestamp where
  year : Nat
  month : Nat
  day : Nat
  hour : Nat
  minute : Nat
  second : Nat
  nanosecond : Nat
  /-- The offset from UTC in minutes. -/
  offset : Int
  deriving DecidableEq, Inhabited

namespace Timestamp

/-! ### The calendar -/

/-- Has the year a 29 February? -/
def isLeapYear (year : Nat) : Bool := year % 4 = 0 && (year % 100 ≠ 0 || year % 400 = 0)

def daysIn (year month : Nat) : Nat :=
  match month with
  | 2 => if isLeapYear year then 29 else 28
  | 4 | 6 | 9 | 11 => 30
  | _ => 31

/-- Is this a day of the calendar? -/
def isDate (year month day : Nat) : Bool :=
  1 ≤ month && month ≤ 12 && 1 ≤ day && day ≤ daysIn year month

/-- Does a month end in UTC with the minute that begins at this time? A leap second comes nowhere
else. An offset is less than a day, so the minute lies on the same day or on the one before. -/
def endsMonth (year month day hour minute : Nat) (offset : Int) : Bool :=
  let minutes : Int := (hour * 60 + minute : Nat) - offset
  minutes = 1439 && day = daysIn year month || minutes = -1 && day = 1

/-- The day that comes a number of days after 1 March 0000. The year is taken to begin in March, so
that a leap day is the last of its year, and 400 years to have 146,097 days. -/
def dateOf (days : Nat) : Nat × Nat × Nat :=
  let era := days / 146097
  let rest := days % 146097
  let yearOfEra := (rest - rest / 1460 + rest / 36524 - rest / 146096) / 365
  let dayOfYear := rest - (365 * yearOfEra + yearOfEra / 4 - yearOfEra / 100)
  let fifth := (5 * dayOfYear + 2) / 153
  let month := if fifth < 10 then fifth + 3 else fifth - 9
  (era * 400 + yearOfEra + if month ≤ 2 then 1 else 0, month, dayOfYear - (153 * fifth + 2) / 5 + 1)

/-- The days from 1 March 0000 to 1 January 1970. -/
def epoch : Nat := 719468

def nanosecondsPerSecond : Nat := 1000000000

/-- The time in UTC that comes a number of nanoseconds after the start of 1970. -/
def ofNanoseconds (n : Nat) : Timestamp :=
  let seconds := n / nanosecondsPerSecond
  let (year, month, day) := dateOf (epoch + seconds / 86400)
  let time := seconds % 86400
  ⟨year, month, day, time / 3600, time / 60 % 60, time % 60, n % nanosecondsPerSecond, 0⟩

/-! ### Reading -/

inductive ReadError where
  /-- A part is not there, or is not written as it has to be. -/
  | unreadable (part : String)
  /-- Something else stands where a mark between two parts must be. -/
  | noMark
  /-- The text goes on after the offset. -/
  | trailing
  /-- No time has a part with this value. -/
  | outOfRange (part : String)
  /-- There are times with this value of a part, but not with the other parts. -/
  | outOfPlace (part : String)
  deriving DecidableEq

def ReadError.message : ReadError → String
  | unreadable part => s!"the '{part}' component could not be parsed"
  | noMark => "a character literal was not valid"
  | trailing => "unexpected trailing characters; the end of input was expected"
  | outOfRange part => s!"{part} was not in range"
  | outOfPlace part => s!"{part} was not in range given values of other components"

/-- A given number of decimal digits. -/
def digits? : Nat → List Char → Option (Nat × List Char)
  | n, cs =>
    let ds := cs.take n
    if ds.length = n && ds.all Char.isDigit then
      some (ds.foldl (fun v c => v * 10 + (c.toNat - 48)) 0, cs.drop n)
    else none

/-- What follows a given character. -/
def char? (c : Char) : List Char → Option (List Char)
  | d :: rest => if d = c then some rest else none
  | [] => none

def readPart (part : String) (n : Nat) (cs : List Char) : Except ReadError (Nat × List Char) :=
  (digits? n cs).elim (.error (.unreadable part)) .ok

/-- Pass over a mark between two parts. -/
def skipMark (c : Char) (cs : List Char) : Except ReadError (List Char) :=
  (char? c cs).elim (.error .noMark) .ok

/-- The nanoseconds that the digits of a fraction stand for; those beyond the ninth do not count. -/
def nanoseconds (ds : List Char) : Nat :=
  let nine := (ds ++ List.replicate 9 '0').take 9
  nine.foldl (fun v c => v * 10 + (c.toNat - 48)) 0

/-- Read a fraction of a second, if there is one. -/
def readFraction : List Char → Except ReadError (Nat × List Char)
  | '.' :: rest =>
    let ds := rest.takeWhile Char.isDigit
    if ds = [] then .error (.unreadable "subsecond")
    else .ok (nanoseconds ds, rest.dropWhile Char.isDigit)
  | cs => .ok (0, cs)

/-- Does an offset lie to the west? -/
def readSign : List Char → Except ReadError (Bool × List Char)
  | '-' :: rest => .ok (true, rest)
  | '+' :: rest => .ok (false, rest)
  | _ => .error (.unreadable "offset hour")

def readOffset (cs : List Char) : Except ReadError (Int × List Char) :=
  match cs with
  | 'Z' :: rest => .ok (0, rest)
  | 'z' :: rest => .ok (0, rest)
  | cs => do
    let (negative, cs) ← readSign cs
    let (hour, cs) ← readPart "offset hour" 2 cs
    if 23 < hour then .error (.unreadable "offset hour")
    else
      let cs ← skipMark ':' cs
      let (minute, cs) ← readPart "offset minute" 2 cs
      if 59 < minute then .error (.outOfRange "offset minute")
      else
        let minutes : Int := (hour * 60 + minute : Nat)
        .ok (if negative then -minutes else minutes, cs)

def readMonth (cs : List Char) : Except ReadError (Nat × List Char) := do
  let (month, cs) ← readPart "month" 2 cs
  if 1 ≤ month ∧ month ≤ 12 then .ok (month, cs) else .error (.unreadable "month")

/-- Pass over what stands between date and time. -/
def skipSeparator : List Char → Except ReadError (List Char)
  | [] => .error (.unreadable "separator")
  | c :: rest => if c.toNat < 0x80 then .ok rest else .error (.unreadable "hour")

/-- Check the parts of a timestamp. A leap second counts as the last nanosecond before it. -/
def check (t : Timestamp) : Except ReadError Timestamp :=
  if !isDate t.year t.month t.day then .error (.outOfPlace "day")
  else if 23 < t.hour then .error (.outOfRange "hour")
  else if 59 < t.minute then .error (.outOfRange "minute")
  else if t.second ≤ 59 then .ok t
  else if 60 < t.second then .error (.outOfRange "second")
  else if endsMonth t.year t.month t.day t.hour t.minute t.offset then
    .ok { t with second := 59, nanosecond := 999999999 }
  else .error (.outOfPlace "second")

def read (text : String) : Except ReadError Timestamp := do
  let (year, cs) ← readPart "year" 4 text.toList
  let (month, cs) ← readMonth (← skipMark '-' cs)
  let (day, cs) ← readPart "day" 2 (← skipMark '-' cs)
  let (hour, cs) ← readPart "hour" 2 (← skipSeparator cs)
  let (minute, cs) ← readPart "minute" 2 (← skipMark ':' cs)
  let (second, cs) ← readPart "second" 2 (← skipMark ':' cs)
  let (nanosecond, cs) ← readFraction cs
  let (offset, cs) ← readOffset cs
  if cs = [] then check ⟨year, month, day, hour, minute, second, nanosecond, offset⟩
  else .error .trailing

/-! ### Writing -/

/-- A number with leading zeros up to a width. -/
def padded (width n : Nat) : List Char :=
  let ds := n.repr.toList
  List.replicate (width - ds.length) '0' ++ ds

/-- A fraction of a second without trailing zeros. -/
def renderFraction (nanosecond : Nat) : List Char :=
  if nanosecond = 0 then []
  else '.' :: ((padded 9 nanosecond).reverse.dropWhile (· = '0')).reverse

def renderOffset (offset : Int) : List Char :=
  if offset = 0 then ['Z']
  else
    (if offset < 0 then '-' else '+') :: padded 2 (offset.natAbs / 60) ++
      ':' :: padded 2 (offset.natAbs % 60)

def render (t : Timestamp) : String :=
  String.ofList <|
    padded 4 t.year ++ '-' :: padded 2 t.month ++ '-' :: padded 2 t.day ++
      'T' :: padded 2 t.hour ++ ':' :: padded 2 t.minute ++ ':' :: padded 2 t.second ++
      renderFraction t.nanosecond ++ renderOffset t.offset

end Timestamp

end AssemblyPolicy
