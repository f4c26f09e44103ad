import AssemblyPolicy.Decimal.Double

/-!
# The shortest decimal of a double

`Double.shortest` finds the decimal `c · 10 ^ k` with the fewest digits that lies among the reals
rounding to a given double, and of those the nearest to it, a tie going to the even digit.
`Double.render` writes it with the layout of JSON numbers: positional from `1e-5` up to `1e16`,
with an exponent beyond.
-/

namespace AssemblyPolicy

/-- A positive real `num / den`, used for exact comparisons. -/
structure Ratio where
  num : Nat
  den : Nat

namespace Ratio

/-- `n · 2 ^ e`. -/
def ofBinary (n : Nat) (e : Int) : Ratio :=
  if 0 ≤ e then ⟨n <<< e.toNat, 1⟩ else ⟨n, 1 <<< (-e).toNat⟩

/-- `n · 10 ^ e`. -/
def ofDecimal (n : Nat) (e : Int) : Ratio :=
  if 0 ≤ e then ⟨n * Nat.pow 10 e.toNat, 1⟩ else ⟨n, Nat.pow 10 (-e).toNat⟩

def blt (a b : Ratio) : Bool := a.num * b.den < b.num * a.den

def ble (a b : Ratio) : Bool := a.num * b.den ≤ b.num * a.den

/-- The largest `c` with `c · 10 ^ k ≤ a`. -/
def floorAt (a : Ratio) (k : Int) : Nat :=
  if 0 ≤ k then a.num / (a.den * Nat.pow 10 k.toNat) else a.num * Nat.pow 10 (-k).toNat / a.den

/-- How far `a` lies above (positive) or below the middle between `c` and `c + 1` on the grid of
multiples of `10 ^ k`. -/
def compareToMiddle (a : Ratio) (c : Nat) (k : Int) : Ordering :=
  let middle := ofDecimal (10 * c + 5) (k - 1)
  compare (a.num * middle.den) (middle.num * a.den)

end Ratio

/-- An interval of reals, with its end points or without. -/
structure Interval where
  lower : Ratio
  upper : Ratio
  closed : Bool

def Interval.contains (i : Interval) (a : Ratio) : Bool :=
  if i.closed then i.lower.ble a && a.ble i.upper else i.lower.blt a && a.blt i.upper

namespace Double

/-- The reals that round to the magnitude of `d`; the end points belong to it when its significand
is even. -/
def rounding (d : Double) : Interval where
  lower := .ofBinary (4 * d.significand - if d.isLowerHalved then 1 else 2) (d.exponent - 2)
  upper := .ofBinary (4 * d.significand + 2) (d.exponent - 2)
  closed := d.significand % 2 = 0

/-- The multiple of `10 ^ k` in `i` that is nearest to `a`, if there is one. -/
def nearestOnGrid? (i : Interval) (a : Ratio) (k : Int) : Option Nat :=
  let c := a.floorAt k
  let below := 0 < c && i.contains (.ofDecimal c k)
  let above := i.contains (.ofDecimal (c + 1) k)
  match below, above with
  | true, true =>
    match a.compareToMiddle c k with
    | .lt => some c
    | .gt => some (c + 1)
    | .eq => some (if c % 2 = 0 then c else c + 1)
  | true, false => some c
  | false, true => some (c + 1)
  | false, false => none

/-- The first hit on the grids `10 ^ k`, `10 ^ (k - 1)`, …, at most `n` of them. -/
def firstHit? (i : Interval) (a : Ratio) : Nat → Int → Option (Nat × Int)
  | 0, _ => none
  | n + 1, k =>
    match nearestOnGrid? i a k with
    | some c => some (c, k)
    | none => firstHit? i a n (k - 1)

/-- A power of ten above the magnitude of `d`. -/
def decimalBound (d : Double) : Int :=
  ((d.significand.log2 : Int) + d.exponent + 1) * 30103 / 100000 + 2

/-- The shortest decimal `c · 10 ^ k` that reads back as the magnitude of a nonzero `d`. -/
def shortest (d : Double) : Nat × Int :=
  (firstHit? d.rounding (.ofBinary d.significand d.exponent) 24 d.decimalBound).getD (0, 0)

/-- The digits of `c · 10 ^ k` with a point among them. -/
def positional (digits : List Char) (k : Int) : List Char :=
  let scientific := k + digits.length - 1
  if 0 ≤ k then
    digits ++ List.replicate k.toNat '0' ++ ['.', '0']
  else if 0 ≤ scientific then
    digits.take (scientific.toNat + 1) ++ '.' :: digits.drop (scientific.toNat + 1)
  else
    '0' :: '.' :: List.replicate ((-scientific).toNat - 1) '0' ++ digits

/-- The digits of `c · 10 ^ k` as one digit, a fraction and an exponent. -/
def exponential (digits : List Char) (k : Int) : List Char :=
  let scientific := k + digits.length - 1
  let mantissa := match digits with
    | [] => []
    | [c] => [c]
    | c :: rest => c :: '.' :: rest
  mantissa ++ 'e' :: (if scientific < 0 then '-' else '+') :: scientific.natAbs.repr.toList

/-- A finite double as a JSON number: the shortest decimal that reads back, positional for
magnitudes from `1e-5` up to `1e16` and for zero. -/
def render (d : Double) : List Char :=
  let sign := if d.isNegative then ['-'] else []
  if d.significand = 0 then
    sign ++ ['0', '.', '0']
  else
    let (c, k) := d.shortest
    let digits := c.repr.toList
    let scientific := k + digits.length - 1
    sign ++ if -5 ≤ scientific ∧ scientific < 16 then positional digits k else exponential digits k

end Double

end AssemblyPolicy
