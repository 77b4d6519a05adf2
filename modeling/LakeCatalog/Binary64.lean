/-!
# Binary64

The finite numbers of the binary64 format and rounding to them. A magnitude is a significand below
2 ^ 53 times a power of two, and the smallest power is 2 ^ -1074, so every finite magnitude is a
natural number over 2 ^ 1074. Exact quotients are rounded to the nearest magnitude, and of two
equally near to the one with the even significand. Products and quotients of magnitudes are the
rounded exact results; those too large for the format are `none`.

The decimal with the fewest digits among those that round to a given magnitude, and of several
such decimals the nearest. For each number of digits only two points of the decimal grid can lie
in the interval of numbers that round to the magnitude and be nearest it: the two neighbours of
the magnitude. The interval contains its ends exactly when the significand is even.
-/

namespace LakeCatalog

/-- The number `±significand * 2 ^ (unit - 1074)`. -/
structure Binary64 where
  negative : Bool
  significand : Nat
  unit : Nat
  deriving DecidableEq, Inhabited

namespace Binary64

/-- The denominator that all magnitudes share. -/
def grain : Nat := Nat.pow 2 1074

/-- The magnitude over `grain`. -/
def scaled (x : Binary64) : Nat := x.significand * Nat.pow 2 x.unit

def zero (negative : Bool) : Binary64 := ⟨negative, 0, 0⟩

def withSign (negative : Bool) (x : Binary64) : Binary64 := { x with negative }

/-- The natural number nearest `a / d`, the even one of two. -/
def roundHalfEven (a d : Nat) : Nat :=
  let whole := a / d
  let rest := a % d
  if 2 * rest < d then whole
  else if d < 2 * rest then whole + 1
  else if whole % 2 == 0 then whole else whole + 1

/-- The power of two that brings `a / d` below 2 ^ 53, and not below 2 ^ 52 unless it is 0. -/
def unitOf (a d : Nat) : Nat :=
  let p := a.log2 - (d.log2 + 52)
  if 0 < p && a < d * Nat.pow 2 (p + 52) then p - 1 else p

/-- The magnitude nearest `a / (d * grain)`, if it is within the format. -/
def round? (a d : Nat) : Option Binary64 :=
  let p := unitOf a d
  let m := roundHalfEven a (d * Nat.pow 2 p)
  let (m, p) := if m = Nat.pow 2 53 then (Nat.pow 2 52, p + 1) else (m, p)
  if p ≤ 2045 then some ⟨false, m, p⟩ else none

def ofNat? (n : Nat) : Option Binary64 := round? (n * grain) 1

def mul? (x y : Binary64) : Option Binary64 := round? (x.scaled * y.scaled) grain

def div? (x y : Binary64) : Option Binary64 := round? (x.scaled * grain) y.scaled

/-- The number `digits * 10 ^ exponent`. -/
structure Decimal where
  digits : Nat
  exponent : Int
  deriving DecidableEq, Inhabited

/-- The exponent `e` with `10 ^ e ≤ x < 10 ^ (e + 1)`, for a magnitude other than zero. -/
def decimalOrder (x : Binary64) : Int :=
  let n := x.scaled
  if grain ≤ n then (Nat.toDigits 10 (n / grain)).length - 1
  else -(Nat.toDigits 10 ((grain + n - 1) / n - 1)).length

/-- The better of the two grid points around the magnitude on the grid of multiples of
`10 ^ exponent`, if one of them rounds to it. -/
def onGrid? (x : Binary64) (exponent : Int) : Option Decimal :=
  let up := Nat.pow 10 (-exponent).toNat
  let num := x.scaled * up
  let den := grain * Nat.pow 10 exponent.toNat
  -- The ends of the interval lie half a step away, a quarter below a power of two.
  let below := if x.significand = Nat.pow 2 52 ∧ 0 < x.unit then 1 else 2
  let low := (4 * x.significand - below) * Nat.pow 2 x.unit * up
  let high := (4 * x.significand + 2) * Nat.pow 2 x.unit * up
  let inside (d : Nat) : Bool :=
    let at4 := 4 * den * d
    if x.significand % 2 = 0 then low ≤ at4 && at4 ≤ high else low < at4 && at4 < high
  let floor := num / den
  let nearest := roundHalfEven num den
  let other := if nearest = floor then floor + 1 else floor
  if inside nearest then some ⟨nearest, exponent⟩
  else if inside other then some ⟨other, exponent⟩
  else none

/-- The decimal without trailing zeros among its digits. -/
def Decimal.normal (fuel : Nat) (d : Decimal) : Decimal :=
  match fuel with
  | 0 => d
  | fuel + 1 =>
    if d.digits ≠ 0 ∧ d.digits % 10 = 0 then
      Decimal.normal fuel ⟨d.digits / 10, d.exponent + 1⟩
    else d

/-- Tries grids from coarse to fine, at most `fuel` of them. -/
def firstGrid (x : Binary64) : Nat → Int → Option Decimal
  | 0, _ => none
  | fuel + 1, exponent => (x.onGrid? exponent).or (firstGrid x fuel (exponent - 1))

/-- The shortest decimal of a magnitude; seventeen digits always suffice. -/
def shortest (x : Binary64) : Decimal :=
  if x.significand = 0 then ⟨0, 0⟩
  else match firstGrid x 17 x.decimalOrder with
    | some d => d.normal 17
    | none => ⟨0, 0⟩

end Binary64

end LakeCatalog
