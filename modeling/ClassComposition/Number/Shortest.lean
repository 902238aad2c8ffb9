import ClassComposition.Number.Basic

/-!
# Shortest decimals

The shortest decimal of a finite double is the one with the fewest digits among the decimals that read
back as that double, and of those the one nearest to it.  A decimal reads back when it lies in the
interval of reals that round to the double; the ends belong to the interval exactly when the significand
is even.  For each number of digits, from one up to seventeen, only the two neighbours of the value on
the decimal grid have to be tried.  All comparisons are exact, on natural numbers.

## Main definitions

* `Decimal` — digits and a power of ten.
* `Interval` — the reals that round to a double, over a common denominator.
* `Number.shortest` — the shortest decimal of a finite non-zero magnitude.
-/

namespace ClassComposition

/-- A positive decimal, `digits * 10 ^ exponent`. -/
structure Decimal where
  /-- All significant digits, read as one number. -/
  digits : Nat
  /-- The power of ten of the last digit. -/
  exponent : Int
  deriving DecidableEq, Repr, Inhabited

namespace Decimal

/-- Take trailing zeros off the digits, at most `fuel` of them. -/
def strip : Nat → Decimal → Decimal
  | 0, d => d
  | fuel + 1, d =>
    if d.digits % 10 = 0 then strip fuel ⟨d.digits / 10, d.exponent + 1⟩ else d

/-- The digits as text. -/
def text (d : Decimal) : List Char := (Nat.toDigits 10 d.digits)

/-- Where the point stands, counted from the first digit. -/
def pointAt (d : Decimal) : Int := d.text.length + d.exponent

end Decimal

/-- What to do with a value half way between two neighbours. -/
inductive Tie
  /-- Take the upper neighbour. -/
  | up
  /-- Take the neighbour with an even last digit. -/
  | toEven
  deriving DecidableEq, Repr

/-- The interval of reals that round to a double, as numerators over one denominator. -/
structure Interval where
  /-- The least real that rounds to the double. -/
  low : Nat
  /-- The double itself. -/
  value : Nat
  /-- The greatest real that rounds to the double. -/
  high : Nat
  /-- The common denominator. -/
  den : Nat
  /-- Whether the two ends round to the double too. -/
  closed : Bool

/-- The reals that round to a finite magnitude: a quarter or half a unit below, half a unit above. -/
def Number.interval (x : Number) : Interval :=
  let m := 4 * x.significand
  let below := if x.isBinadeStart then 1 else 2
  let q := x.scale - 2
  let up := Nat.pow 2 q.toNat
  { low := (m - below) * up
    value := m * up
    high := (m + 2) * up
    den := Nat.pow 2 (-q).toNat
    closed := x.significand % 2 == 0 }

namespace Interval

/-- `num / den * 10 ^ (-exponent)`, as numerator and denominator. -/
def onGrid (num den : Nat) (exponent : Int) : Nat × Nat :=
  (num * Nat.pow 10 (-exponent).toNat, den * Nat.pow 10 exponent.toNat)

/-- Whether `c * 10 ^ exponent` lies in the interval. -/
def holds (i : Interval) (c : Nat) (exponent : Int) : Bool :=
  let lhs := c * Nat.pow 10 exponent.toNat * i.den
  let up := Nat.pow 10 (-exponent).toNat
  if i.closed then i.low * up ≤ lhs && lhs ≤ i.high * up
  else i.low * up < lhs && lhs < i.high * up

/-- The number of digits before the point of `value / den`: `10 ^ (n - 1) ≤ value / den < 10 ^ n`.
The search for leading zeros takes at most `fuel` steps. -/
def leadingPlace (num den : Nat) : Nat → Int
  | 0 => 0
  | fuel + 1 =>
    if den ≤ num then ((Nat.toDigits 10 (num / den)).length : Int)
    else leadingPlace (num * 10) den fuel - 1

/-- The best decimal with the last digit at `10 ^ exponent`, if one reads back: the nearer of the two
neighbours that do, and on a tie as `tie` says. -/
def candidate (i : Interval) (tie : Tie) (exponent : Int) : Option Decimal :=
  let (num, den) := onGrid i.value i.den exponent
  let a := num / den
  let twice := 2 * (num % den)
  let preferUpper :=
    den < twice || (twice == den && (match tie with | .up => true | .toEven => a % 2 == 1))
  match i.holds a exponent, i.holds (a + 1) exponent with
  | true, true => some ⟨if preferUpper then a + 1 else a, exponent⟩
  | true, false => some ⟨a, exponent⟩
  | false, true => some ⟨a + 1, exponent⟩
  | false, false => none

/-- Try finer and finer grids, `fuel` of them, from the last digit at `10 ^ exponent` on. -/
def search (i : Interval) (tie : Tie) : Nat → Int → Decimal
  | 0, exponent => ⟨(onGrid i.value i.den exponent).1 / (onGrid i.value i.den exponent).2, exponent⟩
  | fuel + 1, exponent => (i.candidate tie exponent).getD (search i tie fuel (exponent - 1))

end Interval

/-- The shortest decimal that reads back as a finite non-zero magnitude, without trailing zeros.
Seventeen digits are always enough, and no double has more than 324 zeros after its point. -/
def Number.shortest (x : Number) (tie : Tie) : Decimal :=
  let i := x.interval
  (i.search tie 17 (Interval.leadingPlace i.value i.den 400 - 1)).strip 400

end ClassComposition
