import ClassComposition.Json.Reader
import ClassComposition.Number.Basic

/-!
# Numbers of JSON documents

A number of a document is read as a double from at most sixty-four bits of its digits: further digits before
the point only count as places, and further digits after it are dropped.  The digits are then multiplied or
divided by one power of ten, in floating point.  A number with neither point nor exponent may also be read
as a count.

## Main definitions

* `Json.Numeral.count?` — a natural number below `2 ^ 64`.
* `Json.Numeral.toNumber?` — a double; none if it is out of range.
-/

namespace ClassComposition.Json.Numeral

/-- The largest number that digits are collected into. -/
def limit : Nat := Nat.pow 2 64 - 1

/-- A natural number below `2 ^ 64`, written without sign, point and exponent. -/
def count? (n : Numeral) : Option Nat :=
  if n.isNegative || n.fraction?.isSome || n.exponent?.isSome then none
  else if Text.valueOfDigits n.whole ≤ limit then some (Text.valueOfDigits n.whole)
  else none

/-- Collect the digits before the point as long as they fit; the number of those that did not comes
second. -/
def collectWhole : Nat → List Nat → Nat × Nat
  | n, [] => (n, 0)
  | n, d :: rest => if 10 * n + d ≤ limit then collectWhole (10 * n + d) rest else (n, rest.length + 1)

/-- Collect the digits after the point as long as they fit; the number of those that did comes second. -/
def collectFraction : Nat → List Nat → Nat × Nat
  | n, [] => (n, 0)
  | n, d :: rest =>
    if 10 * n + d ≤ limit then
      ((collectFraction (10 * n + d) rest).1, (collectFraction (10 * n + d) rest).2 + 1)
    else (n, 0)

/-- The double nearest to a power of ten up to `10 ^ 308`. -/
def power (e : Nat) : Float := Float.ofScientific 1 false e

/-- `x * 10 ^ e` in floating point: one multiplication or one division, after dividing by `10 ^ 308` at most
`fuel` times; none if it is out of range. -/
def scaled : Nat → Float → Int → Option Float
  | fuel, x, e =>
    if e.natAbs ≤ 308 then
      if 0 ≤ e then
        let y := x * power e.natAbs
        if y.isInf then none else some y
      else some (x / power e.natAbs)
    else if x == 0 then some x
    else if 0 ≤ e then none
    else
      match fuel with
      | 0 => some 0
      | fuel + 1 => scaled fuel (x / power 308) (e + 308)

/-- The double that a number of a document stands for; none if it is out of range. -/
def toNumber? (n : Numeral) : Option Number := do
  let (whole, dropped) := collectWhole 0 n.whole
  let (digits, places) := collectFraction whole (n.fraction?.getD [])
  let exponent : Int := dropped - places + n.exponent?.getD 0
  let x ← scaled 4 (Float.ofNat digits) exponent
  return Number.ofFloat (if n.isNegative then -x else x)

end ClassComposition.Json.Numeral
