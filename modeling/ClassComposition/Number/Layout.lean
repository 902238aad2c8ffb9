import ClassComposition.Number.Shortest

/-!
# Layouts of numbers

How the digits of a number are set out as text.  Every output format of the library is one value of
`Layout`: which exponents are written positionally, whether a whole number shows its point, the spelling
of the exponent and of the values that have no digits.  Fixed numbers of places are a format of their
own, rounded exactly, a half going to the even neighbour.

## Main definitions

* `Layout`, `Layout.render` — shortest digits, set out.
* `Layout.display` — positional always, for messages and joined text.
* `Layout.diagnostic` — positional from `10 ^ -4` below `10 ^ 16`, a point always.
* `Layout.json` — positional from `10 ^ -5` below `10 ^ 16`, a point always, signed exponents.
* `Number.fixed` — a fixed number of places.
-/

namespace ClassComposition

/-- The decisions of a number format. -/
structure Layout where
  /-- Which neighbour a tie of two shortest decimals takes. -/
  tie : Tie
  /-- Whether a number whose first digit stands at `10 ^ e` is written without an exponent. -/
  positional : Int → Bool
  /-- What follows the digits of a whole number in positional notation. -/
  wholeTail : String
  /-- The sign written before an exponent that is not negative. -/
  plus : String
  /-- Zero, and zero with its sign bit set. -/
  zeros : String × String
  /-- Not a number. -/
  nan : String
  /-- Positive infinity, without sign. -/
  infinity : String

namespace Layout

/-- Digits with the point `at` places after the first, zeros filling the gaps. -/
def place (digits : List Char) (position : Int) (wholeTail : String) : String :=
  if position ≤ 0 then
    "0." ++ String.ofList (List.replicate (-position).toNat '0' ++ digits)
  else if digits.length ≤ position.toNat then
    String.ofList (digits ++ List.replicate (position.toNat - digits.length) '0') ++ wholeTail
  else
    String.ofList (digits.take position.toNat) ++ "." ++ String.ofList (digits.drop position.toNat)

/-- One digit, a point and the others if there are any, and the exponent of the first digit. -/
def scientific (digits : List Char) (exponent : Int) (plus : String) : String :=
  let mantissa :=
    match digits with
    | [d] => String.ofList [d]
    | d :: rest => String.ofList (d :: '.' :: rest)
    | [] => "0"
  let sign := if exponent < 0 then "-" else plus
  mantissa ++ "e" ++ sign ++ toString exponent.natAbs

/-- A number in this format. -/
def render (l : Layout) (x : Number) : String :=
  let sign := if x.isNegative then "-" else ""
  if x.isNaN then l.nan
  else if x.isInfinite then sign ++ l.infinity
  else if x.isZero then if x.isNegative then l.zeros.2 else l.zeros.1
  else
    let d := x.shortest l.tie
    let first := d.pointAt - 1
    if l.positional first then sign ++ place d.text d.pointAt l.wholeTail
    else sign ++ scientific d.text first l.plus

/-- The format of messages and of joined text: shortest digits, never an exponent, a whole number
without a point, and no sign on zero. -/
def display : Layout where
  tie := .up
  positional := fun _ => true
  wholeTail := ""
  plus := ""
  zeros := ("0", "0")
  nan := "NaN"
  infinity := "Infinity"

/-- The format of diagnostic texts: an exponent below `10 ^ -4` and from `10 ^ 16` on. -/
def diagnostic : Layout where
  tie := .up
  positional := fun e => -4 ≤ e && e < 16
  wholeTail := ".0"
  plus := ""
  zeros := ("0.0", "-0.0")
  nan := "NaN"
  infinity := "inf"

/-- The format of JSON documents, which have no text for NaN and the infinities. -/
def json : Layout where
  tie := .toEven
  positional := fun e => -5 ≤ e && e < 16
  wholeTail := ".0"
  plus := "+"
  zeros := ("0.0", "-0.0")
  nan := "null"
  infinity := "null"

end Layout

/-- The quotient rounded to the nearest natural number, a half going to the even neighbour. -/
def roundDiv (num den : Nat) : Nat :=
  let a := num / den
  let twice := 2 * (num % den)
  if den < twice || (twice == den && a % 2 == 1) then a + 1 else a

namespace Number

/-- `significand * 2 ^ scale * 10 ^ places`, rounded to a natural number. -/
def scaledBy (x : Number) (places : Nat) : Nat :=
  roundDiv (x.significand * Nat.pow 2 x.scale.toNat * Nat.pow 10 places) (Nat.pow 2 (-x.scale).toNat)

/-- The number with exactly this many digits after the point, the sign bit shown even on zero. -/
def fixed (x : Number) (places : Nat) : String :=
  let sign := if x.isNegative then "-" else ""
  if x.isNaN then "NaN"
  else if x.isInfinite then sign ++ "inf"
  else
    let digits := Nat.toDigits 10 (x.scaledBy places)
    let padded := List.replicate (places + 1 - digits.length) '0' ++ digits
    let whole := padded.length - places
    let fraction := padded.drop whole
    sign ++ String.ofList (padded.take whole)
      ++ (if fraction.isEmpty then "" else "." ++ String.ofList fraction)

/-- The text of a number in a JSON document; `null` where JSON has no number. -/
def toJsonText (x : Number) : String :=
  if x.isNaN || x.isInfinite then "null" else Layout.json.render x

end Number

end ClassComposition
