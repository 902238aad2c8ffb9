import ClassComposition.Text.Digits

/-!
# Numbers

A number is an IEEE 754 double, kept as its 64 bits so that equality, the zero and NaN tests and the
exact value are plain arithmetic on natural numbers.  Only addition goes through the machine's
floating-point unit.

## Main definitions

* `Number` — the bits of a double.
* `Number.isNaN`, `Number.isInfinite`, `Number.isZero`, `Number.isNegative` — its class.
* `Number.same` — numeric equality: a NaN equals nothing, the two zeros are equal.
* `Number.toInt?`, `Number.toHex`, `Number.ofHex` — integers and written bits.
* `Number.significand`, `Number.scale` — a finite magnitude as `significand * 2 ^ scale`.
-/

namespace ClassComposition

/-- A double, as its IEEE 754 bits. -/
structure Number where
  /-- Sign, eleven exponent bits, fifty-two fraction bits. -/
  bits : UInt64
  deriving DecidableEq, Repr, Inhabited

namespace Number

/-- The double with the value of a machine float. -/
def ofFloat (x : Float) : Number := ⟨x.toBits⟩

/-- The machine float with these bits. -/
def toFloat (x : Number) : Float := Float.ofBits x.bits

/-- The nearest double to a natural number. -/
def ofNat (n : Nat) : Number := ofFloat (Float.ofNat n)

/-- The nearest double to an integer. -/
def ofInt (n : Int) : Number := ofFloat (Float.ofInt n)

/-- Positive zero. -/
def zero : Number := ⟨0⟩

/-- Floating-point sum. -/
def add (x y : Number) : Number := ofFloat (x.toFloat + y.toFloat)

/-- Whether the sign bit is set. -/
def isNegative (x : Number) : Bool := Nat.pow 2 63 ≤ x.bits.toNat

/-- The eleven exponent bits. -/
def exponentBits (x : Number) : Nat := x.bits.toNat / Nat.pow 2 52 % Nat.pow 2 11

/-- The fifty-two fraction bits. -/
def fractionBits (x : Number) : Nat := x.bits.toNat % Nat.pow 2 52

/-- Not a number: the exponent bits are all set and some fraction bit is. -/
def isNaN (x : Number) : Bool := x.exponentBits == 2047 && x.fractionBits != 0

/-- Positive or negative infinity. -/
def isInfinite (x : Number) : Bool := x.exponentBits == 2047 && x.fractionBits == 0

/-- Positive or negative zero. -/
def isZero (x : Number) : Bool := x.bits.toNat % Nat.pow 2 63 == 0

/-- Numeric equality: a NaN equals nothing, itself included, and the two zeros are equal. -/
def same (x y : Number) : Bool :=
  !x.isNaN && !y.isNaN && (x == y || (x.isZero && y.isZero))

/-- The integer factor of a finite magnitude: the fraction with its hidden bit, if it has one. -/
def significand (x : Number) : Nat :=
  if x.exponentBits = 0 then x.fractionBits else x.fractionBits + Nat.pow 2 52

/-- The power of two of a finite magnitude, whose value is `significand * 2 ^ scale`. -/
def scale (x : Number) : Int :=
  if x.exponentBits = 0 then -1074 else (x.exponentBits : Int) - 1075

/-- Whether the next double below a finite magnitude is only half as far as the one above: the
significand is the least of its binade. -/
def isBinadeStart (x : Number) : Bool := x.fractionBits == 0 && 1 < x.exponentBits

/-- The integer that a finite number is, if it is one. -/
def toInt? (x : Number) : Option Int :=
  let den := Nat.pow 2 (-x.scale).toNat
  let num := x.significand * Nat.pow 2 x.scale.toNat
  if x.exponentBits = 2047 || num % den != 0 then none
  else some (if x.isNegative then -((num / den : Nat) : Int) else (num / den : Nat))

/-- The bits as sixteen hexadecimal digits. -/
def toHex (x : Number) : String :=
  let digits := Nat.toDigits 16 x.bits.toNat
  String.ofList (List.replicate (16 - digits.length) '0' ++ digits)

/-- The number whose bits are written as hexadecimal digits, zero if some character is no digit. -/
def ofHex (digits : String) : Number := ⟨UInt64.ofNat ((Text.hexNumber? digits.toList).getD 0)⟩

end Number

end ClassComposition
