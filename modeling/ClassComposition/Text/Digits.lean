/-!
# Digits

The values of decimal and hexadecimal digits, and of the numbers that they write.

## Main definitions

* `digit?`, `hexDigit?` — the value of one digit.
* `valueOfDigits` — the number that decimal digits write.
* `hexNumber?` — the number that hexadecimal digits write.
-/

namespace ClassComposition.Text

/-- The value of a decimal digit. -/
def digit? (c : Char) : Option Nat :=
  if '0' ≤ c ∧ c ≤ '9' then some (c.toNat - 48) else none

/-- The value of a hexadecimal digit, its letters in either case. -/
def hexDigit? (c : Char) : Option Nat :=
  if '0' ≤ c ∧ c ≤ '9' then some (c.toNat - 48)
  else if 'a' ≤ c ∧ c ≤ 'f' then some (c.toNat - 87)
  else if 'A' ≤ c ∧ c ≤ 'F' then some (c.toNat - 55)
  else none

/-- The number that decimal digits write, the most significant one first. -/
def valueOfDigits (ds : List Nat) : Nat := ds.foldl (fun n d => 10 * n + d) 0

/-- The number that hexadecimal digits write, the most significant one first; none if some character is
no digit. -/
def hexNumber? (cs : List Char) : Option Nat :=
  cs.foldlM (fun n c => (hexDigit? c).map (16 * n + ·)) 0

end ClassComposition.Text
