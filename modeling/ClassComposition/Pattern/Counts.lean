import ClassComposition.Pattern.Blank
import ClassComposition.Text.Digits

/-!
# Repetition counts

A repetition may give the least and the greatest number of times between braces.  Blanks around the numbers
are allowed in any mode.

## Main definitions

* `decimal?` — a number.
* `counts?` — the counts behind an opening brace.
-/

namespace ClassComposition.Pattern

/-- A number below `2 ^ 32`, with blanks around it. -/
def decimal? (verbose : Bool) (cs : List Char) : Option (Nat × List Char) :=
  let (digits, rest) := gather verbose (fun c => !c.isDigit) false (cs.dropWhile isBlank)
  let n := Text.valueOfDigits (digits.filterMap Text.digit?)
  if digits.isEmpty || 4294967296 ≤ n then none else some (n, rest.dropWhile isBlank)

/-- The rest behind the counts of a repetition whose brace has been read: one number, a least number and a
comma, or two numbers in order. -/
def counts? (verbose : Bool) (cs : List Char) : Option (List Char) := do
  let (low, rest) ← decimal? verbose (trim verbose cs)
  match rest with
  | '\x7d' :: rest => some rest
  | ',' :: more =>
    match trim verbose more with
    | '\x7d' :: rest => some rest
    | more =>
      match ← decimal? verbose more with
      | (high, '\x7d' :: rest) => if low ≤ high then some rest else none
      | _ => none
  | _ => none

end ClassComposition.Pattern
