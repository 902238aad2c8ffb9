import ClassComposition.Pattern.Blank
import ClassComposition.Text.Digits

/-!
# Escapes in pattern sources

What stands behind a backslash: a character of its own, a code point in hexadecimal, a set of characters,
or a place between characters.  Every reader here answers what it found together with the rest of the
source, and nothing if the source is malformed.  Names of character properties are not looked up.

## Main definitions

* `Atom` — what a single item of a pattern stands for.
* `hex?`, `property?`, `boundary?` — the longer escapes.
* `escape?` — any escape.
-/

namespace ClassComposition.Pattern

/-- What a single item of a pattern stands for. -/
inductive Atom
  /-- A single character, by its code point. -/
  | point (n : Nat)
  /-- One of several characters. -/
  | set
  /-- A place between characters. -/
  | place
  deriving DecidableEq, Repr

/-- The character with a code point, if there is one. -/
def point? (n : Nat) : Option Atom := if n.isValidChar then some (.point n) else none

/-- Hexadecimal digits, `missing` of them, after others that write `n`. -/
def hexFixed? (verbose : Bool) : Nat → Nat → List Char → Option (Atom × List Char)
  | 0, n, cs => (point? n).map fun a => (a, cs)
  | _ + 1, _, [] => none
  | missing + 1, n, c :: rest => do
    let d ← Text.hexDigit? c
    hexFixed? verbose missing (16 * n + d) (trim verbose rest)

/-- Hexadecimal digits up to a closing brace, at least one. -/
def hexBraced? (verbose : Bool) (cs : List Char) : Option (Atom × List Char) := do
  match gather verbose (· == '\x7d') false cs with
  | (_ :: _, []) | ([], _) => none
  | (digits, _ :: rest) =>
    let a ← point? (← Text.hexNumber? digits)
    return (a, rest)

/-- A code point in hexadecimal: between braces, or of a fixed number of digits. -/
def hex? (verbose : Bool) (count : Nat) (cs : List Char) : Option (Atom × List Char) :=
  match trim verbose cs with
  | '\x7b' :: rest => hexBraced? verbose rest
  | cs => hexFixed? verbose count 0 cs

/-- The rest behind the name of a character property: between braces, or of one letter. -/
def property? (verbose : Bool) (cs : List Char) : Option (List Char) :=
  match trim verbose cs with
  | '\x7b' :: rest => (gather verbose (· == '\x7d') false rest).2.tail?
  | c :: rest => if c = '\\' then none else some rest
  | [] => none

/-- Whether a character may stand in the name of a word boundary. -/
def isBoundaryLetter (c : Char) : Bool := c.isAlpha || c == '-'

/-- The names that a word boundary may have. -/
def boundaryNames : List String := ["start", "end", "start-half", "end-half"]

/-- The rest behind a word boundary.  A brace with a letter or a hyphen next opens its name; any other
brace belongs to a repetition. -/
def boundary? (verbose : Bool) (cs : List Char) : Option (List Char) :=
  match cs with
  | '\x7b' :: more =>
    match gather verbose (fun c => !isBoundaryLetter c) false more with
    | ([], []) => none
    | ([], _) => some cs
    | (name, '\x7d' :: rest) => if String.ofList name ∈ boundaryNames then some rest else none
    | _ => none
  | _ => some cs

/-- The code point of the control character that a letter names. -/
def control? : Char → Option Nat
  | 'a' => some 7
  | 't' => some 9
  | 'n' => some 10
  | 'v' => some 11
  | 'f' => some 12
  | 'r' => some 13
  | _ => none

/-- Whether an escaped character stands for itself: all of ASCII but letters, digits and angle brackets. -/
def standsForItself (c : Char) : Bool := c.toNat < 128 && !c.isAlphanum && c != '<' && c != '>'

/-- What stands behind a backslash. -/
def escape? (verbose : Bool) : List Char → Option (Atom × List Char)
  | [] => none
  | 'x' :: rest => hex? verbose 2 rest
  | 'u' :: rest => hex? verbose 4 rest
  | 'U' :: rest => hex? verbose 8 rest
  | 'b' :: rest => (boundary? verbose rest).map fun rest => (.place, rest)
  | c :: rest =>
    if standsForItself c then some (.point c.toNat, rest)
    else if c ∈ ['p', 'P'] then (property? verbose rest).map fun rest => (.set, rest)
    else if c ∈ ['d', 'D', 's', 'S', 'w', 'W'] then some (.set, rest)
    else if c ∈ ['A', 'z', 'B', '<', '>'] then some (.place, rest)
    else (control? c).map fun n => (.point n, rest)

end ClassComposition.Pattern
