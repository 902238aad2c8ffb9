import ClassComposition.Pattern.Escape

/-!
# Bracket expressions

A bracket expression lists characters, ranges, sets and further bracket expressions, and combines them by
doubled signs.  It is malformed if it is not closed, if the ends of a range are reversed or are not single
characters, or if a place stands among its items.

## Main definitions

* `afterOpening` — what may only stand first.
* `namedSet?` — a set under its name, as in `[:alpha:]`.
* `range?` — one item, or a range of two.
* `bracket?` — the whole expression.
-/

namespace ClassComposition.Pattern

/-- The rest behind the opening of a bracket expression: a negation, and a closing bracket or hyphens that
stand for themselves because they come first. -/
def afterOpening (verbose : Bool) (cs : List Char) : List Char :=
  let cs := match trim verbose cs with
    | '^' :: rest => rest
    | cs => cs
  match gather verbose (· != '-') false cs with
  | ([], ']' :: rest) => rest
  | (_, rest) => rest

/-- The names of sets. -/
def setNames : List String :=
  ["alnum", "alpha", "ascii", "blank", "cntrl", "digit", "graph", "lower", "print", "punct", "space",
    "upper", "word", "xdigit"]

/-- The rest behind a set under its name, whose bracket has been read; nothing if it is none. -/
def namedSet? : List Char → Option (List Char)
  | ':' :: rest =>
    let rest := match rest with
      | '^' :: more => more
      | _ => rest
    match rest.dropWhile (· != ':') with
    | ':' :: ']' :: more =>
      if String.ofList (rest.takeWhile (· != ':')) ∈ setNames then some more else none
    | _ => none
  | _ => none

/-- One item: a character or an escape. -/
def item? (verbose : Bool) : List Char → Option (Atom × List Char)
  | [] => none
  | '\\' :: rest => escape? verbose rest
  | c :: rest => some (.point c.toNat, rest)

/-- The character that decides whether a hyphen makes a range.  In verbose mode blanks are passed over to
find it, and so is one number sign, but not the comment that it opens. -/
def behindHyphen? (verbose : Bool) (cs : List Char) : Option Char :=
  if verbose then
    match cs.dropWhile isBlank with
    | '#' :: rest => (rest.dropWhile isBlank).head?
    | rest => rest.head?
  else cs.head?

/-- The rest behind one item or a range.  A hyphen makes a range unless a closing bracket or another hyphen
comes next. -/
def range? (verbose : Bool) (cs : List Char) : Option (List Char) := do
  let (low, rest) ← item? verbose cs
  let rest := trim verbose rest
  let single := if low = .place then none else some rest
  match rest with
  | '-' :: more =>
    match behindHyphen? verbose more with
    | some ']' | some '-' => single
    | _ =>
      let (high, rest) ← item? verbose (trim verbose more)
      match low, high with
      | .point a, .point b => if a ≤ b then some rest else none
      | _, _ => none
  | _ => single

/-- The rest behind a bracket expression whose opening has been read, with `depth` brackets open around the
innermost one.  Every round takes at least one character. -/
def bracketAt (verbose : Bool) : Nat → Nat → List Char → Option (List Char)
  | 0, _, _ => none
  | fuel + 1, depth, cs =>
    match trim verbose cs with
    | [] => none
    | '[' :: rest =>
      match namedSet? rest with
      | some rest => bracketAt verbose fuel depth rest
      | none => bracketAt verbose fuel (depth + 1) (afterOpening verbose rest)
    | ']' :: rest =>
      match depth with
      | 0 => some rest
      | depth + 1 => bracketAt verbose fuel depth rest
    | '&' :: '&' :: rest | '-' :: '-' :: rest | '~' :: '~' :: rest =>
      bracketAt verbose fuel depth rest
    | cs => (range? verbose cs).bind (bracketAt verbose fuel depth)

/-- The rest behind a bracket expression whose bracket has been read. -/
def bracket? (verbose : Bool) (cs : List Char) : Option (List Char) :=
  bracketAt verbose (cs.length + 1) 0 (afterOpening verbose cs)

end ClassComposition.Pattern
