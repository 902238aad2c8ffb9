import ClassComposition.Pattern.Blank

/-!
# Opening parentheses

A parenthesis opens a group, which may have a name or set flags for itself, or it is a directive that sets
flags for the rest of the group it stands in.  Of the flags only the one for verbose mode matters to how a
source is read.  Assertions about what stands before or behind are not supported.

## Main definitions

* `Opening` — a directive or a group.
* `isFlags`, `verboseFlag?` — flags.
* `isGroupName` — names.
* `opening?` — what a parenthesis opens.
-/

namespace ClassComposition.Pattern

/-- What a parenthesis opens. -/
inductive Opening
  /-- A directive, with the verbose mode it sets. -/
  | directive (verbose? : Option Bool)
  /-- A group, with its name and the verbose mode it sets. -/
  | group (name? : Option (List Char)) (verbose? : Option Bool)
  deriving DecidableEq, Repr

/-- Whether characters are flags: each at most once, at most one hyphen among them, and not at the end. -/
def isFlags (cs : List Char) : Bool :=
  cs.all ['-', 'i', 'm', 's', 'U', 'u', 'R', 'x'].contains && decide cs.Nodup
    && cs.getLast? != some '-'

/-- The verbose mode that flags set: behind a hyphen they are switched off. -/
def verboseFlag? (cs : List Char) : Option Bool :=
  if 'x' ∈ cs then some (!(cs.takeWhile (· != 'x')).contains '-') else none

/-- Flags, behind the parenthesis and the question mark.  Without any flag there is no directive, only a
question mark with nothing to repeat. -/
def flagged? (cs : List Char) : Option (Opening × List Char) :=
  let isFlag (c : Char) : Bool := c != ':' && c != ')'
  let flags := cs.takeWhile isFlag
  if !isFlags flags then none
  else
    match cs.dropWhile isFlag with
    | ')' :: rest => if flags.isEmpty then none else some (.directive (verboseFlag? flags), rest)
    | _ :: rest => some (.group none (verboseFlag? flags), rest)
    | [] => none

/-- Whether a character is a letter.  All characters beyond ASCII count as letters. -/
def isNameLetter (c : Char) : Bool := c == '_' || c.isAlpha || 128 ≤ c.toNat

/-- Whether characters are the name of a group. -/
def isGroupName (cs : List Char) : Bool :=
  cs.head?.any isNameLetter
    && cs.all fun c => isNameLetter c || c.isDigit || ['.', '[', ']'].contains c

/-- A group with a name, behind the opening angle bracket. -/
def named? (cs : List Char) : Option (Opening × List Char) :=
  let name := cs.takeWhile (· != '>')
  match cs.dropWhile (· != '>') with
  | _ :: rest => if isGroupName name then some (.group (some name) none, rest) else none
  | [] => none

/-- What a parenthesis opens. -/
def opening? (verbose : Bool) (cs : List Char) : Option (Opening × List Char) :=
  match trim verbose cs with
  | '?' :: '=' :: _ | '?' :: '!' :: _ | '?' :: '<' :: '=' :: _ | '?' :: '<' :: '!' :: _ => none
  | '?' :: 'P' :: '<' :: rest | '?' :: '<' :: rest => named? rest
  | '?' :: rest => flagged? rest
  | rest => some (.group none none, rest)

end ClassComposition.Pattern
