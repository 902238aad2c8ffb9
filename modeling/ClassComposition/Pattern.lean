import ClassComposition.Pattern.Bracket
import ClassComposition.Pattern.Counts
import ClassComposition.Pattern.Opening

/-!
# Patterns

A pattern is kept as its source text.  All that has to be known of a source is whether it is well formed:
groups and brackets are closed, ranges and repetition counts go upwards, every repetition has something to
repeat, and escapes are complete.

## Main definitions

* `Pattern.Progress` — how far a source has been read.
* `Pattern.Progress.step`, `Pattern.Progress.reaches` — reading on.
* `Pattern.isWellFormed` — the verdict.
-/

namespace ClassComposition.Pattern

/-- How far a source has been read. -/
structure Progress where
  /-- Whether blanks and comments count for nothing. -/
  verbose : Bool
  /-- The same for what is around each of the open groups, the innermost group first. -/
  outer : List Bool
  /-- The names of groups so far. -/
  names : List (List Char)
  /-- Whether something that can be repeated stands to the left. -/
  repeatable : Bool
  deriving Repr

namespace Progress

/-- Nothing has been read. -/
def start : Progress := ⟨false, [], [], false⟩

/-- Something that can be repeated has been read. -/
def item (p : Progress) : Progress := { p with repeatable := true }

/-- A parenthesis has opened a directive or a group.  No two groups have the same name. -/
def enter (p : Progress) : Opening → Option Progress
  | .directive verbose? => some { p with verbose := verbose?.getD p.verbose, repeatable := false }
  | .group name? verbose? =>
    if name?.any p.names.contains then none
    else
      some {
        verbose := verbose?.getD p.verbose
        outer := p.verbose :: p.outer
        names := name?.toList ++ p.names
        repeatable := false }

/-- A group has been closed: what it set is undone, and it can be repeated. -/
def leave? (p : Progress) : Option Progress :=
  match p.outer with
  | [] => none
  | verbose :: outer => some { p with verbose, outer, repeatable := true }

/-- Read on from a character and what follows it. -/
def step (p : Progress) (c : Char) (rest : List Char) : Option (Progress × List Char) :=
  match c with
  | '(' => do
    let (opened, rest) ← opening? p.verbose rest
    return (← p.enter opened, rest)
  | ')' => p.leave?.map fun p => (p, rest)
  | '|' => some ({ p with repeatable := false }, rest)
  | '[' => (bracket? p.verbose rest).map fun rest => (p.item, rest)
  | '?' | '*' | '+' => if p.repeatable then some (p, rest) else none
  | '\x7b' => if p.repeatable then (counts? p.verbose rest).map fun rest => (p, rest) else none
  | '\\' => (escape? p.verbose rest).map fun (_, rest) => (p.item, rest)
  | _ => some (p.item, rest)

/-- Whether reading on comes to the end with all groups closed.  Every round takes at least one
character. -/
def reaches : Nat → Progress → List Char → Bool
  | 0, _, _ => false
  | fuel + 1, p, cs =>
    match trim p.verbose cs with
    | [] => p.outer.isEmpty
    | c :: rest =>
      match p.step c rest with
      | some (p, rest) => reaches fuel p rest
      | none => false

end Progress

/-- Whether a pattern source is well formed. -/
def isWellFormed (source : String) : Bool :=
  Progress.reaches (source.length + 1) .start source.toList

end ClassComposition.Pattern
