/-!
# Blanks and comments in pattern sources

In verbose mode the blanks of a pattern source count for nothing, and neither does what stands between a
number sign and the end of its line.  Outside verbose mode every character counts.

## Main definitions

* `isBlank` — the characters of the White_Space property.
* `gather` — the characters that count, up to one that stops.
* `trim` — the source from its first character that counts.
-/

namespace ClassComposition.Pattern

/-- The code points of the White_Space property, as ranges with both ends included. -/
def blankRanges : List (Nat × Nat) :=
  [(0x9, 0xd), (0x20, 0x20), (0x85, 0x85), (0xa0, 0xa0), (0x1680, 0x1680), (0x2000, 0x200a),
    (0x2028, 0x2029), (0x202f, 0x202f), (0x205f, 0x205f), (0x3000, 0x3000)]

/-- Whether a character has the White_Space property. -/
def isBlank (c : Char) : Bool := blankRanges.any fun r => r.1 ≤ c.toNat && c.toNat ≤ r.2

/-- The characters that count, up to the first that stops, and the source from there on.  The flag says
whether the source starts inside a comment. -/
def gather (verbose : Bool) (stop : Char → Bool) : Bool → List Char → List Char × List Char
  | _, [] => ([], [])
  | true, c :: rest => gather verbose stop (c != '\n') rest
  | false, c :: rest =>
    if verbose && isBlank c then gather verbose stop false rest
    else if verbose && c == '#' then gather verbose stop true rest
    else if stop c then ([], c :: rest)
    else
      let (cs, rest) := gather verbose stop false rest
      (c :: cs, rest)

/-- The source from its first character that counts. -/
def trim (verbose : Bool) (cs : List Char) : List Char :=
  (gather verbose (fun _ => true) false cs).2

end ClassComposition.Pattern
