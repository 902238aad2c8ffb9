/-!
# JSON documents

A document as it is written: strings keep their escapes and numbers their digits, so that what a string or
a number stands for, and whether it stands for anything, is decided only where it is needed.

## Main definitions

* `Json`, `Json.Piece`, `Json.Numeral` — documents, pieces of strings, and numbers.
* `Json.decode` — the text that the pieces of a string stand for.
* `Json.Fields` — the members of an object.
-/

namespace ClassComposition

/-- A piece of a JSON string. -/
inductive Json.Piece
  /-- A character, written as it is or by a short escape. -/
  | char (c : Char)
  /-- A UTF-16 code unit, written by four hexadecimal digits. -/
  | unit (n : Nat)
  deriving DecidableEq, Repr

/-- A JSON number as it is written. -/
structure Json.Numeral where
  /-- Whether there is a minus sign. -/
  isNegative : Bool
  /-- The digits before the point. -/
  whole : List Nat
  /-- The digits after the point, if there is one. -/
  fraction? : Option (List Nat)
  /-- The exponent, if there is one. -/
  exponent? : Option Int
  deriving DecidableEq, Repr

/-- A JSON document. -/
inductive Json
  | null
  | boolean (b : Bool)
  | number (n : Json.Numeral)
  | string (pieces : List Json.Piece)
  | array (items : List Json)
  | object (members : List (List Json.Piece × Json))
  deriving Repr, Inhabited

namespace Json

/-- Whether a code unit is the first of a surrogate pair. -/
def isHighSurrogate (n : Nat) : Bool := 0xD800 ≤ n && n < 0xDC00

/-- Whether a code unit is the second of a surrogate pair. -/
def isLowSurrogate (n : Nat) : Bool := 0xDC00 ≤ n && n < 0xE000

/-- The characters that pieces stand for; none if a surrogate stands alone. -/
def decodeChars : List Piece → Option (List Char)
  | [] => some []
  | .char c :: rest => (decodeChars rest).map (c :: ·)
  | .unit n :: rest =>
    if isHighSurrogate n then
      match rest with
      | .unit m :: more =>
        if isLowSurrogate m then
          (decodeChars more).map (Char.ofNat (0x10000 + (n - 0xD800) * 0x400 + (m - 0xDC00)) :: ·)
        else none
      | _ => none
    else if isLowSurrogate n then none
    else (decodeChars rest).map (Char.ofNat n :: ·)

/-- The text that the pieces of a string stand for; none if a surrogate stands alone. -/
def decode (pieces : List Piece) : Option String := (decodeChars pieces).map String.ofList

/-- The members of an object or, in their order, the items of an array: the two forms in which a record
may be written. -/
inductive Fields
  | named (members : List (String × Json))
  | positional (items : List Json)

/-- The fields of a document that is written as a record.  Every name has to stand for a text. -/
def fields? : Json → Option Fields
  | object members =>
    (members.mapM fun m => (decode m.1).map fun name => (name, m.2)).map .named
  | array items => some (.positional items)
  | _ => none

end Json

end ClassComposition
