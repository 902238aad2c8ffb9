import ClassComposition.Json.Basic
import ClassComposition.Text.Digits

/-!
# Reading JSON

A text is cut into tokens, and the tokens are read as a document.  Blanks may stand between any two tokens.
The whole text has to be used up.

## Main definitions

* `Json.Token`, `Json.tokens?` — the tokens of a text.
* `Json.value?`, `Json.items?`, `Json.members?` — documents from tokens.
* `Json.parse?` — the document of a text.
-/

namespace ClassComposition.Json

/-- A token of a JSON text. -/
inductive Token
  | openBrace
  | closeBrace
  | openBracket
  | closeBracket
  | colon
  | comma
  | null
  | boolean (b : Bool)
  | number (n : Numeral)
  | string (pieces : List Piece)
  deriving DecidableEq, Repr

/-! ### Tokens -/

/-- Whether a character may stand between tokens. -/
def isBlank (c : Char) : Bool := c == ' ' || c == '\n' || c == '\t' || c == '\r'

/-- The leading digits of a text and the rest. -/
def digits : List Char → List Nat × List Char
  | [] => ([], [])
  | c :: rest =>
    match Text.digit? c with
    | some d => (d :: (digits rest).1, (digits rest).2)
    | none => ([], c :: rest)

/-- At least one digit, and the rest. -/
def someDigits? (cs : List Char) : Option (List Nat × List Char) :=
  match digits cs with
  | ([], _) => none
  | found => some found

/-- The digits before the point: a zero stands alone. -/
def whole? (cs : List Char) : Option (List Nat × List Char) :=
  match someDigits? cs with
  | some (0 :: _ :: _, _) => none
  | found => found

/-- The fraction of a number, if a point follows, and the rest. -/
def fraction? : List Char → Option (Option (List Nat) × List Char)
  | '.' :: rest => (someDigits? rest).map fun (ds, rest) => (some ds, rest)
  | cs => some (none, cs)

/-- The exponent behind its letter, and the rest. -/
def exponentTail? : List Char → Option (Option Int × List Char)
  | '-' :: rest => (someDigits? rest).map fun (ds, rest) => (some (-(Text.valueOfDigits ds : Int)), rest)
  | '+' :: rest => (someDigits? rest).map fun (ds, rest) => (some (Text.valueOfDigits ds : Int), rest)
  | cs => (someDigits? cs).map fun (ds, rest) => (some (Text.valueOfDigits ds : Int), rest)

/-- The exponent of a number, if a letter for it follows, and the rest. -/
def exponent? : List Char → Option (Option Int × List Char)
  | 'e' :: rest => exponentTail? rest
  | 'E' :: rest => exponentTail? rest
  | cs => some (none, cs)

/-- A number without its sign, and the rest. -/
def magnitude? (isNegative : Bool) (cs : List Char) : Option (Numeral × List Char) := do
  let (whole, rest) ← whole? cs
  let (fraction, rest) ← fraction? rest
  let (exponent, rest) ← exponent? rest
  return ({ isNegative, whole, fraction? := fraction, exponent? := exponent }, rest)

/-- A number, and the rest. -/
def numeral? : List Char → Option (Numeral × List Char)
  | '-' :: rest => magnitude? true rest
  | cs => magnitude? false cs

/-- The character that a short escape stands for. -/
def shortEscape? : Char → Option Char
  | '"' => some '"'
  | '\\' => some '\\'
  | '/' => some '/'
  | 'b' => some '\x08'
  | 'f' => some '\x0c'
  | 'n' => some '\n'
  | 'r' => some '\r'
  | 't' => some '\t'
  | _ => none

/-- The pieces of a string behind its opening quote, and the rest behind the closing one.  Control
characters may not stand in a string as they are. -/
def pieces? : List Char → Option (List Piece × List Char)
  | [] => none
  | '"' :: rest => some ([], rest)
  | '\\' :: 'u' :: a :: b :: c :: d :: rest => do
    let n ← Text.hexNumber? [a, b, c, d]
    let (ps, rest) ← pieces? rest
    return (.unit n :: ps, rest)
  | '\\' :: c :: rest => do
    let plain ← shortEscape? c
    let (ps, rest) ← pieces? rest
    return (.char plain :: ps, rest)
  | c :: rest =>
    if c = '\\' ∨ c.toNat < 32 then none
    else do
      let (ps, rest) ← pieces? rest
      return (.char c :: ps, rest)

/-- The first token of a text that does not start with a blank, and the rest. -/
def token? : List Char → Option (Token × List Char)
  | '\x7b' :: rest => some (.openBrace, rest)
  | '\x7d' :: rest => some (.closeBrace, rest)
  | '[' :: rest => some (.openBracket, rest)
  | ']' :: rest => some (.closeBracket, rest)
  | ':' :: rest => some (.colon, rest)
  | ',' :: rest => some (.comma, rest)
  | 'n' :: 'u' :: 'l' :: 'l' :: rest => some (.null, rest)
  | 't' :: 'r' :: 'u' :: 'e' :: rest => some (.boolean true, rest)
  | 'f' :: 'a' :: 'l' :: 's' :: 'e' :: rest => some (.boolean false, rest)
  | '"' :: rest => (pieces? rest).map fun (ps, rest) => (.string ps, rest)
  | cs => (numeral? cs).map fun (n, rest) => (.number n, rest)

/-- The tokens of a text; every round takes at least one character. -/
def tokensAt : Nat → List Char → Option (List Token)
  | 0, _ => none
  | _ + 1, [] => some []
  | fuel + 1, c :: rest =>
    if isBlank c then tokensAt fuel rest
    else do
      let (t, rest) ← token? (c :: rest)
      let ts ← tokensAt fuel rest
      return t :: ts

/-- The tokens of a text. -/
def tokens? (cs : List Char) : Option (List Token) := tokensAt (cs.length + 1) cs

/-! ### Documents -/

mutual

/-- A document, and the tokens behind it. -/
def value? : Nat → List Token → Option (Json × List Token)
  | 0, _ => none
  | fuel + 1, ts =>
    match ts with
    | .null :: rest => some (.null, rest)
    | .boolean b :: rest => some (.boolean b, rest)
    | .number n :: rest => some (.number n, rest)
    | .string ps :: rest => some (.string ps, rest)
    | .openBracket :: .closeBracket :: rest => some (.array [], rest)
    | .openBracket :: rest => (items? fuel rest).map fun (vs, rest) => (.array vs, rest)
    | .openBrace :: .closeBrace :: rest => some (.object [], rest)
    | .openBrace :: rest => (members? fuel rest).map fun (ms, rest) => (.object ms, rest)
    | _ => none

/-- The items of an array, at least one, and the tokens behind the closing bracket. -/
def items? : Nat → List Token → Option (List Json × List Token)
  | 0, _ => none
  | fuel + 1, ts =>
    match value? fuel ts with
    | some (v, .closeBracket :: rest) => some ([v], rest)
    | some (v, .comma :: rest) => (items? fuel rest).map fun (vs, rest) => (v :: vs, rest)
    | _ => none

/-- The members of an object, at least one, and the tokens behind the closing brace. -/
def members? : Nat → List Token → Option (List (List Piece × Json) × List Token)
  | 0, _ => none
  | fuel + 1, ts =>
    match ts with
    | .string name :: .colon :: rest =>
      match value? fuel rest with
      | some (v, .closeBrace :: rest) => some ([(name, v)], rest)
      | some (v, .comma :: rest) =>
        (members? fuel rest).map fun (ms, rest) => ((name, v) :: ms, rest)
      | _ => none
    | _ => none

end

/-- The document of a text, which has to be used up. -/
def parse? (text : String) : Option Json := do
  let ts ← tokens? text.toList
  match value? (2 * ts.length + 1) ts with
  | some (v, []) => some v
  | _ => none

end ClassComposition.Json
