import ClassComposition.Json.Library

/-!
# Records in JSON documents

A record is written as an object, in any order and with members of other names among its own, or as an
array of its fields in order.  A name of the record may occur once only.

## Main definitions

* `Json.Slot` — what a record says of one field.
* `Json.slots?` — what a document says of the fields of a record.
* `Json.text?`, `Json.truth?`, `Json.count?`, `Json.double?`, `Json.optional?` — field values.
-/

namespace ClassComposition.Json

/-- The members under one name. -/
def underName (members : List (String × Json)) (name : String) : List Json :=
  (members.filter (·.1 == name)).map Prod.snd

/-- What an object says of one field: nothing, or its value; none if the name occurs twice. -/
def slot? (members : List (String × Json)) (name : String) : Option (Option Json) :=
  match underName members name with
  | [] => some none
  | [v] => some (some v)
  | _ => none

/-- What a document says of the fields of a record with these names.  An array gives the first fields, and
may not have more items than there are names. -/
def slots? (names : List String) (document : Json) : Option (List (Option Json)) :=
  match document.fields? with
  | some (.named members) => names.mapM (slot? members)
  | some (.positional items) =>
    if items.length ≤ names.length then
      some (items.map some ++ List.replicate (names.length - items.length) none)
    else none
  | none => none

/-- A text. -/
def text? : Json → Option String
  | string pieces => decode pieces
  | _ => none

/-- A truth value. -/
def truth? : Json → Option Bool
  | boolean b => some b
  | _ => none

/-- A natural number below `2 ^ 64`. -/
def count? : Json → Option Nat
  | number n => n.count?
  | _ => none

/-- A double, as a library reads it. -/
def double? (L : Library) : Json → Option Number
  | number n => L.double? n
  | _ => none

/-- A value that may also be null. -/
def optional? {α : Type} (read : Json → Option α) : Json → Option (Option α)
  | null => some none
  | v => (read v).map some

end ClassComposition.Json
