import ClassComposition.Json.Basic
import ClassComposition.Number.Layout

/-!
# Writing JSON

Documents are written over several lines, two blanks for each level, one member or item a line.  In a
string the quote, the backslash and the control characters are escaped and nothing else.

## Main definitions

* `Json.Datum` — what there is to write.
* `Json.escapeChar`, `Json.writeString` — strings.
* `Json.block` — lines between brackets.
* `Json.writeRecord`, `Json.writeList` — records and lists, of which the parts have been written.
* `Json.Datum.write` — all data.
-/

namespace ClassComposition.Json

/-- A hexadecimal digit. -/
def hexDigit (n : Nat) : Char := Nat.digitChar (n % 16)

/-- How a character is written in a string. -/
def escapeChar (c : Char) : List Char :=
  match c with
  | '"' => ['\\', '"']
  | '\\' => ['\\', '\\']
  | '\x08' => ['\\', 'b']
  | '\x0c' => ['\\', 'f']
  | '\n' => ['\\', 'n']
  | '\r' => ['\\', 'r']
  | '\t' => ['\\', 't']
  | c =>
    if c.toNat < 32 then ['\\', 'u', '0', '0', hexDigit (c.toNat / 16), hexDigit c.toNat]
    else [c]

/-- A string between quotes. -/
def writeString (s : String) : String :=
  String.ofList ('"' :: s.toList.flatMap escapeChar ++ ['"'])

/-- A boolean. -/
def writeBoolean (b : Bool) : String := if b then "true" else "false"

/-- Lines between two brackets, with commas between them; where there are no lines, the brackets stand next
to each other. -/
def block (indent opening closing : String) (lines : List String) : String :=
  if lines.isEmpty then opening ++ closing
  else opening ++ "\n" ++ ",\n".intercalate lines ++ "\n" ++ indent ++ closing

/-- A record at a level of indentation: names with the texts of their values. -/
def writeRecord (indent : String) (members : List (String × String)) : String :=
  block indent "\x7b" "\x7d"
    (members.map fun (name, text) => indent ++ "  " ++ (writeString name ++ ": " ++ text))

/-- A list at a level of indentation: the texts of its items. -/
def writeList (indent : String) (items : List String) : String :=
  block indent "[" "]" (items.map fun text => indent ++ "  " ++ text)

/-- Data that is to be written. -/
inductive Datum
  | null
  | boolean (b : Bool)
  | text (s : String)
  /-- A natural number. -/
  | count (n : Nat)
  /-- A double; what is no number is written as null. -/
  | double (x : Number)
  | list (items : List Datum)
  /-- Names with their values, in the order in which they are written. -/
  | record (members : List (String × Datum))

namespace Datum

mutual

/-- Data at a level of indentation. -/
def write (indent : String) : Datum → String
  | null => "null"
  | boolean b => writeBoolean b
  | text s => writeString s
  | count n => toString n
  | double x => x.toJsonText
  | list items => writeList indent (writeItems (indent ++ "  ") items)
  | record members => writeRecord indent (writeMembers (indent ++ "  ") members)
termination_by structural d => d

/-- The items of a list, each at a level of indentation. -/
def writeItems (indent : String) : List Datum → List String
  | [] => []
  | d :: rest => d.write indent :: writeItems indent rest
termination_by structural items => items

/-- The members of a record, their values at a level of indentation. -/
def writeMembers (indent : String) : List (String × Datum) → List (String × String)
  | [] => []
  | (name, d) :: rest => (name, d.write indent) :: writeMembers indent rest
termination_by structural members => members

end

end Datum

end ClassComposition.Json
