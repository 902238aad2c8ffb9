import ClassComposition.Config
import ClassComposition.Json.Record

/-!
# Options as JSON documents

## Main definitions

* `Config.ofDocument?`, `Config.datum` — reading options, where what is missing takes its standard value,
  and what there is to write.
* `Config.read?`, `Config.write` — the same from and to texts, by a library.
* `Config.ofJson?`, `Config.toJson` — the same by the reader and the writer.
-/

namespace ClassComposition.Config

/-- The names of the options in a document. -/
def fieldNames : List String := ["inline_simple_arrays", "init_member", "after_init_member"]

/-- The value of an option, or the standard one if it is missing. -/
def orStandard {α : Type} (standard : α) (read : Json → Option α) : Option Json → Option α
  | none => some standard
  | some v => read v

/-- The options that a document gives. -/
def ofDocument? (document : Json) : Option Config := do
  match ← Json.slots? fieldNames document with
  | [inlining, init, after] =>
    let inlineSimpleArrays ← orStandard standard.inlineSimpleArrays Json.truth? inlining
    let initMember ← orStandard standard.initMember Json.text? init
    let afterInitMember ← orStandard standard.afterInitMember Json.text? after
    return { inlineSimpleArrays, initMember, afterInitMember }
  | _ => none

/-- What there is to write of the options. -/
def datum (c : Config) : Json.Datum :=
  .record (fieldNames.zip [.boolean c.inlineSimpleArrays, .text c.initMember, .text c.afterInitMember])

section Texts

variable (L : Json.Library)

/-- The options that a text gives; none if it is no document or a field has a wrong value. -/
def read? (text : String) : Option Config := (L.parse? text).bind ofDocument?

/-- The options as a text. -/
def write (c : Config) : String := L.write c.datum

end Texts

/-- The options that a text gives to the reader. -/
def ofJson? : String → Option Config := read? Json.library

/-- The options as the writer writes them. -/
def toJson : Config → String := write Json.library

end ClassComposition.Config
