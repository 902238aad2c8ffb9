import ClassComposition.Json.Decimal
import ClassComposition.Json.Writer

/-!
# Libraries for JSON

What a text says as a document, which double a number of a document stands for and how data is written as
a text is left to a library.  What is read from a document, and which data is written, does not depend on
the one that is taken.

## Main definitions

* `Json.Library` — what is asked of a library.
* `Json.library` — the library of reader and writer.
-/

namespace ClassComposition.Json

/-- What is asked of a library for JSON. -/
structure Library where
  /-- The document of a text; none if it is no document. -/
  parse? : String → Option Json
  /-- The double that a number of a document stands for; none if it is out of range. -/
  double? : Numeral → Option Number
  /-- The text that is written for data, over several lines. -/
  write : Datum → String

/-- The library of reader and writer. -/
def library : Library where
  parse? := parse?
  double? := Numeral.toNumber?
  write := Datum.write ""

end ClassComposition.Json
