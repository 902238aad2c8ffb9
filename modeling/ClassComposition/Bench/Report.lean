import ClassComposition.Json.Record

/-!
# Benchmark reports

What is known of a benchmark after it was run and timed, as a table for readers and as a JSON document that
can be read back.

## Main definitions

* `Report` — a benchmark with its timings.
* `Report.table` — the reports as aligned columns.
* `Report.read?`, `Report.write` — the reports as a document, by a library.
* `Report.ofJson?`, `Report.toJson` — the same by the reader and the writer.
-/

namespace ClassComposition

/-- A benchmark after it was run and timed. -/
structure Report where
  name : String
  description : String
  /-- How many instances were constructed. -/
  iterations : Nat
  /-- The time spent on defining the classes, in milliseconds. -/
  setupMs : Number
  /-- The time spent on construction, in milliseconds. -/
  durationMs : Number
  /-- Instances for each second, if any time was measured. -/
  opsPerSec? : Option Number
  success : Bool
  /-- What went wrong. -/
  error? : Option String
  deriving DecidableEq, Repr

namespace Report

/-! ### Tables -/

/-- A text filled up with blanks on the right. -/
def padRight (width : Nat) (s : String) : String :=
  s ++ String.ofList (List.replicate (width - s.length) ' ')

/-- A text filled up with blanks on the left. -/
def padLeft (width : Nat) (s : String) : String :=
  String.ofList (List.replicate (width - s.length) ' ') ++ s

/-- A line of the table: five columns, widths counted in characters. -/
def line (name count setup rate status : String) : String :=
  padRight 30 name ++ " " ++ padLeft 10 count ++ " " ++ padLeft 12 setup ++ " " ++ padLeft 15 rate
    ++ " " ++ padRight 8 status ++ "\n"

/-- The lines of a report: its columns, and the error if there is one. -/
def lines (r : Report) : String :=
  let rate := match r.opsPerSec? with
    | some x => x.fixed 0
    | none => "-"
  let error := match r.error? with
    | some e => "  Error: " ++ e ++ "\n"
    | none => ""
  line r.name (toString r.iterations) (r.setupMs.fixed 3) rate (if r.success then "PASS" else "FAIL")
    ++ error

/-- The table of some reports. -/
def table (reports : List Report) : String :=
  "\n" ++ line "Benchmark" "Instances" "Setup (ms)" "Instances/s" "Status"
    ++ String.ofList (List.replicate 79 '=') ++ "\n" ++ String.join (reports.map lines)

/-! ### Documents -/

/-- The names of the fields in a document. -/
def fieldNames : List String :=
  ["name", "description", "iterations", "setup_ms", "duration_ms", "ops_per_sec", "success", "error"]

/-- What there is to write of a report. -/
def datum (r : Report) : Json.Datum :=
  .record (fieldNames.zip [
    .text r.name,
    .text r.description,
    .count r.iterations,
    .double r.setupMs,
    .double r.durationMs,
    r.opsPerSec?.elim .null .double,
    .boolean r.success,
    r.error?.elim .null .text])

/-- An optional field of an object; an array has to give it. -/
def optionalSlot {α : Type} (isObject : Bool) (read : Json → Option α) :
    Option Json → Option (Option α)
  | some v => Json.optional? read v
  | none => if isObject then some none else none

section Texts

variable (L : Json.Library)

/-- The report that a document gives. -/
def ofDocument? (document : Json) : Option Report := do
  let isObject := match document with
    | .object _ => true
    | _ => false
  match ← Json.slots? fieldNames document with
  | [name, description, iterations, setup, duration, rate, success, error] =>
    let name ← Json.text? (← name)
    let description ← Json.text? (← description)
    let iterations ← Json.count? (← iterations)
    let setupMs ← Json.double? L (← setup)
    let durationMs ← Json.double? L (← duration)
    let opsPerSec? ← optionalSlot isObject (Json.double? L) rate
    let success ← Json.truth? (← success)
    let error? ← optionalSlot isObject Json.text? error
    return { name, description, iterations, setupMs, durationMs, opsPerSec?, success, error? }
  | _ => none

/-- The reports that a text gives; none if it is no document of that form. -/
def read? (text : String) : Option (List Report) := do
  match ← L.parse? text with
  | .array items => items.mapM (ofDocument? L)
  | _ => none

/-- Some reports as a document. -/
def write (reports : List Report) : String := L.write (.list (reports.map datum))

end Texts

/-- The reports that a text gives to the reader. -/
def ofJson? : String → Option (List Report) := read? Json.library

/-- Some reports as the writer writes them. -/
def toJson : List Report → String := write Json.library

end Report

end ClassComposition
