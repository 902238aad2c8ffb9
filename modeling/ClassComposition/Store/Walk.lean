import ClassComposition.Number.Layout
import ClassComposition.Store.Basic

/-!
# Walks through stored values

Functions that follow the handles inside a value: its display text, its diagnostic text, structural
equality and the copies.  Each walk goes down at most as many levels as the store has objects and arrays,
which is as deep as any value without cycles goes; a comparison of two values goes down at most as many
levels as there are pairs of those.

## Main definitions

* `Store.display` — the text of a value in messages and joined texts.
* `Store.diagnostic` — the text of a value that shows how it is made up.
* `Store.structuralEq` — containers by their contents, everything else by identity.
* `Store.shallowCopy`, `Store.deepCopy` — a new container, or new objects all the way down.
-/

namespace ClassComposition

namespace Store

/-- No value without cycles is nested deeper than this. -/
def nesting (s : Store) : Nat := s.objects.size + s.arrays.size + 1

/-! ### Display texts -/

/-- The display text of a value, arrays being followed at most `fuel` levels down. -/
def displayAt (s : Store) (fuel : Nat) (v : Value) : String :=
  match v with
  | .undefined => "undefined"
  | .null => "null"
  | .boolean b => if b then "true" else "false"
  | .number x => Layout.display.render x
  | .text t => t
  | .big n => toString n ++ "n"
  | .function _ => "function() \x7b [native code] \x7d"
  | .pattern p => "/" ++ s.pattern p ++ "/"
  | .object _ => "[object Object]"
  | .inst i => "[object " ++ s.classPath i ++ "]"
  | .array a =>
    match fuel with
    | 0 => ""
    | fuel + 1 => ",".intercalate ((s.array a).map fun
      | .undefined | .null => ""
      | item => s.displayAt fuel item)

/-- The display text of a value. -/
def display (s : Store) (v : Value) : String := s.displayAt s.nesting v

/-! ### Diagnostic texts -/

/-- Parts between braces or brackets, separated by commas. -/
def enclosed (opening closing : String) (parts : List String) : String :=
  opening ++ ", ".intercalate parts ++ closing

/-- The diagnostic text of an instance: its class and the names of its fields. -/
def diagnosticOfInstance (s : Store) (i : Handle .inst) : String :=
  "Instance \x7b class: " ++ Text.quoted (s.classPath i) ++ ", fields: "
    ++ enclosed "[" "]" ((s.fieldNames i).map Text.quoted) ++ " \x7d"

/-- The diagnostic text of a function: its optional name. -/
def diagnosticOfMethod (m : Method) : String :=
  let name := match m.name? with
    | some n => "Some(" ++ Text.quoted n ++ ")"
    | none => "None"
  "FunctionData \x7b name: " ++ name ++ " \x7d"

/-- The diagnostic text of a value, containers being followed at most `fuel` levels down. -/
def diagnosticAt (s : Store) (fuel : Nat) (v : Value) : String :=
  match v with
  | .undefined => "Undefined"
  | .null => "Null"
  | .boolean b => "Boolean(" ++ (if b then "true" else "false") ++ ")"
  | .number x => "Number(" ++ Layout.diagnostic.render x ++ ")"
  | .text t => "String(" ++ Text.quoted t ++ ")"
  | .big n => "BigInt(" ++ toString n ++ ")"
  | .function f => "Function(" ++ diagnosticOfMethod (s.function f) ++ ")"
  | .pattern p => "Pattern(Regex(" ++ Text.quoted (s.pattern p) ++ "))"
  | .inst i => "Instance(" ++ s.diagnosticOfInstance i ++ ")"
  | .object o =>
    match fuel with
    | 0 => ""
    | fuel + 1 =>
      let parts := (s.object o).map fun p => Text.quoted p.1 ++ ": " ++ s.diagnosticAt fuel p.2
      "Object(RefCell \x7b value: ObjectData \x7b properties: " ++ enclosed "\x7b" "\x7d" parts
        ++ " \x7d \x7d)"
  | .array a =>
    match fuel with
    | 0 => ""
    | fuel + 1 =>
      "Array(RefCell \x7b value: ArrayData \x7b elements: "
        ++ enclosed "[" "]" ((s.array a).map (s.diagnosticAt fuel)) ++ " \x7d \x7d)"

/-- The diagnostic text of a value. -/
def diagnostic (s : Store) (v : Value) : String := s.diagnosticAt s.nesting v

/-! ### Structural equality -/

/-- Whether two lists agree item by item under a test. -/
def agree (test : Value → Value → Bool) : List Value → List Value → Bool
  | [], [] => true
  | a :: as, b :: bs => test a b && agree test as bs
  | _, _ => false

/-- Whether every entry has a counterpart under its key that agrees under a test. -/
def covered (test : Value → Value → Bool) (other : Assoc String Value) : Assoc String Value → Bool
  | [] => true
  | (key, v) :: rest =>
    (match Assoc.get? other key with
      | some w => test v w
      | none => false) && covered test other rest

/-- Structural equality, containers being followed at most `fuel` levels down. -/
def structuralEqAt (s : Store) (fuel : Nat) (v w : Value) : Bool :=
  match fuel with
  | 0 => v.same w
  | fuel + 1 =>
    match v, w with
    | .object a, .object b =>
      a == b || ((s.object a).length == (s.object b).length
        && covered (s.structuralEqAt fuel) (s.object b) (s.object a))
    | .array a, .array b =>
      a == b || ((s.array a).length == (s.array b).length
        && agree (s.structuralEqAt fuel) (s.array a) (s.array b))
    | _, _ => v.same w

/-- Structural equality: objects and arrays by their contents, the order of properties aside, and
everything else by identity.  A container equals itself whatever it holds.  A comparison that comes to
an end meets no pair of containers twice on its way down, so it needs no more levels than there are
pairs. -/
def structuralEq (s : Store) (v w : Value) : Bool := s.structuralEqAt (s.nesting * s.nesting) v w

/-! ### Copies -/

/-- A new container with the same elements or properties; any other value as it is. -/
def shallowCopy (s : Store) (v : Value) : Value × Store :=
  match v with
  | .array a => s.newArray (s.array a)
  | .object o => s.newObject (s.object o)
  | v => (v, s)

/-- Apply a step with a store to every value of a map in turn. -/
def mapEntries (step : Value → Store → Value × Store) :
    Assoc String Value → Store → Assoc String Value × Store
  | [], s => ([], s)
  | (key, v) :: rest, s =>
    let (w, s) := step v s
    let (rest, s) := mapEntries step rest s
    ((key, w) :: rest, s)

/-- A copy with new objects, followed at most `fuel` levels down. -/
def deepCopyAt : Nat → Value → Store → Value × Store
  | fuel + 1, .object o, s =>
    let (properties, s) := mapEntries (deepCopyAt fuel) (s.object o) s
    s.newObject properties
  | _, v, s => (v, s)

/-- A copy in which every object that is reached through properties is new.  Every other value, arrays
included, is kept. -/
def deepCopy (s : Store) (v : Value) : Value × Store := deepCopyAt s.nesting v s

end Store

end ClassComposition
