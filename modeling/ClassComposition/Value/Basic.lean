import ClassComposition.Number.Basic

/-!
# Values

The dynamic values that class bodies are declared with.  A value is either plain data or a handle into a
store: functions, patterns, objects, arrays and instances are shared by everything that holds their
handle, and two of them are the same exactly when their handles are.

## Main definitions

* `CellKind`, `Handle` — the sorts of stored things and the typed handles to them.
* `Value` — undefined, null, booleans, numbers, texts, big integers and handles.
* `Value.kind`, `ValueKind.name` — the sort of a value and its name in messages.
* `Value.same` — identity: data by value, stored things by handle.
-/

namespace ClassComposition

/-- The sorts of things that a store keeps. -/
inductive CellKind
  | object
  | array
  | function
  | pattern
  | prototype
  | inst
  deriving DecidableEq, Repr

/-- A handle to a stored thing of one sort. -/
structure Handle (kind : CellKind) where
  /-- The place in the store's pool of that sort. -/
  index : Nat
  deriving DecidableEq, Repr, Inhabited

/-- A dynamic value. -/
inductive Value
  /-- No value at all; refused as a member. -/
  | undefined
  /-- The placeholder that a descendant may turn into a method. -/
  | null
  | boolean (b : Bool)
  | number (x : Number)
  | text (s : String)
  /-- An integer of any size; refused as a member. -/
  | big (n : Int)
  | function (f : Handle .function)
  | pattern (p : Handle .pattern)
  /-- A plain object: named properties in order. -/
  | object (o : Handle .object)
  | array (a : Handle .array)
  /-- An instance of a class; refused as a member. -/
  | inst (i : Handle .inst)
  deriving DecidableEq, Repr, Inhabited

/-- The sorts of values that messages distinguish. -/
inductive ValueKind
  | undefined
  | null
  | boolean
  | number
  | text
  | function
  | pattern
  | object
  | array
  | inst
  | big
  deriving DecidableEq, Repr

/-- The name of a sort of values in messages. -/
def ValueKind.name : ValueKind → String
  | .undefined => "undefined"
  | .null => "null"
  | .boolean => "boolean"
  | .number => "number"
  | .text => "string"
  | .function => "function"
  | .pattern => "regexp"
  | .object => "object"
  | .array => "array"
  | .inst => "instance"
  | .big => "bigint"

namespace Value

/-- The sort of a value. -/
def kind : Value → ValueKind
  | undefined => .undefined
  | null => .null
  | boolean _ => .boolean
  | number _ => .number
  | text _ => .text
  | big _ => .big
  | function _ => .function
  | pattern _ => .pattern
  | object _ => .object
  | array _ => .array
  | inst _ => .inst

/-- Whether the value may stand in an array that is kept as a literal. -/
def isSimple : Value → Bool
  | undefined | null | boolean _ | number _ | text _ => true
  | _ => false

/-- Whether the value counts as true: all but undefined, null, false, zero, NaN and the empty text. -/
def isTruthy : Value → Bool
  | undefined | null => false
  | boolean b => b
  | number x => !x.isNaN && !x.isZero
  | text s => s != ""
  | big n => n != 0
  | function _ | pattern _ | object _ | array _ | inst _ => true

/-- Identity: data by value, with numbers compared numerically, and stored things by handle. -/
def same : Value → Value → Bool
  | undefined, undefined => true
  | null, null => true
  | boolean a, boolean b => a == b
  | number a, number b => a.same b
  | text a, text b => a == b
  | big a, big b => a == b
  | function a, function b => a == b
  | pattern a, pattern b => a == b
  | object a, object b => a == b
  | array a, array b => a == b
  | inst a, inst b => a == b
  | _, _ => false

/-- The text of a text value. -/
def asText? : Value → Option String
  | text s => some s
  | _ => none

/-- The truth value of a boolean. -/
def asBoolean? : Value → Option Bool
  | boolean b => some b
  | _ => none

/-- The number of a numeric value. -/
def asNumber? : Value → Option Number
  | number x => some x
  | _ => none

/-- The handle of an instance. -/
def asInstance? : Value → Option (Handle .inst)
  | inst i => some i
  | _ => none

end Value

end ClassComposition
