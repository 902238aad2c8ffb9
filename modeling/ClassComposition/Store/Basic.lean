import ClassComposition.Error
import ClassComposition.Method.Basic
import ClassComposition.Pattern
import ClassComposition.Store.Pool

/-!
# Stores

A store holds everything that handles refer to: plain objects, arrays, functions, pattern sources, the
prototypes of classes and their instances.  It also counts the instantiation routines built so far, so
that each of them has an identity of its own.

## Main definitions

* `Prototype` — what all instances of a class have in common.
* `Instance` — a prototype and own fields.
* `Store` and its accessors, one family for each sort.
* `Store.keys`, `Store.property?`, `Store.elements` — reading objects and arrays through values.
* `Store.setProperty`, `Store.push` — writing them; values of other sorts are left alone.
-/

namespace ClassComposition

/-- What all instances of one class have in common. -/
structure Prototype where
  /-- The full path of the class. -/
  classPath : String
  /-- Its short name. -/
  className : String
  /-- The short names of its inheritance chain, root first. -/
  ancestorNames : List String
  /-- For each overridden method, the ancestors whose implementation is kept, root first. -/
  overrideChains : Assoc String (List String)
  /-- Methods, patterns, kept implementations and shared members. -/
  slots : Assoc MemberKey Value
  deriving Repr, Inhabited

namespace Prototype

/-- The ancestors whose implementation of a method is kept, root first. -/
def overrideChain (p : Prototype) (method : String) : List String :=
  (Assoc.get? p.overrideChains method).getD []

/-- The value of a slot. -/
def slot? (p : Prototype) (key : MemberKey) : Option Value := Assoc.get? p.slots key

/-- Whether a slot holds something that counts as true. -/
def isLive (p : Prototype) (key : MemberKey) : Bool :=
  match p.slot? key with
  | some v => v.isTruthy
  | none => false

/-- The prototype with a slot written. -/
def setSlot (p : Prototype) (key : MemberKey) (value : Value) : Prototype :=
  { p with slots := Assoc.insert p.slots key value }

end Prototype

/-- An object made by a constructor. -/
structure Instance where
  /-- What it has in common with the other instances of its class. -/
  prototype : Handle .prototype
  /-- Its own fields, in the order in which they were first written. -/
  fields : Assoc String Value
  deriving Repr, Inhabited

/-- Everything that handles refer to. -/
structure Store where
  objects : Pool .object (Assoc String Value)
  arrays : Pool .array (List Value)
  functions : Pool .function Method
  patterns : Pool .pattern String
  prototypes : Pool .prototype Prototype
  instances : Pool .inst Instance
  /-- How many instantiation routines have been built. -/
  routines : Nat
  deriving Inhabited

namespace Store

/-- The store that holds nothing. -/
def empty : Store := default

/-! ### The stored things -/

/-- The properties of an object. -/
def object (s : Store) (o : Handle .object) : Assoc String Value := s.objects.get o

/-- The elements of an array. -/
def array (s : Store) (a : Handle .array) : List Value := s.arrays.get a

/-- The code of a function. -/
def function (s : Store) (f : Handle .function) : Method := s.functions.get f

/-- The source of a pattern. -/
def pattern (s : Store) (p : Handle .pattern) : String := s.patterns.get p

/-- A prototype. -/
def prototype (s : Store) (p : Handle .prototype) : Prototype := s.prototypes.get p

/-- An instance. -/
def instanceAt (s : Store) (i : Handle .inst) : Instance := s.instances.get i

/-! ### New things -/

/-- A new object with these properties. -/
def newObject (s : Store) (properties : Assoc String Value) : Value × Store :=
  let (o, objects) := s.objects.alloc properties
  (.object o, { s with objects })

/-- A new array with these elements. -/
def newArray (s : Store) (elements : List Value) : Value × Store :=
  let (a, arrays) := s.arrays.alloc elements
  (.array a, { s with arrays })

/-- A new function. -/
def newFunction (s : Store) (method : Method) : Value × Store :=
  let (f, functions) := s.functions.alloc method
  (.function f, { s with functions })

/-- A new pattern, if its source is accepted by the library that makes patterns. -/
def newPatternBy (accepts : String → Bool) (s : Store) (source : String) :
    Except ClassError (Value × Store) :=
  if accepts source then
    let (p, patterns) := s.patterns.alloc source
    .ok (.pattern p, { s with patterns })
  else .error (.malformedPattern source)

/-- A new pattern, if its source is well formed. -/
def newPattern : Store → String → Except ClassError (Value × Store) :=
  newPatternBy Pattern.isWellFormed

/-- A new prototype. -/
def newPrototype (s : Store) (p : Prototype) : Handle .prototype × Store :=
  let (h, prototypes) := s.prototypes.alloc p
  (h, { s with prototypes })

/-- A new instance of a prototype with these fields. -/
def newInstance (s : Store) (p : Handle .prototype) (fields : Assoc String Value) :
    Handle .inst × Store :=
  let (i, instances) := s.instances.alloc ⟨p, fields⟩
  (i, { s with instances })

/-- The identity of a new instantiation routine. -/
def newRoutine (s : Store) : Nat × Store :=
  (s.routines, { s with routines := s.routines + 1 })

/-! ### Objects and arrays as values -/

/-- The properties of an object in order; none for any other value. -/
def entries (s : Store) : Value → Assoc String Value
  | .object o => s.object o
  | _ => []

/-- The keys of an object in order; none for any other value. -/
def keys (s : Store) (v : Value) : List String := Assoc.keys (s.entries v)

/-- A property of an object. -/
def property? (s : Store) (v : Value) (key : String) : Option Value :=
  Assoc.get? (s.entries v) key

/-- Whether an object has a property. -/
def hasProperty (s : Store) (v : Value) (key : String) : Bool := Assoc.contains (s.entries v) key

/-- The elements of an array; none for any other value. -/
def elements (s : Store) : Value → List Value
  | .array a => s.array a
  | _ => []

/-- An element of an array. -/
def element? (s : Store) (v : Value) (index : Nat) : Option Value := (s.elements v)[index]?

/-- The length of an array, zero for any other value. -/
def length (s : Store) (v : Value) : Nat := (s.elements v).length

/-- Write a property of an object; any other value is left alone. -/
def setProperty (s : Store) (v : Value) (key : String) (value : Value) : Store :=
  match v with
  | .object o => { s with objects := s.objects.set o (Assoc.insert (s.object o) key value) }
  | _ => s

/-- Append to an array; any other value is left alone. -/
def push (s : Store) (v : Value) (value : Value) : Store :=
  match v with
  | .array a => { s with arrays := s.arrays.set a (s.array a ++ [value]) }
  | _ => s

/-! ### Instances and prototypes -/

/-- The prototype of an instance. -/
def prototypeOf (s : Store) (i : Handle .inst) : Prototype := s.prototype (s.instanceAt i).prototype

/-- The path of the class of an instance. -/
def classPath (s : Store) (i : Handle .inst) : String := (s.prototypeOf i).classPath

/-- Write an own field of an instance. -/
def setField (s : Store) (i : Handle .inst) (name : String) (value : Value) : Store :=
  let inst := s.instanceAt i
  { s with instances := s.instances.set i { inst with fields := Assoc.insert inst.fields name value } }

/-- Write a slot of a prototype. -/
def setSlot (s : Store) (p : Handle .prototype) (key : MemberKey) (value : Value) : Store :=
  { s with prototypes := s.prototypes.set p ((s.prototype p).setSlot key value) }

/-- A member of an instance: its own field of that name, or else the slot that the name addresses. -/
def member? (s : Store) (i : Handle .inst) (name : String) : Option Value :=
  match Assoc.get? (s.instanceAt i).fields name with
  | some v => some v
  | none => (s.prototypeOf i).slot? (MemberKey.parse name)

/-- Whether an instance owns a field. -/
def ownsField (s : Store) (i : Handle .inst) (name : String) : Bool :=
  Assoc.contains (s.instanceAt i).fields name

/-- The names of the own fields of an instance in order. -/
def fieldNames (s : Store) (i : Handle .inst) : List String := Assoc.keys (s.instanceAt i).fields

/-- The function that calling a member runs, or why it cannot be called. -/
def callee (s : Store) (i : Handle .inst) (name : String) : Except ClassError (Handle .function) :=
  match s.member? i name with
  | some (.function f) => .ok f
  | some v => .error (.memberNotFunction (s.classPath i) name v.kind)
  | none => .error (.memberMissing (s.classPath i) name)

end Store

end ClassComposition
