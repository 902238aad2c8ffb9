import ClassComposition.Class.Definition
import ClassComposition.Member.Initializer
import ClassComposition.Method.Evaluation

/-!
# Constructors

A compiled class becomes a constructor.  What is the same for all instances (methods, patterns, kept
implementations and shared members) is written to a prototype once; every other member becomes an own
field, made anew for each instance.  After the fields, the initializer is called with the construction
arguments, and then the post-construction hook without any.

## Main definitions

* `Routine` — the three sorts of instantiation routines.
* `Constructor` — a routine with its path and its identity.
* `Constructor.build` — from a compiled class.
* `Constructor.external` — from given code over an existing prototype.
* `Constructor.materialize`, `Constructor.construct` — making instances.
-/

namespace ClassComposition

/-- How instances are made. -/
inductive Routine
  /-- Of a compiled class: its prototype, its fields, and the names of the initializer and the hook. -/
  | compiled (prototype : Handle .prototype) (fields : List (String × Initializer))
      (init? hook? : Option String)
  /-- Of an abstract class: never. -/
  | abstract
  /-- By given code, run on an instance of a prototype without fields. -/
  | external (prototype : Handle .prototype) (code : List Statement)
  deriving Repr, Inhabited

/-- An instantiation routine with its path and its identity. -/
structure Constructor where
  /-- The path that the routine was built for. -/
  path : String
  /-- The identity of the routine, different for each one built. -/
  id : Nat
  /-- How instances are made. -/
  routine : Routine
  deriving Repr, Inhabited

namespace Constructor

/-- The prototype of the instances; none for abstract classes and external routines. -/
def prototype? (c : Constructor) : Option (Handle .prototype) :=
  match c.routine with
  | .compiled p _ _ _ => some p
  | _ => none

/-- Whether two constructors are the same routine. -/
def same (c d : Constructor) : Bool := c.id == d.id

/-- The diagnostic text: the path, and whether there is a prototype. -/
def diagnostic (c : Constructor) : String :=
  "Constructor \x7b path: " ++ Text.quoted c.path ++ ", has_prototype: "
    ++ (if c.prototype?.isSome then "true" else "false") ++ " \x7d"

/-! ### Building -/

/-- The slots and the fields that a skeleton gives rise to. -/
structure Parts where
  slots : List (MemberKey × Value)
  fields : List (String × Initializer)

/-- Sort the members of a skeleton into slots (methods and patterns) and fields (all else). -/
def parts (path : String) (table : ReferenceTable) : Skeleton → Except ClassError Parts
  | [] => .ok ⟨[], []⟩
  | (key, d) :: rest => do
    match d with
    | .function i | .pattern i =>
      let v ← Initializer.resolve path table i
      let others ← parts path table rest
      return { others with slots := (key, v) :: others.slots }
    | d =>
      let i ← Initializer.ofDescriptor path table d
      let others ← parts path table rest
      return { others with fields := (key.display, i) :: others.fields }

/-- The initializer's name, if there is one: it has to be a method or the null placeholder. -/
def initOf (config : Config) (c : ClassDefinition) : Except ClassError (Option String) :=
  match Assoc.get? c.skeleton (MemberKey.parse config.initMember) with
  | none => .ok none
  | some d =>
    if d.isCallable then .ok (some config.initMember)
    else if d.isPlaceholder then .ok none
    else .error (.initNotFunction config.initMember d.kind c.path)

/-- The hook's name, if there is one: it has to be a method. -/
def hookOf (config : Config) (c : ClassDefinition) : Except ClassError (Option String) :=
  match Assoc.get? c.skeleton (MemberKey.parse config.afterInitMember) with
  | none => .ok none
  | some d =>
    if d.isCallable then .ok (some config.afterInitMember)
    else .error (.hookNotFunction config.afterInitMember c.path)

/-- The prototype of a class: its slots, then its shared members. -/
def prototypeOf (c : ClassDefinition) (slots : List (MemberKey × Value)) : Prototype where
  classPath := c.path
  className := c.name
  ancestorNames := c.ancestorNames
  overrideChains := c.overrideChains
  slots := Assoc.ofList (slots ++ c.shared.map fun (name, v) => (MemberKey.parse name, v))

/-- Build the constructor of a compiled class. -/
def build (config : Config) (c : ClassDefinition) : Action Constructor := do
  if c.isAbstract then
    let id ← Action.onStore Store.newRoutine
    return { path := c.path, id, routine := .abstract }
  else
    let parts ← Action.ofExcept (parts c.path c.references c.skeleton)
    let init? ← Action.ofExcept (initOf config c)
    let hook? ← Action.ofExcept (hookOf config c)
    let prototype ← Action.onStore (·.newPrototype (prototypeOf c parts.slots))
    let id ← Action.onStore Store.newRoutine
    return { path := c.path, id, routine := .compiled prototype parts.fields init? hook? }

/-- A constructor of given code over an existing prototype. -/
def external (path : String) (prototype : Handle .prototype) (code : List Statement) :
    Action Constructor := do
  let id ← Action.onStore Store.newRoutine
  return { path, id, routine := .external prototype code }

/-! ### Making instances -/

/-- A new instance with the values of its fields, before anything is called on it. -/
def materialize (prototype : Handle .prototype) (fields : List (String × Initializer)) (s : Store) :
    Handle .inst × Store :=
  let (made, s) := Initializer.runAll fields s
  s.newInstance prototype (Assoc.ofList made)

/-- Call a member of a new instance, if there is one to call. -/
def callOptional (depth : Nat) (this : Handle .inst) (name? : Option String) (args : List Value) :
    Action Unit :=
  match name? with
  | none => return ()
  | some name => do
    let _ ← callMember depth this name args

/-- Make an instance; calls may be nested `depth` levels deep. -/
def construct (depth : Nat) (c : Constructor) (args : List Value) : Action (Handle .inst) :=
  match c.routine with
  | .abstract => throw (.abstractClass c.path)
  | .compiled prototype fields init? hook? => do
    let this ← Action.onStore (materialize prototype fields)
    callOptional depth this init? args
    callOptional depth this hook? []
    return this
  | .external prototype code => do
    let this ← Action.onStore (·.newInstance prototype [])
    let _ ← runBody (invoke depth) this args code
    return this

end Constructor

end ClassComposition
