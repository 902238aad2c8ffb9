import ClassComposition.Member.References
import ClassComposition.Store.Basic

/-!
# Initializers

An initializer makes the value of one field of a new instance.  It is compiled from a descriptor once, with
the entries of the reference table put in place of the indices, and run for every instance.

## Main definitions

* `Initializer` — how a field value is made.
* `Initializer.ofDescriptor` — compiling a descriptor over a reference table.
* `Initializer.run` — making the value.
-/

namespace ClassComposition

/-- How the value of a field is made. -/
inductive Initializer
  /-- The value itself: data, or a function or pattern inside a nested object. -/
  | keep (v : Value)
  /-- A new array of these values. -/
  | array (items : List Value)
  /-- A copy of a container, one level deep. -/
  | copy (source : Value)
  /-- A new object with these properties. -/
  | object (properties : List (String × Initializer))
  deriving Repr, Inhabited

namespace Initializer

/-- The entry of a reference table that a class points to. -/
def resolve (path : String) (table : ReferenceTable) (index : Nat) : Except ClassError Value :=
  match table.get? index with
  | some v => .ok v
  | none => .error (.indexOutOfRange index path table.size)

mutual

/-- Compile a descriptor. -/
def ofDescriptor (path : String) (table : ReferenceTable) :
    MemberDescriptor → Except ClassError Initializer
  | .literal v => .ok (.keep v)
  | .text t => .ok (.keep (.text t))
  | .emptyArray => .ok (.array [])
  | .inlineArray items => .ok (.array items)
  | .arrayCopy i => (resolve path table i).map .copy
  | .function i => (resolve path table i).map .keep
  | .pattern i => (resolve path table i).map .keep
  | .nested ms => (ofMembers path table ms).map .object
termination_by structural d => d

/-- Compile the members of a nested object. -/
def ofMembers (path : String) (table : ReferenceTable) :
    List (MemberKey × MemberDescriptor) → Except ClassError (List (String × Initializer))
  | [] => .ok []
  | (key, d) :: rest => do
    let first ← ofDescriptor path table d
    let others ← ofMembers path table rest
    return (key.display, first) :: others
termination_by structural ms => ms

end

mutual

/-- Make the value. -/
def run : Initializer → Store → Value × Store
  | .keep v, s => (v, s)
  | .array items, s => s.newArray items
  | .copy (.array a), s => s.newArray (s.array a)
  | .copy (.object o), s => s.newObject (s.object o)
  | .copy v, s => (v, s)
  | .object properties, s =>
    let (made, s) := runAll properties s
    s.newObject (Assoc.ofList made)
termination_by structural i => i

/-- Make the values of properties in turn. -/
def runAll : List (String × Initializer) → Store → List (String × Value) × Store
  | [], s => ([], s)
  | (name, i) :: rest, s =>
    let (v, s) := run i s
    let (others, s) := runAll rest s
    ((name, v) :: others, s)
termination_by structural ps => ps

end

end Initializer

end ClassComposition
