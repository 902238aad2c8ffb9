import ClassComposition.Value.Basic

/-!
# Methods

The code that function values carry.  A method is a list of statements over the instance it runs on and
the arguments it was given; its expressions read members, call other members, reach the implementations
that a class has overridden, and build texts, sums and arrays.

## Main definitions

* `Expr` — expressions.
* `Statement` — statements.
* `Method` — a function's code with its optional diagnostic name.
-/

namespace ClassComposition

/-- An expression of a method. -/
inductive Expr
  /-- The value itself; a handle stays the same handle at every run. -/
  | literal (v : Value)
  /-- The argument at a position, or the given value when there are fewer. -/
  | argument (position : Nat) (fallback : Value)
  /-- A new array of all arguments. -/
  | arguments
  /-- A member of the instance, undefined when there is none. -/
  | member (name : String)
  /-- The instance. -/
  | self
  /-- The path of the instance's class. -/
  | classPath
  /-- Call a member of the instance. -/
  | call (name : String) (args : List Expr)
  /-- Call the implementation kept from a class. -/
  | callKept (owner name : String) (args : List Expr)
  /-- Call the implementation kept from a class with the very arguments received. -/
  | forwardKept (owner name : String)
  /-- Call a function value on this instance. -/
  | apply (f : Expr) (args : List Expr)
  /-- The display texts, joined. -/
  | concat (parts : List Expr)
  /-- The sum of the numbers, from zero; other values count for nothing. -/
  | sum (parts : List Expr)
  /-- A property of an object, undefined when there is none. -/
  | property (object : Expr) (key : String)
  /-- The length of an array, zero for any other value. -/
  | length (array : Expr)
  /-- A new array. -/
  | array (items : List Expr)
  deriving Repr, Inhabited

/-- A statement of a method. -/
inductive Statement
  /-- Write an own field of the instance. -/
  | setField (name : String) (value : Expr)
  /-- Append to an array; nothing happens to any other value. -/
  | push (target value : Expr)
  /-- Append the argument at a position to an array, if that argument was given. -/
  | pushArgument (target : Expr) (position : Nat)
  /-- Write a property of an object; nothing happens to any other value. -/
  | setProperty (target : Expr) (key : String) (value : Expr)
  /-- Call every function in an array, as the array was before the arguments were evaluated. -/
  | callEach (target : Expr) (args : List Expr)
  /-- Fail with the display text of a value. -/
  | fail (message : Expr)
  /-- Evaluate for the effects alone. -/
  | discard (value : Expr)
  /-- End with a value. -/
  | answer (value : Expr)
  deriving Repr, Inhabited

/-- A function's code. -/
structure Method where
  /-- A name for diagnostics only. -/
  name? : Option String
  /-- The statements, run in order. -/
  body : List Statement
  deriving Repr, Inhabited

end ClassComposition
