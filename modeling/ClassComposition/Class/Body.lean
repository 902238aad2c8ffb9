import ClassComposition.Store.Basic

/-!
# Class bodies

A class is declared as data: named members, and directives under four reserved names.  The directives say
which class is extended, which mixins are implemented, which members are shared, and hold the options of
the class.

## Main definitions

* `Directive` — the reserved names.
* `ClassBody` — the entries of a declaration.
* `ClassBody.setParent`, `ClassBody.addMixin`, `ClassBody.addShared`, `ClassBody.setAbstract` — writing
  the directives in the shape in which they are read.
* `ClassBody.ofValue`, `ClassBody.toValue` — bodies and plain objects.
-/

namespace ClassComposition

/-- The reserved names of a class body. -/
inductive Directive
  /-- The path of the parent. -/
  | parent
  /-- The paths of the mixins. -/
  | mixins
  /-- The options of the class. -/
  | options
  /-- The names of the shared members. -/
  | shared
  deriving DecidableEq, Repr

namespace Directive

/-- The reserved name itself. -/
def name : Directive → String
  | parent => "Extends"
  | mixins => "Implements"
  | options => "Class"
  | shared => "Shared"

/-- All directives. -/
def all : List Directive := [parent, mixins, options, shared]

/-- Whether a name is reserved. -/
def isReserved (name : String) : Bool := (all.map Directive.name).contains name

/-- The option that makes a class abstract. -/
def abstractOption : String := "is_abstract"

end Directive

/-- A class declared as data. -/
structure ClassBody where
  /-- Members and directives in order. -/
  entries : Assoc String Value
  deriving Repr, Inhabited

namespace ClassBody

/-- The body without entries. -/
def empty : ClassBody := ⟨[]⟩

/-- An entry by name. -/
def get? (b : ClassBody) (name : String) : Option Value := Assoc.get? b.entries name

/-- Whether there is an entry of this name. -/
def contains (b : ClassBody) (name : String) : Bool := Assoc.contains b.entries name

/-- Write an entry. -/
def insert (b : ClassBody) (name : String) (v : Value) : ClassBody :=
  ⟨Assoc.insert b.entries name v⟩

/-- Write the path of the parent. -/
def setParent (b : ClassBody) (path : String) : ClassBody := b.insert Directive.parent.name (.text path)

/-- Add a text to a directive that holds one or several.  The first is written as a text, the second makes
it a new array, and further ones are appended to that array. -/
def addTo (b : ClassBody) (directive : Directive) (item : String) (s : Store) : ClassBody × Store :=
  match b.get? directive.name with
  | some (.array a) => (b, s.push (.array a) (.text item))
  | some (.text first) =>
    let (list, s) := s.newArray [.text first, .text item]
    (b.insert directive.name list, s)
  | _ => (b.insert directive.name (.text item), s)

/-- Add the path of a mixin. -/
def addMixin (b : ClassBody) (path : String) (s : Store) : ClassBody × Store :=
  b.addTo .mixins path s

/-- Add the name of a shared member. -/
def addShared (b : ClassBody) (name : String) (s : Store) : ClassBody × Store :=
  b.addTo .shared name s

/-- Say whether the class is abstract, in its options object. -/
def setAbstract (b : ClassBody) (isAbstract : Bool) (s : Store) : ClassBody × Store :=
  match b.get? Directive.options.name with
  | some (.object o) => (b, s.setProperty (.object o) Directive.abstractOption (.boolean isAbstract))
  | _ =>
    let (options, s) := s.newObject [(Directive.abstractOption, .boolean isAbstract)]
    (b.insert Directive.options.name options, s)

/-- Write a method under its own name. -/
def addMethod (b : ClassBody) (name : String) (code : List Statement) (s : Store) :
    ClassBody × Store :=
  let (f, s) := s.newFunction ⟨some name, code⟩
  (b.insert name f, s)

/-- The entries of a plain object as a body. -/
def ofValue (s : Store) (v : Value) : Except ClassError ClassBody :=
  match v with
  | .object o => .ok ⟨s.object o⟩
  | v => .error (.bodyNotObject v.kind)

/-- The body as a new plain object. -/
def toValue (b : ClassBody) (s : Store) : Value × Store := s.newObject b.entries

end ClassBody

end ClassComposition
