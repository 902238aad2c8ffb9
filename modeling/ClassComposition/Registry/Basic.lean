import ClassComposition.Registry.Namespace

/-!
# Registries

A registry holds the classes defined so far, the constructors by path, and the root namespaces under which
classes may be defined.  A class is defined once; nothing of the registry changes when its definition
fails.

## Main definitions

* `Registry`, `Registry.empty`.
* `Registry.addRoot`, `Registry.define`, `Registry.addConstructor` — the three ways in which it grows.
* `Registry.constructor?`, `Registry.packageConstructor?` — looking constructors up.
* `Registry.definition?`, `Registry.classNames` — looking classes up.
-/

namespace ClassComposition

/-- The classes and constructors known by path, and the namespaces they are published in. -/
structure Registry where
  /-- How class bodies are compiled. -/
  config : Config
  /-- The defined classes in order of definition. -/
  classes : Assoc String ClassDefinition
  /-- The constructors of defined classes, and those registered from outside. -/
  constructors : Assoc String Constructor
  /-- The root namespaces. -/
  roots : Assoc String Namespace
  deriving Inhabited

namespace Registry

/-- The registry without classes and namespaces. -/
def empty (config : Config) : Registry := ⟨config, [], [], []⟩

/-- Add a root namespace; one that is there already stays as it is. -/
def addRoot (r : Registry) (name : String) : Registry :=
  if Assoc.contains r.roots name then r
  else { r with roots := Assoc.insert r.roots name Namespace.empty }

/-- A root namespace. -/
def root? (r : Registry) (name : String) : Option Namespace := Assoc.get? r.roots name

/-- The data of a defined class. -/
def definition? (r : Registry) (path : String) : Option ClassDefinition := Assoc.get? r.classes path

/-- Whether a class is defined at a path. -/
def hasClass (r : Registry) (path : String) : Bool := Assoc.contains r.classes path

/-- Whether a path has a constructor, of a defined class or from outside. -/
def hasConstructor (r : Registry) (path : String) : Bool := Assoc.contains r.constructors path

/-- The paths of the defined classes in order of definition. -/
def classNames (r : Registry) : List String := Assoc.keys r.classes

/-! ### Definition -/

/-- The place of a new class: its root, the namespace there, and the segments below it.  The path has to
be new, well formed, under a registered root, and vacant there. -/
def place (r : Registry) (path : String) :
    Except ClassError (String × Namespace × List String) := do
  if r.hasClass path || r.hasConstructor path then
    throw (.alreadyDefined path)
  let segments ← ClassPath.split path
  let root := segments.headD ""
  let below := segments.tail
  match r.root? root with
  | none => throw (.unknownRoot root path)
  | some space =>
    if space.isVacant below then return (root, space, below)
    else throw (.placeTaken path)

/-- The registry with a compiled class and its constructor published. -/
def publish (r : Registry) (c : ClassDefinition) (k : Constructor) (root : String)
    (space : Namespace) (below : List String) : Registry :=
  { r with
    classes := Assoc.insert r.classes c.path c
    constructors := Assoc.insert r.constructors c.path k
    roots := Assoc.insert r.roots root (space.insert below k) }

/-- Compile a class body and publish its constructor.  The answer is the constructor and the registry
afterwards. -/
def define (r : Registry) (path : String) (body : ClassBody) : Action (Constructor × Registry) := do
  let (root, space, below) ← Action.ofExcept (r.place path)
  let c ← ClassDefinition.compile r.config r.classes path body
  let k ← Constructor.build r.config c
  Action.record (.classDefined path c.skeleton.length c.references.size c.shared.length c.isAbstract)
  return (k, r.publish c k root space below)

/-- Register a constructor from outside.  It is found by its path but belongs to no class and stands in no
namespace. -/
def addConstructor (r : Registry) (path : String) (k : Constructor) : Except ClassError Registry :=
  if r.hasClass path then .error (.classExists path)
  else .ok { r with constructors := Assoc.insert r.constructors path k }

/-! ### Looking constructors up -/

/-- The constructor at a full path, or else at the path below a default namespace. -/
def constructor? (r : Registry) (path : String) (namespace? : Option String) : Option Constructor :=
  match Assoc.get? r.constructors path, namespace? with
  | some k, _ => some k
  | none, some space => Assoc.get? r.constructors (space ++ "." ++ path)
  | none, none => none

/-- The constructor at the path of a class followed by a suffix, or else at that of its nearest ancestor
that has one. -/
def packageConstructor? (r : Registry) (base suffix : String) :
    Except ClassError (Option Constructor) :=
  match r.definition? base with
  | none => .error (.unknownBase base)
  | some c => .ok (c.lineage.reverse.findSome? fun path => Assoc.get? r.constructors (path ++ suffix))

end Registry

end ClassComposition
