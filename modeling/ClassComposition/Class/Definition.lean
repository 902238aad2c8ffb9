import ClassComposition.Class.Directives
import ClassComposition.Class.Path
import ClassComposition.Class.Shared
import ClassComposition.Config
import ClassComposition.Member.Classification
import ClassComposition.Member.Merge

/-!
# Class definitions

Compiling a class body: the body's own members are classified over the parent's reference table, then the
parent's skeleton is merged in, then the skeletons of the mixins one after the other.  The result holds all
that descendants and the constructor need.

## Main definitions

* `ClassDefinition` — a compiled class.
* `overrideChains` — the classes whose implementations of a method are kept.
* `ClassDefinition.compile` — compiling a body against the classes defined so far.
-/

namespace ClassComposition

/-- A compiled class. -/
structure ClassDefinition where
  /-- The full path. -/
  path : String
  /-- The short name. -/
  name : String
  /-- The path of the parent. -/
  parent? : Option String
  /-- The mixins that the class itself declares, in order. -/
  mixins : List String
  /-- The mixins of the class and all its ancestors. -/
  implemented : List String
  /-- Whether the class has no instances of its own. -/
  isAbstract : Bool
  /-- The compiled members. -/
  skeleton : Skeleton
  /-- What the descriptors point to. -/
  references : ReferenceTable
  /-- The shared members. -/
  shared : SharedMembers
  /-- The paths of the inheritance chain, root first, this class last. -/
  lineage : List String
  /-- The short names of the inheritance chain, root first. -/
  ancestorNames : List String
  /-- For each method with kept implementations, the classes they come from. -/
  overrideChains : Assoc String (List String)
  /-- The body as it was declared. -/
  body : ClassBody
  /-- How many references the body itself contributed. -/
  ownReferences : Nat
  deriving Repr, Inhabited

/-- For each method with kept implementations, the classes they come from: ancestors first, from the root
down, then the others in the order of the skeleton. -/
def overrideChains (ancestorNames : List String) (skeleton : Skeleton) :
    Assoc String (List String) :=
  let collected : Assoc String (List String) := skeleton.foldl (fun chains m =>
    match m.1 with
    | .aliased owner member => Assoc.update chains member [] (· ++ [owner])
    | .plain _ => chains) []
  let before (a b : String) : Bool := ancestorNames.idxOf a ≤ ancestorNames.idxOf b
  collected.map fun (member, owners) => (member, owners.mergeSort before)

/-- Only the keys matter. -/
theorem overrideChains_congr (ancestorNames : List String) {ms ms' : Skeleton}
    (h : Assoc.keys ms = Assoc.keys ms') :
    overrideChains ancestorNames ms = overrideChains ancestorNames ms' := by
  have hkeys : ∀ ms : Skeleton, overrideChains ancestorNames ms =
      overrideChains ancestorNames ((Assoc.keys ms).map fun key => (key, .emptyArray)) := by
    intro ms
    rw [overrideChains, overrideChains, Assoc.keys, List.map_map, List.foldl_map]
    rfl
  rw [hkeys ms, h, ← hkeys ms']

namespace ClassDefinition

/-- The number of proper ancestors. -/
def depth (c : ClassDefinition) : Nat := c.lineage.length - 1

/-! ### Compilation -/

/-- The parent that the directives name, which has to be defined and may not have an ancestor of the
class's own short name. -/
def findParent (classes : Assoc String ClassDefinition) (path : String) :
    Option String → Except ClassError (Option ClassDefinition)
  | none => .ok none
  | some parentPath =>
    match Assoc.get? classes parentPath with
    | none => .error (.unknownParent parentPath path)
    | some parent =>
      if parent.ancestorNames.contains (ClassPath.shortName path) then
        .error (.repeatedName (ClassPath.shortName path) path)
      else .ok (some parent)

/-- What mixins are merged into. -/
structure Assembly where
  skeleton : Skeleton
  references : ReferenceTable
  implemented : List String

/-- The parent's table, or an empty one. -/
def inheritedReferences (parent? : Option ClassDefinition) : ReferenceTable :=
  match parent? with
  | some parent => parent.references
  | none => .empty

/-- Classify the own members of a body over the parent's table. -/
def classifyOwn (config : Config) (path : String) (body : ClassBody) (shared : SharedMembers)
    (table : ReferenceTable) : Action (Skeleton × ReferenceTable) := do
  let s ← Action.store
  match Classifying.run
      (Classifying.skeleton s config.inlineSimpleArrays path body (Assoc.keys shared)) table with
  | (.ok skeleton, table) => return (skeleton, table)
  | (.error e, _) => throw e

/-- Merge the parent's members in, and note the implementations kept. -/
def mergeParent (path : String) (skeleton : Skeleton) : Option ClassDefinition → Action Skeleton
  | none => return skeleton
  | some parent =>
    match Skeleton.extend path skeleton parent.name parent.skeleton with
    | (skeleton, .ok kept) => do
      kept.forM fun key => Action.record (.implementationKept path key)
      return skeleton
    | (_, .error e) => throw e

/-- The mixin under a path, which has to be defined, may have neither shared members nor a
post-construction hook, and may not be implemented already. -/
def findMixin (config : Config) (classes : Assoc String ClassDefinition) (path : String)
    (implemented : List String) (mixinPath : String) : Except ClassError ClassDefinition :=
  match Assoc.get? classes mixinPath with
  | none => .error (.unknownMixin mixinPath path)
  | some mixin =>
    if !mixin.shared.isEmpty then .error (.mixinWithShared path mixinPath)
    else if implemented.contains mixinPath then .error (.repeatedMixin path mixinPath)
    else if Assoc.contains mixin.skeleton (MemberKey.parse config.afterInitMember) then
      .error (.mixinWithHook config.afterInitMember path mixinPath)
    else .ok mixin

/-- Merge one mixin in: its table is appended, and its members follow it there. -/
def mergeMixin (config : Config) (classes : Assoc String ClassDefinition) (path : String)
    (a : Assembly) (mixinPath : String) : Action Assembly := do
  let mixin ← Action.ofExcept (findMixin config classes path a.implemented mixinPath)
  let (offset, references) := a.references.append mixin.references
  Action.record (.mixinMerged path mixinPath offset)
  match Skeleton.implement path a.skeleton mixin.skeleton offset with
  | (skeleton, .ok ()) =>
    return { skeleton, references, implemented := a.implemented ++ [mixinPath] }
  | (_, .error e) => throw e

/-- The shared members: the parent's as the body redeclares them, then the names declared here. -/
def composeShared (path : String) (body : ClassBody) (parent? : Option ClassDefinition)
    (names : List String) : Action SharedMembers := do
  let inherited ← match parent? with
    | some parent => SharedMembers.inherit path body parent.shared
    | none => pure []
  match SharedMembers.declare path body (parent?.map ClassDefinition.skeleton) inherited names with
  | (shared, .ok ()) => return shared
  | (_, .error e) => throw e

/-- Compile a class body against the classes defined so far. -/
def compile (config : Config) (classes : Assoc String ClassDefinition) (path : String)
    (body : ClassBody) : Action ClassDefinition := do
  let name := ClassPath.shortName path
  let directives ← Action.ofExcept (Directives.parse (← Action.store) path body)
  let parent? ← Action.ofExcept (findParent classes path directives.parent?)
  let ancestorNames := (parent?.map ClassDefinition.ancestorNames).getD [] ++ [name]
  let shared ← composeShared path body parent? directives.shared
  let inherited := inheritedReferences parent?
  let (own, references) ← classifyOwn config path body shared inherited
  let skeleton ← mergeParent path own parent?
  let implemented := (parent?.map ClassDefinition.implemented).getD []
  let whole ← directives.mixins.foldlM (mergeMixin config classes path)
    { skeleton, references, implemented }
  Action.ofExcept (SharedMembers.checkVisible path whole.skeleton shared)
  return {
    path
    name
    parent? := directives.parent?
    mixins := directives.mixins
    implemented := whole.implemented
    isAbstract := directives.isAbstract
    skeleton := whole.skeleton
    references := whole.references
    shared
    lineage := (parent?.map ClassDefinition.lineage).getD [] ++ [path]
    ancestorNames
    overrideChains := ClassComposition.overrideChains ancestorNames whole.skeleton
    body
    ownReferences := references.size - inherited.size }

end ClassDefinition

end ClassComposition
