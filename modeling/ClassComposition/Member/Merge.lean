import ClassComposition.Error

/-!
# Merging skeletons

A class is composed by merging the skeletons of its parent and of its mixins into its own.  What the class
has stays, what it lacks is copied in, and nested objects on both sides are merged in the same way.  At the
root a member may not change from method to data or back, except that a null placeholder may become a
method.  When a parent's method is overridden, its implementation is kept under an alias that names the
parent.

A merge goes through the members in order and stops at the first conflict, leaving what it had done.  A
nested object that the class lacks is not taken over as it stands: it is made anew by merging its members
into an empty one, so that each leaf on the way down is placed where the class's own table has its entry.

## Main definitions

* `MergeMode` — merging a parent or a mixin.
* `Skeleton.merge`, with `Skeleton.copyMember` and `Skeleton.overrideMember` — the merge, over the
  members that the class lacks and over those that it has.
* `Skeleton.extend` — merge a parent.
* `Skeleton.implement` — merge a mixin whose table was appended at an offset.
-/

namespace ClassComposition

/-- What is merged in. -/
inductive MergeMode
  /-- A parent of this name.  The class's table starts as a copy of the parent's, so indices stay. -/
  | extend (parentName : String)
  /-- A mixin whose table was appended at this offset. -/
  | implement (offset : Nat)
  deriving DecidableEq, Repr

/-- A leaf as it stands in the class.  It has one index at most; a nested object is left as it is. -/
def MergeMode.place : MergeMode → MemberDescriptor → MemberDescriptor
  | .extend _, d => d
  | .implement offset, d => d.shift offset

/-- Whether a member may be overridden at the root: both sides are methods, neither is, or a method takes
the place of a null placeholder. -/
def mayOverride (own inherited : MemberDescriptor) : Bool :=
  own.isCallable == inherited.isCallable || (own.isCallable && inherited.isPlaceholder)

namespace Skeleton

/-- Keep the implementation of an overridden method: at the root, and where it is a parent's, under an
alias that names the parent.  Elsewhere it is lost. -/
def keepImplementation (path : String) (mode : MergeMode) (isRoot : Bool) (key : MemberKey)
    (method : MemberDescriptor) (child : Skeleton) (kept : List MemberKey) :
    Skeleton × Except ClassError (List MemberKey) :=
  match isRoot, mode with
  | true, .extend parentName =>
    let slot := .aliased parentName key.display
    if Assoc.contains child slot then (child, .error (.aliasTaken path slot))
    else (Assoc.insert child slot method, .ok (kept ++ [slot]))
  | _, _ => (child, .ok kept)

mutual

/-- The descriptor under which a member that the class lacks is copied in. -/
def copyMember (path : String) (mode : MergeMode) (kept : List MemberKey) :
    MemberDescriptor → Except ClassError (MemberDescriptor × List MemberKey)
  | .nested members =>
    match merge path mode false members [] kept with
    | (_, .error e) => .error e
    | (fresh, .ok kept) => .ok (.nested fresh, kept)
  | d => .ok (mode.place d, kept)
termination_by structural d => d

/-- Merge a member into the one that the class has under the same key. -/
def overrideMember (path : String) (mode : MergeMode) (isRoot : Bool) (key : MemberKey) :
    MemberDescriptor → MemberDescriptor → Skeleton → List MemberKey →
      Skeleton × Except ClassError (List MemberKey)
  | .function index, _, child, kept =>
    keepImplementation path mode isRoot key (.function index) child kept
  | .nested members, .nested inner, child, kept =>
    let (inner, outcome) := merge path mode false members inner kept
    (Assoc.insert child key (.nested inner), outcome)
  | .nested _, own, child, _ => (child, .error (.nestedReplaced path key own.kind))
  | _, _, child, kept => (child, .ok kept)
termination_by structural d => d

/-- Merge members into a class's own, at the root or into those of a nested object.  The aliases made so
far are collected in `kept`. -/
def merge (path : String) (mode : MergeMode) (isRoot : Bool) :
    List (MemberKey × MemberDescriptor) → Skeleton → List MemberKey →
      Skeleton × Except ClassError (List MemberKey)
  | [], child, kept => (child, .ok kept)
  | (key, d) :: rest, child, kept =>
    match Assoc.get? child key with
    | none =>
      match copyMember path mode kept d with
      | .error e => (child, .error e)
      | .ok (copied, kept) => merge path mode isRoot rest (Assoc.insert child key copied) kept
    | some own =>
      if isRoot && !mayOverride own d then (child, .error (.callableChanged path key))
      else
        match overrideMember path mode isRoot key d own child kept with
        | (child, .error e) => (child, .error e)
        | (child, .ok kept) => merge path mode isRoot rest child kept
termination_by structural members => members

end

/-- Merge the skeleton of a parent into a class's own.  The answer is the aliases under which overridden
implementations are kept, in order. -/
def extend (path : String) (child : Skeleton) (parentName : String) (parent : Skeleton) :
    Skeleton × Except ClassError (List MemberKey) :=
  merge path (.extend parentName) true parent child []

/-- Merge the skeleton of a mixin, whose reference table was appended at an offset, into a class's own. -/
def implement (path : String) (child mixin : Skeleton) (offset : Nat) :
    Skeleton × Except ClassError Unit :=
  let (child, outcome) := merge path (.implement offset) true mixin child []
  (child, outcome.map fun _ => ())

end Skeleton

end ClassComposition
