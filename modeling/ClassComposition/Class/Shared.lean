import ClassComposition.Action
import ClassComposition.Class.Body

/-!
# Shared members

A shared member is an object or an array that belongs to the class and not to its instances.  A class
starts from the shared members of its parent.  What its body does not redeclare stays the parent's very
object or array; a redeclared array is the body's; a redeclared object is a copy of the parent's with the
body's laid over it.  Then come the names that the class itself declares shared.

## Main definitions

* `SharedMembers` — shared members by name.
* `overlay` — lay the properties of one object over another, nested objects included.
* `SharedMembers.inherit` — the shared members that a class starts from.
* `SharedMembers.declare` — the names that a class adds, checked.
* `SharedMembers.checkVisible` — no instance member hides a shared one.
-/

namespace ClassComposition

/-- Shared members by name. -/
abbrev SharedMembers := Assoc String Value

/-- Lay properties over an object, going at most `fuel` levels down into objects on both sides. -/
def overlayAt : Nat → Value → Value → Store → Store
  | 0, _, _, s => s
  | fuel + 1, target, source, s =>
    (s.entries source).foldl (fun s p =>
      match s.property? target p.1, p.2 with
      | some (.object below), .object above => overlayAt fuel (.object below) (.object above) s
      | _, v => s.setProperty target p.1 v) s

/-- Write every property of `source` into `target`; where both hold an object, lay the one over the
other. -/
def overlay (target source : Value) (s : Store) : Store := overlayAt s.nesting target source s

namespace SharedMembers

/-- The shared member that a class starts from, given the parent's and the body's entry of that name. -/
def inheritOne (path name : String) (inherited : Value) : Option Value → Action Value
  | none => return inherited
  | some declared =>
    match inherited, declared with
    | .array _, .array _ => return declared
    | .object _, .object _ => do
      let merged ← Action.onStore (·.deepCopy inherited)
      Action.modifyStore (overlay merged declared)
      return merged
    | _, _ => throw (.sharedKindChanged path name inherited.kind declared.kind)

/-- The shared members that a class with this body starts from, in the parent's order. -/
def inherit (path : String) (b : ClassBody) : SharedMembers → Action SharedMembers
  | [] => return []
  | (name, inherited) :: rest => do
    let v ← inheritOne path name inherited (b.get? name)
    Action.record (.sharedInherited path name (b.contains name))
    let others ← inherit path b rest
    return (name, v) :: others

/-- Whether a name may be added to the shared members, and with which value. -/
def declarable (path : String) (b : ClassBody) (parentSkeleton? : Option Skeleton)
    (shared : SharedMembers) (name : String) : Except ClassError Value :=
  match b.get? name with
  | none => .error (.sharedNotInBody path name)
  | some v =>
    if v.kind ≠ .object ∧ v.kind ≠ .array then .error (.sharedNotContainer path name v.kind)
    else if Assoc.contains (parentSkeleton?.getD []) (MemberKey.parse name) then
      .error (.sharedOverInstance path name)
    else if Assoc.contains shared name then .error (.repeatedShared path name)
    else .ok v

/-- Add the names that a class declares shared, up to the first that may not be added. -/
def declare (path : String) (b : ClassBody) (parentSkeleton? : Option Skeleton) :
    SharedMembers → List String → SharedMembers × Except ClassError Unit
  | shared, [] => (shared, .ok ())
  | shared, name :: rest =>
    match declarable path b parentSkeleton? shared name with
    | .error e => (shared, .error e)
    | .ok v => declare path b parentSkeleton? (Assoc.insert shared name v) rest

/-- Fail if an instance member has the name of a shared one. -/
def checkVisible (path : String) (skeleton : Skeleton) : SharedMembers → Except ClassError Unit
  | [] => .ok ()
  | (name, _) :: rest =>
    if Assoc.contains skeleton (MemberKey.parse name) then .error (.sharedHidden path name)
    else checkVisible path skeleton rest

end SharedMembers

end ClassComposition
