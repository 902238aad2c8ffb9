import ClassComposition.Action

/-!
# Patches

A patch gives a method the implementation of another one that is already there.  The class that declares
the patch may have descendants that override the method; then its implementation stands under an alias, and
the first live alias on the way from the declaring class down is what gets replaced.  If there is none, it
is the method itself.

## Main definitions

* `Prototype.patchTarget` — the slot that gets replaced.
* `patch` — replacing it, for all instances of the class.
-/

namespace ClassComposition

/-- The slot that a patch of a method replaces, given the ancestors from the declaring class down. -/
def Prototype.patchTarget (p : Prototype) (below : List String) (method : String) : MemberKey :=
  let owners := (p.overrideChain method).filter below.contains
  ((owners.map fun owner => MemberKey.aliased owner method).find? p.isLive).getD (.plain method)

/-- The prototype with `target` holding what `source` held, and `source` holding null. -/
def Prototype.moveSlot (p : Prototype) (target source : MemberKey) : Prototype :=
  (p.setSlot target ((p.slot? source).getD .null)).setSlot source .null

/-- Replace an implementation, for all instances of the class.  The answer is the key of the slot that was
replaced.  The slot that the new implementation came from is set to null. -/
def patch (i : Handle .inst) (owner method replacement : String) : Action MemberKey := do
  let s ← Action.store
  let handle := (s.instanceAt i).prototype
  let p := s.prototype handle
  if p.ancestorNames.contains owner then
    let target := p.patchTarget (p.ancestorNames.dropWhile (· != owner)) method
    let moved := p.moveSlot target (MemberKey.parse replacement)
    Action.modifyStore fun s => { s with prototypes := s.prototypes.set handle moved }
    Action.record (.slotPatched p.classPath target replacement owner)
    return target
  else throw (.notAnAncestor owner p.classPath)

end ClassComposition
