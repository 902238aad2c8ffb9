import ClassComposition.Member.Merge

/-!
# Merging whole members

A merge makes the nested objects that a class lacks anew, member by member.  Where the keys of every object
are pairwise different, as those of a compiled class are, this comes down to something simpler: the indices
are moved first, at every depth, and then the members that the class lacks are taken over as they stand.
The functions here do that, and proofs about merges are about them.  That they agree with what is run is
shown once, where copying by merging is.

## Main definitions

* `MemberDescriptor.shiftDeep`, `MemberDescriptor.shiftMembers` — the same description over a table in
  which the entries stand further on.
* `mergeMember`, `mergeMembers` — nested members, taken over whole.
* `mergeRoot` — members at the root, with or without keeping implementations.
-/

namespace ClassComposition

/-! ### Moving indices at every depth -/

namespace MemberDescriptor

mutual

/-- The descriptor with every index, at any depth, moved by `offset`. -/
def shiftDeep (offset : Nat) : MemberDescriptor → MemberDescriptor
  | nested ms => nested (shiftMembers offset ms)
  | function i => function (i + offset)
  | pattern i => pattern (i + offset)
  | arrayCopy i => arrayCopy (i + offset)
  | literal v => literal v
  | text s => text s
  | emptyArray => emptyArray
  | inlineArray items => inlineArray items
termination_by structural d => d

/-- The members with every index, at any depth, moved by `offset`. -/
def shiftMembers (offset : Nat) :
    List (MemberKey × MemberDescriptor) → List (MemberKey × MemberDescriptor)
  | [] => []
  | (key, d) :: rest => (key, shiftDeep offset d) :: shiftMembers offset rest
termination_by structural ms => ms

end

theorem shiftMembers_eq_map (offset : Nat) (ms : Skeleton) :
    shiftMembers offset ms = ms.map fun p => (p.1, shiftDeep offset p.2) := by
  induction ms with
  | nil => rfl
  | cons p rest ih =>
    obtain ⟨key, d⟩ := p
    rw [shiftMembers, ih, List.map_cons]

theorem keys_shiftMembers (offset : Nat) (ms : Skeleton) :
    Assoc.keys (shiftMembers offset ms) = Assoc.keys ms := by
  rw [shiftMembers_eq_map, Assoc.keys, List.map_map]
  rfl

theorem isCallable_shiftDeep (offset : Nat) (d : MemberDescriptor) :
    (shiftDeep offset d).isCallable = d.isCallable := by
  cases d <;> rfl

theorem isPlaceholder_shiftDeep (offset : Nat) (d : MemberDescriptor) :
    (shiftDeep offset d).isPlaceholder = d.isPlaceholder := by
  cases d <;> rfl

end MemberDescriptor

/-! ### Below the root -/

mutual

/-- The descriptor of one member after the merge, given the one being merged in and the class's own. -/
def mergeMember (path : String) (key : MemberKey) :
    MemberDescriptor → Option MemberDescriptor → MemberDescriptor × Except ClassError Unit
  | .nested parent, some (.nested child) =>
    let (child, outcome) := mergeMembers path parent child
    (.nested child, outcome)
  | .nested _, some own => (own, .error (.nestedReplaced path key own.kind))
  | _, some own => (own, .ok ())
  | d, none => (d, .ok ())
termination_by structural d => d

/-- Merge the members of a nested object into the class's own. -/
def mergeMembers (path : String) :
    List (MemberKey × MemberDescriptor) → Skeleton → Skeleton × Except ClassError Unit
  | [], child => (child, .ok ())
  | (key, d) :: rest, child =>
    let (merged, outcome) := mergeMember path key d (Assoc.get? child key)
    let child := Assoc.insert child key merged
    match outcome with
    | .error e => (child, .error e)
    | .ok () => mergeMembers path rest child
termination_by structural ms => ms

end

variable {path : String} {key : MemberKey}

@[simp] theorem mergeMember_none (d : MemberDescriptor) :
    mergeMember path key d none = (d, .ok ()) := by
  cases d <;> rfl

theorem mergeMember_of_leaf {d : MemberDescriptor} (h : d.members? = none)
    (own : MemberDescriptor) : mergeMember path key d (some own) = (own, .ok ()) := by
  cases d with
  | nested ms => cases h
  | _ => rfl

theorem mergeMember_nested_nested (parent child : Skeleton) :
    mergeMember path key (.nested parent) (some (.nested child)) =
      (.nested (mergeMembers path parent child).1, (mergeMembers path parent child).2) := rfl

theorem mergeMember_nested_leaf (parent : Skeleton) {own : MemberDescriptor}
    (h : own.members? = none) :
    mergeMember path key (.nested parent) (some own) =
      (own, .error (.nestedReplaced path key own.kind)) := by
  cases own with
  | nested ms => cases h
  | _ => rfl

/-! ### The root -/

/-- Where the implementation of an overridden method is kept: nowhere when no owner is given or when it is
no method, else under an alias that names the owner. -/
def keptKey? (owner? : Option String) (key : MemberKey) (inherited : MemberDescriptor) :
    Option MemberKey :=
  if inherited.isCallable then owner?.map fun owner => .aliased owner key.display else none

/-- An implementation is kept exactly when it is a method and an owner is given. -/
theorem keptKey?_eq_some {owner? : Option String} {key slot : MemberKey} {d : MemberDescriptor} :
    keptKey? owner? key d = some slot ↔
      d.isCallable = true ∧ ∃ owner, owner? = some owner ∧ .aliased owner key.display = slot := by
  unfold keptKey?
  by_cases h : d.isCallable = true
  · simp [h, Option.map_eq_some_iff]
  · simp [h]

/-- Merge members at the root, keeping overridden implementations under the owner's name if one is given.
The aliases made so far are collected in `kept`. -/
def mergeRoot (path : String) (owner? : Option String) :
    List (MemberKey × MemberDescriptor) → Skeleton → List MemberKey →
      Skeleton × Except ClassError (List MemberKey)
  | [], child, kept => (child, .ok kept)
  | (key, d) :: rest, child, kept =>
    match Assoc.get? child key with
    | none => mergeRoot path owner? rest (Assoc.insert child key d) kept
    | some own =>
      if mayOverride own d then
        let (merged, outcome) := mergeMember path key d (some own)
        let child := Assoc.insert child key merged
        match outcome with
        | .error e => (child, .error e)
        | .ok () =>
          match keptKey? owner? key d with
          | none => mergeRoot path owner? rest child kept
          | some slot =>
            if Assoc.contains child slot then (child, .error (.aliasTaken path slot))
            else mergeRoot path owner? rest (Assoc.insert child slot d) (kept ++ [slot])
      else (child, .error (.callableChanged path key))

end ClassComposition
