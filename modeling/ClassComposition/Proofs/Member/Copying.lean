import ClassComposition.Proofs.Member.Leaves

/-!
# Copying by merging

A merge never takes a nested object over as it stands.  It merges the object's members into an empty one,
and on the way down it places each leaf, of which it moves the one index.  What comes out is the object
with every index moved, at any depth, exactly once: this is a statement about the recursion of copying and
merging through each other, and it is proved here by induction on the descriptor that is merged in.  The
keys of an object have to be pairwise different, or the second of two members under one key would be taken
for one that the first overrides.

## Main definitions

* `MergeMode.placeDeep`, `MergeMode.placeAll` — descriptors and members as they stand in the class.
* `Skeleton.TakenWhole` — what merging a descriptor in comes to, copied and overriding.

## Main results

* `Skeleton.takenWhole` — every descriptor with distinct keys is taken over whole.
* `Skeleton.merge_eq_mergeRoot` — so the merge that is run is the one that takes members over whole.
* `rootMerge_of_extend`, `rootMerge_of_implement` — composing classes without conflict, step by step.
-/

namespace ClassComposition

open MemberDescriptor

/-! ### Placing whole members -/

namespace MergeMode

/-- The name under which implementations are kept: a parent's. -/
def owner? : MergeMode → Option String
  | .extend parentName => some parentName
  | .implement _ => none

/-- A descriptor as it stands in the class, at every depth. -/
def placeDeep : MergeMode → MemberDescriptor → MemberDescriptor
  | .extend _, d => d
  | .implement offset, d => shiftDeep offset d

/-- Members as they stand in the class, at every depth. -/
def placeAll : MergeMode → Skeleton → Skeleton
  | .extend _, ms => ms
  | .implement offset, ms => shiftMembers offset ms

variable (mode : MergeMode)

@[simp] theorem placeAll_nil : mode.placeAll [] = [] := by
  cases mode <;> rfl

theorem placeAll_cons (key : MemberKey) (d : MemberDescriptor) (rest : Skeleton) :
    mode.placeAll ((key, d) :: rest) = (key, mode.placeDeep d) :: mode.placeAll rest := by
  cases mode <;> rfl

theorem keys_placeAll (ms : Skeleton) : Assoc.keys (mode.placeAll ms) = Assoc.keys ms := by
  cases mode with
  | extend parentName => rfl
  | implement offset => exact keys_shiftMembers offset ms

theorem placeDeep_nested (ms : Skeleton) : mode.placeDeep (nested ms) = nested (mode.placeAll ms) := by
  cases mode <;> rfl

/-- A leaf has no depth: placing it moves its one index. -/
theorem placeDeep_of_leaf {d : MemberDescriptor} (h : d.members? = none) :
    mode.placeDeep d = mode.place d := by
  cases mode with
  | extend parentName => rfl
  | implement offset =>
    cases d with
    | nested ms => cases h
    | _ => rfl

theorem members?_placeDeep_of_leaf {d : MemberDescriptor} (h : d.members? = none) :
    (mode.placeDeep d).members? = none := by
  cases mode with
  | extend parentName => exact h
  | implement offset =>
    cases d with
    | nested ms => cases h
    | _ => rfl

theorem isCallable_placeDeep (d : MemberDescriptor) :
    (mode.placeDeep d).isCallable = d.isCallable := by
  cases mode with
  | extend parentName => rfl
  | implement offset => exact isCallable_shiftDeep offset d

theorem mayOverride_placeDeep (own d : MemberDescriptor) :
    mayOverride own (mode.placeDeep d) = mayOverride own d := by
  cases mode with
  | extend parentName => rfl
  | implement offset =>
    rw [placeDeep, mayOverride, mayOverride, isCallable_shiftDeep, isPlaceholder_shiftDeep]

end MergeMode

/-- Merging members with pairwise different keys into an empty object copies them. -/
theorem mergeMembers_nil {path : String} {ms : Skeleton} (h : (Assoc.keys ms).Nodup) :
    mergeMembers path ms [] = (ms, .ok ()) := by
  -- what has been copied so far stands before what is still to come
  have happend : ∀ {ms before : Skeleton}, (Assoc.keys (before ++ ms)).Nodup →
      mergeMembers path ms before = (before ++ ms, .ok ()) := by
    intro ms
    induction ms with
    | nil => simp [mergeMembers]
    | cons p rest ih =>
      obtain ⟨key, d⟩ := p
      intro before hnodup
      have hkey : key ∉ Assoc.keys before := by
        simp only [Assoc.keys, List.map_append, List.map_cons, List.nodup_append] at hnodup ⊢
        exact fun hmem => hnodup.2.2 key hmem key List.mem_cons_self rfl
      have hnone : Assoc.get? before key = none := (Assoc.get?_eq_none_iff before key).mpr hkey
      rw [mergeMembers, hnone, mergeMember_none]
      dsimp only
      rw [Assoc.insert_of_notMem hkey, ih (by simpa using hnodup), List.append_assoc,
        List.singleton_append]
  exact happend h

namespace Skeleton

variable {path : String} {mode : MergeMode} {key : MemberKey} {d own : MemberDescriptor}
  {lower child : Skeleton}

/-! ### Below the root -/

/-- What merging a descriptor in comes to below the root.  Where the class lacks the member, the whole
descriptor is placed; where it has one, the placed descriptor is merged into that. -/
structure TakenWhole (path : String) (mode : MergeMode) (d : MemberDescriptor) : Prop where
  copied : ∀ kept, copyMember path mode kept d = .ok (mode.placeDeep d, kept)
  overridden : ∀ key own child kept, Assoc.get? child key = some own →
    overrideMember path mode false key d own child kept =
      (Assoc.insert child key (mergeMember path key (mode.placeDeep d) (some own)).1,
        (mergeMember path key (mode.placeDeep d) (some own)).2.map fun _ => kept)

theorem copyMember_of_leaf (h : d.members? = none) (kept : List MemberKey) :
    copyMember path mode kept d = .ok (mode.place d, kept) := by
  cases d with
  | nested ms => cases h
  | _ => rfl

theorem overrideMember_of_leaf (h : d.members? = none) (own : MemberDescriptor) (child : Skeleton)
    (kept : List MemberKey) : overrideMember path mode false key d own child kept = (child, .ok kept) := by
  cases d with
  | nested ms => cases h
  | _ => rfl

theorem takenWhole_of_leaf (h : d.members? = none) : TakenWhole path mode d := by
  refine ⟨fun kept => ?_, fun key own child kept hown => ?_⟩
  · rw [copyMember_of_leaf h, mode.placeDeep_of_leaf h]
  · -- the class's own stays, and so does the skeleton
    rw [overrideMember_of_leaf h, mergeMember_of_leaf (mode.members?_placeDeep_of_leaf h)]
    dsimp only
    rw [Assoc.insert_of_get? hown]
    rfl

/-- Below the root, members that are taken over whole one by one are so together. -/
theorem merge_eq_mergeMembers (hlower : ∀ p ∈ lower, TakenWhole path mode p.2) (child : Skeleton)
    (kept : List MemberKey) :
    merge path mode false lower child kept =
      ((mergeMembers path (mode.placeAll lower) child).1,
        (mergeMembers path (mode.placeAll lower) child).2.map fun _ => kept) := by
  induction lower generalizing child with
  | nil =>
    rw [mode.placeAll_nil]
    rfl
  | cons p rest ih =>
    obtain ⟨key, d⟩ := p
    obtain ⟨hd, hrest⟩ := List.forall_mem_cons.mp hlower
    rw [merge, mode.placeAll_cons, mergeMembers]
    rcases hown : Assoc.get? child key with _ | own
    · dsimp only
      rw [hd.copied, mergeMember_none]
      exact ih hrest _
    · dsimp only
      rw [Bool.false_and, if_neg Bool.false_ne_true, hd.overridden key own child kept hown]
      rcases mergeMember path key (mode.placeDeep d) (some own) with ⟨merged, e | u⟩
      · rfl
      · exact ih hrest _

/-- Every descriptor whose keys are pairwise different at every level is taken over whole. -/
theorem takenWhole (hd : d.Distinct) : TakenWhole path mode d := by
  induction d using MemberDescriptor.induction with
  | leaf d hleaf => exact takenWhole_of_leaf hleaf
  | nested lower ih =>
    rw [MemberDescriptor.Distinct, allLeaves_nested] at hd
    have hmembers : ∀ p ∈ lower, TakenWhole path mode p.2 := fun p hp => ih p hp (hd.2 p hp)
    refine ⟨fun kept => ?_, fun key own child kept hown => ?_⟩
    · -- the empty object has no keys, so each member is copied in turn
      have hkeys : (Assoc.keys (mode.placeAll lower)).Nodup := mode.keys_placeAll lower ▸ hd.1
      rw [copyMember, merge_eq_mergeMembers hmembers, mergeMembers_nil hkeys, mode.placeDeep_nested]
      rfl
    · rw [mode.placeDeep_nested]
      rcases hm : own.members? with _ | upper
      · rw [mergeMember_nested_leaf _ hm]
        dsimp only
        rw [Assoc.insert_of_get? hown]
        cases own with
        | nested ms => cases hm
        | _ => rfl
      · obtain rfl := MemberDescriptor.eq_nested_of_members? hm
        rw [mergeMember_nested_nested, overrideMember, merge_eq_mergeMembers hmembers]

/-! ### At the root -/

/-- What overriding a member comes to at the root: it is merged as below, and then its implementation is
kept where it is a parent's method. -/
theorem overrideMember_root (hd : d.Distinct) (kept : List MemberKey)
    (hown : Assoc.get? child key = some own) :
    overrideMember path mode true key d own child kept =
      match mergeMember path key (mode.placeDeep d) (some own) with
      | (merged, .error e) => (Assoc.insert child key merged, .error e)
      | (merged, .ok ()) =>
        match keptKey? mode.owner? key (mode.placeDeep d) with
        | none => (Assoc.insert child key merged, .ok kept)
        | some slot =>
          if Assoc.contains (Assoc.insert child key merged) slot then
            (Assoc.insert child key merged, .error (.aliasTaken path slot))
          else (Assoc.insert (Assoc.insert child key merged) slot (mode.placeDeep d),
            .ok (kept ++ [slot])) := by
  by_cases hcallable : d.isCallable = true
  · -- a method is no object, so the class's own stays
    have hleaf : (mode.placeDeep d).members? = none := by
      refine mode.members?_placeDeep_of_leaf ?_
      cases d with
      | function index => rfl
      | _ => cases hcallable
    rw [mergeMember_of_leaf hleaf]
    dsimp only
    rw [Assoc.insert_of_get? hown]
    cases d with
    | function index => cases mode <;> rfl
    | _ => cases hcallable
  · -- nothing else is kept, and the root is as any other level
    have hnone : keptKey? mode.owner? key (mode.placeDeep d) = none := by
      rw [keptKey?, mode.isCallable_placeDeep, if_neg hcallable]
    have hbelow : overrideMember path mode true key d own child kept =
        overrideMember path mode false key d own child kept := by
      cases d with
      | function index => exact absurd rfl hcallable
      | _ => cases own <;> rfl
    rw [hbelow, (takenWhole hd).overridden key own child kept hown, hnone]
    rcases mergeMember path key (mode.placeDeep d) (some own) with ⟨merged, e | u⟩ <;> rfl

/-- At the root, merging skeletons with distinct keys takes the members that the class lacks over whole. -/
theorem merge_eq_mergeRoot (hlower : lower.Distinct) (child : Skeleton) (kept : List MemberKey) :
    merge path mode true lower child kept =
      mergeRoot path mode.owner? (mode.placeAll lower) child kept := by
  induction lower generalizing child kept with
  | nil =>
    rw [mode.placeAll_nil]
    rfl
  | cons p rest ih =>
    obtain ⟨key, d⟩ := p
    obtain ⟨-, hd, hrest⟩ := allLeaves_cons.mp hlower
    rw [merge, mode.placeAll_cons, mergeRoot]
    -- a member that the class lacks is re-created by merging into nothing, which is taking it over whole
    rcases hown : Assoc.get? child key with _ | own
    · dsimp only
      rw [(takenWhole hd).copied]
      exact ih hrest _ _
    · dsimp only
      rw [Bool.true_and, mode.mayOverride_placeDeep]
      by_cases hallowed : mayOverride own d = true
      · -- both sides override the member in place and then look for the slot of what is kept
        rw [hallowed, Bool.not_true, if_neg Bool.false_ne_true, if_pos rfl, overrideMember_root hd kept hown]
        rcases mergeMember path key (mode.placeDeep d) (some own) with ⟨merged, e | u⟩
        · rfl
        dsimp only
        rcases keptKey? mode.owner? key (mode.placeDeep d) with _ | slot
        · exact ih hrest _ _
        · dsimp only
          by_cases htaken : Assoc.contains (Assoc.insert child key merged) slot = true
          · rw [if_pos htaken, if_pos htaken]
          · rw [if_neg htaken, if_neg htaken]
            exact ih hrest _ _
      · rw [Bool.not_eq_true] at hallowed
        rw [hallowed, Bool.not_false, if_pos rfl, if_neg Bool.false_ne_true]

/-- Extending a class takes the parent's members over as they stand. -/
theorem extend_eq_mergeRoot {parent : Skeleton} (hparent : parent.Distinct) (child : Skeleton)
    (parentName : String) :
    extend path child parentName parent = mergeRoot path (some parentName) parent child [] :=
  merge_eq_mergeRoot hparent child []

/-- Implementing a mixin takes its members over with every index, at any depth, moved once. -/
theorem implement_eq_mergeRoot {mixin : Skeleton} (hmixin : mixin.Distinct) (child : Skeleton)
    (offset : Nat) :
    implement path child mixin offset =
      ((mergeRoot path none (shiftMembers offset mixin) child []).1,
        (mergeRoot path none (shiftMembers offset mixin) child []).2.map fun _ => ()) := by
  rw [implement, merge_eq_mergeRoot hmixin]
  rfl

end Skeleton

/-! ### Composing, step by step -/

variable {path : String} {R : MemberDescriptor → MemberDescriptor → MemberDescriptor → Prop}

/-- Extending a class without conflict takes the steps of a merge at the root. -/
theorem rootMerge_of_extend {parentName : String} {child parent result : Skeleton}
    {kept : List MemberKey} (hparent : parent.Distinct)
    (member : ∀ {key d own merged},
      mergeMember path key d (some own) = (merged, .ok ()) → R d own merged)
    (h : Skeleton.extend path child parentName parent = (result, .ok kept)) :
    RootMerge R (some parentName) parent child result kept := by
  rw [Skeleton.extend_eq_mergeRoot hparent] at h
  obtain ⟨slots, hslots, hkept⟩ := rootMerge_of_mergeRoot member h
  rw [hkept, List.nil_append]
  exact hslots

/-- Implementing a mixin without conflict takes these steps, over the mixin's members as they stand
behind the table that its own is appended to. -/
theorem rootMerge_of_implement {child mixin result : Skeleton} {offset : Nat} (hmixin : mixin.Distinct)
    (member : ∀ {key d own merged},
      mergeMember path key d (some own) = (merged, .ok ()) → R d own merged)
    (h : Skeleton.implement path child mixin offset = (result, .ok ())) :
    ∃ slots, RootMerge R none (shiftMembers offset mixin) child result slots := by
  rw [Skeleton.implement_eq_mergeRoot hmixin] at h
  rcases hm : mergeRoot path none (shiftMembers offset mixin) child [] with ⟨skeleton, e | after⟩
  · rw [hm] at h
    cases h
  · rw [hm] at h
    cases h
    obtain ⟨slots, hslots, -⟩ := rootMerge_of_mergeRoot member hm
    exact ⟨slots, hslots⟩

end ClassComposition
