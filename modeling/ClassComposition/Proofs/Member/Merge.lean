import ClassComposition.Proofs.Member.WholeMerge

/-!
# Successful merges, step by step

A merge goes through the members that are merged in, one after the other.  For a merge that succeeds, the
relations here list what one step may do, so that a property of merges is proved by one case for each
kind of step: a member is copied, it is overridden, or it is overridden and its implementation kept.  The
relation between the two sides of an overridden member and what they are merged into is a parameter.

## Main definitions

* `NestedMerge` — the steps below the root.
* `RootMerge` — the steps at the root, with the slots in which implementations are kept.

## Main results

* `mergeMember_induction` — what holds of overridden leaves, and of overridden nested objects when it
  holds of the members that both have, holds of every member that is overridden.
* `rootMerge_of_mergeRoot` — a merge at the root that succeeds takes these steps.
-/

namespace ClassComposition

variable {path : String} {R : MemberDescriptor → MemberDescriptor → MemberDescriptor → Prop}

/-! ### Below the root -/

/-- The steps of a merge below the root, with what they give: `R d own merged` where the class has `own`
for a member whose descriptor `d` is merged in. -/
inductive NestedMerge (R : MemberDescriptor → MemberDescriptor → MemberDescriptor → Prop) :
    Skeleton → Skeleton → Skeleton → Prop
  | nil (upper : Skeleton) : NestedMerge R [] upper upper
  | copied {key : MemberKey} {d : MemberDescriptor} {rest upper result : Skeleton}
      (absent : Assoc.get? upper key = none)
      (others : NestedMerge R rest (Assoc.insert upper key d) result) :
      NestedMerge R ((key, d) :: rest) upper result
  | overridden {key : MemberKey} {d own merged : MemberDescriptor} {rest upper result : Skeleton}
      (present : Assoc.get? upper key = some own) (step : R d own merged)
      (others : NestedMerge R rest (Assoc.insert upper key merged) result) :
      NestedMerge R ((key, d) :: rest) upper result

/-- A merge below the root that succeeds takes these steps. -/
theorem nestedMerge_of_mergeMembers {lower upper result : Skeleton}
    (member : ∀ p ∈ lower, ∀ own merged,
      mergeMember path p.1 p.2 (some own) = (merged, .ok ()) → R p.2 own merged)
    (h : mergeMembers path lower upper = (result, .ok ())) : NestedMerge R lower upper result := by
  induction lower generalizing upper with
  | nil =>
    cases h
    exact .nil _
  | cons p rest ih =>
    obtain ⟨key, d⟩ := p
    have hrest : ∀ p ∈ rest, ∀ own merged,
        mergeMember path p.1 p.2 (some own) = (merged, .ok ()) → R p.2 own merged :=
      fun p hp => member p (List.mem_cons_of_mem _ hp)
    rw [mergeMembers] at h
    -- one step for the first member, with the others merged into what it leaves
    rcases hown : Assoc.get? upper key with _ | own
    · rw [hown, mergeMember_none] at h
      exact .copied hown (ih hrest h)
    · rw [hown] at h
      rcases hm : mergeMember path key d (some own) with ⟨merged, e | u⟩
      · rw [hm] at h
        cases h
      · rw [hm] at h
        exact .overridden hown (member (key, d) List.mem_cons_self own merged hm) (ih hrest h)

/-- What holds of overridden leaves, and of overridden nested objects when it holds of the members that
both sides have, holds of every member that is overridden. -/
theorem mergeMember_induction
    (leaf : ∀ d own, d.members? = none → R d own own)
    (nested : ∀ lower upper result, NestedMerge R lower upper result →
      R (.nested lower) (.nested upper) (.nested result))
    {key : MemberKey} {d own merged : MemberDescriptor}
    (h : mergeMember path key d (some own) = (merged, .ok ())) : R d own merged := by
  induction d using MemberDescriptor.induction generalizing key own merged with
  | leaf d hleaf =>
    rw [mergeMember_of_leaf hleaf] at h
    cases h
    exact leaf d own hleaf
  | nested lower ih =>
    rcases hm : own.members? with _ | upper
    · -- an object never gives way to a leaf
      rw [mergeMember_nested_leaf lower hm] at h
      cases h
    · obtain rfl := MemberDescriptor.eq_nested_of_members? hm
      rw [mergeMember_nested_nested] at h
      rcases hr : mergeMembers path lower upper with ⟨result, outcome⟩
      rw [hr] at h
      cases h
      refine nested lower upper result (nestedMerge_of_mergeMembers ?_ hr)
      intro p hp own merged hstep
      exact ih p hp hstep

/-! ### At the root -/

/-- The steps of a merge at the root, with what they give and the slots in which implementations are
kept. -/
inductive RootMerge (R : MemberDescriptor → MemberDescriptor → MemberDescriptor → Prop)
    (owner? : Option String) : Skeleton → Skeleton → Skeleton → List MemberKey → Prop
  | nil (upper : Skeleton) : RootMerge R owner? [] upper upper []
  | copied {key : MemberKey} {d : MemberDescriptor} {rest upper result : Skeleton}
      {slots : List MemberKey} (absent : Assoc.get? upper key = none)
      (others : RootMerge R owner? rest (Assoc.insert upper key d) result slots) :
      RootMerge R owner? ((key, d) :: rest) upper result slots
  | overridden {key : MemberKey} {d own merged : MemberDescriptor} {rest upper result : Skeleton}
      {slots : List MemberKey} (present : Assoc.get? upper key = some own)
      (allowed : mayOverride own d = true) (step : R d own merged)
      (unkept : keptKey? owner? key d = none)
      (others : RootMerge R owner? rest (Assoc.insert upper key merged) result slots) :
      RootMerge R owner? ((key, d) :: rest) upper result slots
  | kept {key slot : MemberKey} {d own merged : MemberDescriptor} {rest upper result : Skeleton}
      {slots : List MemberKey} (present : Assoc.get? upper key = some own)
      (allowed : mayOverride own d = true) (step : R d own merged)
      (slot_eq : keptKey? owner? key d = some slot)
      (free : Assoc.get? (Assoc.insert upper key merged) slot = none)
      (others : RootMerge R owner? rest
        (Assoc.insert (Assoc.insert upper key merged) slot d) result slots) :
      RootMerge R owner? ((key, d) :: rest) upper result (slot :: slots)

/-- A merge at the root that succeeds takes these steps. -/
theorem rootMerge_of_mergeRoot {owner? : Option String} {lower upper result : Skeleton}
    {before after : List MemberKey}
    (member : ∀ {key d own merged},
      mergeMember path key d (some own) = (merged, .ok ()) → R d own merged)
    (h : mergeRoot path owner? lower upper before = (result, .ok after)) :
    ∃ slots, RootMerge R owner? lower upper result slots ∧ after = before ++ slots := by
  induction lower generalizing upper before with
  | nil =>
    cases h
    exact ⟨[], .nil _, (List.append_nil _).symm⟩
  | cons p rest ih =>
    obtain ⟨key, d⟩ := p
    rw [mergeRoot] at h
    rcases hown : Assoc.get? upper key with _ | own
    · rw [hown] at h
      obtain ⟨slots, hslots, hafter⟩ := ih h
      exact ⟨slots, .copied hown hslots, hafter⟩
    rw [hown] at h
    dsimp only at h
    by_cases hallowed : mayOverride own d = true
    · rw [if_pos hallowed] at h
      rcases hm : mergeMember path key d (some own) with ⟨merged, e | u⟩
      · rw [hm] at h
        cases h
      rw [hm] at h
      dsimp only at h
      rcases hslot : keptKey? owner? key d with _ | slot
      · rw [hslot] at h
        obtain ⟨slots, hslots, hafter⟩ := ih h
        exact ⟨slots, .overridden hown hallowed (member hm) hslot hslots, hafter⟩
      · rw [hslot] at h
        dsimp only at h
        -- the merge goes on only where the slot is free
        by_cases htaken : Assoc.contains (Assoc.insert upper key merged) slot = true
        · rw [if_pos htaken] at h
          cases h
        · rw [if_neg htaken] at h
          obtain ⟨slots, hslots, hafter⟩ := ih h
          have hfree : Assoc.get? (Assoc.insert upper key merged) slot = none := by
            rw [Assoc.contains_iff] at htaken
            exact (Assoc.get?_eq_none_iff _ _).mpr htaken
          refine ⟨slot :: slots, .kept hown hallowed (member hm) hslot hfree hslots, ?_⟩
          rw [hafter, List.append_assoc, List.singleton_append]
    · rw [if_neg hallowed] at h
      cases h

end ClassComposition
