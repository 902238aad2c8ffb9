import ClassComposition.Proofs.Member.Copying
import ClassComposition.Proofs.Member.Tree
import ClassComposition.Proofs.Outcome

/-!
# Merging what reads alike

Two skeletons may point into different tables and still read alike, each leaf being read by a function of
its own.  As long as methods and placeholders read as such, a merge does not see the difference: it comes
to the same outcome on both sides, and leaves skeletons that read alike.

## Main definitions

* `Telling` — two ways of reading under which methods and placeholders are told apart from other leaves.

## Main results

* `Skeleton.mergeMember_alike`, `Skeleton.mergeRoot_alike` — merging skeletons that read alike.
* `Skeleton.extend_alike`, `Skeleton.implement_alike` — the same for parents and mixins.
* `Skeleton.forest_transfer` — skeletons that read alike also do so when less is read.
-/

namespace ClassComposition

open MemberDescriptor

variable {α β : Type} {f g : MemberDescriptor → α}

/-- Leaves that read alike, one in each way, are both methods or neither is, and likewise placeholders. -/
def Telling (f g : MemberDescriptor → α) : Prop :=
  ∀ d d', f d = g d' → d.isCallable = d'.isCallable ∧ d.isPlaceholder = d'.isPlaceholder

/-! ### Members that read alike -/

/-- Descriptors that read alike are both leaves, or both nested objects with members that read alike. -/
theorem MemberDescriptor.tree_eq_cases {d d' : MemberDescriptor} (h : d.tree f = d'.tree g) :
    (d.members? = none ∧ d'.members? = none ∧ f d = g d') ∨
      ∃ ms ms' : Skeleton, d = nested ms ∧ d' = nested ms' ∧ ms.forest f = ms'.forest g := by
  rcases hd : d.members? with _ | ms
  · rcases hd' : d'.members? with _ | ms'
    · rw [tree_leaf f hd, tree_leaf g hd', Tree.leaf.injEq] at h
      exact .inl ⟨rfl, rfl, h⟩
    · obtain rfl := eq_nested_of_members? hd'
      rw [tree_leaf f hd, Skeleton.tree_nested] at h
      cases h
  · obtain rfl := eq_nested_of_members? hd
    rcases hd' : d'.members? with _ | ms'
    · rw [tree_leaf g hd', Skeleton.tree_nested] at h
      cases h
    · obtain rfl := eq_nested_of_members? hd'
      rw [Skeleton.tree_nested, Skeleton.tree_nested, Tree.object.injEq] at h
      exact .inr ⟨ms, ms', rfl, rfl, h⟩

theorem Telling.of_tree (hfg : Telling f g) {d d' : MemberDescriptor} (h : d.tree f = d'.tree g) :
    d.isCallable = d'.isCallable ∧ d.isPlaceholder = d'.isPlaceholder := by
  rcases tree_eq_cases h with ⟨-, -, hread⟩ | ⟨ms, ms', rfl, rfl, -⟩
  · exact hfg d d' hread
  · exact ⟨rfl, rfl⟩

namespace Skeleton

variable {ms ms' : Skeleton} {key : MemberKey} {d d' : MemberDescriptor}

/-- Skeletons that read alike begin alike. -/
theorem forest_cons_eq {rest : Skeleton} (h : forest f ((key, d) :: rest) = forest g ms') :
    ∃ d' rest', ms' = (key, d') :: rest' ∧ d.tree f = d'.tree g ∧ forest f rest = forest g rest' := by
  cases ms' with
  | nil => cases h
  | cons q rest' =>
    obtain ⟨key', d'⟩ := q
    rw [forest, forest, List.map_cons, List.map_cons, List.cons.injEq, Prod.mk.injEq] at h
    obtain ⟨⟨rfl, htree⟩, hrest⟩ := h
    exact ⟨d', rest', rfl, htree, hrest⟩

theorem keys_eq_of_forest (h : forest f ms = forest g ms') : Assoc.keys ms = Assoc.keys ms' := by
  rw [← keys_forest f ms, h, keys_forest]

theorem contains_eq_of_forest (h : forest f ms = forest g ms') (key : MemberKey) :
    Assoc.contains ms key = Assoc.contains ms' key := by
  rw [Bool.eq_iff_iff, Assoc.contains_iff, Assoc.contains_iff, keys_eq_of_forest h]

theorem get?_of_forest (h : forest f ms = forest g ms') (key : MemberKey) :
    (Assoc.get? ms key = none ∧ Assoc.get? ms' key = none) ∨
      ∃ d d', Assoc.get? ms key = some d ∧ Assoc.get? ms' key = some d' ∧ d.tree f = d'.tree g := by
  have hget : (Assoc.get? ms key).map (MemberDescriptor.tree f)
      = (Assoc.get? ms' key).map (MemberDescriptor.tree g) := by
    rw [← get?_forest, h, get?_forest]
  rcases hd : Assoc.get? ms key with _ | d
  · rcases hd' : Assoc.get? ms' key with _ | d'
    · exact .inl ⟨rfl, rfl⟩
    · rw [hd, hd'] at hget
      cases hget
  · rcases hd' : Assoc.get? ms' key with _ | d'
    · rw [hd, hd'] at hget
      cases hget
    · rw [hd, hd', Option.map_some, Option.map_some, Option.some.injEq] at hget
      exact .inr ⟨d, d', rfl, rfl, hget⟩

theorem forest_insert_eq (h : forest f ms = forest g ms') (key : MemberKey)
    (hd : d.tree f = d'.tree g) :
    forest f (Assoc.insert ms key d) = forest g (Assoc.insert ms' key d') := by
  rw [forest_insert, forest_insert, h, hd]

/-- Where the members read alike in a second way, so does the skeleton. -/
theorem forest_transfer_of {f' g' : MemberDescriptor → β}
    (member : ∀ p ∈ ms, ∀ {d' : MemberDescriptor}, p.2.tree f = d'.tree g →
      p.2.tree f' = d'.tree g')
    (h : forest f ms = forest g ms') : forest f' ms = forest g' ms' := by
  induction ms generalizing ms' with
  | nil =>
    cases ms' with
    | nil => rfl
    | cons q rest' => cases h
  | cons p rest ih =>
    obtain ⟨key, d⟩ := p
    obtain ⟨d', rest', rfl, htree, hrest⟩ := forest_cons_eq h
    rw [List.forall_mem_cons] at member
    show (key, d.tree f') :: forest f' rest = (key, d'.tree g') :: forest g' rest'
    rw [member.1 htree, ih member.2 hrest]

/-- What the reading of a leaf tells reads alike where the leaf does, at any depth. -/
theorem tree_transfer {f' g' : MemberDescriptor → β} (hread : ∀ d d', f d = g d' → f' d = g' d')
    (h : d.tree f = d'.tree g) : d.tree f' = d'.tree g' := by
  induction d using MemberDescriptor.induction generalizing d' with
  | leaf d hleaf =>
    rcases tree_eq_cases h with ⟨-, hleaf', heq⟩ | ⟨ms, ms', rfl, -⟩
    · rw [tree_leaf f' hleaf, tree_leaf g' hleaf', hread d d' heq]
    · cases hleaf
  | nested ms ih =>
    rcases tree_eq_cases h with ⟨hleaf, -⟩ | ⟨_, ms', heq, rfl, hforest⟩
    · cases hleaf
    cases heq
    rw [tree_nested, tree_nested, forest_transfer_of (fun p hp _ htree => ih p hp htree) hforest]

theorem forest_transfer {f' g' : MemberDescriptor → β} (hread : ∀ d d', f d = g d' → f' d = g' d')
    (h : forest f ms = forest g ms') : forest f' ms = forest g' ms' :=
  forest_transfer_of (fun _ _ _ htree => tree_transfer hread htree) h

/-! ### Merging below the root -/

variable {lower lower' upper upper' : Skeleton} (path : String)

/-- Where merging the members of two objects reads alike, so does merging the objects. -/
theorem mergeMembers_alike_of
    (member : ∀ p ∈ lower, ∀ {d' own own' : MemberDescriptor}, p.2.tree f = d'.tree g →
      own.tree f = own'.tree g →
      (mergeMember path p.1 p.2 (some own)).1.tree f = (mergeMember path p.1 d' (some own')).1.tree g ∧
        SameOutcome (fun _ _ => True) (mergeMember path p.1 p.2 (some own)).2
          (mergeMember path p.1 d' (some own')).2)
    (hlower : forest f lower = forest g lower') (hupper : forest f upper = forest g upper') :
    forest f (mergeMembers path lower upper).1 = forest g (mergeMembers path lower' upper').1 ∧
      SameOutcome (fun _ _ => True) (mergeMembers path lower upper).2
        (mergeMembers path lower' upper').2 := by
  induction lower generalizing lower' upper upper' with
  | nil =>
    cases lower' with
    | nil => exact ⟨hupper, .ok trivial⟩
    | cons q rest' => cases hlower
  | cons p rest ih =>
    obtain ⟨key, d⟩ := p
    obtain ⟨d', rest', rfl, hd, hrest⟩ := forest_cons_eq hlower
    rw [List.forall_mem_cons] at member
    -- the member is merged alike, whether the class has one or not
    have hstep : (mergeMember path key d (Assoc.get? upper key)).1.tree f
          = (mergeMember path key d' (Assoc.get? upper' key)).1.tree g ∧
        SameOutcome (fun _ _ => True) (mergeMember path key d (Assoc.get? upper key)).2
          (mergeMember path key d' (Assoc.get? upper' key)).2 := by
      rcases get?_of_forest hupper key with ⟨hown, hown'⟩ | ⟨own, own', hown, hown', htree⟩
      · rw [hown, hown', mergeMember_none, mergeMember_none]
        exact ⟨hd, .ok trivial⟩
      · rw [hown, hown']
        exact member.1 hd htree
    rcases hmerged : mergeMember path key d (Assoc.get? upper key) with ⟨merged, outcome⟩
    rcases hmerged' : mergeMember path key d' (Assoc.get? upper' key) with ⟨merged', outcome'⟩
    rw [hmerged, hmerged'] at hstep
    obtain ⟨htree, hsame⟩ := hstep
    have hwritten := forest_insert_eq hupper key htree
    rw [mergeMembers, mergeMembers, hmerged, hmerged']
    cases hsame with
    | ok => exact ih member.2 hrest hwritten
    | error hkind => exact ⟨hwritten, .error hkind⟩

/-- Merging a member into one that the class has reads alike where both members do. -/
theorem mergeMember_alike (key : MemberKey) {own own' : MemberDescriptor} (hd : d.tree f = d'.tree g)
    (hown : own.tree f = own'.tree g) :
    (mergeMember path key d (some own)).1.tree f = (mergeMember path key d' (some own')).1.tree g ∧
      SameOutcome (fun _ _ => True) (mergeMember path key d (some own)).2
        (mergeMember path key d' (some own')).2 := by
  induction d using MemberDescriptor.induction generalizing key d' own own' with
  | leaf d hleaf =>
    rcases tree_eq_cases hd with ⟨-, hleaf', -⟩ | ⟨ms, ms', rfl, -⟩
    · rw [mergeMember_of_leaf hleaf, mergeMember_of_leaf hleaf']
      exact ⟨hown, .ok trivial⟩
    · cases hleaf
  | nested ms ih =>
    rcases tree_eq_cases hd with ⟨hleaf, -⟩ | ⟨_, ms', heq, rfl, hforest⟩
    · cases hleaf
    cases heq
    rcases tree_eq_cases hown with ⟨hleaf, hleaf', -⟩ | ⟨child, child', rfl, rfl, hchild⟩
    · -- the object became something else, on both sides
      rw [mergeMember_nested_leaf ms hleaf, mergeMember_nested_leaf ms' hleaf']
      exact ⟨hown, .error rfl⟩
    · obtain ⟨hmerged, hsame⟩ := mergeMembers_alike_of path
        (fun p hp _ _ _ hd hown => ih p hp p.1 hd hown) hforest hchild
      rw [mergeMember_nested_nested, mergeMember_nested_nested, tree_nested, tree_nested, hmerged]
      exact ⟨rfl, hsame⟩

/-! ### Merging at the root -/

/-- Merging at the root reads alike where both skeletons do. -/
theorem mergeRoot_alike (hfg : Telling f g) (owner? : Option String) (kept kept' : List MemberKey)
    (hlower : forest f lower = forest g lower') (hupper : forest f upper = forest g upper') :
    forest f (mergeRoot path owner? lower upper kept).1
        = forest g (mergeRoot path owner? lower' upper' kept').1 ∧
      SameOutcome (fun _ _ => True) (mergeRoot path owner? lower upper kept).2
        (mergeRoot path owner? lower' upper' kept').2 := by
  induction lower generalizing lower' upper upper' kept kept' with
  | nil =>
    cases lower' with
    | nil => exact ⟨hupper, .ok trivial⟩
    | cons q rest' => cases hlower
  | cons p rest ih =>
    obtain ⟨key, d⟩ := p
    obtain ⟨d', rest', rfl, hd, hrest⟩ := forest_cons_eq hlower
    rw [mergeRoot, mergeRoot]
    rcases get?_of_forest hupper key with ⟨hown, hown'⟩ | ⟨own, own', hown, hown', htree⟩
    · rw [hown, hown']
      exact ih _ _ hrest (forest_insert_eq hupper key hd)
    rw [hown, hown']
    dsimp only
    -- the override rule and the place for what is kept look at methods and placeholders only
    obtain ⟨hcallable, hplaceholder⟩ := hfg.of_tree hd
    obtain ⟨hownCallable, -⟩ := hfg.of_tree htree
    have hallowed : mayOverride own d = mayOverride own' d' := by
      rw [mayOverride, mayOverride, hcallable, hplaceholder, hownCallable]
    have hslot : keptKey? owner? key d = keptKey? owner? key d' := by
      rw [keptKey?, keptKey?, hcallable]
    obtain ⟨hmergedTree, hsame⟩ := mergeMember_alike path key hd htree
    rcases hmerged : mergeMember path key d (some own) with ⟨merged, outcome⟩
    rcases hmerged' : mergeMember path key d' (some own') with ⟨merged', outcome'⟩
    rw [hmerged, hmerged'] at hmergedTree hsame
    have hwritten := forest_insert_eq hupper key hmergedTree
    rw [hallowed, hslot]
    by_cases hmay : mayOverride own' d' = true
    · rw [if_pos hmay, if_pos hmay]
      cases hsame with
      | error hkind => exact ⟨hwritten, .error hkind⟩
      | ok =>
        rcases hkept : keptKey? owner? key d' with _ | slot
        · exact ih _ _ hrest hwritten
        · have htaken := contains_eq_of_forest hwritten slot
          dsimp only
          rw [htaken]
          by_cases hfull : Assoc.contains (Assoc.insert upper' key merged') slot = true
          · rw [if_pos hfull, if_pos hfull]
            exact ⟨hwritten, .error rfl⟩
          · rw [if_neg hfull, if_neg hfull]
            exact ih _ _ hrest (forest_insert_eq hwritten slot hd)
    · rw [if_neg hmay, if_neg hmay]
      exact ⟨hupper, .error rfl⟩

/-- Merging a parent reads alike where both skeletons do. -/
theorem extend_alike (hfg : Telling f g) (owner : String) (hdistinct : lower.Distinct)
    (hdistinct' : lower'.Distinct) (hlower : forest f lower = forest g lower')
    (hupper : forest f upper = forest g upper') :
    forest f (Skeleton.extend path upper owner lower).1
        = forest g (Skeleton.extend path upper' owner lower').1 ∧
      SameOutcome (fun _ _ => True) (Skeleton.extend path upper owner lower).2
        (Skeleton.extend path upper' owner lower').2 := by
  rw [extend_eq_mergeRoot hdistinct, extend_eq_mergeRoot hdistinct']
  exact mergeRoot_alike path hfg (some owner) [] [] hlower hupper

/-- Merging a mixin reads alike where the class's own members and the moved ones do. -/
theorem implement_alike (hfg : Telling f g) {offset offset' : Nat} (hdistinct : lower.Distinct)
    (hdistinct' : lower'.Distinct)
    (hlower : forest f (shiftMembers offset lower) = forest g (shiftMembers offset' lower'))
    (hupper : forest f upper = forest g upper') :
    forest f (Skeleton.implement path upper lower offset).1
        = forest g (Skeleton.implement path upper' lower' offset').1 ∧
      SameOutcome (fun _ _ => True) (Skeleton.implement path upper lower offset).2
        (Skeleton.implement path upper' lower' offset').2 := by
  obtain ⟨hmerged, hsame⟩ := mergeRoot_alike path hfg none [] [] hlower hupper
  rw [implement_eq_mergeRoot hdistinct, implement_eq_mergeRoot hdistinct']
  refine ⟨hmerged, ?_⟩
  rcases hrun : mergeRoot path none (shiftMembers offset lower) upper [] with ⟨result, outcome⟩
  rcases hrun' : mergeRoot path none (shiftMembers offset' lower') upper' [] with ⟨result', outcome'⟩
  rw [hrun, hrun'] at hsame
  cases hsame with
  | ok => exact .ok trivial
  | error hkind => exact .error hkind

end Skeleton

end ClassComposition
