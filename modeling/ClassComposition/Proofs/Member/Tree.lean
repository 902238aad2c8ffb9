import ClassComposition.Proofs.Member.Leaves

/-!
# Trees of members

What a merge of skeletons does is best said of trees in which an index has been replaced by what it
stands for.  How a leaf is read is a parameter, so the same statements hold of trees of descriptors and
of trees of values.  On trees there is one plain merge: the keys of the upper tree stay in order, objects
on both sides are merged in the same way, and the keys that only the lower tree has follow in its order.

## Main definitions

* `Tree`, `Forest` — trees of members, and the members of an object.
* `Tree.merge`, `Forest.merge` — the plain merge.
* `MemberDescriptor.tree`, `Skeleton.forest` — descriptors as trees, leaves being read by a function.
* `Forest.plain` — the members that are no aliases.

## Main results

* `Skeleton.tree_mergeMember`, `Skeleton.forest_of_nestedMerge` — below the root, merging descriptors is
  the plain merge of their trees.
* `Skeleton.plain_of_rootMerge` — at the root the same holds of the members that are no aliases.
-/

namespace ClassComposition

/-- A tree of members: a leaf, or an object whose members are trees. -/
inductive Tree (α : Type)
  | leaf (a : α)
  | object (members : List (MemberKey × Tree α))

/-- The members of an object, in order. -/
abbrev Forest (α : Type) := Assoc MemberKey (Tree α)

variable {α : Type}

/-! ### The plain merge -/

namespace Tree

mutual

/-- The plain merge: where both trees are objects the members are merged, else the upper tree stays. -/
def merge : Tree α → Tree α → Tree α
  | object upper, object lower =>
    object (mergeUpper upper lower ++ lower.filter fun p => !Assoc.contains upper p.1)
  | upper, _ => upper
termination_by structural upper => upper

/-- The members of the upper object, each merged with the one of its name in the lower object. -/
def mergeUpper : List (MemberKey × Tree α) → Forest α → List (MemberKey × Tree α)
  | [], _ => []
  | (key, upper) :: rest, lower =>
    (key, match Assoc.get? lower key with
      | some below => merge upper below
      | none => upper) :: mergeUpper rest lower
termination_by structural upper => upper

end

/-- A tree with the one below it, if there is one, merged in. -/
def mergeOption (upper : Tree α) : Option (Tree α) → Tree α
  | some lower => upper.merge lower
  | none => upper

theorem mergeUpper_eq_map (upper lower : Forest α) :
    mergeUpper upper lower = upper.map fun p => (p.1, p.2.mergeOption (Assoc.get? lower p.1)) := by
  induction upper with
  | nil => rfl
  | cons p rest ih =>
    obtain ⟨key, tree⟩ := p
    rw [mergeUpper, ih, List.map_cons]
    rcases Assoc.get? lower key with _ | below <;> rfl

end Tree

namespace Forest

/-- The plain merge of the members of two objects. -/
def merge (upper lower : Forest α) : Forest α :=
  Tree.mergeUpper upper lower ++ lower.filter fun p => !Assoc.contains upper p.1

theorem merge_nil (upper : Forest α) : upper.merge [] = upper := by
  rw [merge, Tree.mergeUpper_eq_map, List.filter_nil, List.append_nil]
  exact List.map_id' upper

/-- A member that the upper object lacks may as well be written there before the others are merged. -/
theorem merge_insert_copied {upper rest : Forest α} {key : MemberKey} (tree : Tree α)
    (absent : key ∉ Assoc.keys upper) (fresh : key ∉ Assoc.keys rest) :
    merge (Assoc.insert upper key tree) rest = merge upper ((key, tree) :: rest) := by
  -- the new key is none of the others, so every other member meets what it met before
  have hupper : ∀ p ∈ upper, (p.1, p.2.mergeOption (Assoc.get? ((key, tree) :: rest) p.1)) =
      (p.1, p.2.mergeOption (Assoc.get? rest p.1)) := by
    intro p hp
    have hne : key ≠ p.1 := by
      rintro rfl
      exact absent (Assoc.mem_keys_of_mem hp)
    rw [Assoc.get?, if_neg hne]
  have hrest : ∀ p ∈ rest, (!Assoc.contains (Assoc.insert upper key tree) p.1) =
      !Assoc.contains upper p.1 := by
    intro p hp
    have hne : key ≠ p.1 := by
      rintro rfl
      exact fresh (Assoc.mem_keys_of_mem hp)
    rw [Assoc.contains, Assoc.get?_insert_of_ne _ _ hne, Assoc.contains]
  have hkey : Assoc.contains upper key = false := by
    rw [← Bool.not_eq_true, Assoc.contains_iff]
    exact absent
  have hlast : Assoc.get? rest key = none := (Assoc.get?_eq_none_iff rest key).mpr fresh
  rw [merge, merge, List.filter_congr hrest, Assoc.insert_of_notMem absent,
    Tree.mergeUpper_eq_map, Tree.mergeUpper_eq_map, List.map_congr_left hupper, List.map_append,
    List.filter_cons, hkey, List.append_assoc]
  rw [List.map_cons, List.map_nil, hlast]
  rfl

/-- A member that both objects have may as well be merged before the others are. -/
theorem merge_insert_overridden {upper rest : Forest α} {key : MemberKey} {own : Tree α}
    (tree : Tree α) (distinct : (Assoc.keys upper).Nodup) (present : Assoc.get? upper key = some own)
    (fresh : key ∉ Assoc.keys rest) :
    merge (Assoc.insert upper key (own.merge tree)) rest = merge upper ((key, tree) :: rest) := by
  have hmem : key ∈ Assoc.keys upper := Assoc.mem_keys_of_mem (Assoc.mem_of_get? present)
  have hkey : Assoc.contains upper key = true := (Assoc.contains_iff upper key).mpr hmem
  have hrest : ∀ p ∈ rest, (!Assoc.contains (Assoc.insert upper key (own.merge tree)) p.1) =
      !Assoc.contains upper p.1 := by
    intro p hp
    have hne : key ≠ p.1 := by
      rintro rfl
      exact fresh (Assoc.mem_keys_of_mem hp)
    rw [Assoc.contains, Assoc.get?_insert_of_ne _ _ hne, Assoc.contains]
  -- only the member of that key changes, and nothing later in the list overrides it again
  have hupper : ∀ p ∈ upper,
      (p.1, (if p.1 = key then own.merge tree else p.2).mergeOption (Assoc.get? rest p.1)) =
      (p.1, p.2.mergeOption (Assoc.get? ((key, tree) :: rest) p.1)) := by
    intro p hp
    by_cases hp1 : p.1 = key
    · subst hp1
      obtain rfl : own = p.2 := by
        have hget := Assoc.get?_of_mem distinct hp
        rw [present] at hget
        exact Option.some.inj hget
      rw [if_pos rfl, (Assoc.get?_eq_none_iff rest p.1).mpr fresh, Assoc.get?, if_pos rfl]
      rfl
    · rw [if_neg hp1, Assoc.get?, if_neg (Ne.symm hp1)]
  rw [merge, merge, List.filter_congr hrest, Assoc.insert_eq_map distinct hmem,
    Tree.mergeUpper_eq_map, Tree.mergeUpper_eq_map, List.map_map, List.filter_cons, hkey]
  congr 1
  exact List.map_congr_left hupper

/-! ### Members that are no aliases -/

/-- The members that are no aliases. -/
def plain (members : Forest α) : Forest α := members.filter fun p => !p.1.isAlias

theorem plain_insert (members : Forest α) (key : MemberKey) (tree : Tree α) :
    plain (Assoc.insert members key tree) =
      if key.isAlias then plain members else Assoc.insert (plain members) key tree := by
  have hfilter := Assoc.filter_insert (fun key => !key.isAlias) members key tree
  rw [plain, hfilter]
  by_cases h : key.isAlias = true <;> simp [h, plain]

theorem plain_cons (members : Forest α) (key : MemberKey) (tree : Tree α) :
    plain ((key, tree) :: members) =
      if key.isAlias then plain members else (key, tree) :: plain members := by
  rw [plain, List.filter_cons]
  by_cases h : key.isAlias = true <;> simp [h, plain]

theorem mem_keys_of_mem_keys_plain {members : Forest α} {key : MemberKey}
    (h : key ∈ Assoc.keys (plain members)) : key ∈ Assoc.keys members := by
  obtain ⟨p, hp, rfl⟩ := List.mem_map.mp h
  exact Assoc.mem_keys_of_mem (List.mem_filter.mp hp).1

/-- Copying a member before the others are merged is the plain merge also where aliases are left out. -/
theorem plain_merge_copied {upper rest : Forest α} {key : MemberKey} (tree : Tree α)
    (absent : key ∉ Assoc.keys upper) (fresh : key ∉ Assoc.keys rest) :
    (plain (Assoc.insert upper key tree)).merge (plain rest) =
      (plain upper).merge (plain ((key, tree) :: rest)) := by
  rw [plain_insert, plain_cons]
  by_cases halias : key.isAlias = true
  · rw [if_pos halias, if_pos halias]
  · rw [if_neg halias, if_neg halias]
    refine merge_insert_copied tree ?_ ?_
    · exact fun h => absent (mem_keys_of_mem_keys_plain h)
    · exact fun h => fresh (mem_keys_of_mem_keys_plain h)

theorem plain_merge_overridden {upper rest : Forest α} {key : MemberKey} {own : Tree α}
    (tree : Tree α) (distinct : (Assoc.keys upper).Nodup) (present : Assoc.get? upper key = some own)
    (fresh : key ∉ Assoc.keys rest) :
    (plain (Assoc.insert upper key (own.merge tree))).merge (plain rest) =
      (plain upper).merge (plain ((key, tree) :: rest)) := by
  rw [plain_insert, plain_cons]
  by_cases halias : key.isAlias = true
  · rw [if_pos halias, if_pos halias]
  · rw [if_neg halias, if_neg halias]
    have hplain : (!key.isAlias) = true := by
      rw [Bool.not_eq_true] at halias
      rw [halias]
      rfl
    refine merge_insert_overridden tree ?_ ?_ ?_
    · exact Assoc.nodup_keys_filter (fun key => !key.isAlias) distinct
    · exact (Assoc.get?_filter (fun key => !key.isAlias) upper hplain).trans present
    · exact fun h => fresh (mem_keys_of_mem_keys_plain h)

end Forest

/-! ### Descriptors as trees -/

namespace MemberDescriptor

mutual

/-- A descriptor as a tree, its leaves being read by a function. -/
def tree (read : MemberDescriptor → α) : MemberDescriptor → Tree α
  | nested ms => .object (trees read ms)
  | d => .leaf (read d)
termination_by structural d => d

/-- The members of a nested object as trees. -/
def trees (read : MemberDescriptor → α) :
    List (MemberKey × MemberDescriptor) → List (MemberKey × Tree α)
  | [] => []
  | (key, d) :: rest => (key, tree read d) :: trees read rest
termination_by structural ms => ms

end

theorem tree_leaf (read : MemberDescriptor → α) {d : MemberDescriptor} (h : d.members? = none) :
    d.tree read = .leaf (read d) := by
  cases d with
  | nested ms => cases h
  | _ => rfl

end MemberDescriptor

namespace Skeleton

open MemberDescriptor

variable (read : MemberDescriptor → α)

/-- The members of a skeleton as trees. -/
def forest (ms : Skeleton) : Forest α := ms.map fun p => (p.1, p.2.tree read)

theorem tree_nested (ms : Skeleton) : (nested ms).tree read = .object (forest read ms) := by
  rw [MemberDescriptor.tree]
  congr 1
  induction ms with
  | nil => rfl
  | cons p rest ih =>
    obtain ⟨key, d⟩ := p
    rw [trees, ih]
    rfl

theorem keys_forest (ms : Skeleton) : Assoc.keys (forest read ms) = Assoc.keys ms := by
  rw [forest, Assoc.keys, List.map_map]
  rfl

theorem get?_forest (ms : Skeleton) (key : MemberKey) :
    Assoc.get? (forest read ms) key = (Assoc.get? ms key).map (MemberDescriptor.tree read) :=
  Assoc.get?_map _ ms key

theorem forest_insert (ms : Skeleton) (key : MemberKey) (d : MemberDescriptor) :
    forest read (Assoc.insert ms key d) = Assoc.insert (forest read ms) key (d.tree read) := by
  induction ms with
  | nil => rfl
  | cons p rest ih =>
    obtain ⟨k, own⟩ := p
    by_cases hk : k = key
    · simp [Assoc.insert, forest, hk]
    · have ih' := ih
      rw [forest] at ih'
      simp [Assoc.insert, forest, hk, ih']

end Skeleton

/-! ### Reading the same in two ways -/

section Reading

open MemberDescriptor

variable {P : MemberDescriptor → Prop} {read other : MemberDescriptor → α}

theorem MemberDescriptor.tree_congr (h : ∀ d, P d → read d = other d) {d : MemberDescriptor}
    (hd : d.AllLeaves P) : d.tree read = d.tree other := by
  induction d using MemberDescriptor.induction with
  | leaf d hleaf =>
    rw [allLeaves_leaf hleaf] at hd
    rw [tree_leaf read hleaf, tree_leaf other hleaf, h d hd]
  | nested ms ih =>
    rw [Skeleton.allLeaves_nested] at hd
    rw [Skeleton.tree_nested, Skeleton.tree_nested]
    congr 1
    refine List.map_congr_left fun p hp => ?_
    rw [ih p hp (hd.2 p hp)]

theorem Skeleton.forest_congr (h : ∀ d, P d → read d = other d) {ms : Skeleton}
    (hms : Skeleton.AllLeaves P ms) : Skeleton.forest read ms = Skeleton.forest other ms := by
  refine List.map_congr_left fun p hp => ?_
  rw [tree_congr h (hms.2 p hp)]

/-- Where moved leaves are read as the leaves were before, so is the whole. -/
theorem MemberDescriptor.tree_shiftDeep {offset : Nat}
    (h : ∀ d, d.members? = none → read (shiftDeep offset d) = other d) (d : MemberDescriptor) :
    (shiftDeep offset d).tree read = d.tree other := by
  induction d using MemberDescriptor.induction with
  | leaf d hleaf =>
    have hshift : (shiftDeep offset d).members? = none := by
      cases d with
      | nested ms => cases hleaf
      | _ => rfl
    rw [tree_leaf read hshift, tree_leaf other hleaf, h d hleaf]
  | nested ms ih =>
    rw [shiftDeep, Skeleton.tree_nested, Skeleton.tree_nested, shiftMembers_eq_map, Skeleton.forest,
      List.map_map]
    congr 1
    refine List.map_congr_left fun p hp => ?_
    rw [Function.comp_apply, ih p hp]

theorem Skeleton.forest_shiftMembers {offset : Nat}
    (h : ∀ d, d.members? = none → read (shiftDeep offset d) = other d) (ms : Skeleton) :
    Skeleton.forest read (shiftMembers offset ms) = Skeleton.forest other ms := by
  rw [shiftMembers_eq_map, forest, List.map_map]
  refine List.map_congr_left fun p _ => ?_
  rw [Function.comp_apply, tree_shiftDeep h]

end Reading

/-! ### Merging -/

/-- A descriptor is what two others are merged into: their keys being distinct, its keys are, and its tree
is the plain merge of theirs. -/
def TreeMerged (read : MemberDescriptor → α) (d own merged : MemberDescriptor) : Prop :=
  d.Distinct → own.Distinct →
    merged.Distinct ∧ merged.tree read = (own.tree read).merge (d.tree read)

namespace Skeleton

open MemberDescriptor

variable {read : MemberDescriptor → α} {lower upper result : Skeleton}

/-- Below the root, merging members is the plain merge of their trees. -/
theorem forest_of_nestedMerge (h : NestedMerge (TreeMerged read) lower upper result)
    (hlower : lower.Distinct) (hupper : upper.Distinct) :
    result.Distinct ∧ forest read result = (forest read upper).merge (forest read lower) := by
  induction h with
  | nil upper =>
    refine ⟨hupper, ?_⟩
    exact (Forest.merge_nil _).symm
  | @copied key d rest upper result absent others ih =>
    obtain ⟨hfresh, hd, hothers⟩ := allLeaves_cons.mp hlower
    obtain ⟨hresult, htree⟩ := ih hothers (allLeaves_insert hupper key hd)
    refine ⟨hresult, ?_⟩
    -- what is copied stands at the end, where the plain merge puts it
    rw [htree, forest_insert, Forest.merge_insert_copied]
    · rfl
    · rw [keys_forest]
      exact (Assoc.get?_eq_none_iff _ _).mp absent
    · rw [keys_forest]
      exact hfresh
  | @overridden key d own merged rest upper result present step others ih =>
    obtain ⟨hfresh, hd, hothers⟩ := allLeaves_cons.mp hlower
    obtain ⟨hmerged, hstep⟩ := step hd (allLeaves_of_get? hupper present)
    obtain ⟨hresult, htree⟩ := ih hothers (allLeaves_insert hupper key hmerged)
    refine ⟨hresult, ?_⟩
    rw [htree, forest_insert, hstep, Forest.merge_insert_overridden]
    · rfl
    · rw [keys_forest]
      exact hupper.1
    · rw [get?_forest, present]
      rfl
    · rw [keys_forest]
      exact hfresh

/-- Merging a member into one that the class has is the plain merge of their trees. -/
theorem tree_mergeMember {path : String} {key : MemberKey} {d own merged : MemberDescriptor}
    (h : mergeMember path key d (some own) = (merged, .ok ())) : TreeMerged read d own merged := by
  refine mergeMember_induction ?_ ?_ h
  · intro d own hleaf _ hown
    refine ⟨hown, ?_⟩
    rw [tree_leaf read hleaf]
    cases own.tree read <;> rfl
  · intro lower upper result hsteps hlower hupper
    rw [MemberDescriptor.Distinct, allLeaves_nested] at hlower hupper
    obtain ⟨hresult, htree⟩ := forest_of_nestedMerge hsteps hlower hupper
    refine ⟨(allLeaves_nested result).mpr hresult, ?_⟩
    rw [tree_nested, tree_nested, tree_nested, htree]
    rfl

/-- Writing what a member is merged into and merging the others in is merging them all in, as far as the
members that are no aliases go. -/
theorem plain_merge_forest_overridden {key : MemberKey} {d own merged : MemberDescriptor}
    {rest : Skeleton} (hupper : upper.Distinct) (present : Assoc.get? upper key = some own)
    (hmerged : merged.tree read = (own.tree read).merge (d.tree read)) (hfresh : key ∉ Assoc.keys rest) :
    (forest read (Assoc.insert upper key merged)).plain.merge (forest read rest).plain =
      (forest read upper).plain.merge (forest read ((key, d) :: rest)).plain := by
  rw [forest_insert, hmerged, Forest.plain_merge_overridden]
  · rfl
  · rw [keys_forest]
    exact hupper.1
  · rw [get?_forest, present]
    rfl
  · rw [keys_forest]
    exact hfresh

/-- At the root, merging is the plain merge of the members that are no aliases: those that are may be
overridden, copied or made for implementations that are kept, and none of this touches the others. -/
theorem plain_of_rootMerge {owner? : Option String} {slots : List MemberKey}
    (h : RootMerge (TreeMerged read) owner? lower upper result slots)
    (hlower : lower.Distinct) (hupper : upper.Distinct) :
    (forest read result).plain =
      (forest read upper).plain.merge (forest read lower).plain := by
  induction h with
  | nil upper => exact (Forest.merge_nil _).symm
  | @copied key d rest upper result slots absent others ih =>
    obtain ⟨hfresh, hd, hothers⟩ := allLeaves_cons.mp hlower
    rw [ih hothers (allLeaves_insert hupper key hd), forest_insert,
      Forest.plain_merge_copied]
    · rfl
    · rw [keys_forest]
      exact (Assoc.get?_eq_none_iff _ _).mp absent
    · rw [keys_forest]
      exact hfresh
  | @overridden key d own merged rest upper result slots present allowed step unkept others ih =>
    obtain ⟨hfresh, hd, hothers⟩ := allLeaves_cons.mp hlower
    obtain ⟨hmerged, hstep⟩ := step hd (allLeaves_of_get? hupper present)
    rw [ih hothers (allLeaves_insert hupper key hmerged)]
    exact plain_merge_forest_overridden hupper present hstep hfresh
  | @kept key slot d own merged rest upper result slots present allowed step slot_eq free others ih =>
    obtain ⟨hfresh, hd, hothers⟩ := allLeaves_cons.mp hlower
    obtain ⟨hmerged, hstep⟩ := step hd (allLeaves_of_get? hupper present)
    obtain ⟨-, owner, -, rfl⟩ := keptKey?_eq_some.mp slot_eq
    have halias : (MemberKey.aliased owner key.display).isAlias = true := rfl
    -- the alias is written beside the members that are no aliases, and then the case is as before
    rw [ih hothers (allLeaves_insert (allLeaves_insert hupper key hmerged) _ hd),
      forest_insert, Forest.plain_insert, if_pos halias]
    exact plain_merge_forest_overridden hupper present hstep hfresh

end Skeleton

end ClassComposition
