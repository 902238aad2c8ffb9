import ClassComposition.Proofs.Member.Copying
import ClassComposition.Proofs.Member.Merged

/-!
# Composed skeletons

What the skeleton of a class is made of when it has been extended with its parent, or has implemented a
mixin.  The keys of the class come first, in their order.  A parent adds the members that the class lacks,
and an alias for each of its methods that is overridden; a mixin adds the members that the class lacks,
with every index moved behind the table that its own was appended to, and nothing else.

## Main definitions

* `Skeleton.Foreign` — no member has an alias that names the parent.
* `Skeleton.Aliased` — the keys and the aliases that a parent adds.
* `Skeleton.Extended` — what extending gives.
* `MemberDescriptor.Moved` — the same descriptor with its indices moved once, at every depth.
* `Skeleton.Implemented` — what implementing gives.

## Main results

* `Skeleton.extend_result`, `Skeleton.implement_result` — what a successful composition gives.
-/

namespace ClassComposition

open MemberDescriptor

namespace Skeleton

variable {R : MemberDescriptor → MemberDescriptor → MemberDescriptor → Prop} {name : String}
  {rest lower upper result : Skeleton} {slots : List MemberKey} {key other : MemberKey}
  {d own m : MemberDescriptor}

/-! ### Keys and aliases -/

/-- Whether no member has the alias of a member under a name. -/
def Foreign (name : String) (ms : Skeleton) : Prop := ∀ member, .aliased name member ∉ Assoc.keys ms

theorem Foreign.tail {p : MemberKey × MemberDescriptor} (h : Foreign name (p :: rest)) :
    Foreign name rest :=
  fun member hmem => h member (List.mem_cons_of_mem _ hmem)

theorem lookups_of_rootMerge (h : RootMerge R (some name) lower upper result slots)
    (hlower : (Assoc.keys lower).Nodup) (hforeign : Foreign name lower) :
    Lookups R lower upper result := by
  induction h with
  | nil upper => exact .nil upper
  | copied absent others ih =>
    obtain ⟨hfresh, hrest⟩ := List.nodup_cons.mp hlower
    have ih := ih hrest hforeign.tail
    exact ih.cons_copied hfresh absent
  | overridden present allowed step unkept others ih =>
    obtain ⟨hfresh, hrest⟩ := List.nodup_cons.mp hlower
    have ih := ih hrest hforeign.tail
    exact ih.cons_merged hfresh present step
  | kept present allowed step slot_eq free others ih =>
    obtain ⟨hfresh, hrest⟩ := List.nodup_cons.mp hlower
    obtain ⟨-, _, hname, rfl⟩ := keptKey?_eq_some.mp slot_eq
    cases hname
    have hothers : Foreign name _ := hforeign.tail
    exact ((ih hrest hothers).of_slot (hothers _) free).cons_merged hfresh present step

/-- Whether a member that is merged in and the one it meets are both methods. -/
def meetsMethod (upper : Skeleton) (p : MemberKey × MemberDescriptor) : Bool :=
  p.2.isCallable && (Assoc.get? upper p.1).any isCallable

/-- The keys that a parent's member adds: its own where the class lacks it, and where both are methods the
alias under which the parent's is kept. -/
def addedKeys (name : String) (upper : Skeleton) (p : MemberKey × MemberDescriptor) : List MemberKey :=
  if p.1 ∉ Assoc.keys upper then [p.1]
  else if meetsMethod upper p then [.aliased name p.1.display] else []

/-- What a parent's merge does at the root: the aliases, the keys, and what is found under the aliases. -/
structure Aliased (name : String) (lower upper result : Skeleton) (slots : List MemberKey) : Prop where
  slots_eq : slots = (lower.filter (meetsMethod upper)).map fun p => .aliased name p.1.display
  keys_eq : Assoc.keys result = Assoc.keys upper ++ lower.flatMap (addedKeys name upper)
  kept : ∀ p ∈ lower, meetsMethod upper p = true →
    Assoc.get? result (.aliased name p.1.display) = some p.2

theorem meetsMethod_congr {written : Skeleton} {p : MemberKey × MemberDescriptor}
    (h : Assoc.get? written p.1 = Assoc.get? upper p.1) : meetsMethod written p = meetsMethod upper p := by
  rw [meetsMethod, meetsMethod, h]

theorem addedKeys_congr {written : Skeleton} {p : MemberKey × MemberDescriptor}
    (h : Assoc.get? written p.1 = Assoc.get? upper p.1) :
    addedKeys name written p = addedKeys name upper p := by
  simp only [addedKeys, meetsMethod_congr h, ← Assoc.get?_eq_none_iff, h]

/-- A member may be dealt with before the others are, if what it writes is none of theirs. -/
theorem Aliased.cons {written : Skeleton}
    (hsame : ∀ p ∈ rest, Assoc.get? written p.1 = Assoc.get? upper p.1)
    (hkeys : Assoc.keys written = Assoc.keys upper ++ addedKeys name upper (key, d))
    (hkept : meetsMethod upper (key, d) = true →
      Assoc.get? result (.aliased name key.display) = some d)
    (h : Aliased name rest written result slots) :
    Aliased name ((key, d) :: rest) upper result
      (if meetsMethod upper (key, d) then .aliased name key.display :: slots else slots) := by
  have hmeets : ∀ p ∈ rest, meetsMethod written p = meetsMethod upper p :=
    fun p hp => meetsMethod_congr (hsame p hp)
  refine ⟨?_, ?_, ?_⟩
  · rw [h.slots_eq, List.filter_congr hmeets, List.filter_cons]
    by_cases hm : meetsMethod upper (key, d) = true <;> simp [hm]
  · have hadded : rest.flatMap (addedKeys name written) = rest.flatMap (addedKeys name upper) := by
      rw [List.flatMap_def, List.flatMap_def,
        List.map_congr_left fun p hp => addedKeys_congr (hsame p hp)]
    rw [h.keys_eq, hkeys, hadded, List.flatMap_cons, List.append_assoc]
  · intro p hp hm
    rcases List.mem_cons.mp hp with rfl | hp
    · exact hkept hm
    · exact h.kept p hp ((hmeets p hp).trans hm)

theorem aliased_of_rootMerge (h : RootMerge R (some name) lower upper result slots)
    (hlower : (Assoc.keys lower).Nodup) (hforeign : Foreign name lower) :
    Aliased name lower upper result slots := by
  induction h with
  | nil upper => exact ⟨rfl, by simp, by simp⟩
  | @copied key d rest upper result slots absent others ih =>
    obtain ⟨hfresh, hrest⟩ := List.nodup_cons.mp hlower
    have ih := ih hrest hforeign.tail
    have hmeets : ¬ meetsMethod upper (key, d) = true := by simp [meetsMethod, absent]
    have habsent : key ∉ Assoc.keys upper := (Assoc.get?_eq_none_iff upper key).mp absent
    have hkeys : Assoc.keys (Assoc.insert upper key d) =
        Assoc.keys upper ++ addedKeys name upper (key, d) := by
      simp [addedKeys, Assoc.keys_insert, habsent]
    have hcons := ih.cons (get?_insert_of_fresh hfresh) hkeys fun hm => absurd hm hmeets
    rwa [if_neg hmeets] at hcons
  | @overridden key d own merged rest upper result slots present allowed step unkept others ih =>
    obtain ⟨hfresh, hrest⟩ := List.nodup_cons.mp hlower
    have ih := ih hrest hforeign.tail
    have hdata : ¬ d.isCallable = true := by
      intro hd
      rw [keptKey?_eq_some.mpr ⟨hd, name, rfl, rfl⟩] at unkept
      cases unkept
    have hmeets : ¬ meetsMethod upper (key, d) = true := by simp [meetsMethod, hdata]
    have hmem : key ∈ Assoc.keys upper := Assoc.mem_keys_of_mem (Assoc.mem_of_get? present)
    have hkeys : Assoc.keys (Assoc.insert upper key merged) =
        Assoc.keys upper ++ addedKeys name upper (key, d) := by
      simp [addedKeys, Assoc.keys_insert, hmem, hmeets]
    have hcons := ih.cons (get?_insert_of_fresh hfresh) hkeys fun hm => absurd hm hmeets
    rwa [if_neg hmeets] at hcons
  | @kept key slot d own merged rest upper result slots present allowed step slot_eq free others ih =>
    obtain ⟨hfresh, hrest⟩ := List.nodup_cons.mp hlower
    obtain ⟨hd, _, hname, rfl⟩ := keptKey?_eq_some.mp slot_eq
    cases hname
    have hothers : Foreign name rest := hforeign.tail
    -- what may override a method is one, so the alias is one of two methods
    have hown : own.isCallable = true := by
      cases hown : own.isCallable <;> simp [mayOverride, hown, hd] at allowed ⊢
    have hmeets : meetsMethod upper (key, d) = true := by simp [meetsMethod, hd, present, hown]
    have hmem : key ∈ Assoc.keys upper := Assoc.mem_keys_of_mem (Assoc.mem_of_get? present)
    have hslot : .aliased name key.display ∉ Assoc.keys (Assoc.insert upper key merged) :=
      (Assoc.get?_eq_none_iff _ _).mp free
    have hsame : ∀ p ∈ rest, Assoc.get? (Assoc.insert (Assoc.insert upper key merged)
        (.aliased name key.display) d) p.1 = Assoc.get? upper p.1 := by
      intro p hp
      rw [Assoc.get?_insert_of_ne, get?_insert_of_fresh hfresh p hp]
      intro heq
      exact hothers _ (heq ▸ Assoc.mem_keys_of_mem hp)
    have hkeys : Assoc.keys (Assoc.insert (Assoc.insert upper key merged)
        (.aliased name key.display) d) = Assoc.keys upper ++ addedKeys name upper (key, d) := by
      rw [Assoc.keys_insert, if_neg hslot, Assoc.keys_insert, if_pos hmem]
      simp [addedKeys, hmem, hmeets]
    have hfound : Assoc.get? result (.aliased name key.display) = some d :=
      (lookups_of_rootMerge others hrest hothers).own _ d (Assoc.get?_insert_self _ _ _)
        ((Assoc.get?_eq_none_iff _ _).mpr (hothers _))
    have hcons := (ih hrest hothers).cons hsame hkeys fun _ => hfound
    rwa [if_pos hmeets] at hcons

end Skeleton

/-! ### A class and the class it is composed from

Both have a method of one name and an object of one name, and each has members of its own. -/

namespace Sample

/-- The skeleton of the class. -/
def derived : Skeleton :=
  [(.plain "title", .text "derived"), (.plain "run", .function 2),
    (.plain "options", .nested [(.plain "size", .literal .null), (.plain "tags", .emptyArray)])]

/-- The skeleton that it is composed with. -/
def basic : Skeleton :=
  [(.plain "run", .function 0),
    (.plain "options", .nested [(.plain "tags", .arrayCopy 1),
      (.plain "inner", .nested [(.plain "name", .pattern 3)])]),
    (.plain "items", .arrayCopy 1)]

/-- The class as extended. -/
def extended : Skeleton :=
  [(.plain "title", .text "derived"), (.plain "run", .function 2),
    (.plain "options", .nested [(.plain "size", .literal .null), (.plain "tags", .emptyArray),
      (.plain "inner", .nested [(.plain "name", .pattern 3)])]),
    (.aliased "Basic" "run", .function 0), (.plain "items", .arrayCopy 1)]

/-- The class after it has implemented the other one behind four entries. -/
def implemented : Skeleton :=
  [(.plain "title", .text "derived"), (.plain "run", .function 2),
    (.plain "options", .nested [(.plain "size", .literal .null), (.plain "tags", .emptyArray),
      (.plain "inner", .nested [(.plain "name", .pattern 7)])]),
    (.plain "items", .arrayCopy 5)]

theorem basic_distinct : basic.Distinct := by
  simp [basic, Skeleton.Distinct, Skeleton.allLeaves_cons, Skeleton.allLeaves_nil,
    MemberDescriptor.AllLeaves, AllLeavesIn, Assoc.keys]

theorem basic_foreign : Skeleton.Foreign "Basic" basic := by
  simp [Skeleton.Foreign, basic, Assoc.keys]

end Sample

namespace Skeleton

/-! ### Extending -/

/-- What extending a class with a parent gives.  A parent's member that the class lacks is copied as it
is; the class's own stays, but where both have an object these are merged, and below the root no key
comes in that neither of them has. -/
structure Extended (parentName : String) (child parent result : Skeleton) (kept : List MemberKey) : Prop
    extends Aliased parentName parent child result kept where
  copied : ∀ key d, Assoc.get? child key = none → Assoc.get? parent key = some d →
    Assoc.get? result key = some d
  own : ∀ key own, Assoc.get? child key = some own →
    (∀ d, Assoc.get? parent key = some d → own.members? = none ∨ d.members? = none) →
    Assoc.get? result key = some own
  merged : ∀ key upper lower, Assoc.get? child key = some (.nested upper) →
    Assoc.get? parent key = some (.nested lower) →
    ∃ inner, Assoc.get? result key = some (.nested inner) ∧ MergedBelow Eq upper lower inner

/-- Extending a class: what its skeleton is made of when there is no conflict.  The parent's skeleton is a
map, so its keys are different at every level.  That they are also written differently need not be asked
for: two methods that would be kept under one alias are a conflict. -/
theorem extend_result {path parentName : String} {child parent result : Skeleton}
    {kept : List MemberKey} (hparent : parent.Distinct) (hforeign : Foreign parentName parent)
    (h : extend path child parentName parent = (result, .ok kept)) :
    Extended parentName child parent result kept := by
  have hsteps := rootMerge_of_extend hparent overlaid_mergeMember h
  have hlookups := lookups_of_rootMerge hsteps hparent.1 hforeign
  refine { toAliased := aliased_of_rootMerge hsteps hparent.1 hforeign
           copied := hlookups.copied, own := ?_, merged := ?_ }
  · intro key own hown hleaf
    rcases hd : Assoc.get? parent key with _ | d
    · exact hlookups.own key own hown hd
    · obtain ⟨m, hm, hmerged⟩ := hlookups.merged key own d hown hd
      rw [hm, (hmerged (allLeaves_of_get? hparent hd)).2 (hleaf d hd)]
  · intro key upper lower hupper hlower
    obtain ⟨m, hm, hmerged⟩ := hlookups.merged key _ _ hupper hlower
    obtain ⟨inner, rfl, hbelow⟩ := (hmerged (allLeaves_of_get? hparent hlower)).1 upper lower rfl rfl
    exact ⟨inner, hm, hbelow⟩

/-- The overridden method is kept behind the members of the class, and the objects are merged. -/
theorem extend_result_derived :
    extend "Ns.Derived" Sample.derived "Basic" Sample.basic =
        (Sample.extended, .ok [.aliased "Basic" "run"]) ∧
      Extended "Basic" Sample.derived Sample.basic Sample.extended [.aliased "Basic" "run"] := by
  have hextend : extend "Ns.Derived" Sample.derived "Basic" Sample.basic =
      (Sample.extended, .ok [.aliased "Basic" "run"]) := rfl
  exact ⟨hextend, extend_result Sample.basic_distinct Sample.basic_foreign hextend⟩

end Skeleton

/-! ### Moved indices -/

namespace MemberDescriptor

/-- A descriptor is another one with every index, at any depth, moved by an offset. -/
def Moved (offset : Nat) (d d' : MemberDescriptor) : Prop := d'.tree id = d.tree (shift offset)

theorem moved_shiftDeep (offset : Nat) (d : MemberDescriptor) : Moved offset d (shiftDeep offset d) := by
  refine tree_shiftDeep ?_ d
  intro d hleaf
  cases d with
  | nested ms => cases hleaf
  | _ => rfl

theorem members?_shiftDeep (offset : Nat) (d : MemberDescriptor) :
    (shiftDeep offset d).members? = d.members?.map (shiftMembers offset) := by
  cases d <;> rfl

end MemberDescriptor

namespace Skeleton

theorem get?_shiftMembers (offset : Nat) (ms : Skeleton) (key : MemberKey) :
    Assoc.get? (shiftMembers offset ms) key = (Assoc.get? ms key).map (shiftDeep offset) := by
  rw [shiftMembers_eq_map]
  exact Assoc.get?_map (shiftDeep offset) ms key

theorem objectAt?_shiftMembers (offset : Nat) (ms : Skeleton) (trail : List MemberKey) :
    objectAt? (shiftMembers offset ms) trail = (ms.objectAt? trail).map (shiftMembers offset) := by
  induction trail generalizing ms with
  | nil => rfl
  | cons key trail ih =>
    rw [objectAt?_cons, objectAt?_cons, get?_shiftMembers]
    rcases Assoc.get? ms key with _ | d
    · rfl
    rw [Option.map_some, Option.bind_some, Option.bind_some, members?_shiftDeep]
    rcases d.members? with _ | inner
    · rfl
    · exact ih inner

theorem hasAt_shiftMembers {offset : Nat} {ms : Skeleton} {trail : List MemberKey}
    (h : HasAt (shiftMembers offset ms) trail key) : ms.HasAt trail key := by
  obtain ⟨_, hinner, hkey⟩ := h
  rw [objectAt?_shiftMembers, Option.map_eq_some_iff] at hinner
  obtain ⟨inner, hinner, rfl⟩ := hinner
  exact ⟨inner, hinner, keys_shiftMembers offset inner ▸ hkey⟩

theorem distinct_shiftMembers {ms : Skeleton} (h : ms.Distinct) (offset : Nat) :
    Distinct (shiftMembers offset ms) := by
  have hnested : (nested ms).Distinct := (allLeaves_nested ms).mpr h
  have hshift : (shiftDeep offset (nested ms)).Distinct :=
    MemberDescriptor.AllLeaves.of_shiftDeep (fun _ _ _ => trivial) hnested
  rw [MemberDescriptor.Distinct, shiftDeep, allLeaves_nested] at hshift
  exact hshift

theorem level_of_shiftMembers {offset : Nat} {lower : Skeleton}
    (h : Level Eq upper (shiftMembers offset lower) result) :
    Level (Moved offset) upper lower result := by
  refine ⟨?_, ?_, ?_⟩
  · rw [h.keys_eq, keys_shiftMembers]
  · intro key d hupper hd
    have hmoved : Assoc.get? (shiftMembers offset lower) key = some (shiftDeep offset d) := by
      rw [get?_shiftMembers, hd, Option.map_some]
    obtain ⟨_, hcopy, rfl⟩ := h.copied key _ hupper hmoved
    exact ⟨shiftDeep offset d, hcopy, moved_shiftDeep offset d⟩
  · intro key own hown hleaf
    refine h.own key own hown fun d hd => ?_
    rw [get?_shiftMembers, Option.map_eq_some_iff] at hd
    obtain ⟨d, hd, rfl⟩ := hd
    refine (hleaf d hd).imp_right fun hnone => ?_
    rw [members?_shiftDeep, hnone, Option.map_none]

theorem mergedBelow_of_shiftMembers {offset : Nat} {lower : Skeleton}
    (h : MergedBelow Eq upper (shiftMembers offset lower) result) :
    MergedBelow (Moved offset) upper lower result := by
  intro trail inner below hinner hbelow
  have hmoved : objectAt? (shiftMembers offset lower) trail = some (shiftMembers offset below) := by
    rw [objectAt?_shiftMembers, hbelow, Option.map_some]
  obtain ⟨merged, hmerged, hlevel⟩ := h trail inner _ hinner hmoved
  exact ⟨merged, hmerged, level_of_shiftMembers hlevel⟩

/-! ### Implementing -/

/-- What implementing a mixin gives, whose table was appended at an offset. -/
structure Implemented (offset : Nat) (child mixin result : Skeleton) : Prop where
  merged : MergedBelow (Moved offset) child mixin result
  own : ∀ trail inner key own, child.objectAt? trail = some inner → Assoc.get? inner key = some own →
    result.Retains trail key own
  no_others : ∀ trail key, result.HasAt trail key → child.HasAt trail key ∨ mixin.HasAt trail key

/-- Implementing a mixin: what the class's skeleton is made of when there is no conflict. -/
theorem implement_result {path : String} {child mixin result : Skeleton} {offset : Nat}
    (hmixin : mixin.Distinct) (h : implement path child mixin offset = (result, .ok ())) :
    Implemented offset child mixin result := by
  obtain ⟨slots, hsteps⟩ := rootMerge_of_implement hmixin overlaid_mergeMember h
  have hbelow : MergedBelow Eq child (shiftMembers offset mixin) result :=
    mergedBelow_of_nestedMerge (nestedMerge_of_rootMerge hsteps) (distinct_shiftMembers hmixin offset)
  refine ⟨mergedBelow_of_shiftMembers hbelow, ?_, ?_⟩
  · intro trail inner key own hinner hown
    exact hbelow.retains trail hinner hown
  · intro trail key hkey
    exact (hbelow.hasAt trail hkey).imp_right hasAt_shiftMembers

/-- The same classes, composed without aliases and with the indices moved by four. -/
theorem implement_result_derived :
    implement "Ns.Derived" Sample.derived Sample.basic 4 = (Sample.implemented, .ok ()) ∧
      Implemented 4 Sample.derived Sample.basic Sample.implemented := by
  have himplement : implement "Ns.Derived" Sample.derived Sample.basic 4 =
      (Sample.implemented, .ok ()) := rfl
  exact ⟨himplement, implement_result Sample.basic_distinct himplement⟩

end Skeleton

end ClassComposition
