import ClassComposition.Proofs.Member.Conformance
import ClassComposition.Proofs.Member.Tree

/-!
# Merged skeletons, level by level

What a successful merge gives, at every depth at once.  A level of the result has the keys of the class in
their order and then those that the class lacked in the order of what was merged in; what the class lacked
is copied, and what it had stays as it was unless both sides have a nested object, where the next level
begins.

## Main definitions

* `Skeleton.Lookups` — what is found under each key of a result, by the steps of a merge.
* `Skeleton.Level` — one level of a result.
* `Skeleton.MergedBelow` — every level at which both sides have an object.
* `Skeleton.Overlaid` — a member of a result against those of the two sides.
* `Skeleton.HasAt`, `Skeleton.Retains` — a key, and a kind with an index, at a path of keys.

## Main results

* `Skeleton.mergedBelow_of_nestedMerge` — a merge below the root goes level by level.
* `Skeleton.overlaid_mergeMember` — so does the merge of a member into one that the class has.
* `Skeleton.MergedBelow.retains`, `Skeleton.MergedBelow.hasAt` — no depth loses what the class had, and no
  key comes in from elsewhere.
-/

namespace ClassComposition

open MemberDescriptor

namespace Skeleton

variable {R : MemberDescriptor → MemberDescriptor → MemberDescriptor → Prop}
  {rest lower upper result : Skeleton} {key other slot : MemberKey} {d own m : MemberDescriptor}

/-! ### Looking the result up -/

/-- What is found in the result of a merge: what the upper skeleton lacks is copied, what only the upper
one has stays, and what both have is merged. -/
structure Lookups (R : MemberDescriptor → MemberDescriptor → MemberDescriptor → Prop)
    (lower upper result : Skeleton) : Prop where
  copied : ∀ key d, Assoc.get? upper key = none → Assoc.get? lower key = some d →
    Assoc.get? result key = some d
  own : ∀ key own, Assoc.get? upper key = some own → Assoc.get? lower key = none →
    Assoc.get? result key = some own
  merged : ∀ key own d, Assoc.get? upper key = some own → Assoc.get? lower key = some d →
    ∃ m, Assoc.get? result key = some m ∧ R d own m

theorem keys_cons (ms : Skeleton) : Assoc.keys ((key, d) :: ms) = key :: Assoc.keys ms := rfl

theorem get?_cons_self (ms : Skeleton) : Assoc.get? ((key, d) :: ms) key = some d := by
  simp [Assoc.get?]

theorem get?_cons_of_ne (ms : Skeleton) (h : key ≠ other) :
    Assoc.get? ((key, d) :: ms) other = Assoc.get? ms other := by
  simp [Assoc.get?, h]

/-- Writing one member leaves what the others meet. -/
theorem get?_insert_of_fresh (hfresh : key ∉ Assoc.keys rest) :
    ∀ p ∈ rest, Assoc.get? (Assoc.insert upper key m) p.1 = Assoc.get? upper p.1 := by
  intro p hp
  refine Assoc.get?_insert_of_ne upper m ?_
  rintro rfl
  exact hfresh (Assoc.mem_keys_of_mem hp)

theorem Lookups.nil (upper : Skeleton) : Lookups R [] upper upper := by
  refine ⟨?_, ?_, ?_⟩ <;> simp

/-- A member may be dealt with before the others are, copied where it is lacking and merged where not. -/
theorem Lookups.cons (hfresh : key ∉ Assoc.keys rest) (hcopied : Assoc.get? upper key = none → m = d)
    (hmerged : ∀ own, Assoc.get? upper key = some own → R d own m)
    (h : Lookups R rest (Assoc.insert upper key m) result) :
    Lookups R ((key, d) :: rest) upper result := by
  -- the others do not have the key, so what is written there first stays
  have hkey : Assoc.get? result key = some m :=
    h.own key m (Assoc.get?_insert_self upper key m) ((Assoc.get?_eq_none_iff rest key).mpr hfresh)
  have hothers : ∀ k, key ≠ k → Assoc.get? (Assoc.insert upper key m) k = Assoc.get? upper k ∧
      Assoc.get? ((key, d) :: rest) k = Assoc.get? rest k :=
    fun k hk => ⟨Assoc.get?_insert_of_ne upper m hk, get?_cons_of_ne rest hk⟩
  refine ⟨fun k e hupper hlower => ?_, fun k own hupper hlower => ?_, fun k own e hupper hlower => ?_⟩
  · by_cases hk : key = k
    · subst hk
      rw [get?_cons_self] at hlower
      cases hlower
      rw [hkey, hcopied hupper]
    · rw [(hothers k hk).2] at hlower
      exact h.copied k e ((hothers k hk).1.trans hupper) hlower
  · by_cases hk : key = k
    · subst hk
      rw [get?_cons_self] at hlower
      cases hlower
    · rw [(hothers k hk).2] at hlower
      exact h.own k own ((hothers k hk).1.trans hupper) hlower
  · by_cases hk : key = k
    · subst hk
      rw [get?_cons_self] at hlower
      cases hlower
      exact ⟨m, hkey, hmerged own hupper⟩
    · rw [(hothers k hk).2] at hlower
      exact h.merged k own e ((hothers k hk).1.trans hupper) hlower

theorem Lookups.cons_copied (hfresh : key ∉ Assoc.keys rest) (absent : Assoc.get? upper key = none)
    (h : Lookups R rest (Assoc.insert upper key d) result) :
    Lookups R ((key, d) :: rest) upper result := by
  refine h.cons hfresh (fun _ => rfl) fun own hown => ?_
  rw [absent] at hown
  cases hown

theorem Lookups.cons_merged (hfresh : key ∉ Assoc.keys rest) (present : Assoc.get? upper key = some own)
    (step : R d own m) (h : Lookups R rest (Assoc.insert upper key m) result) :
    Lookups R ((key, d) :: rest) upper result := by
  refine h.cons hfresh (fun hnone => ?_) fun own' hown => ?_
  · rw [present] at hnone
    cases hnone
  · rw [present] at hown
    cases hown
    exact step

/-- A new slot that no other member has makes no difference to what is found of the members. -/
theorem Lookups.of_slot (hslot : slot ∉ Assoc.keys rest) (free : Assoc.get? upper slot = none)
    (h : Lookups R rest (Assoc.insert upper slot d) result) : Lookups R rest upper result := by
  have hlower : Assoc.get? rest slot = none := (Assoc.get?_eq_none_iff rest slot).mpr hslot
  have hne : ∀ {k e}, Assoc.get? rest k = some e → slot ≠ k := by
    rintro k e he rfl
    rw [hlower] at he
    cases he
  refine ⟨fun k e hk he => ?_, fun k own hown hk => ?_, fun k own e hown he => ?_⟩
  · exact h.copied k e ((Assoc.get?_insert_of_ne upper d (hne he)).trans hk) he
  · have hk' : slot ≠ k := by
      rintro rfl
      rw [free] at hown
      cases hown
    exact h.own k own ((Assoc.get?_insert_of_ne upper d hk').trans hown) hk
  · exact h.merged k own e ((Assoc.get?_insert_of_ne upper d (hne he)).trans hown) he

theorem lookups_of_nestedMerge (h : NestedMerge R lower upper result)
    (hlower : (Assoc.keys lower).Nodup) : Lookups R lower upper result := by
  induction h with
  | nil upper => exact .nil upper
  | copied absent others ih =>
    obtain ⟨hfresh, hrest⟩ := List.nodup_cons.mp hlower
    exact (ih hrest).cons_copied hfresh absent
  | overridden present step others ih =>
    obtain ⟨hfresh, hrest⟩ := List.nodup_cons.mp hlower
    exact (ih hrest).cons_merged hfresh present step

/-! ### Every depth -/

/-- One level of a merge: the keys of the upper skeleton in order, and then those that it lacks in the
order of the lower one.  What it lacks is copied, and what it has stays as it is unless both have a nested
object. -/
structure Level (copy : MemberDescriptor → MemberDescriptor → Prop) (upper lower result : Skeleton) :
    Prop where
  keys_eq : Assoc.keys result =
    Assoc.keys upper ++ (Assoc.keys lower).filter fun key => key ∉ Assoc.keys upper
  copied : ∀ key d, Assoc.get? upper key = none → Assoc.get? lower key = some d →
    ∃ d', Assoc.get? result key = some d' ∧ copy d d'
  own : ∀ key own, Assoc.get? upper key = some own →
    (∀ d, Assoc.get? lower key = some d → own.members? = none ∨ d.members? = none) →
    Assoc.get? result key = some own

/-- Wherever both skeletons have a nested object, the result has one whose members come from theirs. -/
def MergedBelow (copy : MemberDescriptor → MemberDescriptor → Prop) (upper lower result : Skeleton) :
    Prop :=
  ∀ trail inner below, upper.objectAt? trail = some inner → lower.objectAt? trail = some below →
    ∃ merged, result.objectAt? trail = some merged ∧ Level copy inner below merged

/-- A member after the merge, given the class's own and the one merged in: nested objects are merged level
by level, and everything else stays the class's own. -/
def Overlaid (d own merged : MemberDescriptor) : Prop :=
  d.Distinct →
    (∀ upper lower, own = .nested upper → d = .nested lower →
      ∃ result, merged = .nested result ∧ MergedBelow Eq upper lower result) ∧
    (own.members? = none ∨ d.members? = none → merged = own)

theorem objectAt?_cons (ms : Skeleton) (key : MemberKey) (trail : List MemberKey) :
    ms.objectAt? (key :: trail) =
      ((Assoc.get? ms key).bind members?).bind fun inner => objectAt? inner trail := by
  rw [objectAt?]
  cases (Assoc.get? ms key).bind members? <;> rfl

theorem objectAt?_cons_eq_some {ms inner : Skeleton} {trail : List MemberKey} :
    ms.objectAt? (key :: trail) = some inner ↔
      ∃ outer, Assoc.get? ms key = some (.nested outer) ∧ objectAt? outer trail = some inner := by
  rw [objectAt?_cons, Option.bind_eq_some_iff]
  constructor
  · rintro ⟨outer, houter, hinner⟩
    obtain ⟨d, hd, hmembers⟩ := Option.bind_eq_some_iff.mp houter
    obtain rfl := eq_nested_of_members? hmembers
    exact ⟨outer, hd, hinner⟩
  · rintro ⟨outer, houter, hinner⟩
    exact ⟨outer, by rw [houter]; rfl, hinner⟩

/-- The keys that a merge appends are those of the members that the upper skeleton lacks. -/
theorem keys_nestedMerge (h : NestedMerge R lower upper result) (hlower : (Assoc.keys lower).Nodup) :
    Assoc.keys result =
      Assoc.keys upper ++ (Assoc.keys lower).filter fun key => key ∉ Assoc.keys upper := by
  -- a key that has been written is none of those that are still to come
  have hothers : ∀ {rest upper : Skeleton} {key m}, key ∉ Assoc.keys rest →
      (Assoc.keys rest).filter (fun k => k ∉ Assoc.keys (Assoc.insert upper key m))
        = (Assoc.keys rest).filter fun k => k ∉ Assoc.keys upper := by
    intro rest upper key m hfresh
    refine List.filter_congr fun k hk => ?_
    have hne : k ≠ key := fun heq => hfresh (heq ▸ hk)
    simp [Assoc.mem_keys_insert, hne]
  induction h with
  | nil upper => simp [Assoc.keys]
  | @copied key d rest upper result absent others ih =>
    obtain ⟨hfresh, hrest⟩ := List.nodup_cons.mp hlower
    have habsent : key ∉ Assoc.keys upper := (Assoc.get?_eq_none_iff upper key).mp absent
    rw [ih hrest, hothers hfresh, Assoc.keys_insert, if_neg habsent, keys_cons, List.filter_cons]
    simp [habsent]
  | @overridden key d own merged rest upper result present step others ih =>
    obtain ⟨hfresh, hrest⟩ := List.nodup_cons.mp hlower
    have hmem : key ∈ Assoc.keys upper := Assoc.mem_keys_of_mem (Assoc.mem_of_get? present)
    rw [ih hrest, hothers hfresh, Assoc.keys_insert, if_pos hmem, keys_cons, List.filter_cons]
    simp [hmem]

/-- Below the root, merging goes level by level. -/
theorem mergedBelow_of_nestedMerge (h : NestedMerge Overlaid lower upper result)
    (hlower : lower.Distinct) : MergedBelow Eq upper lower result := by
  have hlookups := lookups_of_nestedMerge h hlower.1
  have hlevel : Level Eq upper lower result := by
    refine ⟨keys_nestedMerge h hlower.1, ?_, ?_⟩
    · intro key d hupper hd
      exact ⟨d, hlookups.copied key d hupper hd, rfl⟩
    · intro key own hown hleaf
      rcases hd : Assoc.get? lower key with _ | d
      · exact hlookups.own key own hown hd
      · obtain ⟨m, hm, hmerged⟩ := hlookups.merged key own d hown hd
        rw [hm, (hmerged (allLeaves_of_get? hlower hd)).2 (hleaf d hd)]
  -- the root is one level, and under a key that both have the merged objects have theirs
  rintro (_ | ⟨key, trail⟩) inner below hinner hbelow
  · cases hinner
    cases hbelow
    exact ⟨result, rfl, hlevel⟩
  · obtain ⟨us, hus, hinner⟩ := objectAt?_cons_eq_some.mp hinner
    obtain ⟨ls, hls, hbelow⟩ := objectAt?_cons_eq_some.mp hbelow
    obtain ⟨m, hm, hmerged⟩ := hlookups.merged key _ _ hus hls
    obtain ⟨rs, rfl, hdeeper⟩ := (hmerged (allLeaves_of_get? hlower hls)).1 us ls rfl rfl
    obtain ⟨merged, hfound, hmerged⟩ := hdeeper trail inner below hinner hbelow
    exact ⟨merged, objectAt?_cons_eq_some.mpr ⟨rs, hm, hfound⟩, hmerged⟩

theorem overlaid_mergeMember {path : String} {key : MemberKey} {d own merged : MemberDescriptor}
    (h : mergeMember path key d (some own) = (merged, .ok ())) : Overlaid d own merged := by
  refine mergeMember_induction ?_ ?_ h
  · intro d own hleaf _
    refine ⟨?_, fun _ => rfl⟩
    rintro upper lower - rfl
    cases hleaf
  · intro lower upper result hsteps hdistinct
    rw [MemberDescriptor.Distinct, allLeaves_nested] at hdistinct
    refine ⟨?_, ?_⟩
    · rintro _ _ ⟨⟩ ⟨⟩
      exact ⟨result, rfl, mergedBelow_of_nestedMerge hsteps hdistinct⟩
    · rintro (h | h) <;> cases h

/-- A merge of a mixin takes the steps of a merge below the root. -/
theorem nestedMerge_of_rootMerge {slots : List MemberKey}
    (h : RootMerge R none lower upper result slots) :
    NestedMerge R lower upper result := by
  induction h with
  | nil upper => exact .nil upper
  | copied absent others ih => exact .copied absent ih
  | overridden present allowed step unkept others ih => exact .overridden present step ih
  | kept present allowed step slot_eq free others ih =>
    obtain ⟨-, _, hname, -⟩ := keptKey?_eq_some.mp slot_eq
    cases hname

namespace MergedBelow

variable {copy : MemberDescriptor → MemberDescriptor → Prop} {trail : List MemberKey}

theorem level (h : MergedBelow copy upper lower result) : Level copy upper lower result := by
  obtain ⟨merged, hmerged, hlevel⟩ := h [] upper lower rfl rfl
  cases hmerged
  exact hlevel

theorem below (h : MergedBelow copy upper lower result) {us ls : Skeleton}
    (hus : Assoc.get? upper key = some (.nested us)) (hls : Assoc.get? lower key = some (.nested ls)) :
    ∃ rs, Assoc.get? result key = some (.nested rs) ∧ MergedBelow copy us ls rs := by
  obtain ⟨rs, hrs, -⟩ := h [key] us ls (objectAt?_cons_eq_some.mpr ⟨us, hus, rfl⟩)
    (objectAt?_cons_eq_some.mpr ⟨ls, hls, rfl⟩)
  obtain ⟨_, hfound, heq⟩ := objectAt?_cons_eq_some.mp hrs
  cases heq
  refine ⟨rs, hfound, fun trail inner below hinner hbelow => ?_⟩
  obtain ⟨merged, hmerged, hlevel⟩ := h (key :: trail) inner below
    (objectAt?_cons_eq_some.mpr ⟨us, hus, hinner⟩) (objectAt?_cons_eq_some.mpr ⟨ls, hls, hbelow⟩)
  obtain ⟨outer, houter, hmerged⟩ := objectAt?_cons_eq_some.mp hmerged
  rw [hfound] at houter
  cases houter
  exact ⟨merged, hmerged, hlevel⟩

/-- What the upper skeleton has stays, or is an object on both sides. -/
theorem own_cases (h : MergedBelow copy upper lower result) (hown : Assoc.get? upper key = some own) :
    Assoc.get? result key = some own ∨
      ∃ us ls, own = .nested us ∧ Assoc.get? lower key = some (.nested ls) := by
  rcases hd : Assoc.get? lower key with _ | d
  · refine .inl (h.level.own key own hown fun d hd' => ?_)
    rw [hd] at hd'
    cases hd'
  rcases hus : own.members? with _ | us
  · exact .inl (h.level.own key own hown fun _ _ => .inl hus)
  rcases hls : d.members? with _ | ls
  · refine .inl (h.level.own key own hown fun d' hd' => .inr ?_)
    rw [hd] at hd'
    cases hd'
    exact hls
  · exact .inr ⟨us, ls, eq_nested_of_members? hus, by rw [eq_nested_of_members? hls]⟩

end MergedBelow

/-- The skeleton has a nested object at a path of keys, and there a member under a key. -/
def HasAt (ms : Skeleton) (trail : List MemberKey) (key : MemberKey) : Prop :=
  ∃ inner, ms.objectAt? trail = some inner ∧ key ∈ Assoc.keys inner

theorem hasAt_cons {ms : Skeleton} {trail : List MemberKey} :
    ms.HasAt (other :: trail) key ↔
      ∃ outer, Assoc.get? ms other = some (.nested outer) ∧ HasAt outer trail key := by
  constructor
  · rintro ⟨inner, hinner, hkey⟩
    obtain ⟨outer, houter, hinner⟩ := objectAt?_cons_eq_some.mp hinner
    exact ⟨outer, houter, inner, hinner, hkey⟩
  · rintro ⟨outer, houter, inner, hinner, hkey⟩
    exact ⟨inner, objectAt?_cons_eq_some.mpr ⟨outer, houter, hinner⟩, hkey⟩

/-- What is found under a key at a path of keys has the kind and the index of a descriptor. -/
def Retains (ms : Skeleton) (trail : List MemberKey) (key : MemberKey) (own : MemberDescriptor) : Prop :=
  ∃ inner d, ms.objectAt? trail = some inner ∧ Assoc.get? inner key = some d ∧
    d.kind = own.kind ∧ d.index? = own.index?

/-- Whatever the upper skeleton has, at any depth, keeps its kind and its index. -/
theorem MergedBelow.retains (h : MergedBelow Eq upper lower result) (trail : List MemberKey)
    {inner : Skeleton} (hinner : upper.objectAt? trail = some inner)
    (hown : Assoc.get? inner key = some own) : result.Retains trail key own := by
  induction trail generalizing upper lower result with
  | nil =>
    cases hinner
    rcases h.own_cases hown with hkept | ⟨us, ls, rfl, hls⟩
    · exact ⟨result, own, rfl, hkept, rfl, rfl⟩
    · obtain ⟨rs, hrs, -⟩ := h.below hown hls
      exact ⟨result, .nested rs, rfl, hrs, rfl, rfl⟩
  | cons k trail ih =>
    obtain ⟨us, hus, hinner⟩ := objectAt?_cons_eq_some.mp hinner
    -- the object on the way is the class's own as it was, or it was merged and the rest lies inside
    rcases h.own_cases hus with hkept | ⟨_, ls, heq, hls⟩
    · exact ⟨inner, own, objectAt?_cons_eq_some.mpr ⟨us, hkept, hinner⟩, hown, rfl, rfl⟩
    · cases heq
      obtain ⟨rs, hrs, hdeeper⟩ := h.below hus hls
      obtain ⟨outer, d, houter, hd⟩ := ih hdeeper hinner
      exact ⟨outer, d, objectAt?_cons_eq_some.mpr ⟨rs, hrs, houter⟩, hd⟩

/-- No key comes in, at any depth, that neither skeleton has there. -/
theorem MergedBelow.hasAt (h : MergedBelow Eq upper lower result) (trail : List MemberKey)
    (hkey : result.HasAt trail key) : upper.HasAt trail key ∨ lower.HasAt trail key := by
  induction trail generalizing upper lower result with
  | nil =>
    obtain ⟨_, hinner, hkey⟩ := hkey
    cases hinner
    rw [h.level.keys_eq, List.mem_append, List.mem_filter] at hkey
    rcases hkey with hupper | ⟨hlower, -⟩
    · exact .inl ⟨upper, rfl, hupper⟩
    · exact .inr ⟨lower, rfl, hlower⟩
  | cons k trail ih =>
    obtain ⟨rs, hrs, hkey⟩ := hasAt_cons.mp hkey
    rcases hown : Assoc.get? upper k with _ | own
    · -- the object was copied, so it is the lower skeleton's
      have hmem : k ∈ Assoc.keys result := Assoc.mem_keys_of_mem (Assoc.mem_of_get? hrs)
      rw [h.level.keys_eq, List.mem_append, List.mem_filter] at hmem
      have hlower : k ∈ Assoc.keys lower := by
        rcases hmem with hupper | ⟨hlower, -⟩
        · exact absurd hupper ((Assoc.get?_eq_none_iff upper k).mp hown)
        · exact hlower
      obtain ⟨d, hd⟩ := Option.isSome_iff_exists.mp ((Assoc.get?_isSome_iff lower k).mpr hlower)
      obtain ⟨_, hcopy, rfl⟩ := h.level.copied k d hown hd
      rw [hrs] at hcopy
      cases hcopy
      exact .inr (hasAt_cons.mpr ⟨rs, hd, hkey⟩)
    · rcases h.own_cases hown with hkept | ⟨us, ls, rfl, hls⟩
      · rw [hrs] at hkept
        cases hkept
        exact .inl (hasAt_cons.mpr ⟨rs, hown, hkey⟩)
      · obtain ⟨_, hfound, hdeeper⟩ := h.below hown hls
        rw [hrs] at hfound
        cases hfound
        rcases ih hdeeper hkey with hupper | hlower
        · exact .inl (hasAt_cons.mpr ⟨us, hown, hupper⟩)
        · exact .inr (hasAt_cons.mpr ⟨ls, hls, hlower⟩)

end Skeleton

end ClassComposition
