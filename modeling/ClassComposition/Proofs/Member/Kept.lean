import ClassComposition.Proofs.Member.Merge

/-!
# Kept implementations

Where a class has a method that its parent has too, the parent's is kept under an alias.  The alias is
written once, while the merge is under way, and neither the rest of the merge nor any later one changes
it, because what a class has and is no object stays as it is.

## Main definitions

* `MemberDescriptor.StaysLeaf` — what a merge does to a member that is no object: nothing.
* `Skeleton.Taken` — the keys in use when the merge of a parent's members comes to them.

## Main results

* `Skeleton.get?_rootMerge_of_leaf` — members that are no objects stay through a merge.
* `Skeleton.get?_rootMerge_method` — where each method of the parent is found.
-/

namespace ClassComposition

/-- A member that is no object stays as it is, whatever is merged into it. -/
def MemberDescriptor.StaysLeaf (_d own merged : MemberDescriptor) : Prop :=
  own.members? = none → merged = own

theorem MemberDescriptor.members?_of_isCallable {d : MemberDescriptor} (h : d.isCallable = true) :
    d.members? = none := by
  cases d with
  | function i => rfl
  | _ => cases h

namespace Skeleton

open MemberDescriptor

variable {owner? : Option String} {lower upper result : Skeleton} {slots : List MemberKey}
  {key other : MemberKey} {d own merged : MemberDescriptor}

theorem staysLeaf_mergeMember {path : String}
    (h : mergeMember path key d (some own) = (merged, .ok ())) : StaysLeaf d own merged := by
  refine mergeMember_induction ?_ ?_ h
  · intro d own _ _
    rfl
  · intro lower upper result _ hleaf
    cases hleaf

/-! ### One step -/

theorem get?_insert_of_absent (absent : Assoc.get? upper other = none)
    (hown : Assoc.get? upper key = some own) :
    Assoc.get? (Assoc.insert upper other d) key = some own := by
  have hne : other ≠ key := by
    rintro rfl
    rw [absent] at hown
    cases hown
  rw [Assoc.get?_insert_of_ne upper d hne, hown]

theorem get?_insert_of_staysLeaf {present : MemberDescriptor}
    (hpresent : Assoc.get? upper other = some present) (step : StaysLeaf d present merged)
    (hleaf : own.members? = none) (hown : Assoc.get? upper key = some own) :
    Assoc.get? (Assoc.insert upper other merged) key = some own := by
  by_cases hkey : other = key
  · subst hkey
    rw [hpresent] at hown
    cases hown
    rw [Assoc.get?_insert_self, step hleaf]
  · rw [Assoc.get?_insert_of_ne upper merged hkey, hown]

/-! ### Whole merges -/

/-- A member that is no object stays through a merge. -/
theorem get?_rootMerge_of_leaf (h : RootMerge StaysLeaf owner? lower upper result slots)
    (hleaf : own.members? = none) (hown : Assoc.get? upper key = some own) :
    Assoc.get? result key = some own := by
  induction h with
  | nil upper => exact hown
  | copied absent others ih => exact ih (get?_insert_of_absent absent hown)
  | overridden present allowed step unkept others ih =>
    exact ih (get?_insert_of_staysLeaf present step hleaf hown)
  | kept present allowed step slot_eq free others ih =>
    have hwritten := get?_insert_of_staysLeaf present step hleaf hown
    exact ih (get?_insert_of_absent free hwritten)

/-! ### Keys that are taken -/

/-- The keys that are in use when the merge of a parent's members comes to them: those that the class
`has`, and the aliases of the parent's methods whose own keys are taken. -/
inductive Taken (owner : String) (lower : Skeleton) (has : MemberKey → Prop) : MemberKey → Prop
  | own {key : MemberKey} (h : has key) : Taken owner lower has key
  | kept {key : MemberKey} {d : MemberDescriptor} (hd : (key, d) ∈ lower)
      (hcallable : d.isCallable = true) (h : Taken owner lower has key) :
      Taken owner lower has (.aliased owner key.display)

section Taken

variable {owner : String} {lower upper written : Skeleton} {has has' : MemberKey → Prop}
  {key first : MemberKey} {d e : MemberDescriptor}

theorem Taken.congr (h : ∀ key, has key ↔ has' key) (hkey : Taken owner lower has key) :
    Taken owner lower has' key := by
  induction hkey with
  | own hown => exact .own ((h _).mp hown)
  | kept hd hcallable _ ih => exact .kept hd hcallable ih

/-- What is taken after one step was taken before, or was written by that step. -/
theorem Taken.of_rest
    (hwritten : ∀ key ∈ Assoc.keys written,
      key = first ∨ Taken owner ((first, e) :: lower) (· ∈ Assoc.keys upper) key)
    (hfresh : first ∉ Assoc.keys lower) (h : Taken owner lower (· ∈ Assoc.keys written) key) :
    key = first ∨ Taken owner ((first, e) :: lower) (· ∈ Assoc.keys upper) key := by
  induction h with
  | own hown => exact hwritten _ hown
  | @kept key d hd hcallable h ih =>
    -- the parent has no other member under the key of this step
    rcases ih with rfl | hbefore
    · exact absurd (Assoc.mem_keys_of_mem hd) hfresh
    · exact .inr (.kept (List.mem_cons_of_mem _ hd) hcallable hbefore)

/-- What is taken stays so when a step has written the alias of its own method, if it is a taken one. -/
theorem Taken.rest (hkeys : ∀ key ∈ Assoc.keys upper, key ∈ Assoc.keys written)
    (hfirst : e.isCallable = true → .aliased owner first.display ∈ Assoc.keys written)
    (h : Taken owner ((first, e) :: lower) (· ∈ Assoc.keys upper) key) :
    Taken owner lower (· ∈ Assoc.keys written) key := by
  induction h with
  | own hown => exact .own (hkeys _ hown)
  | @kept key d hd hcallable h ih =>
    rcases List.mem_cons.mp hd with heq | hrest
    · cases heq
      exact .own (hfirst hcallable)
    · exact .kept hrest hcallable ih

/-- What is taken stays so when a member is copied, and is not the copied member: its key would not have
been free for the alias that takes it. -/
theorem Taken.rest_of_copied (habsent : first ∉ Assoc.keys upper)
    (hfree : ∀ key d, (key, d) ∈ lower → d.isCallable = true →
      Taken owner lower (· ∈ Assoc.keys (Assoc.insert upper first e)) key →
      .aliased owner key.display ∉ Assoc.keys (Assoc.insert upper first e))
    (h : Taken owner ((first, e) :: lower) (· ∈ Assoc.keys upper) key) :
    Taken owner lower (· ∈ Assoc.keys (Assoc.insert upper first e)) key ∧ key ≠ first := by
  induction h with
  | @own key hown =>
    refine ⟨.own (Assoc.mem_keys_insert_of_mem hown), ?_⟩
    rintro rfl
    exact habsent hown
  | @kept key d hd hcallable h ih =>
    obtain ⟨htaken, hne⟩ := ih
    rcases List.mem_cons.mp hd with heq | hrest
    · cases heq
      exact absurd rfl hne
    · refine ⟨.kept hrest hcallable htaken, ?_⟩
      intro heq
      apply hfree key d hrest hcallable htaken
      rw [heq, Assoc.mem_keys_insert]
      exact .inl rfl

end Taken

/-- A parent's method in what a merge answers: under its alias, which was free before, if its key was
taken, and under its own key otherwise. -/
structure MethodFound (owner : String) (lower upper result : Skeleton) (key : MemberKey)
    (d : MemberDescriptor) : Prop where
  taken : Taken owner lower (· ∈ Assoc.keys upper) key →
    Assoc.get? result (.aliased owner key.display) = some d ∧
      .aliased owner key.display ∉ Assoc.keys upper
  untaken : ¬ Taken owner lower (· ∈ Assoc.keys upper) key → Assoc.get? result key = some d

/-- What the later steps say of a method is so before the first one too, when that step has taken no other
keys of the parent's than those that were taken. -/
theorem MethodFound.of_rest {owner : String} {first : MemberKey} {e : MemberDescriptor}
    {written : Skeleton} (found : MethodFound owner lower written result key d)
    (hfresh : first ∉ Assoc.keys lower) (hmem : (key, d) ∈ lower)
    (hkeys : ∀ key ∈ Assoc.keys upper, key ∈ Assoc.keys written)
    (hwritten : ∀ key ∈ Assoc.keys written,
      key = first ∨ Taken owner ((first, e) :: lower) (· ∈ Assoc.keys upper) key)
    (hstays : Taken owner ((first, e) :: lower) (· ∈ Assoc.keys upper) key →
      Taken owner lower (· ∈ Assoc.keys written) key) :
    MethodFound owner ((first, e) :: lower) upper result key d := by
  have hkey : key ∈ Assoc.keys lower := Assoc.mem_keys_of_mem hmem
  refine ⟨fun htaken => ?_, fun huntaken => found.untaken fun htaken => ?_⟩
  · obtain ⟨hfound, hfree⟩ := found.taken (hstays htaken)
    exact ⟨hfound, fun hslot => hfree (hkeys _ hslot)⟩
  · rcases Taken.of_rest hwritten hfresh htaken with rfl | hbefore
    · exact hfresh hkey
    · exact huntaken hbefore

/-- Where a parent is merged in, each of its methods is found: under its alias if its key is taken, and
under its own key otherwise. -/
theorem get?_rootMerge_method {owner : String}
    (h : RootMerge StaysLeaf (some owner) lower upper result slots) (hlower : (Assoc.keys lower).Nodup)
    (hd : (key, d) ∈ lower) (hcallable : d.isCallable = true) :
    MethodFound owner lower upper result key d := by
  induction h generalizing key d with
  | nil upper => cases hd
  | @copied first e rest upper result slots absent others ih =>
    obtain ⟨hfresh, hrest⟩ := List.nodup_cons.mp hlower
    have habsent : first ∉ Assoc.keys upper := (Assoc.get?_eq_none_iff _ _).mp absent
    -- no alias takes the copied key: the merge would have failed at the method of that alias
    have hstays : ∀ {key}, Taken owner ((first, e) :: rest) (· ∈ Assoc.keys upper) key →
        Taken owner rest (· ∈ Assoc.keys (Assoc.insert upper first e)) key ∧ key ≠ first := by
      intro key
      refine Taken.rest_of_copied habsent ?_
      intro key d hd hcallable htaken
      exact ((ih hrest hd hcallable).taken htaken).2
    rcases List.mem_cons.mp hd with heq | hmem
    · cases heq
      refine ⟨fun htaken => absurd rfl (hstays htaken).2, fun _ => ?_⟩
      exact get?_rootMerge_of_leaf others (members?_of_isCallable hcallable)
        (Assoc.get?_insert_self _ _ _)
    · refine (ih hrest hmem hcallable).of_rest hfresh hmem ?_ ?_ fun htaken => (hstays htaken).1
      · exact fun key hkey => Assoc.mem_keys_insert_of_mem hkey
      · intro key hkey
        exact ((Assoc.mem_keys_insert _ _ _ _).mp hkey).imp_right .own
  | @overridden first e own merged rest upper result slots present allowed step unkept others ih =>
    obtain ⟨hfresh, hrest⟩ := List.nodup_cons.mp hlower
    -- a method would have been kept, so this step is about other data
    have hdata : ¬ e.isCallable = true := by
      intro he
      rw [keptKey?_eq_some.mpr ⟨he, owner, rfl, rfl⟩] at unkept
      cases unkept
    have hkeys : ∀ key ∈ Assoc.keys upper, key ∈ Assoc.keys (Assoc.insert upper first merged) :=
      fun key hkey => Assoc.mem_keys_insert_of_mem hkey
    rcases List.mem_cons.mp hd with heq | hmem
    · cases heq
      exact absurd hcallable hdata
    · refine (ih hrest hmem hcallable).of_rest hfresh hmem hkeys ?_ fun htaken => ?_
      · intro key hkey
        exact ((Assoc.mem_keys_insert _ _ _ _).mp hkey).imp_right .own
      · exact htaken.rest hkeys fun he => absurd he hdata
  | @kept first slot e own merged rest upper result slots present allowed step slot_eq free others ih =>
    obtain ⟨hfresh, hrest⟩ := List.nodup_cons.mp hlower
    obtain ⟨he, _, hsome, rfl⟩ := keptKey?_eq_some.mp slot_eq
    cases hsome
    have hown : first ∈ Assoc.keys upper := Assoc.mem_keys_of_mem (Assoc.mem_of_get? present)
    have hkeys : ∀ key ∈ Assoc.keys upper, key ∈ Assoc.keys
        (Assoc.insert (Assoc.insert upper first merged) (.aliased owner first.display) e) :=
      fun key hkey => Assoc.mem_keys_insert_of_mem (Assoc.mem_keys_insert_of_mem hkey)
    rcases List.mem_cons.mp hd with heq | hmem
    · cases heq
      refine ⟨fun _ => ⟨?_, ?_⟩, fun hkey => absurd (Taken.own hown) hkey⟩
      · exact get?_rootMerge_of_leaf others (members?_of_isCallable hcallable)
          (Assoc.get?_insert_self _ _ _)
      · intro hslot
        exact (Assoc.get?_eq_none_iff _ _).mp free (Assoc.mem_keys_insert_of_mem hslot)
    · refine (ih hrest hmem hcallable).of_rest hfresh hmem hkeys ?_ fun htaken => ?_
      · intro key hkey
        rcases (Assoc.mem_keys_insert _ _ _ _).mp hkey with rfl | hkey
        · exact .inr (.kept List.mem_cons_self he (.own hown))
        · exact ((Assoc.mem_keys_insert _ _ _ _).mp hkey).imp_right .own
      · exact htaken.rest hkeys fun _ => (Assoc.mem_keys_insert _ _ _ _).mpr (.inl rfl)

end Skeleton

end ClassComposition
