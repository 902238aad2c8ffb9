import ClassComposition.Proofs.Member.Classification
import ClassComposition.Proofs.Member.Conformance

/-!
# Keys of data

A member that is no method comes from the body of some class, under the key that its name is read as: the
only keys that a merge makes itself are aliases, and these stand for methods.  So the key of such a member
is read back from its text, and no other key is written the same.

## Main definitions

* `Skeleton.DataReadBack` — the keys of all members that are no methods are read back as they are.

## Main results

* `Skeleton.forall_mem_rootMerge` — what holds of the members on both sides of a merge holds of its
  result.
* `Skeleton.plain_notMem_rootMerge` — the keys that a merge adds are aliases.
* `Skeleton.dataReadBack_rootMerge` — merges keep such keys.
-/

namespace ClassComposition

namespace Skeleton

open MemberDescriptor

variable {owner? : Option String} {lower upper result : Skeleton} {slots : List MemberKey}

/-- What holds of the members on both sides holds of those that a merge gives, when overriding keeps it and
it holds of kept implementations. -/
theorem forall_mem_rootMerge {R : MemberDescriptor → MemberDescriptor → MemberDescriptor → Prop}
    {P : MemberKey → MemberDescriptor → Prop}
    (overriding : ∀ {key d own merged}, R d own merged → P key own → P key merged)
    (keeping : ∀ {key d slot}, keptKey? owner? key d = some slot → P slot d)
    (h : RootMerge R owner? lower upper result slots) (hlower : ∀ p ∈ lower, P p.1 p.2)
    (hupper : ∀ p ∈ upper, P p.1 p.2) : ∀ p ∈ result, P p.1 p.2 := by
  induction h with
  | nil upper => exact hupper
  | copied absent others ih =>
    rw [List.forall_mem_cons] at hlower
    exact ih hlower.2 (Assoc.forall_mem_insert hupper hlower.1)
  | overridden present allowed step unkept others ih =>
    rw [List.forall_mem_cons] at hlower
    have hmerged := overriding step (hupper _ (Assoc.mem_of_get? present))
    exact ih hlower.2 (Assoc.forall_mem_insert hupper hmerged)
  | kept present allowed step slot_eq free others ih =>
    rw [List.forall_mem_cons] at hlower
    have hmerged := overriding step (hupper _ (Assoc.mem_of_get? present))
    exact ih hlower.2 (Assoc.forall_mem_insert (Assoc.forall_mem_insert hupper hmerged) (keeping slot_eq))

/-- All that a merge adds to the keys of both sides is aliases. -/
theorem plain_notMem_rootMerge {R : MemberDescriptor → MemberDescriptor → MemberDescriptor → Prop}
    {name : String} (h : RootMerge R owner? lower upper result slots)
    (hlower : .plain name ∉ Assoc.keys lower) (hupper : .plain name ∉ Assoc.keys upper) :
    .plain name ∉ Assoc.keys result := by
  have habsent : ∀ {ms : Skeleton},
      .plain name ∉ Assoc.keys ms ↔ ∀ p ∈ ms, p.1 ≠ .plain name := by
    intro ms
    rw [Assoc.keys, List.mem_map]
    constructor
    · exact fun h p hp heq => h ⟨p, hp, heq⟩
    · rintro h ⟨p, hp, heq⟩
      exact h p hp heq
  rw [habsent] at hlower hupper ⊢
  refine forall_mem_rootMerge (P := fun key _ => key ≠ .plain name) ?_ ?_ h hlower hupper
  · intro key d own merged _ hkey
    exact hkey
  · intro key d slot hslot heq
    obtain ⟨-, owner, -, rfl⟩ := keptKey?_eq_some.mp hslot
    cases heq

/-! ### Members that are no methods -/

/-- The key of a member that is no method is read back from its text. -/
def DataReadBack (ms : Skeleton) : Prop :=
  ∀ p ∈ ms, p.2.isCallable = false → MemberKey.parse p.1.display = p.1

/-- An overridden member is a method if and only if it was one. -/
def SameCallable (_d own merged : MemberDescriptor) : Prop :=
  merged.isCallable = own.isCallable

theorem sameCallable_mergeMember {path : String} {key : MemberKey} {d own merged : MemberDescriptor}
    (h : mergeMember path key d (some own) = (merged, .ok ())) : SameCallable d own merged := by
  refine mergeMember_induction ?_ ?_ h
  · intro d own _
    rfl
  · intro lower upper result _
    rfl

/-- Merges keep keys that are read back. -/
theorem dataReadBack_rootMerge (h : RootMerge SameCallable owner? lower upper result slots)
    (hlower : DataReadBack lower) (hupper : DataReadBack upper) : DataReadBack result := by
  refine forall_mem_rootMerge
    (P := fun key d => d.isCallable = false → MemberKey.parse key.display = key) ?_ ?_ h hlower hupper
  · intro key d own merged hstep hown hmerged
    exact hown (hstep.symm.trans hmerged)
  · intro key d slot hslot hdata
    -- only methods are kept
    obtain ⟨hcallable, -⟩ := keptKey?_eq_some.mp hslot
    rw [hcallable] at hdata
    cases hdata

theorem dataReadBack_shiftMembers (offset : Nat) {ms : Skeleton} (hms : DataReadBack ms) :
    DataReadBack (shiftMembers offset ms) := by
  intro q hq hdata
  rw [shiftMembers_eq_map] at hq
  obtain ⟨p, hp, rfl⟩ := List.mem_map.mp hq
  rw [isCallable_shiftDeep] at hdata
  exact hms p hp hdata

/-- The keys of classified members are read back: they were read from names. -/
theorem dataReadBack_of_classified {s : Store} {inlineSimple : Bool} {entries : Assoc String Value}
    {t u : ReferenceTable} {ms : Skeleton} (h : ClassifiedMembers s inlineSimple entries [] t ms u) :
    DataReadBack ms := by
  intro p hp _
  have hkey : p.1 ∈ Assoc.keys ms := Assoc.mem_keys_of_mem hp
  rcases h.mem_keys_iff.mp hkey with hnone | ⟨name, -, hname⟩
  · cases hnone
  · rw [← hname, MemberKey.display_parse]

end Skeleton

end ClassComposition
