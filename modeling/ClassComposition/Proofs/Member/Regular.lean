import ClassComposition.Proofs.Member.Classification

/-!
# What is inside a descriptor

A descriptor comes from the value of a body, and merges put descriptors together but make none of their own
below the root.  So its literals are data, its inlined arrays hold simple values, and the keys of its nested
objects were read from names at every depth: aliases for kept implementations stand at the root alone.

## Main definitions

* `MemberDescriptor.Regular` — literals are data, inlined arrays are simple, keys are read back.

## Main results

* `Classified.regular`, `Skeleton.regular_of_classified` — classification gives such descriptors.
* `Skeleton.regular_mergeMember`, `Skeleton.regular_rootMerge` — merging keeps them so.
* `MemberDescriptor.regular_shiftDeep` — and so does moving indices.
-/

namespace ClassComposition

namespace MemberDescriptor

mutual

/-- Literals are data, inlined arrays hold simple values and at least one, and the keys of nested objects
are read back from their texts. -/
def Regular : MemberDescriptor → Prop
  | literal v => v.kind = .null ∨ v.kind = .boolean ∨ v.kind = .number
  | inlineArray items => items ≠ [] ∧ ∀ v ∈ items, v.isSimple = true
  | nested ms => RegularIn ms
  | _ => True
termination_by structural d => d

/-- The keys of these members are read back from their texts, and the members are regular. -/
def RegularIn : List (MemberKey × MemberDescriptor) → Prop
  | [] => True
  | (key, d) :: rest => MemberKey.parse key.display = key ∧ Regular d ∧ RegularIn rest
termination_by structural ms => ms

end

theorem regularIn_iff {ms : List (MemberKey × MemberDescriptor)} :
    RegularIn ms ↔ ∀ p ∈ ms, MemberKey.parse p.1.display = p.1 ∧ p.2.Regular := by
  induction ms with
  | nil => simp [RegularIn]
  | cons p rest ih =>
    obtain ⟨key, d⟩ := p
    simp [RegularIn, ih, and_assoc]

theorem regular_nested {ms : Skeleton} :
    (nested ms).Regular ↔ ∀ p ∈ ms, MemberKey.parse p.1.display = p.1 ∧ p.2.Regular := by
  rw [Regular, regularIn_iff]

theorem regular_shiftDeep {offset : Nat} {d : MemberDescriptor} (hd : d.Regular) :
    (shiftDeep offset d).Regular := by
  induction d using MemberDescriptor.induction with
  | leaf d hleaf => cases d <;> first | exact hd | cases hleaf
  | nested ms ih =>
    rw [regular_nested] at hd
    rw [shiftDeep, regular_nested, shiftMembers_eq_map]
    intro q hq
    obtain ⟨p, hp, rfl⟩ := List.mem_map.mp hq
    obtain ⟨hkey, hregular⟩ := hd p hp
    exact ⟨hkey, ih p hp hregular⟩

end MemberDescriptor

/-! ### Merging -/

namespace Skeleton

open MemberDescriptor

variable {lower upper result : Skeleton}

/-- Merging a member into one that the class has keeps descriptors regular. -/
theorem regular_mergeMember {path : String} {key : MemberKey} {d own merged : MemberDescriptor}
    (h : mergeMember path key d (some own) = (merged, .ok ())) :
    d.Regular → own.Regular → merged.Regular := by
  refine mergeMember_induction (R := fun d own merged => d.Regular → own.Regular → merged.Regular)
    ?_ ?_ h
  · intro d own _ _ hown
    exact hown
  · intro lower upper result hsteps hlower hupper
    rw [regular_nested] at hlower hupper ⊢
    induction hsteps with
    | nil upper => exact hupper
    | copied absent others ih =>
      rw [List.forall_mem_cons] at hlower
      exact ih hlower.2 (Assoc.forall_mem_insert hupper hlower.1)
    | overridden present step others ih =>
      rw [List.forall_mem_cons] at hlower
      obtain ⟨⟨hkey, hd⟩, hrest⟩ := hlower
      have hmerged := step hd (hupper _ (Assoc.mem_of_get? present)).2
      exact ih hrest (Assoc.forall_mem_insert hupper ⟨hkey, hmerged⟩)

/-- Merging at the root keeps descriptors regular, also where implementations are kept. -/
theorem regular_rootMerge {owner? : Option String} {slots : List MemberKey}
    (h : RootMerge (fun d own merged => d.Regular → own.Regular → merged.Regular)
      owner? lower upper result slots)
    (hlower : ∀ p ∈ lower, p.2.Regular) (hupper : ∀ p ∈ upper, p.2.Regular) :
    ∀ p ∈ result, p.2.Regular := by
  induction h with
  | nil upper => exact hupper
  | copied absent others ih =>
    rw [List.forall_mem_cons] at hlower
    exact ih hlower.2 (Assoc.forall_mem_insert hupper hlower.1)
  | overridden present allowed step unkept others ih =>
    rw [List.forall_mem_cons] at hlower
    have hmerged := step hlower.1 (hupper _ (Assoc.mem_of_get? present))
    exact ih hlower.2 (Assoc.forall_mem_insert hupper hmerged)
  | kept present allowed step slot_eq free others ih =>
    rw [List.forall_mem_cons] at hlower
    have hmerged := step hlower.1 (hupper _ (Assoc.mem_of_get? present))
    exact ih hlower.2 (Assoc.forall_mem_insert (Assoc.forall_mem_insert hupper hmerged) hlower.1)

theorem regular_shiftMembers (offset : Nat) {ms : Skeleton} (hms : ∀ p ∈ ms, p.2.Regular) :
    ∀ p ∈ shiftMembers offset ms, p.2.Regular := by
  intro q hq
  rw [shiftMembers_eq_map] at hq
  obtain ⟨p, hp, rfl⟩ := List.mem_map.mp hq
  exact regular_shiftDeep (hms p hp)

end Skeleton

/-! ### Classification -/

section Classification

variable {s : Store} {inlineSimple : Bool}

mutual

/-- A classified value has a regular descriptor. -/
theorem Classified.regular {v : Value} {t u : ReferenceTable} {d : MemberDescriptor} :
    Classified s inlineSimple v t d u → d.Regular
  | .literal h _ => h
  | .text _ _ | .function _ _ | .pattern _ _ | .emptyArray _ _ | .arrayCopy _ _ _ => trivial
  | .inlineArray (a := a) h inlined _ => by
    simp only [Bool.and_eq_true, List.all_eq_true] at inlined
    exact ⟨h, inlined.2⟩
  | .object h => by
    rw [MemberDescriptor.regular_nested]
    exact h.regular (by simp)

/-- Members are written under keys that are read back. -/
theorem ClassifiedMembers.regular {entries : Assoc String Value} {ms result : Skeleton}
    {t u : ReferenceTable} :
    ClassifiedMembers s inlineSimple entries ms t result u →
      (∀ p ∈ ms, MemberKey.parse p.1.display = p.1 ∧ p.2.Regular) →
      ∀ p ∈ result, MemberKey.parse p.1.display = p.1 ∧ p.2.Regular
  | .nil _ _, hms => hms
  | @ClassifiedMembers.cons _ _ name _ _ _ _ _ _ _ _ first others, hms => by
    have hkey : MemberKey.parse (MemberKey.parse name).display = MemberKey.parse name := by
      rw [MemberKey.display_parse]
    exact others.regular (Assoc.forall_mem_insert hms ⟨hkey, first.regular⟩)

end

theorem Skeleton.regular_of_classified {entries : Assoc String Value} {t u : ReferenceTable}
    {ms : Skeleton} (h : ClassifiedMembers s inlineSimple entries [] t ms u) :
    ∀ p ∈ ms, p.2.Regular :=
  fun p hp => (h.regular (by simp) p hp).2

end Classification

end ClassComposition
