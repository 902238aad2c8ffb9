import ClassComposition.Member.References
import ClassComposition.Proofs.Member.Merge

/-!
# Leaves of skeletons

A skeleton is a tree: its inner nodes are nested objects, and its leaves are all other descriptors.  Most
invariants of a compiled class say something of every leaf at any depth, and that the keys are pairwise
different at every level.  A merge keeps both.

## Main definitions

* `MemberDescriptor.AllLeaves`, `Skeleton.AllLeaves` — a property of all leaves, over distinct keys.
* `MemberDescriptor.Distinct`, `Skeleton.Distinct` — the keys alone.
* `MemberDescriptor.PointsInto` — an index points to an entry of its sort.
* `Skeleton.Occurs` — a descriptor stands in a skeleton, at its root or deeper.

## Main results

* `Skeleton.allLeaves_mergeMember`, `Skeleton.allLeaves_rootMerge` — merging keeps the leaves good.
* `Skeleton.allLeaves_of_isPrefix`, `Skeleton.allLeaves_shiftMembers` — indices stay good when their
  table grows, and when it is appended to another one and they are moved along.
* `Skeleton.leaf_of_occurs` — what holds of all leaves holds of each one that occurs.
-/

namespace ClassComposition

/-! ### Properties of all leaves -/

namespace MemberDescriptor

variable {P Q : MemberDescriptor → Prop}

mutual

/-- A leaf has the property; in a nested object the keys are pairwise different at every level and all
leaves have the property. -/
def AllLeaves (P : MemberDescriptor → Prop) : MemberDescriptor → Prop
  | nested ms => (Assoc.keys ms).Nodup ∧ AllLeavesIn P ms
  | d => P d
termination_by structural d => d

/-- All leaves of these members have the property, over keys that are different at every level. -/
def AllLeavesIn (P : MemberDescriptor → Prop) : List (MemberKey × MemberDescriptor) → Prop
  | [] => True
  | (_, d) :: rest => AllLeaves P d ∧ AllLeavesIn P rest
termination_by structural ms => ms

end

theorem allLeavesIn_iff (ms : List (MemberKey × MemberDescriptor)) :
    AllLeavesIn P ms ↔ ∀ p ∈ ms, AllLeaves P p.2 := by
  induction ms with
  | nil => simp [AllLeavesIn]
  | cons p rest ih =>
    obtain ⟨key, d⟩ := p
    rw [AllLeavesIn, ih, List.forall_mem_cons]

theorem allLeaves_leaf {d : MemberDescriptor} (h : d.members? = none) : AllLeaves P d ↔ P d := by
  cases d with
  | nested ms => cases h
  | _ => simp [AllLeaves]

theorem AllLeaves.mono (hPQ : ∀ {d}, P d → Q d) {d : MemberDescriptor} (hd : AllLeaves P d) :
    AllLeaves Q d := by
  induction d using induction with
  | leaf d hleaf =>
    rw [allLeaves_leaf hleaf] at hd ⊢
    exact hPQ hd
  | nested ms ih =>
    rw [AllLeaves, allLeavesIn_iff] at hd ⊢
    exact ⟨hd.1, fun p hp => ih p hp (hd.2 p hp)⟩

end MemberDescriptor

namespace Skeleton

open MemberDescriptor

variable {P Q : MemberDescriptor → Prop}

/-- The keys are pairwise different at every level, and all leaves have the property. -/
def AllLeaves (P : MemberDescriptor → Prop) (ms : Skeleton) : Prop :=
  (Assoc.keys ms).Nodup ∧ ∀ p ∈ ms, p.2.AllLeaves P

theorem allLeaves_nested (ms : Skeleton) : (nested ms).AllLeaves P ↔ Skeleton.AllLeaves P ms := by
  rw [MemberDescriptor.AllLeaves, allLeavesIn_iff]
  rfl

theorem allLeaves_nil : Skeleton.AllLeaves P [] := ⟨by simp [Assoc.keys], by simp⟩

theorem allLeaves_cons {key : MemberKey} {d : MemberDescriptor} {rest : Skeleton} :
    Skeleton.AllLeaves P ((key, d) :: rest) ↔
      key ∉ Assoc.keys rest ∧ d.AllLeaves P ∧ Skeleton.AllLeaves P rest := by
  constructor
  · rintro ⟨hkeys, hmembers⟩
    obtain ⟨hfresh, hrest⟩ := List.nodup_cons.mp hkeys
    obtain ⟨hd, hothers⟩ := List.forall_mem_cons.mp hmembers
    exact ⟨hfresh, hd, hrest, hothers⟩
  · rintro ⟨hfresh, hd, hrest, hothers⟩
    exact ⟨List.nodup_cons.mpr ⟨hfresh, hrest⟩, List.forall_mem_cons.mpr ⟨hd, hothers⟩⟩

theorem allLeaves_mono (hPQ : ∀ {d}, P d → Q d) {ms : Skeleton} (hms : Skeleton.AllLeaves P ms) :
    Skeleton.AllLeaves Q ms :=
  ⟨hms.1, fun p hp => (hms.2 p hp).mono hPQ⟩

theorem allLeaves_of_get? {ms : Skeleton} (hms : Skeleton.AllLeaves P ms) {key : MemberKey}
    {d : MemberDescriptor} (h : Assoc.get? ms key = some d) : d.AllLeaves P :=
  hms.2 (key, d) (Assoc.mem_of_get? h)

theorem allLeaves_insert {ms : Skeleton} (hms : Skeleton.AllLeaves P ms) (key : MemberKey)
    {d : MemberDescriptor} (hd : d.AllLeaves P) : Skeleton.AllLeaves P (Assoc.insert ms key d) := by
  refine ⟨Assoc.nodup_keys_insert hms.1 key d, ?_⟩
  intro p hp
  rcases Assoc.mem_insert hp with rfl | hmem
  · exact hd
  · exact hms.2 p hmem

end Skeleton

/-! ### Distinct keys -/

/-- The keys are pairwise different at every level. -/
def MemberDescriptor.Distinct (d : MemberDescriptor) : Prop := d.AllLeaves fun _ => True

/-- The keys are pairwise different at every level. -/
def Skeleton.Distinct (ms : Skeleton) : Prop := Skeleton.AllLeaves (fun _ => True) ms

theorem Skeleton.AllLeaves.distinct {P : MemberDescriptor → Prop} {ms : Skeleton}
    (h : Skeleton.AllLeaves P ms) : ms.Distinct :=
  Skeleton.allLeaves_mono (fun _ => trivial) h

/-! ### Merging -/

namespace Skeleton

/-- Merging a member into one that the class has keeps the leaves good. -/
theorem allLeaves_mergeMember {path : String} {key : MemberKey} {d own merged : MemberDescriptor}
    (h : mergeMember path key d (some own) = (merged, .ok ())) :
    d.AllLeaves P → own.AllLeaves P → merged.AllLeaves P := by
  refine mergeMember_induction (R := fun d own merged =>
    d.AllLeaves P → own.AllLeaves P → merged.AllLeaves P) ?_ ?_ h
  · intro d own _ _ hown
    exact hown
  · intro lower upper result hsteps hlower hupper
    rw [allLeaves_nested] at hlower hupper ⊢
    obtain ⟨-, hlower⟩ := hlower
    induction hsteps with
    | nil upper => exact hupper
    | copied absent others ih =>
      obtain ⟨hd, hrest⟩ := List.forall_mem_cons.mp hlower
      exact ih (allLeaves_insert hupper _ hd) hrest
    | overridden present step others ih =>
      obtain ⟨hd, hrest⟩ := List.forall_mem_cons.mp hlower
      have hmerged := step hd (allLeaves_of_get? hupper present)
      exact ih (allLeaves_insert hupper _ hmerged) hrest

/-- Merging at the root keeps the leaves good, also where implementations are kept. -/
theorem allLeaves_rootMerge {owner? : Option String} {lower upper result : Skeleton}
    {slots : List MemberKey}
    (h : RootMerge (fun d own merged => d.AllLeaves P → own.AllLeaves P → merged.AllLeaves P)
      owner? lower upper result slots)
    (hlower : ∀ p ∈ lower, p.2.AllLeaves P) (hupper : Skeleton.AllLeaves P upper) :
    Skeleton.AllLeaves P result := by
  induction h with
  | nil upper => exact hupper
  | copied absent others ih =>
    obtain ⟨hd, hrest⟩ := List.forall_mem_cons.mp hlower
    exact ih hrest (allLeaves_insert hupper _ hd)
  | overridden present allowed step unkept others ih =>
    obtain ⟨hd, hrest⟩ := List.forall_mem_cons.mp hlower
    have hmerged := step hd (allLeaves_of_get? hupper present)
    exact ih hrest (allLeaves_insert hupper _ hmerged)
  | kept present allowed step slot_eq free others ih =>
    obtain ⟨hd, hrest⟩ := List.forall_mem_cons.mp hlower
    have hmerged := step hd (allLeaves_of_get? hupper present)
    exact ih hrest (allLeaves_insert (allLeaves_insert hupper _ hmerged) _ hd)

end Skeleton

/-! ### Indices -/

/-- An index points to an entry of its sort: that of a method to a function, that of a pattern to a
pattern, that of an array to an array. -/
def MemberDescriptor.PointsInto (t : ReferenceTable) : MemberDescriptor → Prop
  | function i => ∃ f, t.get? i = some (.function f)
  | pattern i => ∃ p, t.get? i = some (.pattern p)
  | arrayCopy i => ∃ a, t.get? i = some (.array a)
  | _ => True

namespace ReferenceTable

/-- A table starts with another one when it has that one's entries at the same indices. -/
def IsPrefix (t u : ReferenceTable) : Prop := t.entries <+: u.entries

theorem IsPrefix.refl (t : ReferenceTable) : t.IsPrefix t := List.prefix_refl _

theorem IsPrefix.trans {t u v : ReferenceTable} (htu : t.IsPrefix u) (huv : u.IsPrefix v) :
    t.IsPrefix v := List.IsPrefix.trans htu huv

theorem isPrefix_push (t : ReferenceTable) (v : Value) : t.IsPrefix (t.push v).2 :=
  List.prefix_append _ _

theorem isPrefix_append (t u : ReferenceTable) : t.IsPrefix (t.append u).2 :=
  List.prefix_append _ _

theorem lt_size_of_get? {t : ReferenceTable} {i : Nat} {v : Value} (h : t.get? i = some v) :
    i < t.size := (List.getElem?_eq_some_iff.mp h).1

theorem IsPrefix.get? {t u : ReferenceTable} (htu : t.IsPrefix u) {i : Nat} {v : Value}
    (h : t.get? i = some v) : u.get? i = some v := by
  obtain ⟨more, hmore⟩ := htu
  have hi : i < t.entries.length := lt_size_of_get? h
  have hget : t.entries[i]? = some v := h
  show u.entries[i]? = some v
  rw [← hmore, List.getElem?_append_left hi, hget]

end ReferenceTable

namespace MemberDescriptor

theorem PointsInto.of_isPrefix {t u : ReferenceTable} (htu : t.IsPrefix u) {d : MemberDescriptor}
    (hd : d.PointsInto t) : d.PointsInto u := by
  cases d with
  | function i =>
    obtain ⟨f, hf⟩ := hd
    exact ⟨f, htu.get? hf⟩
  | pattern i =>
    obtain ⟨p, hp⟩ := hd
    exact ⟨p, htu.get? hp⟩
  | arrayCopy i =>
    obtain ⟨a, ha⟩ := hd
    exact ⟨a, htu.get? ha⟩
  | _ => trivial

theorem PointsInto.lt_size {t : ReferenceTable} {d : MemberDescriptor} (hd : d.PointsInto t) {i : Nat}
    (hi : d.index? = some i) : i < t.size := by
  cases d with
  | function j =>
    cases hi
    obtain ⟨f, hf⟩ := hd
    exact ReferenceTable.lt_size_of_get? hf
  | pattern j =>
    cases hi
    obtain ⟨p, hp⟩ := hd
    exact ReferenceTable.lt_size_of_get? hp
  | arrayCopy j =>
    cases hi
    obtain ⟨a, ha⟩ := hd
    exact ReferenceTable.lt_size_of_get? ha
  | _ => cases hi

/-- What points into a table points into it also where the table stands behind another one, once it is
moved along. -/
theorem PointsInto.shiftDeep {t u : ReferenceTable} {d : MemberDescriptor} (hleaf : d.members? = none)
    (hd : d.PointsInto u) : (shiftDeep t.size d).PointsInto (t.append u).2 := by
  cases d with
  | nested ms => cases hleaf
  | function i =>
    obtain ⟨f, hf⟩ := hd
    exact ⟨f, (t.get?_append_add u i).trans hf⟩
  | pattern i =>
    obtain ⟨p, hp⟩ := hd
    exact ⟨p, (t.get?_append_add u i).trans hp⟩
  | arrayCopy i =>
    obtain ⟨a, ha⟩ := hd
    exact ⟨a, (t.get?_append_add u i).trans ha⟩
  | _ => trivial

/-- Moving indices leaves the keys as they are, and takes each leaf to where it is moved. -/
theorem AllLeaves.of_shiftDeep {P Q : MemberDescriptor → Prop} {offset : Nat}
    (hPQ : ∀ d, d.members? = none → P d → Q (MemberDescriptor.shiftDeep offset d))
    {d : MemberDescriptor} (hd : d.AllLeaves P) : (MemberDescriptor.shiftDeep offset d).AllLeaves Q := by
  induction d using induction with
  | leaf d hleaf =>
    rw [allLeaves_leaf hleaf] at hd
    have hshift := hPQ d hleaf hd
    cases d with
    | nested ms => cases hleaf
    | _ => exact hshift
  | nested ms ih =>
    rw [Skeleton.allLeaves_nested] at hd
    rw [MemberDescriptor.shiftDeep, Skeleton.allLeaves_nested]
    refine ⟨(keys_shiftMembers offset ms).symm ▸ hd.1, ?_⟩
    intro q hq
    rw [shiftMembers_eq_map] at hq
    obtain ⟨p, hp, rfl⟩ := List.mem_map.mp hq
    exact ih p hp (hd.2 p hp)

theorem AllLeaves.shiftDeep {t u : ReferenceTable} {d : MemberDescriptor}
    (hd : d.AllLeaves (PointsInto u)) :
    (shiftDeep t.size d).AllLeaves (PointsInto (t.append u).2) :=
  hd.of_shiftDeep fun _ hleaf h => h.shiftDeep hleaf

end MemberDescriptor

namespace Skeleton

open MemberDescriptor

theorem allLeaves_of_isPrefix {t u : ReferenceTable} (htu : t.IsPrefix u) {ms : Skeleton}
    (hms : Skeleton.AllLeaves (PointsInto t) ms) : Skeleton.AllLeaves (PointsInto u) ms :=
  allLeaves_mono (fun h => h.of_isPrefix htu) hms

/-- Indices stay good when their table is appended to another one and they are moved along. -/
theorem allLeaves_shiftMembers {t u : ReferenceTable} {ms : Skeleton}
    (hms : Skeleton.AllLeaves (PointsInto u) ms) :
    Skeleton.AllLeaves (PointsInto (t.append u).2) (shiftMembers t.size ms) := by
  have hnested := (allLeaves_nested ms).mpr hms
  have hshift := hnested.shiftDeep (t := t)
  rw [MemberDescriptor.shiftDeep, allLeaves_nested] at hshift
  exact hshift

/-! ### Occurrences -/

/-- A descriptor stands in a skeleton: at its root, or inside one of its nested objects. -/
inductive Occurs (d : MemberDescriptor) : Skeleton → Prop
  | root {key : MemberKey} {ms : Skeleton} (h : (key, d) ∈ ms) : Occurs d ms
  | inside {key : MemberKey} {ms members : Skeleton} (h : (key, nested members) ∈ ms)
      (hd : Occurs d members) : Occurs d ms

/-- What holds of all leaves holds of each one that occurs. -/
theorem leaf_of_occurs {P : MemberDescriptor → Prop} {d : MemberDescriptor} {ms : Skeleton}
    (h : Occurs d ms) (hms : Skeleton.AllLeaves P ms) (hleaf : d.members? = none) : P d := by
  induction h with
  | root h => exact (allLeaves_leaf hleaf).mp (hms.2 _ h)
  | inside h hd ih => exact ih ((allLeaves_nested _).mp (hms.2 _ h))

end Skeleton

end ClassComposition
