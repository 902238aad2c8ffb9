import ClassComposition.Proofs.Store.Extension
import Mathlib.Data.List.Nodup
import Mathlib.Data.List.Perm.Subperm

/-!
# Copies of objects

A deep copy makes a new object for every position at which the original has one, and keeps everything
else.  So the objects of the copy form a tree: none is reached in two ways, and none was there before.
This is so when no object lies below itself, because then the copy is as deep as the original: on a way
down no object is passed twice, and the walk goes as many levels down as there are objects.

## Main definitions

* `Store.Acyclic` — on no way down through properties an object is passed twice.
* `Store.Shallow` — no way down is longer than there are objects.
* `Store.Spans`, `Store.SpansAll` — the objects of a value, one for each position.
* `Store.Fresh` — new objects that are pairwise different.

## Main results

* `Store.Descends.length_le` — no way down is longer than there are objects.
* `Store.fresh_deepCopy` — the objects of a copy are fresh.
-/

namespace ClassComposition

namespace Store

variable {s t u : Store} {v : Value} {os others : List (Handle .object)} {o : Handle .object}

/-! ### Ways down -/

/-- The objects on a way down from a value through properties, to some object. -/
inductive Descends (s : Store) : Value → List (Handle .object) → Prop
  | last (o : Handle .object) : Descends s (.object o) [o]
  | down {o : Handle .object} {p : String × Value} {path : List (Handle .object)}
      (hp : p ∈ s.object o) (below : Descends s p.2 path) : Descends s (.object o) (o :: path)

/-- No object lies below itself: on no way down one is passed twice. -/
def Acyclic (s : Store) (v : Value) : Prop := ∀ path, s.Descends v path → path.Nodup

theorem Descends.has (h : s.Descends v os) (hs : s.WellFormed) (hv : s.Has v) :
    ∀ o ∈ os, s.objects.Has o := by
  induction h with
  | last o =>
    intro other ho
    obtain rfl := List.mem_singleton.mp ho
    exact hv
  | down hp below ih =>
    intro o ho
    rcases List.mem_cons.mp ho with rfl | hbelow
    · exact hv
    · exact ih (hs.has_property _ _ hp) o hbelow

/-- There are no more objects in a list without repetition than in the store. -/
theorem length_le_of_has (hnodup : os.Nodup) (hhas : ∀ o ∈ os, s.objects.Has o) :
    os.length ≤ s.objects.size := by
  have hinjective : Function.Injective (Handle.index : Handle .object → Nat) := by
    rintro ⟨i⟩ ⟨j⟩ rfl
    rfl
  have hindices : (os.map Handle.index).Nodup := hnodup.map hinjective
  have hbound : os.map Handle.index ⊆ List.range s.objects.size := by
    intro i hi
    obtain ⟨o, ho, rfl⟩ := List.mem_map.mp hi
    exact List.mem_range.mpr (hhas o ho)
  have hle := (List.subperm_of_subset hindices hbound).length_le
  simpa using hle

/-- A way down that passes no object twice is not longer than there are objects. -/
theorem Descends.length_le (h : s.Descends v os) (hs : s.WellFormed) (hv : s.Has v)
    (hnodup : os.Nodup) : os.length ≤ s.objects.size := length_le_of_has hnodup (h.has hs hv)

theorem Descends.ne_nil (h : s.Descends v os) : os ≠ [] := by
  cases h <;> exact List.cons_ne_nil _ _

/-- Only an object that a store has leads further down. -/
theorem Descends.has_of_mem_dropLast (h : s.Descends v os) : ∀ o ∈ os.dropLast, s.objects.Has o := by
  induction h with
  | last o => simp
  | @down o p path hp below ih =>
    rw [List.dropLast_cons_of_ne_nil below.ne_nil]
    refine List.forall_mem_cons.mpr ⟨?_, ih⟩
    by_contra hnot
    have hempty : s.object o = [] := Pool.get_of_not_has hnot
    rw [hempty] at hp
    cases hp

/-- So in any store, a way down that passes no object twice is at most one longer than there are objects. -/
theorem Descends.length_le_succ (h : s.Descends v os) (hnodup : os.Nodup) :
    os.length ≤ s.objects.size + 1 := by
  have hlength := length_le_of_has (hnodup.sublist os.dropLast_sublist) h.has_of_mem_dropLast
  rw [List.length_dropLast] at hlength
  omega

/-- No way down is longer than there are objects.  A walk that goes as many levels down meets all of the
value. -/
def Shallow (s : Store) (v : Value) : Prop := ∀ path, s.Descends v path → path.length ≤ s.objects.size

theorem Acyclic.shallow (h : s.Acyclic v) (hs : s.WellFormed) (hv : s.Has v) : s.Shallow v :=
  fun path hpath => hpath.length_le hs hv (h path hpath)

/-! ### The objects of a value -/

mutual

/-- The objects of a value, one for each position that is reached through properties. -/
inductive Spans (s : Store) : Value → List (Handle .object) → Prop
  | leaf {v : Value} (h : v.kind ≠ .object) : Spans s v []
  | object {o : Handle .object} {os : List (Handle .object)} (h : SpansAll s (s.object o) os) :
      Spans s (.object o) (o :: os)

/-- The objects of the values of several entries. -/
inductive SpansAll (s : Store) : Assoc String Value → List (Handle .object) → Prop
  | nil : SpansAll s [] []
  | cons {key : String} {v : Value} {rest : Assoc String Value} {os others : List (Handle .object)}
      (first : Spans s v os) (below : SpansAll s rest others) :
      SpansAll s ((key, v) :: rest) (os ++ others)

end

/-- The objects of an object are the object itself and those of its properties. -/
theorem Spans.exists_below (h : s.Spans (.object o) os) :
    ∃ below, os = o :: below ∧ s.SpansAll (s.object o) below := by
  cases h with
  | leaf hleaf => exact absurd rfl hleaf
  | object below => exact ⟨_, rfl, below⟩

/-- The objects of several entries are those of the first and then those of the others. -/
theorem SpansAll.exists_first {p : String × Value} {rest : Assoc String Value}
    (h : s.SpansAll (p :: rest) os) :
    ∃ first later, os = first ++ later ∧ s.Spans p.2 first ∧ s.SpansAll rest later := by
  cases h with
  | cons first below => exact ⟨_, _, rfl, first, below⟩

mutual

theorem Spans.congr {v : Value} {os : List (Handle .object)}
    (h : ∀ o ∈ os, t.object o = s.object o) : s.Spans v os → t.Spans v os
  | .leaf hleaf => .leaf hleaf
  | .object below => by
    rw [List.forall_mem_cons] at h
    have hall := below.congr h.2
    rw [← h.1] at hall
    exact .object hall

theorem SpansAll.congr {entries : Assoc String Value} {os : List (Handle .object)}
    (h : ∀ o ∈ os, t.object o = s.object o) : s.SpansAll entries os → t.SpansAll entries os
  | .nil => .nil
  | .cons first below => by
    rw [List.forall_mem_append] at h
    exact .cons (first.congr h.1) (below.congr h.2)

end

/-! ### Fresh objects -/

/-- Objects that are pairwise different and new in the second store, which has grown from the first. -/
structure Fresh (s t : Store) (os : List (Handle .object)) : Prop where
  within : s.Within t
  nodup : os.Nodup
  isNew : ∀ o ∈ os, ¬ s.objects.Has o
  has : ∀ o ∈ os, t.objects.Has o

theorem Fresh.nil (hst : s.Within t) : s.Fresh t [] := ⟨hst, by simp, by simp, by simp⟩

/-- Objects that were made one after the other are fresh together. -/
theorem Fresh.append (hfirst : s.Fresh t os) (hrest : t.Fresh u others) : s.Fresh u (os ++ others) where
  within := hfirst.within.trans hrest.within
  nodup := by
    rw [List.nodup_append]
    refine ⟨hfirst.nodup, hrest.nodup, ?_⟩
    rintro o ho other hother rfl
    -- the later objects are new even to the store that holds the earlier ones
    exact hrest.isNew o hother (hfirst.has o ho)
  isNew := by
    intro o ho
    rcases List.mem_append.mp ho with hos | hothers
    · exact hfirst.isNew o hos
    · intro hs
      exact hrest.isNew o hothers (hfirst.within.objects.has hs)
  has := by
    intro o ho
    rcases List.mem_append.mp ho with hos | hothers
    · exact hrest.within.objects.has (hfirst.has o hos)
    · exact hrest.has o hothers

/-- An object made last is fresh with those made before. -/
theorem Fresh.cons (hbefore : s.Fresh t os) (hlast : t.Fresh u [o]) : s.Fresh u (o :: os) := by
  have hboth := hbefore.append hlast
  have hperm : List.Perm (os ++ [o]) (o :: os) := List.perm_append_singleton o os
  refine ⟨hboth.within, hperm.nodup_iff.mp hboth.nodup, ?_, ?_⟩
  · intro other hother
    exact hboth.isNew other (hperm.mem_iff.mpr hother)
  · intro other hother
    exact hboth.has other (hperm.mem_iff.mpr hother)

theorem fresh_newObject (s : Store) (properties : Assoc String Value) :
    s.Fresh (s.newObject properties).2 [⟨s.objects.size⟩] := by
  refine ⟨within_newObject s properties, by simp, ?_, ?_⟩
  · intro o ho
    obtain rfl := List.mem_singleton.mp ho
    exact Nat.lt_irrefl _
  · intro o ho
    obtain rfl := List.mem_singleton.mp ho
    exact Pool.has_alloc_self s.objects properties

/-! ### Copies -/

/-- Where every value that is copied leaves a well-formed store and is a value of it, so do several one
after the other. -/
theorem continues_mapEntries {step : Value → Store → Value × Store}
    (hstep : ∀ v s, s.WellFormed → s.Has v → s.Continues (step v s).2 ∧ (step v s).2.Has (step v s).1)
    {entries : Assoc String Value} (hs : s.WellFormed) (hentries : ∀ p ∈ entries, s.Has p.2) :
    s.Continues (mapEntries step entries s).2 ∧
      (∀ p ∈ (mapEntries step entries s).1, (mapEntries step entries s).2.Has p.2) ∧
      Assoc.keys (mapEntries step entries s).1 = Assoc.keys entries := by
  induction entries generalizing s with
  | nil => exact ⟨hs.continues, by simp [mapEntries], rfl⟩
  | cons p rest ih =>
    obtain ⟨key, v⟩ := p
    rw [List.forall_mem_cons] at hentries
    obtain ⟨hfirst, hvalue⟩ := hstep v s hs hentries.1
    obtain ⟨hrest, hvalues, hkeys⟩ :=
      ih hfirst.wellFormed fun p hp => hfirst.within.has (hentries.2 p hp)
    refine ⟨hfirst.trans hrest, ?_, congrArg (key :: ·) hkeys⟩
    intro p hp
    rcases List.mem_cons.mp hp with rfl | hmem
    · exact hrest.within.has hvalue
    · exact hvalues p hmem

/-- A copy leaves a well-formed store and is a value of it. -/
theorem continues_deepCopyAt {fuel : Nat} (hs : s.WellFormed) (hv : s.Has v) :
    s.Continues (deepCopyAt fuel v s).2 ∧ (deepCopyAt fuel v s).2.Has (deepCopyAt fuel v s).1 := by
  induction fuel generalizing v s with
  | zero => cases v <;> exact ⟨hs.continues, hv⟩
  | succ fuel ih =>
    cases v with
    | object o =>
      obtain ⟨hcontinues, hvalues, hkeys⟩ :=
        continues_mapEntries (fun _ _ => ih) hs (hs.has_property o)
      rcases hmapped : mapEntries (deepCopyAt fuel) (s.object o) s with ⟨properties, t⟩
      rw [hmapped] at hcontinues hvalues hkeys
      have hnodup : (Assoc.keys properties).Nodup := by
        rw [hkeys]
        exact hs.nodup_keys o
      have hcopy : deepCopyAt (fuel + 1) (.object o) s = t.newObject properties := by
        rw [deepCopyAt, hmapped]
      -- the copy is allocated after its properties, so it holds nothing that is not there
      have hlast : t.Continues (t.newObject properties).2 :=
        ⟨within_newObject t properties, hcontinues.wellFormed.newObject hvalues hnodup⟩
      rw [hcopy]
      refine ⟨hcontinues.trans hlast, ?_⟩
      exact (fresh_newObject t properties).has _ List.mem_cons_self
    | _ => exact ⟨hs.continues, hv⟩

/-- Where every value that is copied gives fresh objects, so do several one after the other. -/
theorem fresh_mapEntries {s₀ : Store} {step : Value → Store → Value × Store}
    {entries : Assoc String Value}
    (hstep : ∀ p ∈ entries, ∀ s, s₀.Within s →
      ∃ os, (step p.2 s).2.Spans (step p.2 s).1 os ∧ s.Fresh (step p.2 s).2 os)
    (hs : s₀.Within s) :
    ∃ os, (mapEntries step entries s).2.SpansAll (mapEntries step entries s).1 os ∧
      s.Fresh (mapEntries step entries s).2 os := by
  induction entries generalizing s with
  | nil => exact ⟨[], .nil, .nil (.refl s)⟩
  | cons p rest ih =>
    obtain ⟨key, v⟩ := p
    rw [List.forall_mem_cons] at hstep
    obtain ⟨os, hspans, hfresh⟩ := hstep.1 s hs
    obtain ⟨others, hspansAll, hfreshAll⟩ := ih hstep.2 (hs.trans hfresh.within)
    -- the first value stays as it is while the others are copied
    have hfirst := hspans.congr fun o ho => hfreshAll.within.object_eq (hfresh.has o ho)
    exact ⟨os ++ others, .cons hfirst hspansAll, hfresh.append hfreshAll⟩

/-- The objects of a copy are fresh when the walk goes down as far as the value does. -/
theorem fresh_deepCopyAt {s₀ : Store} (hs₀ : s₀.WellFormed) {fuel : Nat} (hv : s₀.Has v)
    (hdepth : ∀ path, s₀.Descends v path → path.length ≤ fuel) (hs : s₀.Within s) :
    ∃ os, (deepCopyAt fuel v s).2.Spans (deepCopyAt fuel v s).1 os ∧
      s.Fresh (deepCopyAt fuel v s).2 os := by
  induction fuel generalizing v s with
  | zero =>
    cases v with
    | object o =>
      have hlast := hdepth [o] (.last o)
      simp at hlast
    | _ => exact ⟨[], .leaf (by simp [deepCopyAt, Value.kind]), .nil (.refl s)⟩
  | succ fuel ih =>
    cases v with
    | object o =>
      have hproperties : s.object o = s₀.object o := hs.object_eq hv
      have hstep : ∀ p ∈ s.object o, ∀ s, s₀.Within s →
          ∃ os, (deepCopyAt fuel p.2 s).2.Spans (deepCopyAt fuel p.2 s).1 os ∧
            s.Fresh (deepCopyAt fuel p.2 s).2 os := by
        intro p hp t ht
        rw [hproperties] at hp
        refine ih (hs₀.has_property o p hp) ?_ ht
        intro path hpath
        have hlonger := hdepth (o :: path) (.down hp hpath)
        exact Nat.le_of_succ_le_succ hlonger
      obtain ⟨os, hspans, hfresh⟩ := fresh_mapEntries hstep hs
      rcases hmapped : mapEntries (deepCopyAt fuel) (s.object o) s with ⟨properties, t⟩
      rw [hmapped] at hspans hfresh
      have hcopy : deepCopyAt (fuel + 1) (.object o) s = t.newObject properties := by
        rw [deepCopyAt, hmapped]
      rw [hcopy]
      -- the object made last has the copied properties, and the objects below it are still there
      have hbelow := hspans.congr fun o ho => (within_newObject t properties).object_eq (hfresh.has o ho)
      have hnew : (t.newObject properties).2.object ⟨t.objects.size⟩ = properties :=
        Pool.get_alloc_self t.objects properties
      have hspanned : (t.newObject properties).2.Spans (.object ⟨t.objects.size⟩)
          (⟨t.objects.size⟩ :: os) := by
        refine .object ?_
        rw [hnew]
        exact hbelow
      exact ⟨_, hspanned, hfresh.cons (fresh_newObject t properties)⟩
    | _ => exact ⟨[], .leaf (by simp [deepCopyAt, Value.kind]), .nil (.refl s)⟩

theorem fresh_deepCopy {s₀ : Store} (hs₀ : s₀.WellFormed) (hv : s₀.Has v) (hshallow : s₀.Shallow v)
    (hs : s₀.Within s) :
    ∃ os, (s.deepCopy v).2.Spans (s.deepCopy v).1 os ∧ s.Fresh (s.deepCopy v).2 os := by
  refine fresh_deepCopyAt hs₀ hv ?_ hs
  intro path hpath
  have hlength := hshallow path hpath
  have hsize := hs.objects.size_le
  unfold nesting
  omega

end Store

end ClassComposition
