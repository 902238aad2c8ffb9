import ClassComposition.Proofs.Class.Shared
import Mathlib.Data.List.Nodup

/-!
# Declaring shared members

A class declares names shared by listing them.  They are taken one after the other, each against the shared
members that have been collected by then, so that a name which is listed twice is refused like one that was
shared before.  Either all of them are added, in order, or the first that may not be added stops the pass,
and then those before it stay added.

## Main definitions

* `SharedMembers.Valid` — the names of a list are different and may all be added.
* `SharedMembers.EntriesOf` — what a body has under the names of a list, in order.

## Main results

* `SharedMembers.declare_run` — a list of names, from any set of shared members.
* `SharedMembers.declare_iff_valid` — exactly the valid lists are accepted, and what the others leave.
-/

namespace ClassComposition

namespace SharedMembers

variable {path : String} {b : ClassBody} {parentSkeleton? : Option Skeleton} {shared : SharedMembers}
  {name : String}

/-! ### Valid lists -/

/-- Where one name has been added, another one may be added if it could be before and is not the same. -/
theorem addable_append {added : String} {v : Value} :
    Addable b parentSkeleton? (shared ++ [(added, v)]) name ↔
      name ≠ added ∧ Addable b parentSkeleton? shared name := by
  have hkeys : name ∈ Assoc.keys (shared ++ [(added, v)]) ↔ name ∈ Assoc.keys shared ∨ name = added := by
    simp [Assoc.keys]
  constructor
  · rintro ⟨hcontainer, hinstance, hnew⟩
    rw [hkeys, not_or] at hnew
    exact ⟨hnew.2, hcontainer, hinstance, hnew.1⟩
  · rintro ⟨hne, hcontainer, hinstance, hnew⟩
    refine ⟨hcontainer, hinstance, ?_⟩
    rw [hkeys, not_or]
    exact ⟨hnew, hne⟩

/-- A list of names that are different and may all be added. -/
def Valid (b : ClassBody) (parentSkeleton? : Option Skeleton) (shared : SharedMembers)
    (names : List String) : Prop :=
  names.Nodup ∧ ∀ name ∈ names, Addable b parentSkeleton? shared name

/-- The entries of a body under the names of a list, in the order of the list. -/
def EntriesOf (b : ClassBody) (names : List String) (entries : SharedMembers) : Prop :=
  List.Forall₂ (fun name p => p.1 = name ∧ b.get? name = some p.2) names entries

/-- A list of names is valid if its first one may be added and the others are valid after that. -/
theorem valid_cons {v : Value} {names : List String} (hfirst : Addable b parentSkeleton? shared name)
    (hrest : Valid b parentSkeleton? (shared ++ [(name, v)]) names) :
    Valid b parentSkeleton? shared (name :: names) := by
  obtain ⟨hnodup, haddable⟩ := hrest
  refine ⟨List.nodup_cons.mpr ⟨fun hmem => ?_, hnodup⟩, List.forall_mem_cons.mpr ⟨hfirst, ?_⟩⟩
  · exact (addable_append.mp (haddable name hmem)).1 rfl
  · exact fun other hmem => (addable_append.mp (haddable other hmem)).2

/-! ### Declaring -/

/-- Declaring a list of names adds all of them, or those before the first that may not be added. -/
theorem declare_run (path : String) (b : ClassBody) (parentSkeleton? : Option Skeleton)
    (shared : SharedMembers) (names : List String) :
    match declare path b parentSkeleton? shared names with
    | (result, .ok ()) => Valid b parentSkeleton? shared names ∧
        ∃ added, EntriesOf b names added ∧ result = shared ++ added
    | (result, .error e) => ∃ before name rest, names = before ++ name :: rest ∧
        Valid b parentSkeleton? shared before ∧
        (∃ added, EntriesOf b before added ∧ result = shared ++ added) ∧
        Offends b parentSkeleton? result name e.kind := by
  -- on the names, from whatever has been collected
  induction names generalizing shared with
  | nil => exact ⟨⟨List.nodup_nil, fun _ hmem => nomatch hmem⟩, [], .nil, (List.append_nil shared).symm⟩
  | cons name names ih =>
    have hname := declarable_spec path b parentSkeleton? shared name
    rw [declare]
    generalize declarable path b parentSkeleton? shared name = outcome at hname
    rcases outcome with e | v
    · exact ⟨[], name, names, rfl, ⟨List.nodup_nil, fun _ hmem => nomatch hmem⟩,
        ⟨[], .nil, (List.append_nil shared).symm⟩, hname⟩
    · obtain ⟨hget, haddable⟩ := hname
      have hrest := ih (shared ++ [(name, v)])
      dsimp only
      rw [Assoc.insert_of_notMem haddable.notShared]
      generalize declare path b parentSkeleton? (shared ++ [(name, v)]) names = outcome at hrest
      rcases outcome with ⟨result, e | ⟨⟩⟩
      · obtain ⟨before, other, rest, rfl, hvalid, ⟨added, hadded, rfl⟩, hoffends⟩ := hrest
        exact ⟨name :: before, other, rest, rfl, valid_cons haddable hvalid,
          ⟨(name, v) :: added, .cons ⟨rfl, hget⟩ hadded, List.append_assoc _ _ _⟩, hoffends⟩
      · obtain ⟨hvalid, added, hadded, rfl⟩ := hrest
        exact ⟨valid_cons haddable hvalid, (name, v) :: added, .cons ⟨rfl, hget⟩ hadded,
          List.append_assoc _ _ _⟩

theorem EntriesOf.keys_eq {names : List String} {entries : SharedMembers} (h : EntriesOf b names entries) :
    Assoc.keys entries = names := by
  induction h with
  | nil => rfl
  | cons hfirst _ ih => rw [← ih, ← hfirst.1]; rfl

/-- What stops a list of names after some that are valid makes the list invalid. -/
theorem not_valid_of_offends {before rest : List String} {added : SharedMembers} {kind : ErrorKind}
    (hadded : EntriesOf b before added) (h : Offends b parentSkeleton? (shared ++ added) name kind) :
    ¬ Valid b parentSkeleton? shared (before ++ name :: rest) := by
  rintro ⟨hnodup, haddable⟩
  obtain ⟨hcontainer, hinstance, hnew⟩ := haddable name (by simp)
  refine h.not_addable ⟨hcontainer, hinstance, ?_⟩
  have hbefore : name ∉ before := by
    rw [List.nodup_append] at hnodup
    exact fun hmem => hnodup.2.2 name hmem name List.mem_cons_self rfl
  rw [Assoc.keys, List.map_append, List.mem_append, not_or]
  refine ⟨hnew, ?_⟩
  rw [← Assoc.keys, hadded.keys_eq]
  exact hbefore

/-- Declaring names succeeds exactly if they are different and each of them has an object or an array in the
body, is no instance member of the parent and is not shared already.  The result is then what was shared
before, followed by the names in order with the entries of the body.  Where it fails, it fails for the first
name that offends after the valid ones before it, with the kind of error that comes first, and those before
it have been added. -/
theorem declare_iff_valid (path : String) (b : ClassBody) (parentSkeleton? : Option Skeleton)
    (shared : SharedMembers) (names : List String) :
    ((declare path b parentSkeleton? shared names).2 = .ok () ↔
      names.Nodup ∧ ∀ name ∈ names, Addable b parentSkeleton? shared name) ∧
    match declare path b parentSkeleton? shared names with
    | (result, .ok ()) => ∃ added, EntriesOf b names added ∧ result = shared ++ added
    | (result, .error e) => ∃ before name rest, names = before ++ name :: rest ∧
        Valid b parentSkeleton? shared before ∧
        (∃ added, EntriesOf b before added ∧ result = shared ++ added) ∧
        Offends b parentSkeleton? result name e.kind := by
  have hrun := declare_run path b parentSkeleton? shared names
  generalize declare path b parentSkeleton? shared names = outcome at hrun ⊢
  rcases outcome with ⟨result, e | ⟨⟩⟩
  · refine ⟨⟨fun h => (by cases h), fun hvalid => ?_⟩, hrun⟩
    obtain ⟨before, name, rest, rfl, -, ⟨added, hadded, rfl⟩, hoffends⟩ := hrun
    exact absurd hvalid (not_valid_of_offends hadded hoffends)
  · exact ⟨⟨fun _ => hrun.1, fun _ => rfl⟩, hrun.2⟩

end SharedMembers

end ClassComposition
