import ClassComposition.Proofs.Class.Patch
import ClassComposition.Proofs.Registry.Lineage

/-!
# The table of kept implementations

A class lists, for each method, the classes whose implementation of it is kept.  The list is collected in
the order of the skeleton and then sorted by the place of each class along the inheritance chain, where a
class that is not on it counts as behind all others.  Sorting is stable, so the list is the chain, as far as
it has an implementation, and behind it the other classes as they were collected.

## Main results

* `eq_filter_append_filter` — a list in which what passes a test comes first.
* `mem_keys_overrideChains`, `nodup_keys_overrideChains` — the methods that have an entry.
* `overrideChain_eq_append` — the chain of a method, in order.
* `Registry.Reachable.overrideChains_mirror` — the table of every class, from its skeleton.
-/

namespace ClassComposition

/-! ### The entries -/

variable {ms : Skeleton} {names : List String} {method : String}

/-- Going through the members gives every method with a kept implementation an entry, and no method two. -/
theorem keys_foldl_update (ms : Skeleton) (chains : Assoc String (List String)) :
    let collected := ms.foldl (fun chains m =>
      match m.1 with
      | .aliased owner member => Assoc.update chains member [] (· ++ [owner])
      | .plain _ => chains) chains
    (∀ method, method ∈ Assoc.keys collected ↔
      method ∈ Assoc.keys chains ∨ ∃ owner, .aliased owner method ∈ Assoc.keys ms) ∧
    ((Assoc.keys chains).Nodup → (Assoc.keys collected).Nodup) := by
  -- on the members, for whatever has been collected before
  induction ms generalizing chains with
  | nil => simp [Assoc.keys]
  | cons p rest ih =>
    obtain ⟨key, d⟩ := p
    cases key with
    | plain name =>
      refine ⟨fun method => ((ih chains).1 method).trans ?_, (ih chains).2⟩
      simp [Assoc.keys]
    | aliased owner member =>
      obtain ⟨hmem, hnodup⟩ := ih (Assoc.update chains member [] (· ++ [owner]))
      refine ⟨fun method => (hmem method).trans ?_,
        fun hchains => hnodup (Assoc.nodup_keys_insert hchains _ _)⟩
      rw [Assoc.update, Assoc.mem_keys_insert]
      simp only [Assoc.keys, List.map_cons, List.mem_cons, MemberKey.aliased.injEq, exists_or,
        exists_and_right]
      tauto

theorem keys_overrideChains (names : List String) (ms : Skeleton) :
    Assoc.keys (overrideChains names ms) = Assoc.keys (ms.foldl (fun chains m =>
      match m.1 with
      | .aliased owner member => Assoc.update chains member [] (· ++ [owner])
      | .plain _ => chains) ([] : Assoc String (List String))) := by
  rw [overrideChains, Assoc.keys, List.map_map]
  rfl

theorem mem_keys_overrideChains :
    method ∈ Assoc.keys (overrideChains names ms) ↔
      ∃ owner, .aliased owner method ∈ Assoc.keys ms := by
  rw [keys_overrideChains, (keys_foldl_update ms []).1]
  simp [Assoc.keys]

theorem nodup_keys_overrideChains (names : List String) (ms : Skeleton) :
    (Assoc.keys (overrideChains names ms)).Nodup := by
  rw [keys_overrideChains]
  exact (keys_foldl_update ms []).2 List.nodup_nil

/-! ### The order of an entry -/

/-- A list in which what passes a test comes before what fails it is these two parts. -/
theorem eq_filter_append_filter {α : Type} {p : α → Bool} {l : List α}
    (h : l.Pairwise fun a b => p b = true → p a = true) :
    l = l.filter p ++ l.filter fun a => !p a := by
  induction l with
  | nil => rfl
  | cons a rest ih =>
    obtain ⟨hfirst, hrest⟩ := List.pairwise_cons.mp h
    by_cases ha : p a = true
    · rw [List.filter_cons_of_pos ha, List.filter_cons_of_neg (by simp [ha]), List.cons_append, ← ih hrest]
    · -- nothing behind the first to fail passes
      have hnone : ∀ b ∈ rest, ¬ p b = true := fun b hb hpass => ha (hfirst b hb hpass)
      rw [List.filter_cons_of_neg ha, List.filter_cons_of_pos (by simp [ha]),
        List.filter_eq_nil_iff.mpr hnone, List.nil_append, List.filter_eq_self.mpr]
      intro b hb
      simp [hnone b hb]

/-- Sorting by position leaves the classes that are not on the chain in the order of the skeleton, as they
all count as behind it. -/
theorem filter_not_overrideChain (names : List String) (ms : Skeleton) (method : String) :
    ((Assoc.get? (overrideChains names ms) method).getD []).filter (fun owner => !names.contains owner) =
      (ms.owners method).filter fun owner => !names.contains owner := by
  rw [overrideChain_eq]
  have hperm := List.mergeSort_perm (ms.owners method) fun a b =>
    decide (names.idxOf a ≤ names.idxOf b)
  have htied : ((ms.owners method).filter fun owner => !names.contains owner).Pairwise
      fun a b => decide (names.idxOf a ≤ names.idxOf b) = true := by
    rw [List.pairwise_filter]
    refine List.pairwise_of_forall fun a b ha hb => ?_
    simp only [Bool.not_eq_eq_eq_not, Bool.not_true, List.contains_eq_mem, decide_eq_false_iff_not]
      at ha hb
    rw [List.idxOf_eq_length ha, List.idxOf_eq_length hb]
    exact decide_eq_true (Nat.le_refl _)
  -- they are a part of the sorted list, which has no more of them
  have hstable := (List.sublist_mergeSort (fun a b c hab hbc => ?_) (fun a b => ?_) htied
    List.filter_sublist).filter fun owner => !names.contains owner
  · simp only [List.filter_filter, Bool.and_self] at hstable
    exact (hstable.eq_of_length (hperm.filter _).length_eq.symm).symm
  · simp only [decide_eq_true_eq] at *
    omega
  · simp only [Bool.or_eq_true, decide_eq_true_eq]
    omega

/-- The chain of a method: the inheritance chain, as far as it has an implementation, and then the other
classes with one, in the order of the skeleton. -/
theorem overrideChain_eq_append (hnames : names.Nodup) (hms : (Assoc.keys ms).Nodup) (method : String) :
    (Assoc.get? (overrideChains names ms) method).getD [] =
      (names.filter fun owner => Assoc.contains ms (.aliased owner method)) ++
        (ms.owners method).filter fun owner => !names.contains owner := by
  have hfirst : ((Assoc.get? (overrideChains names ms) method).getD []).Pairwise
      fun a b => names.contains b = true → names.contains a = true := by
    rw [overrideChain_eq]
    refine (pairwise_mergeSort_idxOf names (ms.owners method)).imp fun {a b} hab hb => ?_
    rw [List.contains_iff_mem, ← List.idxOf_lt_length_iff] at hb ⊢
    omega
  rw [← filter_overrideChain hnames (List.Sublist.refl names) hms, ← filter_not_overrideChain names ms]
  exact eq_filter_append_filter hfirst

/-! ### Classes -/

namespace Registry

/-- The table of every class mirrors its skeleton.  A method has an entry exactly if some implementation of
it is kept, and then one.  The entry has exactly the classes whose implementation is kept, each once: first
those on the inheritance chain, from the root down, and then the others in the order of the skeleton. -/
theorem Reachable.overrideChains_mirror {config : Config} {r : Registry} (hr : r.Reachable config)
    {path : String} {c : ClassDefinition} (hc : r.definition? path = some c) :
    (Assoc.keys c.overrideChains).Nodup ∧
    (∀ method, method ∈ Assoc.keys c.overrideChains ↔
      ∃ owner, .aliased owner method ∈ Assoc.keys c.skeleton) ∧
    ∀ method owners, Assoc.get? c.overrideChains method = some owners →
      owners.Nodup ∧
      (∀ owner, owner ∈ owners ↔ .aliased owner method ∈ Assoc.keys c.skeleton) ∧
      owners =
        (c.ancestorNames.filter fun owner => Assoc.contains c.skeleton (.aliased owner method)) ++
          (c.skeleton.owners method).filter fun owner => !c.ancestorNames.contains owner := by
  have hnames := hr.compiled.nodup_ancestorNames hc
  have hkeys := (hr.compiled.referencesSound hc).1
  rw [hr.compiled.overrideChains_eq hc]
  refine ⟨nodup_keys_overrideChains _ _, fun _ => mem_keys_overrideChains, fun method owners hget => ?_⟩
  have hsorted := overrideChain_eq c.ancestorNames c.skeleton method
  rw [hget, Option.getD_some] at hsorted
  have hperm := List.mergeSort_perm (c.skeleton.owners method) fun a b =>
    decide (c.ancestorNames.idxOf a ≤ c.ancestorNames.idxOf b)
  rw [← hsorted] at hperm
  refine ⟨hperm.nodup_iff.mpr (Skeleton.nodup_owners hkeys method),
    fun owner => hperm.mem_iff.trans Skeleton.mem_owners, ?_⟩
  have hsplit := overrideChain_eq_append hnames hkeys method
  rw [hget, Option.getD_some] at hsplit
  exact hsplit

end Registry

namespace Sample

/-- One function for all methods. -/
def oneFunction : World := ⟨{ Store.empty with functions := ⟨#[⟨some "m", []⟩]⟩ }, []⟩

/-- The registry with three classes that implement a method.  The last one also keeps, under the name of a
class that is not on its inheritance chain, an implementation that it declares itself. -/
def foreignAlias : Registry :=
  (((((Registry.empty .standard).perform oneFunction (.addRoot "Ns")).perform oneFunction
    (.define "Ns.A" ⟨[("m", .function ⟨0⟩)]⟩)).perform oneFunction
    (.define "Ns.B" ⟨[("Extends", .text "Ns.A"), ("m", .function ⟨0⟩)]⟩)).perform oneFunction
    (.define "Ns.C" ⟨[("Extends", .text "Ns.B"), ("X$m", .function ⟨0⟩), ("m", .function ⟨0⟩)]⟩))

end Sample

namespace Registry

/-- In the last class the implementation under the foreign name was collected first, and it is listed
last. -/
theorem Reachable.overrideChains_mirror_foreign :
    ∃ c, Sample.foreignAlias.definition? "Ns.C" = some c ∧ c.skeleton.owners "m" = ["X", "B", "A"] ∧
      Assoc.get? c.overrideChains "m" = some ["A", "B", "X"] := by
  have hreachable : Sample.foreignAlias.Reachable .standard :=
    (((Reachable.empty.perform _ _).perform _ _).perform _ _).perform _ _
  obtain ⟨c, hc⟩ : ∃ c, Sample.foreignAlias.definition? "Ns.C" = some c := ⟨_, rfl⟩
  obtain ⟨-, hentries, horder⟩ := hreachable.overrideChains_mirror hc
  have hkeys : Assoc.keys c.skeleton
      = [.aliased "X" "m", .plain "m", .aliased "B" "m", .aliased "A" "m"] := by
    cases hc
    rfl
  have howners : c.skeleton.owners "m" = ["X", "B", "A"] := by
    rw [Skeleton.owners, hkeys]
    rfl
  have hnames : c.ancestorNames = ["A", "B", "C"] := by
    cases hc
    rfl
  have hkept : (c.ancestorNames.filter fun owner => Assoc.contains c.skeleton (.aliased owner "m"))
      = ["A", "B"] := by
    cases hc
    rfl
  have hentry : "m" ∈ Assoc.keys c.overrideChains := by
    rw [hentries, hkeys]
    exact ⟨"X", List.mem_cons_self⟩
  obtain ⟨owners, hget⟩ := (Assoc.mem_keys_iff _ _).mp hentry
  -- the ancestors come first in their own order, and the owner that is no ancestor follows them
  obtain ⟨-, -, hlisted⟩ := horder "m" owners hget
  refine ⟨c, hc, howners, ?_⟩
  rw [hget, hlisted, hkept, howners, hnames]
  rfl

end Registry

end ClassComposition
