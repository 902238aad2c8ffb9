import ClassComposition.Proofs.Store.Renaming

/-!
# Two ways to grow

A store grows in two ways, and what is done the one way is done once more after the other.  Whichever comes
first, both stores have the same in the end, except that what the two ways have made stands in the opposite
order.  So one of the stores follows the other one when the two blocks change places.

## Main definitions

* `exchange`, `Renaming.exchange` — two blocks change places.
* `Renaming.Bijective` — nothing is lost by a renaming.

## Main results

* `exchange_exchange` — changing places twice changes nothing.
* `Store.Grows.follows_exchange` — the one store follows the other one.
-/

namespace ClassComposition

/-! ### Blocks that change places -/

/-- Behind the first `n` places, a block of length `a` and one of length `b` change places. -/
def exchange (n a b i : Nat) : Nat :=
  if i < n then i else if i < n + a then i + b else if i < n + a + b then i - a else i

section Exchange

variable {n a b i : Nat}

theorem exchange_of_lt (h : i < n) : exchange n a b i = i := if_pos h

/-- The first block comes to stand behind the second one. -/
theorem exchange_eq_behind (h : i < n + a) : exchange n a b i = behind n b i := by
  unfold exchange behind
  split_ifs <;> omega

/-- The second block stood behind the first one. -/
theorem exchange_behind (h : i < n + b) : exchange n a b (behind n a i) = i := by
  unfold exchange behind
  split_ifs <;> omega

theorem exchange_of_ge (h : n + a + b ≤ i) : exchange n a b i = i := by
  unfold exchange
  split_ifs <;> omega

theorem exchange_lt (h : i < n + a + b) : exchange n a b i < n + a + b := by
  unfold exchange
  split_ifs <;> omega

theorem exchange_exchange (n a b i : Nat) : exchange n b a (exchange n a b i) = i := by
  unfold exchange
  split_ifs <;> omega

theorem bijective_exchange (n a b : Nat) : Function.Bijective (exchange n a b) :=
  Function.bijective_iff_has_inverse.mpr
    ⟨exchange n b a, exchange_exchange n a b, exchange_exchange n b a⟩

/-- Two ways to grow come to the same when the blocks change places, where what is made second is the same
under a map as if it had been made first. -/
theorem apply_exchange {α : Type} {n a b : Nat} (t u t' u' : Nat → α) (f g g' : α → α)
    (hu : ∀ i, i < n + a → u i = t i) (hu' : ∀ i, i < n + b → u' i = t' i)
    (hmade : ∀ i, u (behind n a i) = g (t' i)) (hmade' : ∀ i, u' (behind n b i) = g' (t i))
    (hg : ∀ i, f (g (t' i)) = t' i) (hg' : ∀ i, g' (t i) = f (t i))
    (hbeyond : ∀ i, n + a + b ≤ i → u' i = f (u i)) (i : Nat) :
    u' (exchange n a b i) = f (u i) := by
  rcases Nat.lt_or_ge i (n + a) with hfirst | hge
  · rw [exchange_eq_behind hfirst, hmade', hg', hu i hfirst]
  · rcases Nat.lt_or_ge i (n + a + b) with hsecond | hover
    · -- the other way has made it, too, at a place of its own
      obtain ⟨j, hj, rfl⟩ : ∃ j, j < n + b ∧ i = behind n a j := by
        refine ⟨i - a, by omega, ?_⟩
        unfold behind
        split_ifs <;> omega
      rw [exchange_behind hj, hmade, hg, hu' j hj]
    · rw [exchange_of_ge hover, hbeyond i hover]

end Exchange

namespace Renaming

/-- Nothing is lost by a renaming, and nothing falls together. -/
structure Bijective (ρ : Renaming) : Prop where
  object : Function.Bijective ρ.object
  prototype : Function.Bijective ρ.prototype
  routine : Function.Bijective ρ.routine

/-- What two stores have got since a third one changes places. -/
def exchange (s t t' : Store) : Renaming where
  object := ClassComposition.exchange s.objects.size (t.objects.size - s.objects.size)
    (t'.objects.size - s.objects.size)
  prototype := ClassComposition.exchange s.prototypes.size (t.prototypes.size - s.prototypes.size)
    (t'.prototypes.size - s.prototypes.size)
  routine := ClassComposition.exchange s.routines (t.routines - s.routines) (t'.routines - s.routines)

theorem bijective_exchange (s t t' : Store) : (Renaming.exchange s t t').Bijective :=
  ⟨ClassComposition.bijective_exchange _ _ _, ClassComposition.bijective_exchange _ _ _,
    ClassComposition.bijective_exchange _ _ _⟩

variable {s t t' : Store}

theorem keeps_exchange (s t t' : Store) : (Renaming.exchange s t t').Keeps s :=
  ⟨fun _ hi => exchange_of_lt hi, fun _ hi => exchange_of_lt hi, fun _ hi => exchange_of_lt hi⟩

/-- What the first store has got comes to stand behind what the second one has. -/
theorem eqOn_exchange (t' : Store) (h : s.Grows t) : (Renaming.exchange s t t').EqOn (past s t') t := by
  have hobjects := h.continues.within.objects.size_le
  have hprototypes := h.continues.within.prototypes.size_le
  have hroutines := h.routines_le
  refine ⟨fun i hi => exchange_eq_behind ?_, fun i hi => exchange_eq_behind ?_,
    fun i hi => exchange_eq_behind ?_⟩ <;> omega

/-- What the second store has got takes its own place again. -/
theorem keeps_exchange_comp (t : Store) (h : s.Grows t') : ((Renaming.exchange s t t').comp (past s t)).Keeps t' := by
  have hobjects := h.continues.within.objects.size_le
  have hprototypes := h.continues.within.prototypes.size_le
  have hroutines := h.routines_le
  refine ⟨fun i hi => exchange_behind ?_, fun i hi => exchange_behind ?_,
    fun i hi => exchange_behind ?_⟩ <;> omega

end Renaming

namespace Store

variable {s t t' u u' : Store}

/-- How much there is once the one way has come after the other. -/
theorem sizes_of_follows (ht' : s.Grows t') (hmade : Follows (Renaming.past s t) t' u) :
    u.objects.size = s.objects.size + (t.objects.size - s.objects.size)
        + (t'.objects.size - s.objects.size) ∧
      u.prototypes.size = s.prototypes.size + (t.prototypes.size - s.prototypes.size)
        + (t'.prototypes.size - s.prototypes.size) ∧
      u.routines = s.routines + (t.routines - s.routines) + (t'.routines - s.routines) := by
  have hobjects : behind s.objects.size (t.objects.size - s.objects.size) (t'.objects.size + 0)
      = u.objects.size + 0 := hmade.next_object 0
  have hprototypes : behind s.prototypes.size (t.prototypes.size - s.prototypes.size)
      (t'.prototypes.size + 0) = u.prototypes.size + 0 := hmade.next_prototype 0
  have hroutines : behind s.routines (t.routines - s.routines) (t'.routines + 0) = u.routines + 0 :=
    hmade.next_routine 0
  rw [Nat.add_zero, behind_of_ge ht'.continues.within.objects.size_le] at hobjects
  rw [Nat.add_zero, behind_of_ge ht'.continues.within.prototypes.size_le] at hprototypes
  rw [Nat.add_zero, behind_of_ge ht'.routines_le] at hroutines
  have hle := ht'.continues.within.objects.size_le
  have hle' := ht'.continues.within.prototypes.size_le
  have hle'' := ht'.routines_le
  refine ⟨?_, ?_, ?_⟩ <;> omega

/-- What was done the first way is done once more after the second way, and the other way round: the two
stores that this leads to are the same when what has been made changes places. -/
theorem Grows.follows_exchange (ht : s.Grows t) (ht' : s.Grows t') (hu : t.Grows u) (hu' : t'.Grows u')
    (hmade : Follows (Renaming.past s t) t' u) (hmade' : Follows (Renaming.past s t') t u')
    (hslots : t.SlotsHeld) (hslots' : t'.SlotsHeld) : Follows (Renaming.exchange s t t') u u' := by
  -- the two growths are laid after each other in either order; the renaming swaps the blocks
  have heq : (Renaming.exchange s t t').EqOn (.past s t') t := Renaming.eqOn_exchange t' ht
  have hkeeps : ((Renaming.exchange s t t').comp (.past s t)).Keeps t' :=
    Renaming.keeps_exchange_comp t ht'
  have hwell := ht.continues.wellFormed
  have hwell' := ht'.continues.wellFormed
  obtain ⟨hobjects, hprototypes, hroutines⟩ := sizes_of_follows ht' hmade
  obtain ⟨hobjects', hprototypes', hroutines'⟩ := sizes_of_follows ht hmade'
  have hbijective := Renaming.bijective_exchange s t t'
  refine ⟨hbijective.object.injective, fun k => ?_, fun k => ?_, fun k => ?_, fun i hi => ?_, ?_,
    hbijective.prototype.injective, ?_, ?_, ?_, ?_, ?_, ?_⟩
  · show exchange _ _ _ _ = _
    rw [exchange_of_ge] <;> omega
  · show exchange _ _ _ _ = _
    rw [exchange_of_ge] <;> omega
  · show exchange _ _ _ _ = _
    rw [exchange_of_ge] <;> omega
  · rw [hobjects] at hi
    have hlt := exchange_lt hi
    show exchange _ _ _ _ < _
    omega
  · have hsize := ht.continues.within.objects.size_le
    have hsize' := ht'.continues.within.objects.size_le
    refine apply_exchange (fun i => t.object ⟨i⟩) (fun i => u.object ⟨i⟩) (fun i => t'.object ⟨i⟩)
      (fun i => u'.object ⟨i⟩) _ _ _ (fun i hi => ?_) (fun i hi => ?_) hmade.object_eq hmade'.object_eq
      (fun i => ?_) (fun i => (heq.object_eq hwell ⟨i⟩).symm) fun i hi => ?_
    · exact hu.continues.within.objects.get_eq ⟨i⟩ (show i < _ by omega)
    · exact hu'.continues.within.objects.get_eq ⟨i⟩ (show i < _ by omega)
    · rw [← Renaming.entries_comp, hkeeps.object_eq hwell']
    · have hnone : u.object ⟨i⟩ = [] := Pool.get_of_not_has (show ¬ i < _ by omega)
      have hnone' : u'.object ⟨i⟩ = [] := Pool.get_of_not_has (show ¬ i < _ by omega)
      rw [hnone, hnone']
      rfl
  · have hsize := ht.continues.within.prototypes.size_le
    have hsize' := ht'.continues.within.prototypes.size_le
    refine apply_exchange (fun i => t.prototype ⟨i⟩) (fun i => u.prototype ⟨i⟩)
      (fun i => t'.prototype ⟨i⟩) (fun i => u'.prototype ⟨i⟩) _ _ _ (fun i hi => ?_) (fun i hi => ?_)
      hmade.prototype_eq hmade'.prototype_eq (fun i => ?_)
      (fun i => (heq.slotsOf_eq hslots ⟨i⟩).symm) fun i hi => ?_
    · exact hu.continues.within.prototypes.get_eq ⟨i⟩ (show i < _ by omega)
    · exact hu'.continues.within.prototypes.get_eq ⟨i⟩ (show i < _ by omega)
    · rw [← Renaming.slotsOf_comp, hkeeps.slotsOf_eq hslots']
    · have hnone : u.prototype ⟨i⟩ = default := Pool.get_of_not_has (show ¬ i < _ by omega)
      have hnone' : u'.prototype ⟨i⟩ = default := Pool.get_of_not_has (show ¬ i < _ by omega)
      rw [hnone, hnone']
      rfl
  · omega
  · rw [hu'.arrays_eq, ht'.arrays_eq, hu.arrays_eq, ht.arrays_eq]
  · rw [hu'.functions_eq, ht'.functions_eq, hu.functions_eq, ht.functions_eq]
  · rw [hu'.patterns_eq, ht'.patterns_eq, hu.patterns_eq, ht.patterns_eq]
  · rw [hu'.instances_eq, ht'.instances_eq, hu.instances_eq, ht.instances_eq]

end Store

end ClassComposition
