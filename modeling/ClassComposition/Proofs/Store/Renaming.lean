import ClassComposition.Proofs.Class.Overlay

/-!
# Stores that differ in the identity of new things

What a computation makes is known by the position at which it is made.  When the same is done in a store
that has more in it, what is new stands further back, and wherever it is mentioned another handle is
found.  So one store follows another one under a renaming: what stands at a handle of the first stands at
the renamed handle of the second, with the handles in it renamed.

## Main definitions

* `Renaming` — other handles for objects and prototypes, and other identities for routines.
* `Renaming.EqOn`, `Renaming.Keeps` — renamings that do the same to what a store has, or nothing.
* `Store.Grows` — a store that has got objects, prototypes and routines.
* `Store.Follows` — one store is another one under a renaming.
* `Renaming.past` — what is new in a store stands behind what another store has got.

## Main results

* `Store.Follows.newObject`, `Store.Follows.setProperty` — single steps in both stores.
* `Store.Grows.follows` — a store that has grown follows the one that it has grown from.
-/

namespace ClassComposition

/-- Other handles for objects and prototypes, and other identities for routines. -/
structure Renaming where
  object : Nat → Nat
  prototype : Nat → Nat
  routine : Nat → Nat

namespace Renaming

variable {κ : Type}

section Values

variable (ρ : Renaming)

/-- A value, objects being renamed. -/
def value : Value → Value
  | .object o => .object ⟨ρ.object o.index⟩
  | v => v

/-- The entries of a map, renamed. -/
def entries (m : Assoc κ Value) : Assoc κ Value := m.map fun p => (p.1, ρ.value p.2)

/-- A prototype with what stands in its slots renamed. -/
def slotsOf (p : Prototype) : Prototype := { p with slots := ρ.entries p.slots }

end Values

/-- The renaming under which everything stays as it is. -/
def refl : Renaming := ⟨id, id, id⟩

/-- One renaming after another one. -/
def comp (ρ σ : Renaming) : Renaming :=
  ⟨ρ.object ∘ σ.object, ρ.prototype ∘ σ.prototype, ρ.routine ∘ σ.routine⟩

variable {ρ σ : Renaming}

theorem value_of_leaf {v : Value} (h : v.kind ≠ .object) : ρ.value v = v := by
  cases v with
  | object o => exact absurd rfl h
  | _ => rfl

@[simp] theorem value_refl (v : Value) : Renaming.refl.value v = v := by
  cases v <;> rfl

theorem value_comp (v : Value) : (ρ.comp σ).value v = ρ.value (σ.value v) := by
  cases v <;> rfl

@[simp] theorem entries_refl (m : Assoc κ Value) : Renaming.refl.entries m = m := by
  simp [entries]

theorem entries_comp (m : Assoc κ Value) : (ρ.comp σ).entries m = ρ.entries (σ.entries m) := by
  simp [entries, value_comp]

@[simp] theorem slotsOf_refl (p : Prototype) : Renaming.refl.slotsOf p = p := by
  simp [slotsOf]

theorem slotsOf_comp (p : Prototype) : (ρ.comp σ).slotsOf p = ρ.slotsOf (σ.slotsOf p) := by
  simp [slotsOf, entries_comp]

theorem entries_insert [DecidableEq κ] (m : Assoc κ Value) (key : κ) (v : Value) :
    ρ.entries (Assoc.insert m key v) = Assoc.insert (ρ.entries m) key (ρ.value v) := by
  induction m with
  | nil => rfl
  | cons p rest ih =>
    obtain ⟨k, x⟩ := p
    by_cases hk : k = key
    · simp [Assoc.insert, entries, hk]
    · simpa [Assoc.insert, entries, hk] using ih

theorem get?_entries [DecidableEq κ] (m : Assoc κ Value) (key : κ) :
    Assoc.get? (ρ.entries m) key = (Assoc.get? m key).map ρ.value := Assoc.get?_map ρ.value m key

end Renaming

/-! ### What a store has -/

/-- If a value is an object, the store has it. -/
def Store.HasObject (s : Store) (v : Value) : Prop := ∀ o, v = .object o → s.objects.Has o

theorem Store.Has.hasObject {s : Store} {v : Value} (h : s.Has v) : s.HasObject v := by
  rintro o rfl
  exact h

/-- A store has the objects that stand in the slots of its prototypes. -/
def Store.SlotsHeld (s : Store) : Prop := ∀ h, ∀ p ∈ (s.prototype h).slots, s.HasObject p.2

namespace Renaming

variable {κ : Type} {ρ σ : Renaming} {s : Store}

/-- Two renamings do the same to what a store has. -/
structure EqOn (ρ σ : Renaming) (s : Store) : Prop where
  object : ∀ i, i < s.objects.size → ρ.object i = σ.object i
  prototype : ∀ i, i < s.prototypes.size → ρ.prototype i = σ.prototype i
  routine : ∀ i, i < s.routines → ρ.routine i = σ.routine i

theorem EqOn.value_eq (h : ρ.EqOn σ s) {v : Value} (hv : s.HasObject v) : ρ.value v = σ.value v := by
  cases v with
  | object o => exact congrArg (fun i => Value.object ⟨i⟩) (h.object o.index (hv o rfl))
  | _ => rfl

theorem EqOn.entries_eq (h : ρ.EqOn σ s) {m : Assoc κ Value} (hm : ∀ p ∈ m, s.HasObject p.2) :
    ρ.entries m = σ.entries m := List.map_congr_left fun p hp => by rw [h.value_eq (hm p hp)]

/-- A renaming keeps what a store has. -/
def Keeps (ρ : Renaming) (s : Store) : Prop := ρ.EqOn .refl s

theorem Keeps.value_eq (h : ρ.Keeps s) {v : Value} (hv : s.HasObject v) : ρ.value v = v := by
  rw [EqOn.value_eq h hv, value_refl]

theorem EqOn.slotsOf_eq (h : ρ.EqOn σ s) (hs : s.SlotsHeld) (i : Handle .prototype) :
    ρ.slotsOf (s.prototype i) = σ.slotsOf (s.prototype i) := by
  rw [slotsOf, slotsOf, h.entries_eq (hs i)]

theorem EqOn.object_eq (h : ρ.EqOn σ s) (hs : s.WellFormed) (o : Handle .object) :
    ρ.entries (s.object o) = σ.entries (s.object o) :=
  h.entries_eq fun p hp => (hs.has_property o p hp).hasObject

theorem Keeps.entries_eq (h : ρ.Keeps s) {m : Assoc κ Value} (hm : ∀ p ∈ m, s.HasObject p.2) :
    ρ.entries m = m := by
  rw [EqOn.entries_eq h hm, entries_refl]

theorem Keeps.object_eq (h : ρ.Keeps s) (hs : s.WellFormed) (o : Handle .object) :
    ρ.entries (s.object o) = s.object o := by
  rw [EqOn.object_eq h hs, entries_refl]

theorem Keeps.slotsOf_eq (h : ρ.Keeps s) (hs : s.SlotsHeld) (i : Handle .prototype) :
    ρ.slotsOf (s.prototype i) = s.prototype i := by
  rw [EqOn.slotsOf_eq h hs, slotsOf_refl]

end Renaming

namespace Store

variable {ρ σ : Renaming} {s s' t t' u s₀ : Store}

theorem HasObject.within {v : Value} (h : s.HasObject v) (hs : s.Within t) : t.HasObject v :=
  fun o ho => hs.objects.has (h o ho)

/-! ### Reading after writing -/

theorem object_newObject (s : Store) (properties : Assoc String Value) (o : Handle .object) :
    (s.newObject properties).2.object o
      = if o.index = s.objects.size then properties else s.object o := by
  show ((s.objects.alloc properties).2.get o) = if o.index = s.objects.cells.size then _ else s.objects.get o
  simp only [Pool.alloc, Pool.get, Array.getD_eq_getD_getElem?, Array.getElem?_push]
  split <;> simp

theorem prototype_newPrototype (s : Store) (p : Prototype) (h : Handle .prototype) :
    (s.newPrototype p).2.prototype h = if h.index = s.prototypes.size then p else s.prototype h := by
  show ((s.prototypes.alloc p).2.get h)
    = if h.index = s.prototypes.cells.size then _ else s.prototypes.get h
  simp only [Pool.alloc, Pool.get, Array.getD_eq_getD_getElem?, Array.getElem?_push]
  split <;> simp

/-- What stands in an object once a property has been written. -/
theorem object_setProperty (s : Store) (target o : Handle .object) (key : String) (v : Value) :
    (s.setProperty (.object target) key v).object o
      = if o = target ∧ s.objects.Has target then Assoc.insert (s.object target) key v
        else s.object o := by
  show (s.objects.set target _).get o = _
  split
  · next h =>
    obtain ⟨rfl, hgood⟩ := h
    exact Pool.get_set_self s.objects o _ hgood
  · next h =>
    by_cases heq : target = o
    · subst heq
      exact Pool.get_set_of_not_has s.objects target _ fun hgood => h ⟨rfl, hgood⟩
    · exact Pool.get_set_of_ne s.objects _ heq

theorem SlotsHeld.of_prototypes_eq (h : s.SlotsHeld) (hs : s.Within t)
    (heq : t.prototypes = s.prototypes) : t.SlotsHeld := by
  intro i p hp
  rw [prototype, heq] at hp
  exact (h i p hp).within hs

theorem SlotsHeld.newPrototype (h : s.SlotsHeld) {p : Prototype} (hp : ∀ q ∈ p.slots, s.HasObject q.2) :
    (s.newPrototype p).2.SlotsHeld := by
  intro i q hq
  rw [prototype_newPrototype] at hq
  split at hq
  · exact hp q hq
  · exact h i q hq

/-! ### Stores that have got objects, prototypes and routines -/

/-- The second store differs from the first one in its objects only. -/
def OnlyObjects (s t : Store) : Prop := t = { s with objects := t.objects }

theorem OnlyObjects.trans (hst : s.OnlyObjects t) (htu : t.OnlyObjects u) : s.OnlyObjects u := by
  unfold OnlyObjects at *
  rw [htu, hst]

/-- The second store has grown from the first one by objects, prototypes and routines. -/
structure Grows (s t : Store) : Prop where
  continues : s.Continues t
  routines_le : s.routines ≤ t.routines
  arrays_eq : t.arrays = s.arrays
  functions_eq : t.functions = s.functions
  patterns_eq : t.patterns = s.patterns
  instances_eq : t.instances = s.instances

theorem WellFormed.grows (hs : s.WellFormed) : s.Grows s := ⟨hs.continues, Nat.le_refl _, rfl, rfl, rfl, rfl⟩

namespace Grows

/-- Objects may be made and written. -/
theorem of_onlyObjects (h : s.Grows t) (hu : s.Continues u) (honly : t.OnlyObjects u) : s.Grows u := by
  obtain ⟨-, hroutines, harrays, hfunctions, hpatterns, hinstances⟩ := h
  refine ⟨hu, ?_, ?_, ?_, ?_, ?_⟩ <;> rw [honly] <;> assumption

theorem newPrototype (h : s.Grows t) (p : Prototype) : s.Grows (t.newPrototype p).2 :=
  { h with continues := h.continues.trans ⟨t.within_newPrototype p, h.continues.wellFormed.newPrototype p⟩ }

theorem newRoutine (h : s.Grows t) : s.Grows t.newRoutine.2 :=
  { h with
    continues := h.continues.trans ⟨t.within_newRoutine, h.continues.wellFormed.newRoutine⟩
    routines_le := Nat.le_succ_of_le h.routines_le }

end Grows

/-! ### One store follows another one -/

/-- The second store is the first one under a renaming, and what is made next in both will be so, too. -/
structure Follows (ρ : Renaming) (s s' : Store) : Prop where
  injective : Function.Injective ρ.object
  next_object : ∀ k, ρ.object (s.objects.size + k) = s'.objects.size + k
  next_prototype : ∀ k, ρ.prototype (s.prototypes.size + k) = s'.prototypes.size + k
  next_routine : ∀ k, ρ.routine (s.routines + k) = s'.routines + k
  has_object : ∀ i, i < s.objects.size → ρ.object i < s'.objects.size
  object_eq : ∀ i, s'.object ⟨ρ.object i⟩ = ρ.entries (s.object ⟨i⟩)
  prototype_injective : Function.Injective ρ.prototype
  prototype_eq : ∀ i, s'.prototype ⟨ρ.prototype i⟩ = ρ.slotsOf (s.prototype ⟨i⟩)
  size_le : s.objects.size ≤ s'.objects.size
  arrays_eq : s'.arrays = s.arrays
  functions_eq : s'.functions = s.functions
  patterns_eq : s'.patterns = s.patterns
  instances_eq : s'.instances = s.instances

namespace Follows

theorem nesting_le (h : Follows ρ s s') : s.nesting ≤ s'.nesting := by
  have hsize := h.size_le
  unfold nesting
  rw [h.arrays_eq]
  omega

theorem has_iff (h : Follows ρ s s') (o : Handle .object) :
    s'.objects.Has ⟨ρ.object o.index⟩ ↔ s.objects.Has o := by
  constructor
  · intro hhas
    rcases Nat.lt_or_ge o.index s.objects.size with hlt | hge
    · exact hlt
    · -- what is not there yet is renamed to what is not there yet
      have hnext := h.next_object (o.index - s.objects.size)
      rw [Nat.add_sub_cancel' hge] at hnext
      have hlt : ρ.object o.index < s'.objects.size := hhas
      omega
  · exact h.has_object o.index

theorem entries_eq (h : Follows ρ s s') (v : Value) :
    s'.entries (ρ.value v) = ρ.entries (s.entries v) := by
  cases v with
  | object o => exact h.object_eq o.index
  | _ => rfl

theorem property?_eq (h : Follows ρ s s') (v : Value) (key : String) :
    s'.property? (ρ.value v) key = (s.property? v key).map ρ.value := by
  unfold property?
  rw [h.entries_eq, Renaming.get?_entries]

theorem newObject (h : Follows ρ s s') (properties : Assoc String Value) :
    Follows ρ (s.newObject properties).2 (s'.newObject (ρ.entries properties)).2 ∧
      (s'.newObject (ρ.entries properties)).1 = ρ.value (s.newObject properties).1 := by
  have hfirst : ρ.object s.objects.size = s'.objects.size := h.next_object 0
  have hsize : (s.newObject properties).2.objects.size = s.objects.size + 1 := Pool.size_alloc _ _
  have hsize' : (s'.newObject (ρ.entries properties)).2.objects.size = s'.objects.size + 1 :=
    Pool.size_alloc _ _
  refine ⟨{ h with next_object := ?_, has_object := ?_, object_eq := ?_, size_le := ?_ }, ?_⟩
  · intro k
    rw [hsize, hsize', Nat.add_assoc, Nat.add_assoc, h.next_object]
  · intro i hi
    rw [hsize] at hi
    rw [hsize']
    -- either the object was there before or it is the one just made
    rcases Nat.lt_or_eq_of_le (Nat.le_of_lt_succ hi) with hlt | rfl
    · exact Nat.lt_succ_of_lt (h.has_object i hlt)
    · rw [hfirst]
      exact Nat.lt_succ_self _
  · intro i
    rw [object_newObject, object_newObject]
    by_cases hi : i = s.objects.size
    · subst hi
      rw [if_pos hfirst, if_pos rfl]
    · have hi' : ρ.object i ≠ s'.objects.size := fun heq => hi (h.injective (heq.trans hfirst.symm))
      rw [if_neg hi, if_neg hi', h.object_eq]
  · rw [hsize, hsize']
    exact Nat.succ_le_succ h.size_le
  · show Value.object ⟨s'.objects.size⟩ = .object ⟨ρ.object s.objects.size⟩
    rw [hfirst]

theorem setProperty (h : Follows ρ s s') (target : Value) (key : String) (v : Value) :
    Follows ρ (s.setProperty target key v) (s'.setProperty (ρ.value target) key (ρ.value v)) := by
  cases target with
  | object o =>
    have hsize : (s.setProperty (.object o) key v).objects.size = s.objects.size := Pool.size_set _ _ _
    have hsize' : (s'.setProperty (ρ.value (.object o)) key (ρ.value v)).objects.size
        = s'.objects.size := Pool.size_set _ _ _
    refine { h with next_object := ?_, has_object := ?_, object_eq := ?_, size_le := ?_ }
    · intro k
      rw [hsize, hsize', h.next_object]
    · intro i hi
      rw [hsize] at hi
      rw [hsize']
      exact h.has_object i hi
    · intro i
      -- the renaming is injective, so the same object is written on both sides or on neither
      have hsame : (⟨ρ.object i⟩ : Handle .object) = ⟨ρ.object o.index⟩ ↔ (⟨i⟩ : Handle .object) = o := by
        constructor
        · intro heq
          have hindex : i = o.index := h.injective (congrArg Handle.index heq)
          rw [hindex]
        · rintro rfl
          rfl
      show (s'.setProperty (.object ⟨ρ.object o.index⟩) key (ρ.value v)).object ⟨ρ.object i⟩ = _
      rw [object_setProperty, object_setProperty]
      simp only [hsame, h.has_iff]
      split
      · rw [h.object_eq, Renaming.entries_insert]
      · exact h.object_eq i
    · rw [hsize, hsize']
      exact h.size_le
  | _ => exact h

theorem newPrototype (h : Follows ρ s s') (p : Prototype) :
    Follows ρ (s.newPrototype p).2 (s'.newPrototype (ρ.slotsOf p)).2 ∧
      (s'.newPrototype (ρ.slotsOf p)).1 = ⟨ρ.prototype (s.newPrototype p).1.index⟩ := by
  have hfirst : ρ.prototype s.prototypes.size = s'.prototypes.size := h.next_prototype 0
  have hsize : (s.newPrototype p).2.prototypes.size = s.prototypes.size + 1 := Pool.size_alloc _ _
  have hsize' : (s'.newPrototype (ρ.slotsOf p)).2.prototypes.size = s'.prototypes.size + 1 :=
    Pool.size_alloc _ _
  refine ⟨{ h with next_prototype := ?_, prototype_eq := ?_ }, ?_⟩
  · intro k
    rw [hsize, hsize', Nat.add_assoc, Nat.add_assoc, h.next_prototype]
  · intro i
    rw [prototype_newPrototype, prototype_newPrototype]
    by_cases hi : i = s.prototypes.size
    · subst hi
      rw [if_pos hfirst, if_pos rfl]
    · have hi' : ρ.prototype i ≠ s'.prototypes.size :=
        fun heq => hi (h.prototype_injective (heq.trans hfirst.symm))
      rw [if_neg hi, if_neg hi', h.prototype_eq]
  · show (⟨s'.prototypes.size⟩ : Handle .prototype) = ⟨ρ.prototype s.prototypes.size⟩
    rw [hfirst]

theorem newRoutine (h : Follows ρ s s') :
    Follows ρ s.newRoutine.2 s'.newRoutine.2 ∧ s'.newRoutine.1 = ρ.routine s.newRoutine.1 := by
  refine ⟨{ h with next_routine := fun k => ?_ }, (h.next_routine 0).symm⟩
  show ρ.routine (s.routines + 1 + k) = s'.routines + 1 + k
  rw [Nat.add_assoc, Nat.add_assoc, h.next_routine]

end Follows

end Store

/-! ### Behind what has been made -/

/-- From `n` on everything stands `a` places further back. -/
def behind (n a i : Nat) : Nat := if i < n then i else i + a

theorem behind_of_lt {n a i : Nat} (h : i < n) : behind n a i = i := if_pos h

theorem behind_of_ge {n a i : Nat} (h : n ≤ i) : behind n a i = i + a := if_neg (Nat.not_lt.mpr h)

theorem behind_add (n a k : Nat) : behind n a (n + k) = n + a + k := by
  rw [behind_of_ge (Nat.le_add_right n k)]
  omega

theorem injective_behind (n a : Nat) : Function.Injective (behind n a) := by
  intro i j h
  unfold behind at h
  split at h <;> split at h <;> omega

/-- What has been made since the first store stands behind what the second store has got since then. -/
def Renaming.past (s t : Store) : Renaming where
  object := behind s.objects.size (t.objects.size - s.objects.size)
  prototype := behind s.prototypes.size (t.prototypes.size - s.prototypes.size)
  routine := behind s.routines (t.routines - s.routines)

namespace Store

variable {s t : Store}

theorem keeps_past (s t : Store) : (Renaming.past s t).Keeps s :=
  ⟨fun _ hi => behind_of_lt hi, fun _ hi => behind_of_lt hi, fun _ hi => behind_of_lt hi⟩

/-- A store that has grown follows the one that it has grown from, as long as this one has the objects that
its prototypes hold. -/
theorem Grows.follows (h : s.Grows t) (hs : s.WellFormed) (hslots : s.SlotsHeld) :
    Follows (Renaming.past s t) s t := by
  have hobjects := h.continues.within.objects
  have hprototypes := h.continues.within.prototypes
  have hkeeps := keeps_past s t
  refine ⟨injective_behind _ _, fun k => ?_, fun k => ?_, fun k => ?_, fun i hi => ?_, fun i => ?_,
    injective_behind _ _, fun i => ?_, hobjects.size_le, h.arrays_eq, h.functions_eq, h.patterns_eq,
    h.instances_eq⟩
  · have hle := hobjects.size_le
    show behind _ _ _ = _
    rw [behind_add]
    omega
  · have hle := hprototypes.size_le
    show behind _ _ _ = _
    rw [behind_add]
    omega
  · have hle := h.routines_le
    show behind _ _ _ = _
    rw [behind_add]
    omega
  · show behind _ _ _ < _
    rw [behind_of_lt hi]
    exact Nat.lt_of_lt_of_le hi hobjects.size_le
  · rcases Nat.lt_or_ge i s.objects.size with hlt | hge
    · rw [hkeeps.object i hlt, hkeeps.object_eq hs]
      exact hobjects.get_eq ⟨i⟩ hlt
    · -- neither store has an object there yet
      have hle := hobjects.size_le
      obtain ⟨k, rfl⟩ := Nat.exists_eq_add_of_le hge
      have hthere : ¬ t.objects.Has ⟨(Renaming.past s t).object (s.objects.size + k)⟩ := by
        show ¬ behind _ _ _ < _
        rw [behind_add]
        omega
      have hempty : s.object ⟨s.objects.size + k⟩ = [] :=
        Pool.get_of_not_has (Nat.not_lt.mpr (Nat.le_add_right _ _))
      rw [hempty]
      exact Pool.get_of_not_has hthere
  · rcases Nat.lt_or_ge i s.prototypes.size with hlt | hge
    · rw [hkeeps.prototype i hlt, hkeeps.slotsOf_eq hslots]
      exact hprototypes.get_eq ⟨i⟩ hlt
    · have hle := hprototypes.size_le
      obtain ⟨k, rfl⟩ := Nat.exists_eq_add_of_le hge
      have hthere : ¬ t.prototypes.Has ⟨(Renaming.past s t).prototype (s.prototypes.size + k)⟩ := by
        show ¬ behind _ _ _ < _
        rw [behind_add]
        omega
      have hempty : s.prototype ⟨s.prototypes.size + k⟩ = default :=
        Pool.get_of_not_has (Nat.not_lt.mpr (Nat.le_add_right _ _))
      rw [hempty]
      exact Pool.get_of_not_has hthere

end Store

end ClassComposition
