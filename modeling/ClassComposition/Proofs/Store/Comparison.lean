import ClassComposition.Proofs.Store.Equality

/-!
# The comparison of values

The comparison is symmetric and transitive on values without cycles, and it is blind to the order of
keys.  It is not reflexive, because a NaN equals nothing; but a container is compared with itself by its
handle, so that a NaN is met only where the walk is not cut short: as the value itself, or below the
objects that a copy has made anew.

## Main definitions

* `Store.Reordered` — the same objects with their keys in another order.
* `Store.NaNFree` — no NaN is reached through properties.

## Main results

* `Store.Reordered.structuralEq_eq` — the order of keys makes no difference.
* `Store.structuralEq_deepCopy_iff` — which values equal their copy.
* `Store.structuralEq_partial_equivalence` — the laws of the comparison.
-/

namespace ClassComposition

/-- What holds of every cell, and of what a handle that is not good refers to, holds wherever a handle
points. -/
theorem Pool.forall_get {kind : CellKind} {α : Type} [Inhabited α] (p : Pool kind α)
    {P : Handle kind → α → Prop} (hdefault : ∀ h, P h default)
    (hcells : ∀ i < p.size, P ⟨i⟩ (p.get ⟨i⟩)) (h : Handle kind) : P h (p.get h) := by
  by_cases hgood : p.Has h
  · exact hcells h.index hgood
  · rw [Pool.get_of_not_has hgood]
    exact hdefault h

namespace Store

instance (s : Store) : DecidablePred s.Has
  | .function f => inferInstanceAs (Decidable (s.functions.Has f))
  | .pattern p => inferInstanceAs (Decidable (s.patterns.Has p))
  | .object o => inferInstanceAs (Decidable (s.objects.Has o))
  | .array a => inferInstanceAs (Decidable (s.arrays.Has a))
  | .inst i => inferInstanceAs (Decidable (s.instances.Has i))
  | .undefined | .null | .boolean _ | .number _ | .text _ | .big _ => .isTrue trivial

variable {s t : Store} {u v w x : Value}

/-! ### The order of keys -/

/-- The second store has the objects of the first with their keys in another order. -/
structure Reordered (s t : Store) : Prop where
  size_objects : t.objects.size = s.objects.size
  perm_object : ∀ o, (t.object o).Perm (s.object o)
  arrays_eq : t.arrays = s.arrays

namespace Reordered

theorem mem_keys_iff (h : s.Reordered t) (o : Handle .object) (key : String) :
    key ∈ Assoc.keys (t.object o) ↔ key ∈ Assoc.keys (s.object o) :=
  ((h.perm_object o).map Prod.fst).mem_iff

theorem nodup_keys (h : s.Reordered t) (hkeys : ∀ o, (Assoc.keys (s.object o)).Nodup)
    (o : Handle .object) : (Assoc.keys (t.object o)).Nodup :=
  ((h.perm_object o).map Prod.fst).nodup_iff.mpr (hkeys o)

theorem symm (h : s.Reordered t) : t.Reordered s :=
  ⟨h.size_objects.symm, fun o => (h.perm_object o).symm, h.arrays_eq.symm⟩

theorem get?_eq (h : s.Reordered t) (hkeys : ∀ o, (Assoc.keys (s.object o)).Nodup)
    (o : Handle .object) (key : String) :
    Assoc.get? (t.object o) key = Assoc.get? (s.object o) key := by
  rcases hfound : Assoc.get? (s.object o) key with _ | v
  · rw [Assoc.get?_eq_none_iff] at hfound ⊢
    exact fun hmem => hfound ((h.mem_keys_iff o key).mp hmem)
  · exact Assoc.get?_of_mem (h.nodup_keys hkeys o)
      ((h.perm_object o).mem_iff.mpr (Assoc.mem_of_get? hfound))

theorem reach?_eq (h : s.Reordered t) (hkeys : ∀ o, (Assoc.keys (s.object o)).Nodup) (v : Value)
    (steps : List Step) : t.reach? v steps = s.reach? v steps := by
  induction steps generalizing v with
  | nil => rfl
  | cons step rest ih =>
    cases step with
    | property key =>
      -- properties are looked up by name, whatever their order
      have hproperty : t.property? v key = s.property? v key := by
        cases v with
        | object o => exact h.get?_eq hkeys o key
        | _ => rfl
      rw [reach?, reach?, hproperty]
      exact congrArg _ (funext ih)
    | element index =>
      have helement : t.element? v index = s.element? v index := by
        cases v with
        | array a => exact congrArg (fun arrays => (Pool.get arrays a)[index]?) h.arrays_eq
        | _ => rfl
      rw [reach?, reach?, helement]
      exact congrArg _ (funext ih)

/-- Equal values stay equal, for only look-ups are compared. -/
theorem equal (h : s.Reordered t) (hkeys : ∀ o, (Assoc.keys (s.object o)).Nodup)
    (hequal : s.Equal v w) : t.Equal v w := by
  induction hequal with
  | same hsame => exact .same hsame
  | @object a b hmem _ ih =>
    refine .object (fun key => ?_) fun key v w hv hw => ?_
    · rw [h.mem_keys_iff, h.mem_keys_iff]
      exact hmem key
    · rw [h.get?_eq hkeys] at hv hw
      exact ih key v w hv hw
  | @array a b hlength _ ih =>
    have harray : ∀ a, t.array a = s.array a := fun a => congrArg (Pool.get · a) h.arrays_eq
    refine .array (by rw [harray, harray, hlength]) fun index v w hv hw => ?_
    rw [harray] at hv hw
    exact ih index v w hv hw

theorem equal_iff (h : s.Reordered t) (hkeys : ∀ o, (Assoc.keys (s.object o)).Nodup) :
    t.Equal v w ↔ s.Equal v w := ⟨h.symm.equal (h.nodup_keys hkeys), h.equal hkeys⟩

/-- The order of keys makes no difference to the comparison. -/
theorem structuralEq_eq (h : s.Reordered t) (hs : s.WellFormed) (hv : s.Has v)
    (hloop : s.Loopless v) : t.structuralEq v w = s.structuralEq v w := by
  have hnesting : t.nesting = s.nesting := by
    unfold nesting
    rw [h.size_objects, h.arrays_eq]
  have hreordered : t.structuralEq v w = true ↔ t.Equal v w := by
    refine structuralEq_iff_of_depth (h.nodup_keys hs.nodup_keys) fun steps x hx => ?_
    rw [h.reach?_eq hs.nodup_keys] at hx
    rw [hnesting]
    exact hloop.length_lt hs hv hx
  rw [Bool.eq_iff_iff, hreordered, h.equal_iff hs.nodup_keys, structuralEq_iff_equal hs hv hloop]

end Reordered

/-! ### Copies -/

/-- No NaN is reached from the value through properties. -/
def NaNFree (s : Store) (v : Value) : Prop := ∀ keys x, s.propertyAt? v keys = some x → ¬ x.IsNaN

/-- A NaN equals nothing. -/
theorem Equal.not_isNaN (h : s.Equal v w) : ¬ v.IsNaN := by
  cases h with
  | same h => exact (Value.same_self_iff v).mp (Value.same_trans h (Value.same_symm h))
  | object => rintro ⟨x, hx, -⟩; cases hx
  | array => rintro ⟨x, hx, -⟩; cases hx

section Copies

variable {among others : Handle .object → Prop}

mutual

/-- Values that show the same are equal, as long as they show no NaN. -/
theorem Shows.equal (hkeys : ∀ o, (Assoc.keys (s.object o)).Nodup) {v w : Value} {c : Contents Value}
    (hfree : s.NaNFree v) : s.Shows among id v c → s.Shows others id w c → s.Equal v w
  | .leaf hleaf, hw => by
    cases hw with
    | leaf _ => exact .same ((Value.same_self_iff _).mpr (hfree [] _ rfl))
  | @Shows.object _ _ _ _ a properties _ below, hw => by
    cases hw with
    | @object b _ _ below' =>
      have hbelow : ∀ p ∈ s.object a, s.NaNFree p.2 := by
        intro p hp keys x hx
        refine hfree (p.1 :: keys) x ?_
        have hproperty : s.property? (.object a) p.1 = some p.2 := Assoc.get?_of_mem (hkeys a) hp
        rw [propertyAt?_cons, hproperty]
        exact hx
      have hsame : Assoc.keys (s.object a) = Assoc.keys (s.object b) :=
        below.keys_eq.symm.trans below'.keys_eq
      exact .object (fun key => by rw [hsame]) (below.equal hkeys hbelow below')

theorem ShowsAll.equal (hkeys : ∀ o, (Assoc.keys (s.object o)).Nodup)
    {entries entries' : Assoc String Value} {properties : List (String × Contents Value)}
    (hfree : ∀ p ∈ entries, s.NaNFree p.2) :
    s.ShowsAll among id entries properties → s.ShowsAll others id entries' properties →
      ∀ key v w, Assoc.get? entries key = some v → Assoc.get? entries' key = some w → s.Equal v w
  | .nil, _ => fun _ _ _ hv _ => by cases hv
  | .cons first below, hothers => by
    cases hothers with
    | cons first' below' =>
      intro key v w hv hw
      obtain ⟨hhead, hrest⟩ := List.forall_mem_cons.mp hfree
      rw [Assoc.get?] at hv hw
      split at hv
      · rename_i hkey
        rw [if_pos hkey] at hw
        cases hv
        cases hw
        exact first.equal hkeys hhead first'
      · rename_i hkey
        rw [if_neg hkey] at hw
        exact below.equal hkeys hrest below' key v w hv hw

end

theorem SpansAll.exists_of_mem {entries : Assoc String Value} {os : List (Handle .object)}
    (h : s.SpansAll entries os) {p : String × Value} (hp : p ∈ entries) :
    ∃ own, own ⊆ os ∧ s.Spans p.2 own := by
  induction entries generalizing os with
  | nil => cases hp
  | cons q rest ih =>
    obtain ⟨first, later, rfl, hfirst, hlater⟩ := h.exists_first
    rcases List.mem_cons.mp hp with rfl | hmem
    · exact ⟨first, List.subset_append_left _ _, hfirst⟩
    · obtain ⟨own, hown, hspans⟩ := ih hlater hmem
      exact ⟨own, fun o ho => List.mem_append_right _ (hown ho), hspans⟩

/-- A value that was there, compared with one whose objects are all new, is compared down to the end of
each way through properties. -/
theorem Equal.exists_of_propertyAt? {os : List (Handle .object)} (hs : s.WellFormed)
    (hst : s.Within t) (h : t.Equal v w) (hv : s.Has v) (hw : t.Spans w os)
    (hnew : ∀ o ∈ os, ¬ s.objects.Has o) {keys : List String} (hx : t.propertyAt? v keys = some x) :
    ∃ y, t.Equal x y := by
  induction keys generalizing v w os with
  | nil =>
    cases hx
    exact ⟨w, h⟩
  | cons key rest ih =>
    cases h with
    | same h =>
      cases v with
      | object a =>
        -- an object that was there is none of the new ones
        rw [Value.eq_of_same (by simp [Value.kind]) h] at hw
        obtain ⟨below, rfl, -⟩ := hw.exists_below
        exact absurd hv (hnew a List.mem_cons_self)
      | _ => cases hx
    | @object a b hmem hbelow =>
      obtain ⟨v', hv', hx⟩ := exists_property_of_propertyAt? hx
      obtain ⟨below, rfl, hspans⟩ := hw.exists_below
      obtain ⟨w', hw'⟩ := (Assoc.mem_keys_iff _ key).mp
        ((hmem key).mp ((Assoc.mem_keys_iff _ key).mpr ⟨v', hv'⟩))
      obtain ⟨own, hown, hspans'⟩ := hspans.exists_of_mem (Assoc.mem_of_get? hw')
      have hhas : s.Has v' := by
        rw [hst.object_eq hv] at hv'
        exact hs.has_property a _ (Assoc.mem_of_get? hv')
      exact ih (hbelow key v' w' hv' hw') hhas hspans'
        (fun o ho => hnew o (List.mem_cons_of_mem _ (hown ho))) hx
    | array => cases hx

/-- A value equals its copy exactly when no NaN is reached through properties: what is kept in the copy
is compared by its handle. -/
theorem structuralEq_deepCopy_iff (hs : s.WellFormed) (hv : s.Has v) (hloop : s.Loopless v) :
    (s.deepCopy v).2.structuralEq v (s.deepCopy v).1 = true ↔ s.NaNFree v := by
  have hgrown : s.Continues (s.deepCopy v).2 := (continues_deepCopyAt hs hv).1
  have hst : s.Within (s.deepCopy v).2 := hgrown.within
  -- the copy leaves the original where it was, so both sides of the comparison can be read
  have hsame : ∀ keys, (s.deepCopy v).2.propertyAt? v keys = s.propertyAt? v keys :=
    fun keys => hst.reach?_eq hs hv _
  rw [structuralEq_iff_equal hgrown.wellFormed (hst.has hv) (hloop.within hs hv hst)]
  constructor
  · intro hequal keys x hx
    have hshallow := (hloop.acyclic hs).shallow hs hv
    obtain ⟨os, hspans, hfresh⟩ := fresh_deepCopy hs hv hshallow (.refl s)
    rw [← hsame] at hx
    -- new objects cannot equal old ones by identity, so every leaf below was compared
    obtain ⟨y, hy⟩ := hequal.exists_of_propertyAt? hs hst hv hspans hfresh.isNew hx
    exact hy.not_isNaN
  · intro hfree
    obtain ⟨c, hc, -⟩ := (hloop.acyclic hs).exists_shows hs hv id
    have hcopy : (s.deepCopy v).2.Shows _ id (s.deepCopy v).1 c := shows_deepCopyAt hs hv hc
    refine (hc.within hst).equal hgrown.wellFormed.nodup_keys (fun keys x hx => ?_) hcopy
    rw [hsame] at hx
    exact hfree keys x hx

end Copies

/-! ### The comparison as an equivalence -/

/-- A value is found equal to itself unless it is a NaN. -/
theorem structuralEq_self_iff (hs : s.WellFormed) (hv : s.Has v) (hloop : s.Loopless v) :
    s.structuralEq v v = true ↔ ¬ v.IsNaN := by
  refine ⟨fun h => ?_, fun h => structuralEqAt_of_same ((Value.same_self_iff v).mpr h) _⟩
  exact ((structuralEq_iff_equal hs hv hloop).mp h).not_isNaN

/-- On values without cycles the comparison is symmetric and transitive, it holds where values are the
same, between a value and itself unless it is a NaN, and between a value and its copy unless a NaN is
reached through properties, and it is blind to the order of keys. -/
theorem structuralEq_partial_equivalence (hs : s.WellFormed) (hu : s.Has u ∧ s.Loopless u)
    (hv : s.Has v ∧ s.Loopless v) (hw : s.Has w ∧ s.Loopless w) :
    s.structuralEq v w = s.structuralEq w v ∧
      (s.structuralEq u v = true → s.structuralEq v w = true → s.structuralEq u w = true) ∧
      (v.same w = true → s.structuralEq v w = true) ∧
      (s.structuralEq v v = true ↔ ¬ v.IsNaN) ∧
      ((s.deepCopy v).2.structuralEq v (s.deepCopy v).1 = true ↔ s.NaNFree v) ∧
      ∀ t, s.Reordered t → t.structuralEq v w = s.structuralEq v w := by
  refine ⟨?_, fun huv hvw => ?_, fun h => structuralEqAt_of_same h _,
    structuralEq_self_iff hs hv.1 hv.2, structuralEq_deepCopy_iff hs hv.1 hv.2,
    fun t h => h.structuralEq_eq hs hv.1 hv.2⟩
  · rw [Bool.eq_iff_iff, structuralEq_iff_equal hs hv.1 hv.2, structuralEq_iff_equal hs hw.1 hw.2]
    exact ⟨.symm, .symm⟩
  · rw [structuralEq_iff_equal hs hu.1 hu.2] at huv ⊢
    rw [structuralEq_iff_equal hs hv.1 hv.2] at hvw
    exact huv.trans hvw

end Store

/-! ### A comparison with shared parts

The objects to be compared hold the same parts in different orders, some of them through one handle on
both sides and some through two, down to an object in an array. -/

namespace Sample

/-- Two flags, two lists of a text and a flag, two objects that hold a list and a zero, and three objects
that hold these on the left and on the right. -/
def shapes : Store := { Store.empty with
  objects := ⟨#[[("flag", .boolean true)], [("flag", .boolean true)],
    [("list", .array ⟨0⟩), ("size", .number ⟨0⟩)],
    [("size", .number ⟨0x8000000000000000⟩), ("list", .array ⟨1⟩)],
    [("left", .object ⟨2⟩), ("right", .object ⟨2⟩)],
    [("right", .object ⟨3⟩), ("left", .object ⟨2⟩)],
    [("right", .object ⟨3⟩), ("left", .object ⟨3⟩)]]⟩
  arrays := ⟨#[[.text "t", .object ⟨0⟩], [.text "t", .object ⟨1⟩]]⟩ }

/-- The same with the keys of two objects in another order. -/
def rearranged : Store := { shapes with
  objects := (shapes.objects.set ⟨2⟩ [("size", .number ⟨0⟩), ("list", .array ⟨0⟩)]).set ⟨5⟩
    [("left", .object ⟨2⟩), ("right", .object ⟨3⟩)] }

/-- How deep the values are nested. -/
def rank : Value → Nat
  | .object o => if o.index < 2 then 1 else if o.index < 4 then 3 else 4
  | .array _ => 2
  | _ => 0

theorem shapes_wellFormed : shapes.WellFormed where
  has_property := Pool.forall_get shapes.objects (P := fun _ entries => ∀ p ∈ entries, shapes.Has p.2)
    (fun _ _ hp => by cases hp) (by decide)
  has_element := Pool.forall_get shapes.arrays (P := fun _ items => ∀ v ∈ items, shapes.Has v)
    (fun _ _ hv => by cases hv) (by decide)
  nodup_keys := Pool.forall_get shapes.objects (P := fun _ entries => (Assoc.keys entries).Nodup)
    (fun _ => List.nodup_nil) (by decide)

theorem shapes_loopless (v : Value) : shapes.Loopless v := by
  refine Store.loopless_of_rank rank ?_ ?_ v
  · exact Pool.forall_get shapes.objects
      (P := fun o entries => ∀ p ∈ entries, rank p.2 < rank (.object o))
      (fun _ _ hp => by cases hp) (by decide)
  · exact Pool.forall_get shapes.arrays (P := fun a items => ∀ v ∈ items, rank v < rank (.array a))
      (fun _ _ hv => by cases hv) (by decide)

theorem shapes_reordered : shapes.Reordered rearranged where
  size_objects := rfl
  arrays_eq := rfl
  perm_object := by
    intro o
    by_cases hlist : o = ⟨2⟩
    · subst hlist
      exact List.Perm.swap _ _ _
    by_cases hsides : o = ⟨5⟩
    · subst hsides
      exact List.Perm.swap _ _ _
    have hsame : rearranged.object o = shapes.object o :=
      (Pool.get_set_of_ne _ _ (Ne.symm hsides)).trans (Pool.get_set_of_ne _ _ (Ne.symm hlist))
    rw [hsame]

end Sample

namespace Store

/-- Equal parts are found through both lists and both zeros, in a copy as well, and in another order. -/
theorem structuralEq_partial_equivalence_shapes :
    Sample.shapes.structuralEq (.object ⟨4⟩) (.object ⟨6⟩) = true ∧
      Sample.shapes.structuralEq (.object ⟨6⟩) (.object ⟨5⟩) = true ∧
      Sample.rearranged.structuralEq (.object ⟨5⟩) (.object ⟨6⟩) = true ∧
      Sample.shapes.NaNFree (.object ⟨5⟩) := by
  have hlaws := structuralEq_partial_equivalence Sample.shapes_wellFormed
    (u := .object ⟨4⟩) (v := .object ⟨5⟩) (w := .object ⟨6⟩)
    ⟨by decide, Sample.shapes_loopless _⟩ ⟨by decide, Sample.shapes_loopless _⟩
    ⟨by decide, Sample.shapes_loopless _⟩
  obtain ⟨hsymm, htrans, -, -, hcopy, horder⟩ := hlaws
  have hequal : Sample.shapes.structuralEq (.object ⟨5⟩) (.object ⟨6⟩) = true := by decide
  refine ⟨htrans (by decide) hequal, hsymm.symm.trans hequal, ?_, hcopy.mp (by decide)⟩
  exact (horder _ Sample.shapes_reordered).trans hequal

end Store

end ClassComposition
