import ClassComposition.Proofs.Class.Overlay
import ClassComposition.Proofs.Class.Shared
import ClassComposition.Proofs.Method.Quiet

/-!
# Where shared members come from

A class has the shared members of its parent, in their order, and behind them those it declares itself.
What a shared member of the parent becomes depends on what the body has under its name: the parent's very
object or array if it has nothing, its own array if it has an array, and a new object if it has an object.

## Main definitions

* `HandedDown` — what a shared member of the parent becomes.

## Main results

* `SharedMembers.handedDown_of_inherit` — the shared members that a class starts from.
* `SharedMembers.keys_of_declare`, `SharedMembers.get?_of_declare` — those that it declares are added.
* `ClassDefinition.Composition.shared_keys`, `ClassDefinition.Composition.shared_handedDown` — both
  together.
* `Compiled.nodup_shared` — no name is shared twice.
-/

namespace ClassComposition

/-! ### Sizes -/

namespace Store

variable {s : Store}

/-- Where every value that is copied adds containers only, so do several one after the other. -/
theorem addsContainers_mapEntries {step : Value → Store → Value × Store}
    (hstep : ∀ (v : Value) (s : Store), s.AddsContainers (step v s).2) (entries : Assoc String Value)
    (s : Store) : s.AddsContainers (mapEntries step entries s).2 := by
  induction entries generalizing s with
  | nil => exact .refl s
  | cons p rest ih => exact (hstep p.2 s).trans (ih (step p.2 s).2)

theorem addsContainers_deepCopyAt (fuel : Nat) (v : Value) (s : Store) :
    s.AddsContainers (deepCopyAt fuel v s).2 := by
  induction fuel generalizing v s with
  | zero => cases v <;> exact .refl s
  | succ fuel ih =>
    cases v with
    | object o =>
      have hmapped := addsContainers_mapEntries ih (s.object o) s
      rw [deepCopyAt]
      exact hmapped.trans (addsContainers_newObject _ _)
    | _ => exact .refl s

/-- The copy of an object is an object that has been made last. -/
theorem exists_deepCopy_object (s : Store) (o : Handle .object) :
    ∃ copy, (s.deepCopy (.object o)).1 = .object copy ∧
      s.IsNew (s.deepCopy (.object o)).2 (.object copy) := by
  have hmapped := addsContainers_mapEntries
    (addsContainers_deepCopyAt (s.objects.size + s.arrays.size)) (s.object o) s
  have hcopy := isNew_newObject
    (mapEntries (deepCopyAt (s.objects.size + s.arrays.size)) (s.object o) s).2
    (mapEntries (deepCopyAt (s.objects.size + s.arrays.size)) (s.object o) s).1
  exact ⟨_, rfl, hcopy.mono hmapped.within (.refl _)⟩

theorem size_setProperty (s : Store) (target : Value) (key : String) (value : Value) :
    (s.setProperty target key value).objects.size = s.objects.size := by
  cases target with
  | object o => exact Pool.size_set s.objects o _
  | _ => rfl

end Store

/-- An overlay makes no objects. -/
theorem size_overlayAt (fuel : Nat) (target source : Value) (s : Store) :
    (overlayAt fuel target source s).objects.size = s.objects.size := by
  induction fuel generalizing target source s with
  | zero => rfl
  | succ fuel ih =>
    rw [overlayAt_succ]
    generalize s.entries source = entries
    induction entries generalizing s with
    | nil => rfl
    | cons p rest ihrest =>
      obtain ⟨key, v⟩ := p
      rw [List.foldl_cons, ihrest]
      rcases overlayEntry_cases fuel target s key v with
        ⟨below, above, -, -, hentry⟩ | ⟨-, hentry⟩
      · rw [hentry, ih]
      · rw [hentry, Store.size_setProperty]

/-! ### From the parent -/

/-- What a shared member of the parent becomes, given what the body has under its name: it stays, it gives
way to the body's array, or to an object that is made between the two stores. -/
inductive HandedDown (s u : Store) : Value → Option Value → Value → Prop
  | same (inherited : Value) : HandedDown s u inherited none inherited
  | array (a b : Handle .array) : HandedDown s u (.array a) (some (.array b)) (.array b)
  | object (o p : Handle .object) {made : Handle .object} (isNew : ¬ s.objects.Has made)
      (has : u.objects.Has made) : HandedDown s u (.object o) (some (.object p)) (.object made)

/-- A shared member stays an object or an array, and the body has one of its kind or none. -/
theorem HandedDown.kind_eq {s u : Store} {inherited v : Value} {declared? : Option Value}
    (h : HandedDown s u inherited declared? v) :
    v.kind = inherited.kind ∧ ∀ d, declared? = some d → d.kind = inherited.kind := by
  cases h with
  | same => simp
  | array a b => simp [Value.kind]
  | object o p => simp [Value.kind]

/-- An object that is new stays so seen from an earlier store and a later one. -/
theorem HandedDown.mono {s s₁ u u₁ : Store} {inherited v : Value} {declared? : Option Value}
    (hs : s.objects.size ≤ s₁.objects.size) (hu : u₁.objects.size ≤ u.objects.size)
    (h : HandedDown s₁ u₁ inherited declared? v) : HandedDown s u inherited declared? v := by
  cases h with
  | same => exact .same _
  | array a b => exact .array a b
  | object o p isNew has =>
    exact .object o p (fun hold => isNew (Nat.lt_of_lt_of_le hold hs)) (Nat.lt_of_lt_of_le has hu)

namespace SharedMembers

variable {path : String} {b : ClassBody} {w w' : World}

/-- A redeclared object is a copy of the parent's with the body's laid over it. -/
theorem run_inheritOne_object (name : String) (o o' : Handle .object) (w : World) :
    (inheritOne path name (.object o) (some (.object o'))).run w =
      (.ok (w.store.deepCopy (.object o)).1, { w with
        store := overlay (w.store.deepCopy (.object o)).1 (.object o')
          (w.store.deepCopy (.object o)).2 }) := rfl

theorem handedDown_of_inheritOne {name : String} {inherited v : Value} {declared? : Option Value}
    (h : (inheritOne path name inherited declared?).run w = (.ok v, w')) :
    HandedDown w.store w'.store inherited declared? v ∧
      w.store.objects.size ≤ w'.store.objects.size := by
  cases declared? with
  | none =>
    cases h
    exact ⟨.same _, Nat.le_refl _⟩
  | some declared =>
    cases inherited with
    | array a =>
      cases declared with
      | array a' =>
        cases h
        exact ⟨.array a a', Nat.le_refl _⟩
      | _ => cases h
    | object o =>
      cases declared with
      | object o' =>
        -- the copy is laid over, which makes no further object
        obtain ⟨copy, hcopy, hnew⟩ := w.store.exists_deepCopy_object o
        have hgrown := (Store.addsContainers_deepCopyAt w.store.nesting (.object o) w.store).objects
        rw [run_inheritOne_object, hcopy, Prod.mk.injEq, Except.ok.injEq] at h
        obtain ⟨rfl, rfl⟩ := h
        have hsize := size_overlayAt (w.store.deepCopy (.object o)).2.nesting (.object copy)
          (.object o') (w.store.deepCopy (.object o)).2
        refine ⟨.object o o' hnew.1 (Nat.lt_of_lt_of_eq hnew.2 hsize.symm), ?_⟩
        exact Nat.le_trans hgrown.size_le (Nat.le_of_eq hsize.symm)
      | _ => cases h
    | _ => cases declared <;> cases h

/-- What a class starts from: the parent's shared members in their order, each as it is handed down. -/
theorem handedDown_of_inherit {parent shared : SharedMembers}
    (h : (inherit path b parent).run w = (.ok shared, w')) :
    List.Forall₂ (fun p q => q.1 = p.1 ∧ HandedDown w.store w'.store p.2 (b.get? p.1) q.2)
        parent shared ∧
      w.store.objects.size ≤ w'.store.objects.size := by
  induction parent generalizing shared w with
  | nil =>
    cases h
    exact ⟨.nil, Nat.le_refl _⟩
  | cons q rest ih =>
    obtain ⟨name, inherited⟩ := q
    rw [inherit, Action.run_bind_eq_ok] at h
    obtain ⟨v, w₁, hone, h⟩ := h
    rw [Action.run_bind_eq_ok] at h
    obtain ⟨_, w₂, hrecord, h⟩ := h
    rw [Action.run_record] at hrecord
    cases hrecord
    rw [Action.run_bind_eq_ok] at h
    obtain ⟨others, w₃, hothers, h⟩ := h
    cases h
    -- what was made for the first member stays new while the others are handed down
    obtain ⟨hfirst, hle⟩ := handedDown_of_inheritOne hone
    obtain ⟨hall, hlater⟩ := ih hothers
    refine ⟨.cons ⟨rfl, hfirst.mono (Nat.le_refl _) hlater⟩ (hall.imp ?_), Nat.le_trans hle hlater⟩
    rintro p q ⟨hname, hdown⟩
    exact ⟨hname, hdown.mono hle (Nat.le_refl _)⟩

/-! ### From the class itself -/

variable {parentSkeleton? : Option Skeleton} {shared result : SharedMembers} {names : List String}

theorem notMem_of_declarable {name : String} {v : Value}
    (h : declarable path b parentSkeleton? shared name = .ok v) : name ∉ Assoc.keys shared :=
  (declarable_eq_ok h).2.notShared

theorem get?_of_declarable {name : String} {v : Value}
    (h : declarable path b parentSkeleton? shared name = .ok v) : b.get? name = some v :=
  (declarable_eq_ok h).1

/-- The names that are declared are added behind those that are there. -/
theorem keys_of_declare (h : declare path b parentSkeleton? shared names = (result, .ok ())) :
    Assoc.keys result = Assoc.keys shared ++ names := by
  induction names generalizing shared with
  | nil =>
    cases h
    simp
  | cons name rest ih =>
    rw [declare] at h
    rcases hname : declarable path b parentSkeleton? shared name with e | v
    · rw [hname] at h
      cases h
    · rw [hname] at h
      have hnew := notMem_of_declarable hname
      rw [ih h, Assoc.insert_of_notMem hnew]
      simp [Assoc.keys]

theorem nodup_of_declare (h : declare path b parentSkeleton? shared names = (result, .ok ()))
    (hshared : (Assoc.keys shared).Nodup) : (Assoc.keys result).Nodup := by
  induction names generalizing shared with
  | nil =>
    cases h
    exact hshared
  | cons name rest ih =>
    rw [declare] at h
    rcases hname : declarable path b parentSkeleton? shared name with e | v
    · rw [hname] at h
      cases h
    · rw [hname] at h
      exact ih h (Assoc.nodup_keys_insert hshared name v)

theorem get?_of_declare (h : declare path b parentSkeleton? shared names = (result, .ok ()))
    {name : String} {v : Value} (hv : Assoc.get? shared name = some v) :
    Assoc.get? result name = some v := by
  induction names generalizing shared with
  | nil =>
    cases h
    exact hv
  | cons added rest ih =>
    rw [declare] at h
    rcases hadded : declarable path b parentSkeleton? shared added with e | x
    · rw [hadded] at h
      cases h
    · rw [hadded] at h
      refine ih h ?_
      have hne : added ≠ name := by
        rintro rfl
        exact notMem_of_declarable hadded (Assoc.mem_keys_of_mem (Assoc.mem_of_get? hv))
      rw [Assoc.get?_insert_of_ne _ _ hne, hv]

/-- What is there afterwards was there before, or is an entry of the body. -/
theorem mem_of_declare (h : declare path b parentSkeleton? shared names = (result, .ok ()))
    {p : String × Value} (hp : p ∈ result) : p ∈ shared ∨ b.get? p.1 = some p.2 := by
  induction names generalizing shared with
  | nil =>
    cases h
    exact .inl hp
  | cons name rest ih =>
    rw [declare] at h
    rcases hname : declarable path b parentSkeleton? shared name with e | v
    · rw [hname] at h
      cases h
    · rw [hname] at h
      rcases ih h with hbefore | hbody
      · rw [Assoc.insert_of_notMem (notMem_of_declarable hname), List.mem_append, List.mem_singleton]
          at hbefore
        refine hbefore.imp_right ?_
        rintro rfl
        exact get?_of_declarable hname
      · exact .inr hbody

/-- Each handed-down member comes from one of the parent's. -/
theorem exists_of_handedDown {s u : Store} {parent : SharedMembers}
    (h : List.Forall₂ (fun p q => q.1 = p.1 ∧ HandedDown s u p.2 (b.get? p.1) q.2) parent shared)
    {q : String × Value} (hq : q ∈ shared) :
    ∃ p ∈ parent, HandedDown s u p.2 (b.get? p.1) q.2 := by
  induction h with
  | nil => cases hq
  | @cons p first rest others hfirst _ ih =>
    rcases List.mem_cons.mp hq with rfl | hq
    · exact ⟨p, List.mem_cons_self, hfirst.2⟩
    · obtain ⟨p, hp, hdown⟩ := ih hq
      exact ⟨p, List.mem_cons_of_mem _ hp, hdown⟩

/-- Handed-down members have the names of the parent's, and each is found under its name. -/
theorem keys_of_handedDown {s u : Store} {parent : SharedMembers}
    (h : List.Forall₂ (fun p q => q.1 = p.1 ∧ HandedDown s u p.2 (b.get? p.1) q.2) parent shared) :
    Assoc.keys shared = Assoc.keys parent := by
  induction h with
  | nil => rfl
  | cons first others ih =>
    have hkeys : ∀ {p : String × Value} {rest : SharedMembers},
        Assoc.keys (p :: rest) = p.1 :: Assoc.keys rest := rfl
    rw [hkeys, hkeys, ih, first.1]

theorem get?_of_handedDown {s u : Store} {parent : SharedMembers}
    (h : List.Forall₂ (fun p q => q.1 = p.1 ∧ HandedDown s u p.2 (b.get? p.1) q.2) parent shared)
    {name : String} {inherited : Value} (hget : Assoc.get? parent name = some inherited) :
    ∃ v, Assoc.get? shared name = some v ∧ HandedDown s u inherited (b.get? name) v := by
  induction h with
  | nil => cases hget
  | @cons p q rest others first below ih =>
    obtain ⟨key, x⟩ := p
    obtain ⟨key', y⟩ := q
    obtain ⟨hname, hdown⟩ := first
    obtain rfl : key' = key := hname
    by_cases hkey : key' = name
    · subst hkey
      rw [Assoc.get?, if_pos rfl] at hget ⊢
      cases hget
      exact ⟨y, rfl, hdown⟩
    · rw [Assoc.get?, if_neg hkey] at hget ⊢
      exact ih hget

end SharedMembers

/-! ### Compiled classes -/

namespace ClassDefinition

variable {config : Config} {classes : Assoc String ClassDefinition} {path : String}
  {body : ClassBody} {w w' : World}

/-- Composing shared members hands those of the parent down and then adds the names declared. -/
theorem exists_inherited_of_composeShared {parent? : Option ClassDefinition} {names : List String}
    {shared : SharedMembers} (h : (composeShared path body parent? names).run w = (.ok shared, w')) :
    ∃ inherited, List.Forall₂
        (fun p q => q.1 = p.1 ∧ HandedDown w.store w'.store p.2 (body.get? p.1) q.2)
        ((parent?.map ClassDefinition.shared).getD []) inherited ∧
      SharedMembers.declare path body (parent?.map ClassDefinition.skeleton) inherited names
        = (shared, .ok ()) := by
  rw [composeShared_eq, Action.run_bind_eq_ok] at h
  obtain ⟨inherited, w₁, hdown, h⟩ := h
  obtain ⟨hdeclared, rfl⟩ := run_declareOver h
  refine ⟨inherited, ?_, hdeclared⟩
  cases parent? with
  | none =>
    cases hdown
    exact .nil
  | some parent => exact (SharedMembers.handedDown_of_inherit hdown).1

namespace Composition

/-- The shared names of a class are its parent's and then those it declares. -/
theorem shared_keys (k : Composition config classes path body w) :
    Assoc.keys k.shared =
      Assoc.keys ((k.parent?.map ClassDefinition.shared).getD []) ++ k.directives.shared := by
  obtain ⟨inherited, hdown, hdeclare⟩ := exists_inherited_of_composeShared k.shared_composed
  rw [SharedMembers.keys_of_declare hdeclare, SharedMembers.keys_of_handedDown hdown]

theorem shared_handedDown (k : Composition config classes path body w) {parent : ClassDefinition}
    (hparent : k.parent? = some parent) {name : String} {inherited : Value}
    (hget : Assoc.get? parent.shared name = some inherited) :
    ∃ v, Assoc.get? k.shared name = some v ∧
      HandedDown w.store k.world.store inherited (body.get? name) v := by
  obtain ⟨members, hdown, hdeclare⟩ := exists_inherited_of_composeShared k.shared_composed
  rw [hparent] at hdown
  obtain ⟨v, hv, hdown⟩ := SharedMembers.get?_of_handedDown hdown hget
  exact ⟨v, SharedMembers.get?_of_declare hdeclare hv, hdown⟩

/-- No name is shared twice in a class when none is in its parent. -/
theorem nodup_shared (k : Composition config classes path body w)
    (hclasses : ∀ p c, Assoc.get? classes p = some c → (Assoc.keys c.shared).Nodup) :
    (Assoc.keys k.shared).Nodup := by
  obtain ⟨inherited, hdown, hdeclare⟩ := exists_inherited_of_composeShared k.shared_composed
  refine SharedMembers.nodup_of_declare hdeclare ?_
  rw [SharedMembers.keys_of_handedDown hdown]
  rcases hparent : k.parent? with _ | parent
  · exact List.nodup_nil
  · exact k.holds_of_parent hclasses hparent

end Composition

end ClassDefinition

theorem Compiled.nodup_shared {config : Config} {classes : Assoc String ClassDefinition}
    (h : Compiled config classes) {p : String} {c : ClassDefinition}
    (hc : Assoc.get? classes p = some c) : (Assoc.keys c.shared).Nodup :=
  h.holds_each (P := fun c => (Assoc.keys c.shared).Nodup)
    (fun _ hclasses k => k.nodup_shared hclasses) hc

end ClassComposition
