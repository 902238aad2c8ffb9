import ClassComposition.Proofs.Effect

/-!
# Two runs with one outcome

One computation is run twice, in worlds that differ in what it cannot tell apart.  The second run follows
the first one: it fails for the very same reason, or both answer, with answers that are related.  Whatever
comes of it, the stores that the runs leave are related again.  Some first runs have no counterpart, as
those that were cut off; so a second run need only follow first runs that fail for admitted reasons.

## Main definitions

* `Agree` — related answers, or one and the same error.
* `Action.Matches` — a second run that follows a first one.
* `Action.Detached` — an action that neither reads the world nor changes the store.

## Main results

* `Action.matches_bind` — a sequence is followed when its parts are.
* `Action.matches_of_detached` — what is detached is followed in all worlds.
-/

namespace ClassComposition

variable {α β γ δ : Type}

/-- Related answers, or one and the same error. -/
inductive Agree (R : α → β → Prop) : Except ClassError α → Except ClassError β → Prop
  | ok {a : α} {b : β} (h : R a b) : Agree R (.ok a) (.ok b)
  | error (e : ClassError) : Agree R (.error e) (.error e)

namespace Agree

variable {R : α → β → Prop} {x : Except ClassError α} {y : Except ClassError β}

theorem refl (x : Except ClassError α) : Agree (fun a b => a = b) x x := by
  cases x with
  | ok a => exact .ok rfl
  | error e => exact .error e

theorem mono {S : α → β → Prop} (h : Agree R x y) (hRS : ∀ a b, R a b → S a b) : Agree S x y := by
  cases h with
  | ok hR => exact .ok (hRS _ _ hR)
  | error e => exact .error e

end Agree

namespace Action

/-- If the first run fails for admitted reasons only, the second one comes to the same outcome, and the
stores that they leave are related. -/
def Matches (admitted : ClassError → Prop) (T : Store → Store → Prop) (R : α → β → Prop) (x : Action α)
    (w : World) (y : Action β) (w' : World) : Prop :=
  (∀ e, (x.run w).1 = .error e → admitted e) →
    T (x.run w).2.store (y.run w').2.store ∧ Agree R (x.run w).1 (y.run w').1

/-- The action comes to one outcome in all worlds, and leaves the store as it is. -/
def Detached (x : Action α) : Prop :=
  ∃ outcome, ∀ w, (x.run w).1 = outcome ∧ (x.run w).2.store = w.store

variable {admitted : ClassError → Prop} {T : Store → Store → Prop} {R : α → β → Prop}
  {S : γ → δ → Prop} {x : Action α} {y : Action β} {f : α → Action γ} {g : β → Action δ} {w w' : World}

/-! ### Detached actions -/

theorem detached_pure (a : α) : (pure a : Action α).Detached := ⟨.ok a, fun _ => ⟨rfl, rfl⟩⟩

theorem detached_throw (e : ClassError) : (throw e : Action α).Detached :=
  ⟨.error e, fun _ => ⟨rfl, rfl⟩⟩

theorem detached_record (e : Event) : (record e).Detached := ⟨.ok (), fun _ => ⟨rfl, rfl⟩⟩

theorem detached_ofExcept (r : Except ClassError α) : (ofExcept r).Detached := by
  cases r with
  | ok a => exact detached_pure a
  | error e => exact detached_throw e

theorem detached_bind (hx : x.Detached) (hf : ∀ a, (f a).Detached) : (x >>= f).Detached := by
  obtain ⟨outcome, hx⟩ := hx
  cases outcome with
  | error e =>
    refine ⟨.error e, fun w => ?_⟩
    obtain ⟨houtcome, hstore⟩ := hx w
    rw [run_bind]
    rcases hrun : x.run w with ⟨e' | a, u⟩
    · -- the outcome of the first part is the same in every world, and with it what is done next
      rw [hrun] at houtcome hstore
      cases houtcome
      exact ⟨rfl, hstore⟩
    · rw [hrun] at houtcome
      cases houtcome
  | ok a =>
    obtain ⟨outcome, hf⟩ := hf a
    refine ⟨outcome, fun w => ?_⟩
    obtain ⟨houtcome, hstore⟩ := hx w
    rw [run_bind]
    rcases hrun : x.run w with ⟨e' | a', u⟩
    · rw [hrun] at houtcome
      cases houtcome
    · rw [hrun] at houtcome hstore
      cases houtcome
      exact ⟨(hf u).1, (hf u).2.trans hstore⟩

theorem detached_forM {κ : Type} {f : κ → Action PUnit} (hf : ∀ a, (f a).Detached) (items : List κ) :
    (items.forM f).Detached := by
  induction items with
  | nil => exact detached_pure _
  | cons item rest ih =>
    rw [List.forM_eq_forM, List.forM_cons]
    exact detached_bind (hf item) fun _ => ih

theorem detached_foldlM {ι : Type} {step : γ → ι → Action γ} (hstep : ∀ c item, (step c item).Detached)
    (items : List ι) (start : γ) : (items.foldlM step start).Detached := by
  induction items generalizing start with
  | nil => exact detached_pure start
  | cons item rest ih =>
    rw [List.foldlM_cons]
    exact detached_bind (hstep start item) ih

/-! ### Following a run -/

theorem matches_pure {a : α} {b : β} (hT : T w.store w'.store) (h : R a b) :
    Matches admitted T R (pure a) w (pure b) w' := fun _ => ⟨hT, .ok h⟩

theorem matches_throw (hT : T w.store w'.store) (e : ClassError) :
    Matches admitted T R (throw e) w (throw e) w' := fun _ => ⟨hT, .error e⟩

/-- What is noted in the journals makes no difference. -/
theorem matches_record (hT : T w.store w'.store) (e e' : Event) :
    Matches admitted T (fun _ _ => True) (record e) w (record e') w' := fun _ => ⟨hT, .ok trivial⟩

/-- A sequence is followed when its parts are. -/
theorem matches_bind (h : Matches admitted T R x w y w')
    (hfg : ∀ a b u u', T u.store u'.store → R a b → Matches admitted T S (f a) u (g b) u') :
    Matches admitted T S (x >>= f) w (y >>= g) w' := by
  intro hadmitted
  rw [run_bind] at hadmitted
  rw [run_bind, run_bind]
  rcases hx : x.run w with ⟨e | a, u⟩
  · -- where the first part fails, its error is that of the whole and thus an admitted one
    rw [hx] at hadmitted
    unfold Matches at h
    rw [hx] at h
    have herror : ∀ e', (Except.error e : Except ClassError α) = .error e' → admitted e' := by
      rintro e' he
      cases he
      exact hadmitted e rfl
    obtain ⟨hT, hagree⟩ := h herror
    rcases hy : y.run w' with ⟨e' | b, u'⟩
    · rw [hy] at hT hagree
      cases hagree
      exact ⟨hT, .error e⟩
    · rw [hy] at hagree
      cases hagree
  · rw [hx] at hadmitted
    unfold Matches at h
    rw [hx] at h
    obtain ⟨hT, hagree⟩ := h fun e he => nomatch he
    rcases hy : y.run w' with ⟨e' | b, u'⟩
    · rw [hy] at hagree
      cases hagree
    · rw [hy] at hT hagree
      cases hagree with
      | ok hR => exact hfg a b u u' hT hR hadmitted

theorem Matches.with_answer (h : Matches admitted T R x w y w') :
    Matches admitted T (fun a b => R a b ∧ ∃ u, x.run w = (.ok a, u)) x w y w' := by
  intro hadmitted
  obtain ⟨hT, hagree⟩ := h hadmitted
  refine ⟨hT, ?_⟩
  rcases hx : x.run w with ⟨outcome, u⟩
  rw [hx] at hagree
  generalize (y.run w').1 = outcome' at hagree
  cases hagree with
  | ok hR => exact .ok ⟨hR, u, rfl⟩
  | error e => exact .error e

/-- What is detached is followed in all worlds. -/
theorem matches_of_detached (hx : x.Detached) (hT : T w.store w'.store) :
    Matches admitted T (fun a b => a = b) x w x w' := by
  obtain ⟨outcome, hx⟩ := hx
  intro _
  rw [(hx w).1, (hx w').1, (hx w).2, (hx w').2]
  exact ⟨hT, .refl outcome⟩

/-- Checks that agree are followed by what is done with their answers. -/
theorem matches_ofExcept_bind_of_agree {Q : α → β → Prop} {r : Except ClassError α}
    {r' : Except ClassError β} {f : α → Action γ} {g : β → Action δ} (hT : T w.store w'.store)
    (h : Agree Q r r')
    (hfg : ∀ a b, r = .ok a → r' = .ok b → Q a b → Matches admitted T S (f a) w (g b) w') :
    Matches admitted T S (ofExcept r >>= f) w (ofExcept r' >>= g) w' := by
  cases h with
  | ok hQ => exact hfg _ _ rfl rfl hQ
  | error e => exact matches_throw hT e

/-- The answer of a check is the same in both runs. -/
theorem matches_ofExcept_bind {r : Except ClassError α} {f : α → Action γ} {g : α → Action δ}
    (hT : T w.store w'.store) (hfg : ∀ a, r = .ok a → Matches admitted T S (f a) w (g a) w') :
    Matches admitted T S (ofExcept r >>= f) w (ofExcept r >>= g) w' := by
  refine matches_ofExcept_bind_of_agree hT (.refl r) ?_
  rintro a _ ha - rfl
  exact hfg a ha

/-- What follows a reading of the stores may rely on what has been read. -/
theorem matches_store_bind {f : Store → Action γ} {g : Store → Action δ}
    (h : Matches admitted T S (f w.store) w (g w'.store) w') :
    Matches admitted T S (store >>= f) w (store >>= g) w' := h

theorem matches_onStore {f : Store → α × Store} {g : Store → β × Store}
    (hT : T (f w.store).2 (g w'.store).2) (h : R (f w.store).1 (g w'.store).1) :
    Matches admitted T R (onStore f) w (onStore g) w' := fun _ => ⟨hT, .ok h⟩

end Action

end ClassComposition
