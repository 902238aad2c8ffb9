import ClassComposition.Action
import ClassComposition.Member.Classification

/-!
# Running actions and classifications

Both kinds of computation keep their state beside the error.  The statements here say what running each
of their building blocks gives, so that a long sequence can be taken apart step by step and nothing has
to be unfolded afterwards.

## Main results

* `bind_eq_ok` — a sequence in `Except` answers exactly when both parts do.
* `Action.run_bind_eq_ok`, `Classifying.run_bind_eq_ok` — the same with a state.
* `Action.run_ofExcept_eq_ok` — a check answers exactly when it succeeds, and changes nothing.
* `Action.preserves_bind` — a property of stores that every step preserves is preserved by a sequence,
  whether it answers or fails.
-/

namespace ClassComposition

variable {α β : Type}

/-- A sequence answers exactly when both parts do. -/
theorem bind_eq_ok {ε : Type} {x : Except ε α} {f : α → Except ε β} {b : β} :
    (x >>= f) = .ok b ↔ ∃ a, x = .ok a ∧ f a = .ok b := by
  cases x with
  | error e => simp [bind, Except.bind]
  | ok a => simp [bind, Except.bind]

/-- A sequence of computations with a state: the second one starts from the state that the first one
leaves, and is left out when the first one fails. -/
theorem stateful_bind {ε σ : Type} (x : ExceptT ε (StateM σ) α) (f : α → ExceptT ε (StateM σ) β)
    (s : σ) :
    (x >>= f) s =
      match x s with
      | (.ok a, s') => f a s'
      | (.error e, s') => (.error e, s') := by
  show (ExceptT.bindCont f (x s).1 : StateM σ _) (x s).2 = _
  rcases x s with ⟨e | a, s'⟩ <;> rfl

theorem stateful_bind_eq_ok {ε σ : Type} {x : ExceptT ε (StateM σ) α}
    {f : α → ExceptT ε (StateM σ) β} {s s₂ : σ} {b : β} :
    (x >>= f) s = (.ok b, s₂) ↔ ∃ a s₁, x s = (.ok a, s₁) ∧ f a s₁ = (.ok b, s₂) := by
  rw [stateful_bind]
  rcases x s with ⟨e | a, s₁⟩
  · constructor
    · intro h
      cases h
    · rintro ⟨a', s', heq, -⟩
      cases heq
  · constructor
    · intro h
      exact ⟨a, s₁, rfl, h⟩
    · rintro ⟨a', s', heq, h⟩
      cases heq
      exact h

namespace Action

@[simp] theorem run_pure (a : α) (w : World) : (pure a : Action α).run w = (.ok a, w) := rfl

@[simp] theorem run_throw (e : ClassError) (w : World) :
    (throw e : Action α).run w = (.error e, w) := rfl

/-- A sequence of actions: the second one runs in the world that the first one leaves. -/
theorem run_bind (action : Action α) (f : α → Action β) (w : World) :
    (action >>= f).run w =
      match action.run w with
      | (.ok a, w') => (f a).run w'
      | (.error e, w') => (.error e, w') := by
  show (action >>= f) w = _
  rw [stateful_bind]
  rcases hrun : action.run w with ⟨e | a, w'⟩
  · rw [show action w = (.error e, w') from hrun]
  · rw [show action w = (.ok a, w') from hrun]
    rfl

theorem run_bind_eq_ok {action : Action α} {f : α → Action β} {w w₂ : World} {b : β} :
    (action >>= f).run w = (.ok b, w₂) ↔
      ∃ a w₁, action.run w = (.ok a, w₁) ∧ (f a).run w₁ = (.ok b, w₂) :=
  stateful_bind_eq_ok

@[simp] theorem run_store (w : World) : store.run w = (.ok w.store, w) := rfl

@[simp] theorem run_record (e : Event) (w : World) :
    (record e).run w = (.ok (), { w with journal := e :: w.journal }) := rfl

@[simp] theorem run_modifyStore (f : Store → Store) (w : World) :
    (modifyStore f).run w = (.ok (), { w with store := f w.store }) := rfl

@[simp] theorem run_onStore (f : Store → α × Store) (w : World) :
    (onStore f).run w = (.ok (f w.store).1, { w with store := (f w.store).2 }) := rfl

/-- A check answers exactly when it succeeds, and changes nothing. -/
theorem run_ofExcept_eq_ok {r : Except ClassError α} {w w' : World} {a : α} :
    (ofExcept r).run w = (.ok a, w') ↔ r = .ok a ∧ w' = w := by
  cases r with
  | error e => simp [ofExcept]
  | ok b =>
    show ((Except.ok b : Except ClassError α), w) = (.ok a, w') ↔ _
    simp [eq_comm]

/-- A check before an action either stops it or hands its answer on. -/
theorem run_ofExcept_bind (r : Except ClassError α) (f : α → Action β) (w : World) :
    (ofExcept r >>= f).run w =
      match r with
      | .ok a => (f a).run w
      | .error e => (.error e, w) := by
  cases r <;> rfl

/-! ### What actions preserve -/

/-- An action hands a property of stores on, whether it answers or fails. -/
def Preserves (P : Store → Prop) (action : Action α) : Prop :=
  ∀ w, P w.store → P (action.run w).2.store

variable {P : Store → Prop}

theorem preserves_pure (a : α) : (pure a : Action α).Preserves P := fun _ h => h

theorem preserves_throw (e : ClassError) : (throw e : Action α).Preserves P := fun _ h => h

theorem preserves_record (e : Event) : (record e).Preserves P := fun _ h => h

theorem preserves_onStore {f : Store → α × Store} (hf : ∀ s, P s → P (f s).2) :
    (onStore f).Preserves P := fun w h => hf w.store h

theorem preserves_bind {action : Action α} {f : α → Action β} (h : action.Preserves P)
    (hf : ∀ a, (f a).Preserves P) : (action >>= f).Preserves P := by
  intro w hw
  have hfirst := h w hw
  rw [run_bind]
  rcases hrun : action.run w with ⟨e | a, w'⟩
  · rw [hrun] at hfirst
    exact hfirst
  · rw [hrun] at hfirst
    exact hf a w' hfirst

/-- What follows a reading of the store may rely on what has been read. -/
theorem preserves_store_bind {f : Store → Action β} (hf : ∀ s, P s → (f s).Preserves P) :
    (store >>= f).Preserves P := fun w hw => hf w.store hw w hw

theorem preserves_ofExcept_bind {r : Except ClassError α} {f : α → Action β}
    (hf : ∀ a, r = .ok a → (f a).Preserves P) : (ofExcept r >>= f).Preserves P := by
  intro w hw
  rw [run_ofExcept_bind]
  cases r with
  | error e => exact hw
  | ok a => exact hf a rfl w hw

theorem preserves_foldlM {step : β → α → Action β} (hstep : ∀ b a, (step b a).Preserves P)
    (items : List α) (start : β) : (items.foldlM step start).Preserves P := by
  induction items generalizing start with
  | nil => exact preserves_pure start
  | cons item rest ih =>
    rw [List.foldlM_cons]
    exact preserves_bind (hstep start item) ih

theorem preserves_forM {f : α → Action PUnit} (hf : ∀ a, (f a).Preserves P) (items : List α) :
    (items.forM f).Preserves P := by
  induction items with
  | nil => exact preserves_pure _
  | cons item rest ih =>
    rw [List.forM_eq_forM, List.forM_cons]
    exact preserves_bind (hf item) fun _ => ih

end Action

namespace Classifying

@[simp] theorem run_pure (a : α) (t : ReferenceTable) :
    run (pure a : Classifying α) t = (.ok a, t) := rfl

@[simp] theorem run_throw (e : ClassError) (t : ReferenceTable) :
    run (throw e : Classifying α) t = (.error e, t) := rfl

theorem run_bind_eq_ok {c : Classifying α} {f : α → Classifying β} {t t₂ : ReferenceTable} {b : β} :
    run (c >>= f) t = (.ok b, t₂) ↔ ∃ a t₁, run c t = (.ok a, t₁) ∧ run (f a) t₁ = (.ok b, t₂) :=
  stateful_bind_eq_ok

@[simp] theorem run_reference (v : Value) (t : ReferenceTable) :
    run (reference v) t = (.ok (t.push v).1, (t.push v).2) := rfl

end Classifying

end ClassComposition
