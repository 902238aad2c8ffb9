import ClassComposition.Proofs.Effect

/-!
# Two runs side by side

One computation is run twice, from states that differ in ways that are not supposed to matter.  The runs
come to the same outcome when both answer, with answers that are related, or when both fail for reasons
of the same kind.  What the journals say is left out of account.

## Main definitions

* `SameOutcome` — related answers, or errors of the same kind.
* `Action.Alike` — two actions that come to the same outcome, each in its own world.

## Main results

* `Action.alike_bind` — a sequence comes to the same outcome when its parts do.
* `Action.Alike.and_preserved` — what each of the two actions preserves holds afterwards.
-/

namespace ClassComposition

variable {α β γ δ : Type}

/-! ### Outcomes -/

/-- Where there is something on both sides, it may come into another relation. -/
theorem optionRel_mono {P Q : α → β → Prop} {a? : Option α} {b? : Option β} (h : Option.Rel P a? b?)
    (hmore : ∀ a b, P a b → Q a b) : Option.Rel Q a? b? := by
  cases h with
  | none => exact .none
  | some hab => exact .some (hmore _ _ hab)

/-- Two outcomes are the same: the answers are related, or the errors are of the same kind. -/
inductive SameOutcome (R : α → β → Prop) : Except ClassError α → Except ClassError β → Prop
  | ok {a : α} {b : β} (h : R a b) : SameOutcome R (.ok a) (.ok b)
  | error {e e' : ClassError} (h : e.kind = e'.kind) : SameOutcome R (.error e) (.error e')

namespace SameOutcome

variable {R : α → β → Prop} {S : γ → δ → Prop} {x : Except ClassError α} {y : Except ClassError β}

theorem mono {T : α → β → Prop} (h : SameOutcome R x y) (hRT : ∀ a b, R a b → T a b) :
    SameOutcome T x y := by
  cases h with
  | ok hR => exact .ok (hRT _ _ hR)
  | error hkind => exact .error hkind

theorem of_eq {x y : Except ClassError α} (h : x = y) : SameOutcome (fun a b => a = b) x y := by
  subst h
  cases x with
  | ok a => exact .ok rfl
  | error e => exact .error rfl

theorem bind {f : α → Except ClassError γ} {g : β → Except ClassError δ} (h : SameOutcome R x y)
    (hfg : ∀ a b, R a b → SameOutcome S (f a) (g b)) : SameOutcome S (x >>= f) (y >>= g) := by
  cases h with
  | ok hR => exact hfg _ _ hR
  | error hkind => exact .error hkind

end SameOutcome

/-! ### Actions -/

namespace Action

/-- Two actions, each run in a world of its own, come to the same outcome, and answers are related, also to
the stores that the runs leave. -/
def Alike (R : α → Store → β → Store → Prop) (x : Action α) (w : World) (y : Action β) (w' : World) :
    Prop :=
  SameOutcome (fun a b => R a (x.run w).2.store b (y.run w').2.store) (x.run w).1 (y.run w').1

variable {R : α → Store → β → Store → Prop} {S : γ → Store → δ → Store → Prop} {x : Action α}
  {y : Action β} {f : α → Action γ} {g : β → Action δ} {w w' : World}

theorem alike_pure {a : α} {b : β} (h : R a w.store b w'.store) : Alike R (pure a) w (pure b) w' :=
  .ok h

theorem alike_throw {e e' : ClassError} (h : e.kind = e'.kind) :
    Alike R (throw e) w (throw e') w' := .error h

/-- A sequence comes to the same outcome when its parts do. -/
theorem alike_bind (h : Alike R x w y w')
    (hfg : ∀ a b u u', R a u.store b u'.store → Alike S (f a) u (g b) u') :
    Alike S (x >>= f) w (y >>= g) w' := by
  unfold Alike at h ⊢
  rw [run_bind, run_bind]
  rcases hx : x.run w with ⟨e | a, u⟩
  · rcases hy : y.run w' with ⟨e' | b, u'⟩
    · rw [hx, hy] at h
      cases h with
      | error hkind => exact .error hkind
    · rw [hx, hy] at h
      cases h
  · rcases hy : y.run w' with ⟨e' | b, u'⟩
    · rw [hx, hy] at h
      cases h
    · rw [hx, hy] at h
      cases h with
      | ok hR => exact hfg a b u u' hR

/-- Checks come to the same outcome, whatever follows them, and change nothing. -/
theorem alike_ofExcept_bind {T : α → β → Prop} {r : Except ClassError α} {r' : Except ClassError β}
    (h : SameOutcome T r r') (hfg : ∀ a b, r = .ok a → r' = .ok b → T a b → Alike S (f a) w (g b) w') :
    Alike S (ofExcept r >>= f) w (ofExcept r' >>= g) w' := by
  unfold Alike
  rw [run_ofExcept_bind, run_ofExcept_bind]
  cases h with
  | ok hT => exact hfg _ _ rfl rfl hT
  | error hkind => exact .error hkind

/-- What follows a reading of the stores may rely on what has been read. -/
theorem alike_store_bind {f : Store → Action γ} {g : Store → Action δ}
    (h : Alike S (f w.store) w (g w'.store) w') : Alike S (store >>= f) w (store >>= g) w' := h

theorem alike_record_bind {f : Unit → Action γ} {g : Unit → Action δ} {e e' : Event}
    (h : ∀ u u' : World, u.store = w.store → u'.store = w'.store → Alike S (f ()) u (g ()) u') :
    Alike S (record e >>= f) w (record e' >>= g) w' :=
  h { w with journal := e :: w.journal } { w' with journal := e' :: w'.journal } rfl rfl

theorem alike_forM_record_bind {κ : Type} {f : PUnit → Action γ} {g : PUnit → Action δ}
    {note : κ → Event} (keys keys' : List κ)
    (h : ∀ u u' : World, u.store = w.store → u'.store = w'.store →
      Alike S (f ⟨⟩) u (g ⟨⟩) u') :
    Alike S ((keys.forM fun key => record (note key)) >>= f) w
      ((keys'.forM fun key => record (note key)) >>= g) w' := by
  have hnoted : ∀ (keys : List κ) (w : World), ∃ u,
      (keys.forM fun key => record (note key)).run w = (.ok ⟨⟩, u) ∧ u.store = w.store := by
    intro keys
    induction keys with
    | nil => exact fun w => ⟨w, rfl, rfl⟩
    | cons key rest ih =>
      intro w
      obtain ⟨u, hrun, hstore⟩ := ih { w with journal := note key :: w.journal }
      refine ⟨u, ?_, hstore⟩
      rw [List.forM_eq_forM, List.forM_cons, run_bind, run_record]
      exact hrun
  obtain ⟨u, hrun, hstore⟩ := hnoted keys w
  obtain ⟨u', hrun', hstore'⟩ := hnoted keys' w'
  unfold Alike
  rw [run_bind, run_bind, hrun, hrun']
  exact h u u' hstore hstore'

theorem alike_foldlM {ι : Type} {step : γ → ι → Action γ} {step' : δ → ι → Action δ}
    (hstep : ∀ item c d u u', S c u.store d u'.store →
      Alike S (step c item) u (step' d item) u')
    (items : List ι) {c : γ} {d : δ} (h : S c w.store d w'.store) :
    Alike S (items.foldlM step c) w (items.foldlM step' d) w' := by
  induction items generalizing c d w w' with
  | nil => exact alike_pure h
  | cons item rest ih =>
    rw [List.foldlM_cons, List.foldlM_cons]
    exact alike_bind (hstep item c d w w' h) fun _ _ _ _ hnext => ih hnext

/-- What each of the two actions preserves holds of the store that it leaves. -/
theorem Alike.and_preserved {P Q : Store → Prop} (h : Alike R x w y w') (hx : x.Preserves P)
    (hy : y.Preserves Q) (hP : P w.store) (hQ : Q w'.store) :
    Alike (fun a s b s' => R a s b s' ∧ P s ∧ Q s') x w y w' :=
  SameOutcome.mono h fun _ _ hR => ⟨hR, hx w hP, hy w' hQ⟩

end Action

end ClassComposition
