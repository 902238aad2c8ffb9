import ClassComposition.Assoc
import Mathlib.Data.List.Forall2

/-!
# Maps side by side

Two runs of one program give maps with the same keys in the same order and values that are related.

## Main definitions

* `Assoc.Beside` — two maps with the same keys in order and related values.

## Main results

* `Assoc.Beside.get?` — both have a value under a key, or neither has.
* `Assoc.Beside.insert` — related values are written on both sides.
-/

namespace ClassComposition.Assoc

variable {κ α β : Type} {R S : κ → α → β → Prop} {m : Assoc κ α} {n : Assoc κ β}

/-- Two maps have the same keys in the same order, and the values under them are related. -/
def Beside (R : κ → α → β → Prop) (m : Assoc κ α) (n : Assoc κ β) : Prop :=
  List.Forall₂ (fun p q => p.1 = q.1 ∧ R p.1 p.2 q.2) m n

theorem Beside.keys_eq (h : Beside R m n) : keys m = keys n := by
  induction h with
  | nil => rfl
  | cons first others ih =>
    show _ :: keys _ = _ :: keys _
    rw [first.1, ih]

theorem Beside.isEmpty_eq (h : Beside R m n) : m.isEmpty = n.isEmpty := by
  cases h <;> rfl

/-- Values of both maps may come into another relation. -/
theorem Beside.mono (h : Beside R m n)
    (hmore : ∀ k a b, (k, a) ∈ m → (k, b) ∈ n → R k a b → S k a b) : Beside S m n := by
  induction h with
  | nil => exact .nil
  | @cons p q rest others first below ih =>
    have hq : (p.1, q.2) ∈ q :: others := by
      rw [first.1]
      exact List.mem_cons_self
    refine .cons ⟨first.1, hmore _ _ _ List.mem_cons_self hq first.2⟩ (ih ?_)
    intro k a b ha hb
    exact hmore k a b (List.mem_cons_of_mem _ ha) (List.mem_cons_of_mem _ hb)

theorem Beside.symm (h : Beside R m n) : Beside (fun k b a => R k a b) n m := by
  induction h with
  | nil => exact .nil
  | cons first below ih => exact .cons ⟨first.1.symm, first.1 ▸ first.2⟩ ih

theorem Beside.exists_of_mem (h : Beside R m n) {p : κ × α} (hp : p ∈ m) :
    ∃ b, (p.1, b) ∈ n ∧ R p.1 p.2 b := by
  induction h with
  | nil => cases hp
  | @cons q q' rest others first below ih =>
    rcases List.mem_cons.mp hp with rfl | hmem
    · exact ⟨q'.2, first.1 ▸ List.mem_cons_self, first.2⟩
    · obtain ⟨b, hb, hR⟩ := ih hmem
      exact ⟨b, List.mem_cons_of_mem _ hb, hR⟩

theorem Beside.append {m' : Assoc κ α} {n' : Assoc κ β} (h : Beside R m n) (h' : Beside R m' n') :
    Beside R (m ++ m') (n ++ n') := List.rel_append h h'

theorem Beside.snoc (h : Beside R m n) {key : κ} {a : α} {b : β} (hkey : R key a b) :
    Beside R (m ++ [(key, a)]) (n ++ [(key, b)]) := h.append (.cons ⟨rfl, hkey⟩ .nil)

theorem Beside.map {μ : Type} {S : μ → α → β → Prop} {f : κ → μ} (h : Beside R m n)
    (hmore : ∀ k a b, R k a b → S (f k) a b) :
    Beside S (m.map fun p => (f p.1, p.2)) (n.map fun p => (f p.1, p.2)) := by
  induction h with
  | nil => exact .nil
  | cons first below ih => exact .cons ⟨congrArg f first.1, hmore _ _ _ first.2⟩ ih

theorem beside_self {R : κ → α → α → Prop} (h : ∀ k a, R k a a) (m : Assoc κ α) : Beside R m m :=
  List.forall₂_same.mpr fun p _ => ⟨rfl, h p.1 p.2⟩

variable [DecidableEq κ] {key : κ} {a : α} {b : β}

/-- Both maps have a value under a key, or neither has. -/
theorem Beside.get? (h : Beside R m n) (key : κ) :
    (∃ a b, Assoc.get? m key = some a ∧ Assoc.get? n key = some b ∧ R key a b) ∨
      Assoc.get? m key = none ∧ Assoc.get? n key = none := by
  induction h with
  | nil => exact .inr ⟨rfl, rfl⟩
  | @cons p q rest others first below ih =>
    obtain ⟨k, a⟩ := p
    obtain ⟨k', b⟩ := q
    obtain ⟨rfl, hR⟩ := first
    by_cases hk : k = key
    · subst hk
      simp only [Assoc.get?, if_true]
      exact .inl ⟨a, b, rfl, rfl, hR⟩
    · simp only [Assoc.get?, if_neg hk]
      exact ih

/-- Values under one key are related where no key occurs twice. -/
theorem Beside.of_mem (h : Beside R m n) (hm : (keys m).Nodup) (ha : (key, a) ∈ m) (hb : (key, b) ∈ n) :
    R key a b := by
  have hn : (keys n).Nodup := h.keys_eq ▸ hm
  have hget := get?_of_mem hm ha
  have hget' := get?_of_mem hn hb
  rcases h.get? key with ⟨a', b', ha', hb', hR⟩ | ⟨hnone, -⟩
  · rw [hget] at ha'
    rw [hget'] at hb'
    cases ha'
    cases hb'
    exact hR
  · rw [hget] at hnone
    cases hnone

/-- Related values are written under a key on both sides, while the values under other keys may come into
another relation. -/
theorem Beside.insert (h : Beside R m n) (hm : (keys m).Nodup)
    (hother : ∀ k a b, k ≠ key → R k a b → S k a b) (hkey : S key a b) :
    Beside S (Assoc.insert m key a) (Assoc.insert n key b) := by
  induction h with
  | nil => exact .cons ⟨rfl, hkey⟩ .nil
  | @cons p q rest others first below ih =>
    obtain ⟨k, x⟩ := p
    obtain ⟨k', y⟩ := q
    obtain ⟨rfl, hR⟩ := first
    obtain ⟨hfresh, hrest⟩ := List.nodup_cons.mp hm
    by_cases hk : k = key
    · subst hk
      simp only [Assoc.insert, if_true]
      refine .cons ⟨rfl, hkey⟩ (Beside.mono below ?_)
      intro j a b hmem _ hR
      refine hother j a b (fun heq => ?_) hR
      have hmem' : j ∈ keys rest := mem_keys_of_mem hmem
      exact hfresh (heq ▸ hmem')
    · simp only [Assoc.insert, if_neg hk]
      exact .cons ⟨rfl, hother k x y hk hR⟩ (ih hrest)

/-- Related values may be written under a key on both sides. -/
theorem Beside.write (h : Beside R m n) (hkey : R key a b) :
    Beside R (Assoc.insert m key a) (Assoc.insert n key b) := by
  induction h with
  | nil => exact .cons ⟨rfl, hkey⟩ .nil
  | @cons p q rest others first below ih =>
    obtain ⟨k, x⟩ := p
    obtain ⟨k', y⟩ := q
    obtain ⟨rfl, hR⟩ := first
    by_cases hk : k = key
    · subst hk
      simp only [Assoc.insert, if_true]
      exact .cons ⟨rfl, hkey⟩ below
    · simp only [Assoc.insert, if_neg hk]
      exact .cons ⟨rfl, hR⟩ ih

end ClassComposition.Assoc
