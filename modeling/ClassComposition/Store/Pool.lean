import ClassComposition.Value.Basic

/-!
# Pools

A store keeps the things of each sort in a pool: a growing array of cells addressed by typed handles.  A
cell is never removed, so a handle that was given out stays good, and a new cell is at a handle that was
not good before.

## Main definitions

* `Pool`, `Pool.get`, `Pool.set`, `Pool.alloc`.
* `Pool.Has` — a handle is good in a pool.

## Main results

* `Pool.has_alloc_self` — a new cell is at a good handle.
* `Pool.get_alloc_self`, `Pool.get_alloc_of_has` — a new cell holds its value and leaves the others alone.
* `Pool.get_set_self`, `Pool.get_set_of_ne` — writing changes one cell only.
-/

namespace ClassComposition

/-- The stored things of one sort. -/
structure Pool (kind : CellKind) (α : Type) where
  /-- The cells, in order of allocation. -/
  cells : Array α
  deriving Repr

namespace Pool

variable {kind : CellKind} {α : Type}

instance : Inhabited (Pool kind α) := ⟨⟨#[]⟩⟩

/-- The number of cells. -/
def size (p : Pool kind α) : Nat := p.cells.size

/-- Whether a handle is good in a pool. -/
def Has (p : Pool kind α) (h : Handle kind) : Prop := h.index < p.size

instance (p : Pool kind α) (h : Handle kind) : Decidable (p.Has h) :=
  inferInstanceAs (Decidable (h.index < p.size))

/-- What a handle refers to; the default for a handle that is not good. -/
def get [Inhabited α] (p : Pool kind α) (h : Handle kind) : α := p.cells.getD h.index default

/-- Change what a handle refers to; nothing happens to a handle that is not good. -/
def set (p : Pool kind α) (h : Handle kind) (value : α) : Pool kind α :=
  ⟨p.cells.setIfInBounds h.index value⟩

/-- A new cell and its handle. -/
def alloc (p : Pool kind α) (value : α) : Handle kind × Pool kind α :=
  (⟨p.cells.size⟩, ⟨p.cells.push value⟩)

/-! ### Reading after writing -/

@[simp] theorem size_alloc (p : Pool kind α) (value : α) : (p.alloc value).2.size = p.size + 1 := by
  simp [alloc, size]

@[simp] theorem size_set (p : Pool kind α) (h : Handle kind) (value : α) :
    (p.set h value).size = p.size := by
  simp [set, size]

theorem has_alloc_self (p : Pool kind α) (value : α) : (p.alloc value).2.Has (p.alloc value).1 :=
  Nat.lt_of_lt_of_eq (Nat.lt_succ_self p.size) (size_alloc p value).symm

variable [Inhabited α]

theorem get_alloc_self (p : Pool kind α) (value : α) :
    (p.alloc value).2.get (p.alloc value).1 = value := by
  simp [alloc, get]

theorem get_alloc_of_has (p : Pool kind α) (value : α) {h : Handle kind} (hp : p.Has h) :
    (p.alloc value).2.get h = p.get h := by
  have hlt : h.index < p.cells.size := hp
  simp [alloc, get, Array.getD_eq_getD_getElem?, Array.getElem?_push, Nat.ne_of_lt hlt]

theorem get_set_self (p : Pool kind α) (h : Handle kind) (value : α) (hp : p.Has h) :
    (p.set h value).get h = value := by
  have hlt : h.index < p.cells.size := hp
  simp [set, get, Array.getD_eq_getD_getElem?, hlt]

theorem get_set_of_ne (p : Pool kind α) {h other : Handle kind} (value : α) (hne : h ≠ other) :
    (p.set h value).get other = p.get other := by
  have hi : h.index ≠ other.index := fun e => hne (by cases h; cases other; simp_all)
  simp [set, get, Array.getD_eq_getD_getElem?, hi]

theorem get_set_of_not_has (p : Pool kind α) (h : Handle kind) (value : α) (hp : ¬ p.Has h) :
    (p.set h value).get h = p.get h := by
  have hlt : ¬ h.index < p.cells.size := hp
  simp [set, get, Array.getD_eq_getD_getElem?, hlt]

end Pool

end ClassComposition
