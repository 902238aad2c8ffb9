import ClassComposition.Value.Basic

/-!
# Reference tables

Every class has a table of the functions, patterns and arrays that its descriptors point to.  A table only
grows: a class starts from its parent's table, so that inherited indices stay good, and the table of a
mixin is appended, so that the mixin's indices move by the length that the table had.

## Main definitions

* `ReferenceTable`, `ReferenceTable.get?`, `ReferenceTable.size`.
* `ReferenceTable.push`, `ReferenceTable.append` — growing; both answer where the new entries start.
-/

namespace ClassComposition

/-- The values that the descriptors of a class point to. -/
structure ReferenceTable where
  /-- The entries in order of their indices. -/
  entries : List Value
  deriving DecidableEq, Repr, Inhabited

namespace ReferenceTable

/-- The table without entries. -/
def empty : ReferenceTable := ⟨[]⟩

/-- The number of entries. -/
def size (t : ReferenceTable) : Nat := t.entries.length

/-- Whether there are no entries. -/
def isEmpty (t : ReferenceTable) : Bool := t.entries.isEmpty

/-- The entry at an index. -/
def get? (t : ReferenceTable) (index : Nat) : Option Value := t.entries[index]?

/-- Add an entry; its index comes first. -/
def push (t : ReferenceTable) (v : Value) : Nat × ReferenceTable := (t.size, ⟨t.entries ++ [v]⟩)

/-- Add all entries of another table; the index of the first of them comes first. -/
def append (t other : ReferenceTable) : Nat × ReferenceTable :=
  (t.size, ⟨t.entries ++ other.entries⟩)

theorem get?_push_size (t : ReferenceTable) (v : Value) :
    (t.push v).2.get? (t.push v).1 = some v := by
  simp [push, get?, size]

theorem get?_append_add (t other : ReferenceTable) (i : Nat) :
    (t.append other).2.get? (i + (t.append other).1) = other.get? i := by
  simp only [append, get?, size]
  rw [List.getElem?_append_right (Nat.le_add_left _ _), Nat.add_sub_cancel]

end ReferenceTable

end ClassComposition
