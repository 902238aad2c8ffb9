import ClassComposition.Member.Key
import Mathlib.Data.List.Basic

/-!
# Keys and their texts

Writing a key and reading a name undo each other in one direction only.  A name that is read is written back
as it was, so no two names are read as one key.  A key that is written is not always read back, because the
text of a plain name may be that of an alias, and the text of an alias may be split in another place.  What
decides is the first separator of the text.

## Main results

* `MemberKey.parse_eq_plain_iff` — the names that are no aliases.
* `MemberKey.text_round_trip` — both directions, for all names and all keys.
-/

namespace ClassComposition

namespace MemberKey

/-- The names that are no aliases: there is no separator in them, or the first one is their first or their
last character. -/
theorem parse_eq_plain_iff {name : String} :
    parse name = plain name ↔
      separator ∉ name.toList ∨ name.toList.idxOf separator = 0 ∨
        name.toList.idxOf separator + 1 = name.toList.length := by
  by_cases hmem : separator ∈ name.toList
  · obtain ⟨before, after, hname, hfirst⟩ := List.eq_append_cons_of_mem hmem
    have hposition : name.toList.idxOf separator = before.length := by
      rw [hname, List.idxOf_append_of_notMem hfirst, List.idxOf_cons_self, Nat.add_zero]
    have hlength : name.toList.length = before.length + (after.length + 1) := by
      rw [hname, List.length_append, List.length_cons]
    have hlast : before.length + 1 = before.length + (after.length + 1) ↔ after = [] := by
      rw [← List.length_eq_zero_iff]
      omega
    rw [parse_of_split hname hfirst, hposition, hlength, List.length_eq_zero_iff, hlast]
    by_cases hside : before = [] ∨ after = []
    · simp [hside]
    · simp [hside, hmem]
  · simp [hmem, parse_of_notMem hmem]

/-- A name that is read is written back as it was, so that different names are read as different keys.  A
key that is written is read back exactly if it is an alias with something on both sides and no separator in
the name of the class, or a plain name that has no separator, or has its first one as its first or as its
last character. -/
theorem text_round_trip :
    (∀ name, (parse name).display = name) ∧ Function.Injective parse ∧
      ∀ key, parse key.display = key ↔
        match key with
        | aliased owner member => owner ≠ "" ∧ separator ∉ owner.toList ∧ member ≠ ""
        | plain name => separator ∉ name.toList ∨ name.toList.idxOf separator = 0 ∨
            name.toList.idxOf separator + 1 = name.toList.length := by
  refine ⟨display_parse, fun _ _ => parse_injective, ?_⟩
  intro key
  cases key with
  | aliased owner member => exact parse_display_aliased
  | plain name => exact parse_eq_plain_iff

end MemberKey

end ClassComposition
