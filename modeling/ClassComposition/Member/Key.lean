/-!
# Member keys

A member is addressed by its own name, or, when it is an implementation kept from an ancestor, by the
short name of the class it came from together with the member's name.  In text such an alias is written
`Class$member`; a name is read as an alias when its first `$` has something on both sides.

## Main definitions

* `MemberKey` — a plain name or an alias.
* `MemberKey.parse`, `MemberKey.display` — reading and writing keys.
* `MemberKey.le` — plain names before aliases, texts by code points.
* `MemberKey.Readable` — keys that are read back from their text.

## Main results

* `MemberKey.display_parse` — a parsed name is written back as it was.
* `MemberKey.parse_of_notMem` — a name without separators is no alias.
* `MemberKey.parse_of_split` — how a name is read, told by its first separator.
* `MemberKey.parse_display_aliased` — the aliases that are read back as they were written.
* `MemberKey.parse_display_iff` — the keys that are.
-/

namespace ClassComposition

/-- The address of a member. -/
inductive MemberKey
  /-- A member under its own name. -/
  | plain (name : String)
  /-- An implementation kept from an ancestor: the ancestor's short name and the member's name. -/
  | aliased (owner member : String)
  deriving DecidableEq, Repr, Inhabited

namespace MemberKey

/-- The character between class and member in an alias. -/
def separator : Char := '$'

/-- Read a name: an alias if its first separator has something on both sides, else a plain name. -/
def parse (name : String) : MemberKey :=
  let owner := name.toList.takeWhile (· != separator)
  match name.toList.dropWhile (· != separator) with
  | [] => plain name
  | _ :: member =>
    if owner = [] ∨ member = [] then plain name
    else aliased (String.ofList owner) (String.ofList member)

/-- The text of a key. -/
def display : MemberKey → String
  | plain name => name
  | aliased owner member => String.ofList (owner.toList ++ separator :: member.toList)

/-- The member's name, without the class it came from. -/
def memberName : MemberKey → String
  | plain name => name
  | aliased _ member => member

/-- Whether the key is an alias. -/
def isAlias : MemberKey → Bool
  | plain _ => false
  | aliased _ _ => true

/-- The order of keys: plain names first, then aliases by class and member; texts by code points. -/
def le : MemberKey → MemberKey → Bool
  | plain a, plain b => a ≤ b
  | plain _, aliased _ _ => true
  | aliased _ _, plain _ => false
  | aliased c m, aliased c' m' => c < c' || (c == c' && m ≤ m')

/-- Keys in increasing order. -/
def sort (keys : List MemberKey) : List MemberKey := keys.mergeSort le

/-- A parsed name is written back as it was. -/
theorem display_parse (name : String) : (parse name).display = name := by
  unfold parse
  cases hd : name.toList.dropWhile (· != separator) with
  | nil => rfl
  | cons c member =>
    have hc : c = separator := by
      have hh := List.head?_dropWhile_not (· != separator) name.toList
      simpa [hd] using hh
    dsimp only
    split
    · rfl
    · simp only [display, String.toList_ofList]
      rw [hc] at hd
      rw [← hd, List.takeWhile_append_dropWhile, String.ofList_toList]

/-- Different names are read as different keys. -/
theorem parse_injective {name other : String} (h : parse name = parse other) : name = other := by
  rw [← display_parse name, h, display_parse]

theorem parse_of_notMem {name : String} (h : separator ∉ name.toList) : parse name = plain name := by
  have hall : ∀ c ∈ name.toList, (c != separator) = true := by
    intro c hc
    rw [bne_iff_ne]
    rintro rfl
    exact h hc
  have hdrop : (name.toList ++ []).dropWhile (· != separator) = [] :=
    List.dropWhile_append_of_pos hall
  rw [List.append_nil] at hdrop
  unfold parse
  rw [hdrop]

/-- A name is read as its first separator says: as an alias if that has something on both sides. -/
theorem parse_of_split {name : String} {before after : List Char}
    (hname : name.toList = before ++ separator :: after) (hfirst : separator ∉ before) :
    parse name = if before = [] ∨ after = [] then plain name
      else aliased (String.ofList before) (String.ofList after) := by
  have hbefore : ∀ c ∈ before, (c != separator) = true := by
    intro c hc
    rw [bne_iff_ne]
    rintro rfl
    exact hfirst hc
  have htake : name.toList.takeWhile (· != separator) = before := by
    rw [hname, List.takeWhile_append_of_pos hbefore]
    exact List.append_nil before
  have hdrop : name.toList.dropWhile (· != separator) = separator :: after := by
    rw [hname, List.dropWhile_append_of_pos hbefore]
    rfl
  rw [parse, htake, hdrop]

/-- A name is read as an alias only with something on both sides of a separator, and none before it. -/
theorem of_parse_eq_aliased {name owner member : String} (h : parse name = aliased owner member) :
    owner ≠ "" ∧ separator ∉ owner.toList ∧ member ≠ "" := by
  by_cases hmem : separator ∈ name.toList
  · obtain ⟨before, after, hname, hfirst⟩ := List.eq_append_cons_of_mem hmem
    rw [parse_of_split hname hfirst] at h
    by_cases hside : before = [] ∨ after = []
    · rw [if_pos hside] at h
      cases h
    · rw [if_neg hside] at h
      cases h
      obtain ⟨hbefore, hafter⟩ := not_or.mp hside
      rw [String.toList_ofList, Ne, Ne, ← String.toList_eq_nil_iff, ← String.toList_eq_nil_iff,
        String.toList_ofList, String.toList_ofList]
      exact ⟨hbefore, hfirst, hafter⟩
  · rw [parse_of_notMem hmem] at h
    cases h

/-- An alias that is written and read again is the same alias exactly if it has something on both sides
and the separator is not in the name of the class. -/
theorem parse_display_aliased {owner member : String} :
    parse (aliased owner member).display = aliased owner member ↔
      owner ≠ "" ∧ separator ∉ owner.toList ∧ member ≠ "" := by
  constructor
  · exact of_parse_eq_aliased
  · rintro ⟨howner, hfree, hmember⟩
    -- reading stops at the separator that was written, as there is none before it
    have hsides : ¬(owner.toList = [] ∨ member.toList = []) := by
      rw [String.toList_eq_nil_iff, String.toList_eq_nil_iff, not_or]
      exact ⟨howner, hmember⟩
    have hread := @parse_of_split (aliased owner member).display _ _ String.toList_ofList hfree
    rw [if_neg hsides, String.ofList_toList, String.ofList_toList] at hread
    exact hread

/-- A key is read back from its text: an alias has something on both sides and no separator in the name of
its class, and a plain name is not written like such an alias. -/
def Readable : MemberKey → Prop
  | plain name => ∀ owner member, owner ≠ "" → separator ∉ owner.toList → member ≠ "" →
      name ≠ (aliased owner member).display
  | aliased owner member => owner ≠ "" ∧ separator ∉ owner.toList ∧ member ≠ ""

/-- The keys that are read back are those whose text is read as the key itself. -/
theorem parse_display_iff {key : MemberKey} : parse key.display = key ↔ key.Readable := by
  cases key with
  | aliased owner member => exact parse_display_aliased
  | plain name =>
    constructor
    · rintro h owner member howner hfree hmember rfl
      have hread := parse_display_aliased.mpr ⟨howner, hfree, hmember⟩
      cases hread.symm.trans h
    · intro h
      have hdisplay := display_parse name
      rcases hparse : parse name with other | ⟨owner, member⟩
      · rw [hparse] at hdisplay
        exact hparse.trans (congrArg plain hdisplay)
      · obtain ⟨howner, hfree, hmember⟩ := of_parse_eq_aliased hparse
        rw [hparse] at hdisplay
        exact absurd hdisplay.symm (h owner member howner hfree hmember)

end MemberKey

end ClassComposition
