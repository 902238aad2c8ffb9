/-!
# Insertion-ordered association lists

Class bodies, skeletons, prototypes and registries are all finite maps whose entries keep the order in
which their keys first arrived.  `Assoc κ α` is such a map as a plain list of pairs: looking a key up
answers its first entry, and writing a present key replaces the value where it stands, so the order of
keys never changes once they are in.

## Main definitions

* `Assoc.get?`, `Assoc.contains`, `Assoc.keys` — reading.
* `Assoc.insert` — replace in place, or append.
* `Assoc.ofList` — the map that writes the pairs in turn.
* `Assoc.update` — change the value under a key, starting from a default.

## Main results

* `Assoc.get?_insert_self`, `Assoc.get?_insert_of_ne` — reading after writing.
* `Assoc.keys_insert` — writing appends the key exactly when it is new.
* `Assoc.nodup_keys_insert` — keys stay pairwise different.
* `Assoc.get?_of_mem` — where they are different, every entry is found.
-/

namespace ClassComposition

/-- A finite map as a list of pairs, in the order in which the keys first arrived. -/
abbrev Assoc (κ α : Type) := List (κ × α)

namespace Assoc

variable {κ α : Type} [DecidableEq κ]

/-- The value under the first entry with this key. -/
def get? : Assoc κ α → κ → Option α
  | [], _ => none
  | (k, v) :: rest, key => if k = key then some v else get? rest key

/-- Whether some entry has this key. -/
def contains (m : Assoc κ α) (key : κ) : Bool := (get? m key).isSome

/-- The keys in order of arrival. -/
def keys (m : Assoc κ α) : List κ := m.map Prod.fst

/-- The values in the order of their keys. -/
def values (m : Assoc κ α) : List α := m.map Prod.snd

/-- Write a value: a present key keeps its place and takes the value, a new key goes to the end. -/
def insert : Assoc κ α → κ → α → Assoc κ α
  | [], key, value => [(key, value)]
  | (k, v) :: rest, key, value =>
    if k = key then (key, value) :: rest else (k, v) :: insert rest key value

/-- The map that writes the pairs one after the other. -/
def ofList (pairs : List (κ × α)) : Assoc κ α :=
  pairs.foldl (fun m p => insert m p.1 p.2) []

/-- Change the value under a key; a missing key counts as holding `start`. -/
def update (m : Assoc κ α) (key : κ) (start : α) (f : α → α) : Assoc κ α :=
  insert m key (f ((get? m key).getD start))

/-! ### Reading after writing -/

@[simp] theorem get?_nil (key : κ) : get? ([] : Assoc κ α) key = none := rfl

theorem get?_insert_self (m : Assoc κ α) (key : κ) (value : α) :
    get? (insert m key value) key = some value := by
  induction m with
  | nil => simp [insert, get?]
  | cons p rest ih =>
    obtain ⟨k, v⟩ := p
    by_cases h : k = key
    · simp [insert, get?, h]
    · simp [insert, get?, h, ih]

theorem get?_insert_of_ne (m : Assoc κ α) {key other : κ} (value : α) (h : key ≠ other) :
    get? (insert m key value) other = get? m other := by
  induction m with
  | nil => simp [insert, get?, h]
  | cons p rest ih =>
    obtain ⟨k, v⟩ := p
    by_cases hk : k = key
    · subst hk
      simp [insert, get?, h]
    · by_cases ho : k = other
      · simp [insert, get?, ho, ho ▸ hk]
      · simp [insert, get?, hk, ho, ih]

theorem get?_insert (m : Assoc κ α) (key other : κ) (value : α) :
    get? (insert m key value) other = if key = other then some value else get? m other := by
  by_cases h : key = other
  · subst h
    simp [get?_insert_self]
  · simp [get?_insert_of_ne m value h, h]

/-! ### Keys -/

theorem get?_isSome_iff (m : Assoc κ α) (key : κ) : (get? m key).isSome ↔ key ∈ keys m := by
  induction m with
  | nil => simp [keys]
  | cons p rest ih =>
    obtain ⟨k, v⟩ := p
    by_cases h : k = key
    · simp [get?, keys, h]
    · simp [get?, keys, h, ih, Ne.symm h]

theorem mem_keys_iff (m : Assoc κ α) (key : κ) : key ∈ keys m ↔ ∃ value, get? m key = some value := by
  rw [← get?_isSome_iff, Option.isSome_iff_exists]

theorem contains_iff (m : Assoc κ α) (key : κ) : contains m key = true ↔ key ∈ keys m :=
  get?_isSome_iff m key

theorem get?_eq_none_iff (m : Assoc κ α) (key : κ) : get? m key = none ↔ key ∉ keys m := by
  rw [← get?_isSome_iff]
  cases get? m key <;> simp

/-- Writing appends the key exactly when it is new. -/
theorem keys_insert (m : Assoc κ α) (key : κ) (value : α) :
    keys (insert m key value) = if key ∈ keys m then keys m else keys m ++ [key] := by
  induction m with
  | nil => simp [insert, keys]
  | cons p rest ih =>
    obtain ⟨k, v⟩ := p
    by_cases h : k = key
    · simp [insert, keys, h]
    · have ih' : (insert rest key value).map Prod.fst
          = if key ∈ rest.map Prod.fst then rest.map Prod.fst else rest.map Prod.fst ++ [key] := ih
      by_cases hm : key ∈ rest.map Prod.fst
      · simp [insert, keys, h, ih', hm, Ne.symm h]
      · simp [insert, keys, h, ih', hm, Ne.symm h]

theorem mem_keys_insert (m : Assoc κ α) (key other : κ) (value : α) :
    other ∈ keys (insert m key value) ↔ other = key ∨ other ∈ keys m := by
  rw [keys_insert]
  by_cases h : key ∈ keys m
  · simp only [h, if_true]
    constructor
    · exact Or.inr
    · rintro (rfl | h')
      · exact h
      · exact h'
  · simp [h, or_comm]

theorem mem_keys_insert_of_mem {m : Assoc κ α} {key other : κ} {value : α} (h : other ∈ keys m) :
    other ∈ keys (insert m key value) := (mem_keys_insert m key other value).mpr (.inr h)

/-- Keys that are pairwise different stay so when a value is written. -/
theorem nodup_keys_insert {m : Assoc κ α} (h : (keys m).Nodup) (key : κ) (value : α) :
    (keys (insert m key value)).Nodup := by
  rw [keys_insert]
  by_cases hm : key ∈ keys m
  · simpa [hm] using h
  · simp only [hm, if_false]
    rw [List.nodup_append]
    refine ⟨h, by simp, ?_⟩
    intro a ha b hb
    have hbk : b = key := by simpa using hb
    rintro rfl
    exact hm (hbk ▸ ha)

/-- A map written at a new key ends with the new entry. -/
theorem insert_of_notMem {m : Assoc κ α} {key : κ} (h : key ∉ keys m) (value : α) :
    insert m key value = m ++ [(key, value)] := by
  induction m with
  | nil => rfl
  | cons p rest ih =>
    obtain ⟨k, v⟩ := p
    have hk : k ≠ key := fun e => h (by simp [keys, e])
    have hr : key ∉ keys rest := fun e => h (by simp only [keys, List.map_cons, List.mem_cons]; exact .inr e)
    simp [insert, hk, ih hr]

/-! ### Entries -/

theorem mem_of_get? {m : Assoc κ α} {key : κ} {value : α} (h : get? m key = some value) :
    (key, value) ∈ m := by
  induction m with
  | nil => simp at h
  | cons p rest ih =>
    obtain ⟨k, v⟩ := p
    by_cases hk : k = key
    · simp only [get?, hk, if_true, Option.some.injEq] at h
      rw [hk, h]
      exact List.mem_cons_self
    · simp only [get?, hk, if_false] at h
      exact List.mem_cons_of_mem _ (ih h)

omit [DecidableEq κ] in
theorem mem_keys_of_mem {m : Assoc κ α} {p : κ × α} (h : p ∈ m) : p.1 ∈ keys m :=
  List.mem_map_of_mem h

/-- Where keys are pairwise different, every entry is found under its key. -/
theorem get?_of_mem {m : Assoc κ α} (hm : (keys m).Nodup) {key : κ} {value : α}
    (h : (key, value) ∈ m) : get? m key = some value := by
  induction m with
  | nil => cases h
  | cons p rest ih =>
    obtain ⟨k, v⟩ := p
    obtain ⟨hnotMem, hrest⟩ := List.nodup_cons.mp hm
    rcases List.mem_cons.mp h with heq | hmem
    · cases heq
      simp [get?]
    · have hk : k ≠ key := by
        rintro rfl
        have hkey := mem_keys_of_mem hmem
        exact hnotMem hkey
      simp only [get?, hk, if_false]
      exact ih hrest hmem

theorem mem_insert {m : Assoc κ α} {key : κ} {value : α} {p : κ × α}
    (h : p ∈ insert m key value) : p = (key, value) ∨ p ∈ m := by
  induction m with
  | nil => exact .inl (List.mem_singleton.mp h)
  | cons q rest ih =>
    obtain ⟨k, v⟩ := q
    by_cases hk : k = key
    · simp only [insert, hk, if_true] at h
      rcases List.mem_cons.mp h with heq | hmem
      · exact .inl heq
      · exact .inr (List.mem_cons_of_mem _ hmem)
    · simp only [insert, hk, if_false] at h
      rcases List.mem_cons.mp h with heq | hmem
      · exact .inr (heq ▸ List.mem_cons_self)
      · exact (ih hmem).imp_right (List.mem_cons_of_mem _)

/-- What holds of all entries and of the one that is written holds of all entries afterwards. -/
theorem forall_mem_insert {P : κ × α → Prop} {m : Assoc κ α} {key : κ} {value : α}
    (hm : ∀ p ∈ m, P p) (hnew : P (key, value)) : ∀ p ∈ insert m key value, P p := by
  intro p hp
  rcases mem_insert hp with rfl | hmem
  · exact hnew
  · exact hm p hmem

theorem get?_append (m n : Assoc κ α) (key : κ) :
    get? (m ++ n) key = (get? m key).or (get? n key) := by
  induction m with
  | nil => simp
  | cons p rest ih =>
    obtain ⟨k, v⟩ := p
    by_cases hk : k = key
    · simp [get?, hk]
    · simp [get?, hk, ih]

theorem get?_map {β : Type} (f : α → β) (m : Assoc κ α) (key : κ) :
    get? (m.map fun p => (p.1, f p.2)) key = (get? m key).map f := by
  induction m with
  | nil => rfl
  | cons p rest ih =>
    obtain ⟨k, v⟩ := p
    by_cases hk : k = key
    · simp [get?, hk]
    · simp [get?, hk, ih]

theorem insert_of_get? {m : Assoc κ α} {key : κ} {value : α} (h : get? m key = some value) :
    insert m key value = m := by
  induction m with
  | nil => cases h
  | cons p rest ih =>
    obtain ⟨k, v⟩ := p
    by_cases hk : k = key
    · subst hk
      rw [get?, if_pos rfl] at h
      cases h
      rw [insert, if_pos rfl]
    · rw [get?, if_neg hk] at h
      rw [insert, if_neg hk, ih h]

theorem insert_insert (m : Assoc κ α) (key : κ) (first last : α) :
    insert (insert m key first) key last = insert m key last := by
  induction m with
  | nil => simp [insert]
  | cons p rest ih =>
    obtain ⟨k, v⟩ := p
    by_cases hk : k = key
    · rw [insert, if_pos hk, insert, if_pos rfl, insert, if_pos hk]
    · rw [insert, if_neg hk, insert, if_neg hk, ih, insert, if_neg hk]

/-- Writing a key that is there changes the value where it stands. -/
theorem insert_eq_map {m : Assoc κ α} (hm : (keys m).Nodup) {key : κ} (h : key ∈ keys m) (value : α) :
    insert m key value = m.map fun p => (p.1, if p.1 = key then value else p.2) := by
  induction m with
  | nil => cases h
  | cons p rest ih =>
    obtain ⟨k, v⟩ := p
    obtain ⟨hnotMem, hrest⟩ := List.nodup_cons.mp hm
    by_cases hk : k = key
    · -- the key stands here only, so the map below changes no other entry
      subst hk
      have hothers : ∀ q ∈ rest, (q.1, if q.1 = k then value else q.2) = q := by
        intro q hq
        have hne : q.1 ≠ k := by
          rintro rfl
          have hkey := mem_keys_of_mem hq
          exact hnotMem hkey
        rw [if_neg hne]
      rw [insert, if_pos rfl, List.map_cons, if_pos rfl, List.map_congr_left hothers, List.map_id']
    · have hmem : key ∈ keys rest := by
        rcases List.mem_cons.mp h with rfl | hmem
        · exact absurd rfl hk
        · exact hmem
      rw [insert, if_neg hk, ih hrest hmem, List.map_cons, if_neg hk]

/-! ### Writing in turn -/

theorem get?_foldl_insert_of_notMem (pairs : List (κ × α)) {key : κ} (h : key ∉ keys pairs) :
    ∀ m : Assoc κ α, get? (pairs.foldl (fun m p => insert m p.1 p.2) m) key = get? m key := by
  induction pairs with
  | nil => exact fun _ => rfl
  | cons p rest ih =>
    intro m
    have hp : p.1 ≠ key := fun heq => h (heq ▸ List.mem_cons_self)
    have hrest : key ∉ keys rest := fun hmem => h (List.mem_cons_of_mem _ hmem)
    rw [List.foldl_cons, ih hrest, get?_insert_of_ne _ _ hp]

/-- Pairs under keys that are new and pairwise different are appended. -/
theorem foldl_insert_of_nodup (pairs : List (κ × α)) :
    ∀ {m : Assoc κ α}, (keys (m ++ pairs)).Nodup →
      pairs.foldl (fun m p => insert m p.1 p.2) m = m ++ pairs := by
  induction pairs with
  | nil => exact fun _ => (List.append_nil _).symm
  | cons p rest ih =>
    intro m hm
    have hfresh : p.1 ∉ keys m := by
      rw [keys, List.map_append, List.nodup_append] at hm
      intro hmem
      exact hm.2.2 p.1 hmem p.1 List.mem_cons_self rfl
    rw [List.foldl_cons, insert_of_notMem hfresh, ih]
    · rw [List.append_assoc, List.singleton_append]
    · rw [List.append_assoc, List.singleton_append]
      exact hm

theorem ofList_of_nodup {pairs : List (κ × α)} (h : (keys pairs).Nodup) : ofList pairs = pairs :=
  foldl_insert_of_nodup pairs h

theorem mem_foldl_insert {pairs : List (κ × α)} {p : κ × α} :
    ∀ {m : Assoc κ α}, p ∈ pairs.foldl (fun m p => insert m p.1 p.2) m → p ∈ m ∨ p ∈ pairs := by
  induction pairs with
  | nil => exact fun h => .inl h
  | cons q rest ih =>
    intro m h
    rcases ih h with hinsert | hrest
    · rcases mem_insert hinsert with rfl | hm
      · exact .inr List.mem_cons_self
      · exact .inl hm
    · exact .inr (List.mem_cons_of_mem _ hrest)

/-- Every entry of the map that pairs give is one of the pairs. -/
theorem mem_of_mem_ofList {pairs : List (κ × α)} {p : κ × α} (h : p ∈ ofList pairs) : p ∈ pairs := by
  rcases mem_foldl_insert h with hnil | hp
  · cases hnil
  · exact hp

/-! ### Some of the keys -/

/-- Writing commutes with keeping the keys of one sort. -/
theorem filter_insert (test : κ → Bool) (m : Assoc κ α) (key : κ) (value : α) :
    (insert m key value).filter (fun p => test p.1) =
      if test key then insert (m.filter fun p => test p.1) key value
      else m.filter fun p => test p.1 := by
  induction m with
  | nil => by_cases ht : test key = true <;> simp [insert, ht]
  | cons p rest ih =>
    obtain ⟨k, v⟩ := p
    by_cases hk : k = key
    · subst hk
      by_cases ht : test k = true <;> simp [insert, ht]
    · rw [insert, if_neg hk, List.filter_cons, List.filter_cons, ih]
      by_cases ht : test key = true <;> by_cases htk : test k = true <;> simp [insert, ht, htk, hk]

theorem get?_filter (test : κ → Bool) (m : Assoc κ α) {key : κ} (h : test key = true) :
    get? (m.filter fun p => test p.1) key = get? m key := by
  induction m with
  | nil => rfl
  | cons p rest ih =>
    obtain ⟨k, v⟩ := p
    rw [List.filter_cons]
    by_cases hk : k = key
    · subst hk
      simp [get?, h]
    · by_cases htk : test k = true <;> simp [get?, htk, hk, ih]

omit [DecidableEq κ] in
theorem nodup_keys_filter (test : κ → Bool) {m : Assoc κ α} (h : (keys m).Nodup) :
    (keys (m.filter fun p => test p.1)).Nodup :=
  h.sublist (List.Sublist.map Prod.fst List.filter_sublist)

end Assoc

end ClassComposition
