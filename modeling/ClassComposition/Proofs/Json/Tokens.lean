import ClassComposition.Proofs.Json.Spelling

/-!
# The tokens of documents

A document has one sequence of tokens, and reading these tokens gives the document back, with whatever
follows.  The walk goes down no further than there are tokens.  So a text that spells the tokens of a
document, in any of the ways to spell them, is read as this document.

## Main definitions

* `Json.tokens` — the tokens of a document.

## Main results

* `Json.value?_tokens` — the tokens of a document are read as the document.
* `Json.parse?_of_spells` — so is every text that spells them.
-/

namespace ClassComposition.Json

/-- A comma, if anything follows. -/
def separator {α : Type} : List α → List Token
  | [] => []
  | _ :: _ => [.comma]

mutual

/-- The tokens of a document. -/
def tokens : Json → List Token
  | null => [.null]
  | boolean b => [.boolean b]
  | number n => [.number n]
  | string pieces => [.string pieces]
  | array items => .openBracket :: itemTokens items
  | object members => .openBrace :: memberTokens members
termination_by structural d => d

/-- The tokens of the items of an array, and the closing bracket. -/
def itemTokens : List Json → List Token
  | [] => [.closeBracket]
  | v :: rest => tokens v ++ (separator rest ++ itemTokens rest)
termination_by structural items => items

/-- The tokens of the members of an object, and the closing brace. -/
def memberTokens : List (List Piece × Json) → List Token
  | [] => [.closeBrace]
  | (name, v) :: rest => .string name :: .colon :: (tokens v ++ (separator rest ++ memberTokens rest))
termination_by structural members => members

end

/-- A document starts with a token of its own, and not with the end of an array. -/
theorem exists_first_token (d : Json) : ∃ t ts, tokens d = t :: ts ∧ t ≠ .closeBracket := by
  cases d <;> exact ⟨_, _, rfl, by nofun⟩

theorem length_tokens_pos (d : Json) : 0 < (tokens d).length := by
  obtain ⟨t, ts, htokens, -⟩ := exists_first_token d
  simp [htokens]

theorem length_itemTokens_pos (items : List Json) : 0 < (itemTokens items).length := by
  cases items with
  | nil => exact Nat.zero_lt_one
  | cons v items =>
    have hfirst := length_tokens_pos v
    rw [itemTokens, List.length_append]
    omega

theorem length_memberTokens_pos (members : List (List Piece × Json)) :
    0 < (memberTokens members).length := by
  cases members <;> exact Nat.zero_lt_succ _

/-- Behind an opening bracket that is not closed at once there are items. -/
theorem value?_openBracket {t : Token} (ht : t ≠ .closeBracket) (fuel : Nat) (ts : List Token) :
    value? (fuel + 1) (.openBracket :: t :: ts)
      = (items? fuel (t :: ts)).map fun (vs, rest) => (.array vs, rest) := by
  cases t <;> first | exact absurd rfl ht | rfl

mutual

/-- The tokens of a document are read as the document. -/
theorem value?_tokens (d : Json) {fuel : Nat} (hfuel : (tokens d).length ≤ fuel) (rest : List Token) :
    value? fuel (tokens d ++ rest) = some (d, rest) := by
  have hpos := length_tokens_pos d
  obtain ⟨fuel, rfl⟩ : ∃ n, fuel = n + 1 := ⟨fuel - 1, by omega⟩
  match d with
  | null | boolean _ | number _ | string _ | array [] | object [] => rfl
  | array (v :: items) =>
    have hitems := items?_tokens (v :: items) (by simp) (Nat.le_of_succ_le_succ hfuel) rest
    obtain ⟨t, ts, htokens, ht⟩ := exists_first_token v
    -- the first item does not start with a closing bracket, so the array is not taken for an empty one
    have hfirst : itemTokens (v :: items) ++ rest
        = t :: (ts ++ (separator items ++ itemTokens items) ++ rest) := by
      rw [itemTokens, htokens]
      rfl
    rw [tokens, List.cons_append, hfirst, value?_openBracket ht, ← hfirst, hitems]
    rfl
  | object ((name, v) :: members) =>
    have hmembers := members?_tokens ((name, v) :: members) (by simp) (Nat.le_of_succ_le_succ hfuel) rest
    show (members? fuel (memberTokens ((name, v) :: members) ++ rest)).map _ = _
    rw [hmembers]
    rfl
termination_by structural d

/-- So are the items of an array, up to the closing bracket. -/
theorem items?_tokens (items : List Json) (hne : items ≠ []) {fuel : Nat}
    (hfuel : (itemTokens items).length ≤ fuel) (rest : List Token) :
    items? fuel (itemTokens items ++ rest) = some (items, rest) := by
  match items with
  | [] => exact absurd rfl hne
  | v :: more =>
    have hpos := length_itemTokens_pos more
    have hfirst := length_tokens_pos v
    rw [itemTokens, List.length_append, List.length_append] at hfuel
    obtain ⟨fuel, rfl⟩ : ∃ n, fuel = n + 1 := ⟨fuel - 1, by omega⟩
    -- a comma or the closing bracket comes behind the first item, and decides whether the walk goes on
    have hread := value?_tokens v (show (tokens v).length ≤ fuel by omega)
      (separator more ++ itemTokens more ++ rest)
    rw [itemTokens, List.append_assoc, items?, hread]
    match more with
    | [] => rfl
    | w :: others =>
      have hothers := items?_tokens (w :: others) (by simp)
        (show (itemTokens (w :: others)).length ≤ fuel by omega) rest
      show (items? fuel (itemTokens (w :: others) ++ rest)).map _ = _
      rw [hothers]
      rfl
termination_by structural items

/-- So are the members of an object, up to the closing brace. -/
theorem members?_tokens (members : List (List Piece × Json)) (hne : members ≠ []) {fuel : Nat}
    (hfuel : (memberTokens members).length ≤ fuel) (rest : List Token) :
    members? fuel (memberTokens members ++ rest) = some (members, rest) := by
  match members with
  | [] => exact absurd rfl hne
  | (name, v) :: more =>
    have hpos := length_memberTokens_pos more
    rw [memberTokens, List.length_cons, List.length_cons, List.length_append, List.length_append]
      at hfuel
    obtain ⟨fuel, rfl⟩ : ∃ n, fuel = n + 1 := ⟨fuel - 1, by omega⟩
    have hread := value?_tokens v (show (tokens v).length ≤ fuel by omega)
      (separator more ++ memberTokens more ++ rest)
    rw [memberTokens, List.cons_append, List.cons_append, List.append_assoc, members?, hread]
    match more with
    | [] => rfl
    | m :: others =>
      have hothers := members?_tokens (m :: others) (by simp)
        (show (memberTokens (m :: others)).length ≤ fuel by omega) rest
      show (members? fuel (memberTokens (m :: others) ++ rest)).map _ = _
      rw [hothers]
      rfl
termination_by structural members

end

/-- A text is read as the document whose tokens it is cut into. -/
theorem parse?_of_tokens {d : Json} {text : String} (h : tokens? text.toList = some (tokens d)) :
    parse? text = some d := by
  have hread := value?_tokens d (show (tokens d).length ≤ 2 * (tokens d).length + 1 by omega) []
  rw [List.append_nil] at hread
  simp [parse?, h, hread]

/-- So it is read as the document whose tokens it spells. -/
theorem parse?_of_spells {d : Json} {text : String} (h : Spells (tokens d) text.toList) :
    parse? text = some d := parse?_of_tokens (tokens?_of_spells h)

end ClassComposition.Json
