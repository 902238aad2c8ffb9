import ClassComposition.Json.Writer
import ClassComposition.Proofs.Json.Tokens

/-!
# Written records and lists

The writer chooses one spelling: a character of a string is escaped only where it has to be, by the
short escape if there is one, and each member of a record and each item of a list stands on a line of its
own.  What is written spells the string, the record or the list that was to be written, so that reading it
gives this back.

## Main definitions

* `Json.pieceOf`, `Json.piecesOf` — the pieces that a text is written by.
* `Json.joined` — the tokens of parts that stand on lines of their own.

## Main results

* `Json.decode_piecesOf` — these pieces stand for the text, whatever its characters.
* `Json.spells_writeString`, `Json.spells_writeRecord`, `Json.spells_writeList` — what is written spells
  what it is written for.
-/

namespace ClassComposition.Json

/-! ### Strings -/

/-- The piece that a character is written by: a code unit for a control character that has no short
escape. -/
def pieceOf (c : Char) : Piece :=
  if c.toNat < 32 ∧ c ∉ ['\x08', '\x0c', '\n', '\r', '\t'] then .unit c.toNat else .char c

/-- The pieces that a text is written by. -/
def piecesOf (s : String) : List Piece := s.toList.map pieceOf

/-- A control character is written by two hexadecimal digits behind two zeros. -/
theorem hexNumber?_of_control {n : Nat} (hn : n < 32) :
    Text.hexNumber? ['0', '0', hexDigit (n / 16), hexDigit n] = some n := by
  have hall : ∀ n < 32, Text.hexNumber? ['0', '0', hexDigit (n / 16), hexDigit n] = some n := by decide
  exact hall n hn

/-- What is written for a character spells its piece. -/
theorem spelled_escapeChar (c : Char) : (pieceOf c).Spelled (escapeChar c) := by
  unfold escapeChar
  split
  · exact .short rfl
  · exact .short rfl
  · exact .short rfl
  · exact .short rfl
  · exact .short rfl
  · exact .short rfl
  · exact .short rfl
  · -- all short escapes are excluded by now: a control character is written by its code, and others as they
    -- are
    rename_i hquote hescape hback hfeed hline hreturn htab
    by_cases hcontrol : c.toNat < 32
    · have hpiece : pieceOf c = .unit c.toNat := by
        refine if_pos ⟨hcontrol, ?_⟩
        simp only [List.mem_cons, List.not_mem_nil, or_false, not_or]
        exact ⟨hback, hfeed, hline, hreturn, htab⟩
      rw [if_pos hcontrol, hpiece]
      exact .unit (hexNumber?_of_control hcontrol)
    · have hpiece : pieceOf c = .char c := if_neg fun h => hcontrol h.1
      rw [if_neg hcontrol, hpiece]
      exact .plain hquote hescape hcontrol

theorem spelledAll_escape (cs : List Char) :
    Piece.SpelledAll (cs.map pieceOf) (cs.flatMap escapeChar) := by
  induction cs with
  | nil => exact .nil
  | cons c cs ih => exact .cons (spelled_escapeChar c) ih

/-- A code unit that is no surrogate stands for a character by itself. -/
theorem decodeChars_unit {n : Nat} (hn : n < 32) (ps : List Piece) :
    decodeChars (.unit n :: ps) = (decodeChars ps).map (Char.ofNat n :: ·) := by
  have hhigh : isHighSurrogate n = false := by
    simp [isHighSurrogate]
    omega
  have hlow : isLowSurrogate n = false := by
    simp [isLowSurrogate]
    omega
  rw [decodeChars.eq_def]
  simp [hhigh, hlow]

/-- The pieces of a text stand for the text: no code unit among them is a surrogate. -/
theorem decodeChars_pieces (cs : List Char) : decodeChars (cs.map pieceOf) = some cs := by
  induction cs with
  | nil => rfl
  | cons c cs ih =>
    rw [List.map_cons]
    by_cases hcontrol : c.toNat < 32 ∧ c ∉ ['\x08', '\x0c', '\n', '\r', '\t']
    · have hpiece : pieceOf c = .unit c.toNat := if_pos hcontrol
      rw [hpiece, decodeChars_unit hcontrol.1, ih, Char.ofNat_toNat]
      rfl
    · have hpiece : pieceOf c = .char c := if_neg hcontrol
      rw [hpiece, decodeChars, ih]
      rfl

theorem decode_piecesOf (s : String) : decode (piecesOf s) = some s := by
  rw [decode, piecesOf, decodeChars_pieces, Option.map_some, String.ofList_toList]

/-- The members of an object whose names are written by such pieces are the fields of a record. -/
theorem fields?_object (members : List (String × Json)) :
    (object (members.map fun p => (piecesOf p.1, p.2))).fields? = some (.named members) := by
  have hnames : (members.map fun p => (piecesOf p.1, p.2)).mapM
      (fun m => (decode m.1).map fun name => (name, m.2)) = some members := by
    induction members with
    | nil => rfl
    | cons p members ih => simp [decode_piecesOf, ih]
  rw [fields?, hnames]
  rfl

/-- What is written for a text spells the string of its pieces, and other tokens may follow. -/
theorem spells_writeString (s : String) {ts : List Token} {cs : List Char} (h : Spells ts cs) :
    Spells (.string (piecesOf s) :: ts) ((writeString s).toList ++ cs) := by
  have hstring := Spells.string (spelledAll_escape s.toList) h
  simpa [writeString, piecesOf] using hstring

theorem spells_writeBoolean (b : Bool) : Spells (tokens (.boolean b)) (writeBoolean b).toList := by
  cases b
  · exact Spells.word (t := .boolean false) rfl .nil
  · exact Spells.word (t := .boolean true) rfl .nil

/-! ### Lines -/

/-- The tokens of some parts with commas between them, up to a closing token. -/
def joined (close : Token) : List (List Token) → List Token
  | [] => [close]
  | part :: rest => part ++ (separator rest ++ joined close rest)

theorem separator_map {α β : Type} (f : α → β) (items : List α) : separator (items.map f) = separator items := by
  cases items <;> rfl

theorem itemTokens_eq_joined (items : List Json) :
    itemTokens items = joined .closeBracket (items.map tokens) := by
  induction items with
  | nil => rfl
  | cons d items ih => rw [itemTokens, List.map_cons, joined, separator_map, ih]

theorem memberTokens_eq_joined (members : List (List Piece × Json)) :
    memberTokens members
      = joined .closeBrace (members.map fun m => .string m.1 :: .colon :: tokens m.2) := by
  induction members with
  | nil => rfl
  | cons m members ih =>
    rw [memberTokens, List.map_cons, joined, separator_map, ih]
    rfl

section Lines

variable {indent : String}

theorem isBlank_of_mem_deeper (hindent : ∀ c ∈ indent.toList, isBlank c = true) :
    ∀ c ∈ (indent ++ "  ").toList, isBlank c = true := by
  rw [String.toList_append, List.forall_mem_append]
  exact ⟨hindent, by simp [isBlank]⟩

theorem spells_indented (hindent : ∀ c ∈ indent.toList, isBlank c = true) {ts : List Token} {text : String}
    (h : Spells ts text.toList) : Spells ts (indent ++ "  " ++ text).toList := by
  rw [String.toList_append]
  exact h.blanks (isBlank_of_mem_deeper hindent)

/-- Lines that spell some parts, with commas between them and a closing bracket behind them. -/
theorem spells_lines (hindent : ∀ c ∈ indent.toList, isBlank c = true) {close : Token} {closing : String}
    (hclose : close.word? = some closing.toList) (part : List Token × String)
    {parts : List (List Token × String)} (h : ∀ p ∈ part :: parts, Spells p.1 p.2.toList) :
    Spells (joined close ((part :: parts).map Prod.fst))
      ([',', '\n'].intercalate ((part :: parts).map (·.2.toList))
        ++ '\n' :: (indent.toList ++ closing.toList)) := by
  -- what follows a line starts with a comma or a line break, and a number ends before either
  have hends : ∀ c ∈ [',', '\n'], ∀ more : List Char, Ends (c :: more) := by
    intro c hc more
    simp only [List.mem_cons, List.not_mem_nil, or_false] at hc
    rcases hc with rfl | rfl <;> constructor <;> intro d hd <;> cases hd <;> decide
  induction parts generalizing part with
  | nil =>
    have hlast : Spells [close] ('\n' :: (indent.toList ++ (closing.toList ++ []))) :=
      .blank rfl (.blanks hindent (.word hclose .nil))
    have hline := (h part List.mem_cons_self).append hlast (hends _ (by simp) _)
    simpa [joined, separator, List.intercalate] using hline
  | cons next parts ih =>
    obtain ⟨hpart, hparts⟩ := List.forall_mem_cons.mp h
    have hcomma := Spells.word (t := .comma) rfl (Spells.blank (c := '\n') rfl (ih next hparts))
    have hline := hpart.append hcomma (hends _ (by simp) _)
    simpa [joined, separator, List.intercalate] using hline

/-- Lines between brackets spell their parts between the tokens of the brackets. -/
theorem spells_block (hindent : ∀ c ∈ indent.toList, isBlank c = true) {start close : Token}
    {opening closing : String} (hopen : start.word? = some opening.toList)
    (hclose : close.word? = some closing.toList) {parts : List (List Token × String)}
    (h : ∀ p ∈ parts, Spells p.1 p.2.toList) :
    Spells (start :: joined close (parts.map Prod.fst))
      (block indent opening closing (parts.map Prod.snd)).toList := by
  cases parts with
  | nil =>
    have hbrackets := Spells.word hopen (.word hclose .nil)
    simpa [block, joined] using hbrackets
  | cons part parts =>
    have hlines := Spells.word hopen
      (Spells.blank (c := '\n') rfl (spells_lines hindent hclose part h))
    have htext : (block indent opening closing ((part :: parts).map Prod.snd)).toList
        = opening.toList ++ '\n' :: ([',', '\n'].intercalate ((part :: parts).map (·.2.toList))
          ++ '\n' :: (indent.toList ++ closing.toList)) := by
      rw [block, if_neg (by simp)]
      simp only [String.toList_append, String.toList_intercalate, List.map_map, List.append_assoc]
      rfl
    rw [htext]
    exact hlines

/-! ### Records and lists -/

/-- What is written for a record spells the object of its members. -/
theorem spells_writeRecord (hindent : ∀ c ∈ indent.toList, isBlank c = true)
    {members : List (String × String × Json)} (h : ∀ p ∈ members, Spells (tokens p.2.2) p.2.1.toList) :
    Spells (tokens (.object (members.map fun p => (piecesOf p.1, p.2.2))))
      (writeRecord indent (members.map fun p => (p.1, p.2.1))).toList := by
  let part (p : String × String × Json) : List Token × String :=
    (.string (piecesOf p.1) :: .colon :: tokens p.2.2,
      indent ++ "  " ++ (writeString p.1 ++ ": " ++ p.2.1))
  have hparts : ∀ q ∈ members.map part, Spells q.1 q.2.toList := by
    rw [List.forall_mem_map]
    intro p hp
    have hcolon : Spells (.colon :: tokens p.2.2) ([':'] ++ ' ' :: p.2.1.toList) :=
      .word rfl (.blank rfl (h p hp))
    refine spells_indented hindent ?_
    have hmember := spells_writeString p.1 hcolon
    simpa using hmember
  have hopen : Token.openBrace.word? = some "\x7b".toList := rfl
  have hclose : Token.closeBrace.word? = some "\x7d".toList := rfl
  have hblock := spells_block hindent hopen hclose hparts
  rw [List.map_map, List.map_map] at hblock
  rw [tokens, memberTokens_eq_joined, writeRecord, List.map_map, List.map_map]
  exact hblock

/-- What is written for a list spells the array of its items. -/
theorem spells_writeList (hindent : ∀ c ∈ indent.toList, isBlank c = true)
    {items : List (String × Json)} (h : ∀ p ∈ items, Spells (tokens p.2) p.1.toList) :
    Spells (tokens (.array (items.map Prod.snd))) (writeList indent (items.map Prod.fst)).toList := by
  let part (p : String × Json) : List Token × String := (tokens p.2, indent ++ "  " ++ p.1)
  have hparts : ∀ q ∈ items.map part, Spells q.1 q.2.toList := by
    rw [List.forall_mem_map]
    exact fun p hp => spells_indented hindent (h p hp)
  have hopen : Token.openBracket.word? = some "[".toList := rfl
  have hclose : Token.closeBracket.word? = some "]".toList := rfl
  have hblock := spells_block hindent hopen hclose hparts
  rw [List.map_map, List.map_map] at hblock
  rw [tokens, itemTokens_eq_joined, writeList, List.map_map, List.map_map]
  exact hblock

end Lines

end ClassComposition.Json
