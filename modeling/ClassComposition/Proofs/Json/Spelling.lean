import ClassComposition.Json.Reader

/-!
# Spellings of tokens

A token can be written in several ways: a character of a string as it is or by an escape, a number with
or without an exponent, and blanks may stand anywhere between two tokens.  The relations below say which
texts spell which tokens, without the reader's recursion and its bound; the reader finds the tokens of
every text that spells some.

## Main definitions

* `Json.Piece.Spelled`, `Json.Piece.SpelledAll` — strings.
* `Json.Numeral.Spelled` — numbers.
* `Json.Spells` — sequences of tokens, with blanks between them.

## Main results

* `Json.pieces?_of_spelled`, `Json.numeral?_of_spelled` — one string and one number are read.
* `Json.Spells.append` — spellings are put together.
* `Json.tokens?_of_spells` — a text is cut into the tokens that it spells.
-/

namespace ClassComposition.Json

/-! ### Strings -/

/-- How a piece of a string may be written. -/
inductive Piece.Spelled : Piece → List Char → Prop
  /-- A character as it is, if it is no quote, backslash or control character. -/
  | plain {c : Char} (hquote : c ≠ '"') (hescape : c ≠ '\\') (hcontrol : ¬ c.toNat < 32) :
      Spelled (.char c) [c]
  /-- A character by its short escape. -/
  | short {letter c : Char} (h : shortEscape? letter = some c) : Spelled (.char c) ['\\', letter]
  /-- A code unit by four hexadecimal digits. -/
  | unit {a b c d : Char} {n : Nat} (h : Text.hexNumber? [a, b, c, d] = some n) :
      Spelled (.unit n) ['\\', 'u', a, b, c, d]

/-- How the pieces of a string may be written one after the other. -/
inductive Piece.SpelledAll : List Piece → List Char → Prop
  | nil : SpelledAll [] []
  | cons {p : Piece} {ps : List Piece} {text more : List Char} (first : p.Spelled text)
      (below : SpelledAll ps more) : SpelledAll (p :: ps) (text ++ more)

/-- The pieces of a string are read however they are written. -/
theorem pieces?_of_spelled {ps : List Piece} {body : List Char} (h : Piece.SpelledAll ps body)
    (rest : List Char) : pieces? (body ++ '"' :: rest) = some (ps, rest) := by
  induction h with
  | nil => rfl
  | @cons p ps text more first _ ih =>
    rw [List.append_assoc]
    cases first with
    | @plain c hquote hescape hcontrol =>
      rw [List.singleton_append, pieces?]
      · rw [if_neg (not_or.mpr ⟨hescape, hcontrol⟩), ih]
        rfl
      · exact hquote
      · exact fun _ _ _ _ _ h _ => hescape h
      · exact fun _ _ h _ => hescape h
    | @short letter c hshort =>
      show pieces? ('\\' :: letter :: (more ++ '"' :: rest)) = _
      rw [pieces?, hshort, ih]
      · rfl
      · -- the letter of the long escape is that of no short one
        intro _ _ _ _ _ h _
        rw [h] at hshort
        cases hshort
    | @unit a b c d n hunit =>
      show pieces? ('\\' :: 'u' :: a :: b :: c :: d :: (more ++ '"' :: rest)) = _
      rw [pieces?, hunit, ih]
      rfl

/-! ### Numbers -/

/-- The characters are the digits with these values. -/
def DigitsSpelled (ds : List Nat) (cs : List Char) : Prop := cs.map Text.digit? = ds.map some

/-- How a fraction may be written. -/
inductive FractionSpelled : Option (List Nat) → List Char → Prop
  | none : FractionSpelled none []
  | some {ds : List Nat} {cs : List Char} (hds : ds ≠ []) (h : DigitsSpelled ds cs) :
      FractionSpelled (some ds) ('.' :: cs)

/-- How an exponent may be written. -/
inductive ExponentSpelled : Option Int → List Char → Prop
  | none : ExponentSpelled none []
  | bare {letter : Char} {ds : List Nat} {cs : List Char} (hletter : letter = 'e' ∨ letter = 'E')
      (hds : ds ≠ []) (h : DigitsSpelled ds cs) :
      ExponentSpelled (some (Text.valueOfDigits ds)) (letter :: cs)
  | plus {letter : Char} {ds : List Nat} {cs : List Char} (hletter : letter = 'e' ∨ letter = 'E')
      (hds : ds ≠ []) (h : DigitsSpelled ds cs) :
      ExponentSpelled (some (Text.valueOfDigits ds)) (letter :: '+' :: cs)
  | minus {letter : Char} {ds : List Nat} {cs : List Char} (hletter : letter = 'e' ∨ letter = 'E')
      (hds : ds ≠ []) (h : DigitsSpelled ds cs) :
      ExponentSpelled (some (-(Text.valueOfDigits ds : Int))) (letter :: '-' :: cs)

/-- How a number may be written: a sign, digits that start with a zero only if it stands alone, a
fraction and an exponent. -/
inductive Numeral.Spelled : Numeral → List Char → Prop
  | mk {n : Numeral} {whole fraction exponent : List Char} (hwhole : n.whole ≠ [])
      (hzero : n.whole.head? = some 0 → n.whole = [0]) (hdigits : DigitsSpelled n.whole whole)
      (hfraction : FractionSpelled n.fraction? fraction)
      (hexponent : ExponentSpelled n.exponent? exponent) :
      Spelled n ((if n.isNegative then ['-'] else []) ++ (whole ++ (fraction ++ exponent)))

/-- No digit follows. -/
def NoDigit (cs : List Char) : Prop := ∀ c ∈ cs.head?, Text.digit? c = none

/-- Nothing follows that would go on with a number. -/
def Ends (cs : List Char) : Prop :=
  NoDigit cs ∧ ∀ c ∈ cs.head?, c ≠ '.' ∧ c ≠ 'e' ∧ c ≠ 'E'

variable {cs rest : List Char} {ds : List Nat}

/-- All digits are read, when no further one follows. -/
theorem digits_of_spelled (h : DigitsSpelled ds cs) (hrest : NoDigit rest) :
    digits (cs ++ rest) = (ds, rest) := by
  induction cs generalizing ds with
  | nil =>
    obtain rfl : ds = [] := List.map_eq_nil_iff.mp h.symm
    cases rest with
    | nil => rfl
    | cons c rest =>
      have hc : Text.digit? c = none := hrest c rfl
      simp [digits, hc]
  | cons c cs ih =>
    cases ds with
    | nil => cases h
    | cons d ds =>
      obtain ⟨hfirst, hbelow⟩ := List.cons.inj h
      simp [digits, hfirst, ih hbelow]

theorem someDigits?_of_spelled (hds : ds ≠ []) (h : DigitsSpelled ds cs) (hrest : NoDigit rest) :
    someDigits? (cs ++ rest) = some (ds, rest) := by
  cases ds with
  | nil => exact absurd rfl hds
  | cons d ds => rw [someDigits?, digits_of_spelled h hrest]

theorem whole?_of_spelled (hds : ds ≠ []) (hzero : ds.head? = some 0 → ds = [0])
    (h : DigitsSpelled ds cs) (hrest : NoDigit rest) : whole? (cs ++ rest) = some (ds, rest) := by
  rw [whole?, someDigits?_of_spelled hds h hrest]
  split
  · rename_i d more rest' heq
    cases heq
    cases hzero rfl
  · rfl

theorem fraction?_of_spelled {fraction : Option (List Nat)} (h : FractionSpelled fraction cs)
    (hrest : NoDigit rest) (hpoint : ∀ c ∈ rest.head?, c ≠ '.') :
    Json.fraction? (cs ++ rest) = some (fraction, rest) := by
  cases h with
  | none =>
    cases rest with
    | nil => rfl
    | cons c rest =>
      rw [List.nil_append, Json.fraction?]
      intro rest' heq
      exact hpoint c rfl (List.cons.inj heq).1
  | some hds hdigits =>
    rw [List.cons_append, Json.fraction?, someDigits?_of_spelled hds hdigits hrest]
    rfl

theorem exponentTail?_of_digits (hds : ds ≠ []) (h : DigitsSpelled ds cs) (hrest : NoDigit rest) :
    exponentTail? (cs ++ rest) = some (some (Text.valueOfDigits ds : Int), rest) := by
  cases cs with
  | nil =>
    cases ds with
    | nil => exact absurd rfl hds
    | cons d ds => cases h
  | cons c cs =>
    -- a digit is no sign, so neither of the two signed forms applies
    have hdigit : Text.digit? c ≠ none := by
      cases ds with
      | nil => cases h
      | cons d ds =>
        rw [(List.cons.inj h).1]
        exact Option.some_ne_none d
    rw [List.cons_append, exponentTail?, ← List.cons_append, someDigits?_of_spelled hds h hrest]
    · rfl
    · rintro _ heq
      rw [(List.cons.inj heq).1] at hdigit
      exact hdigit (by decide)
    · rintro _ heq
      rw [(List.cons.inj heq).1] at hdigit
      exact hdigit (by decide)

theorem exponent?_of_spelled {exponent : Option Int} (h : ExponentSpelled exponent cs)
    (hrest : Ends rest) : Json.exponent? (cs ++ rest) = some (exponent, rest) := by
  cases h with
  | none =>
    cases rest with
    | nil => rfl
    | cons c rest =>
      obtain ⟨-, hlower, hupper⟩ := hrest.2 c rfl
      rw [List.nil_append, Json.exponent?]
      · exact fun rest' heq => hlower (List.cons.inj heq).1
      · exact fun rest' heq => hupper (List.cons.inj heq).1
  | bare hletter hds hdigits =>
    rcases hletter with rfl | rfl
    · exact exponentTail?_of_digits hds hdigits hrest.1
    · exact exponentTail?_of_digits hds hdigits hrest.1
  | plus hletter hds hdigits =>
    have htail := someDigits?_of_spelled hds hdigits hrest.1
    rcases hletter with rfl | rfl
    · simp [Json.exponent?, exponentTail?, htail]
    · simp [Json.exponent?, exponentTail?, htail]
  | minus hletter hds hdigits =>
    have htail := someDigits?_of_spelled hds hdigits hrest.1
    rcases hletter with rfl | rfl
    · simp [Json.exponent?, exponentTail?, htail]
    · simp [Json.exponent?, exponentTail?, htail]

/-- What follows the digits of a number starts with no digit, and what follows the fraction with no
point. -/
theorem follows_exponent {exponent : Option Int} (h : ExponentSpelled exponent cs)
    (hrest : Ends rest) : NoDigit (cs ++ rest) ∧ ∀ c ∈ (cs ++ rest).head?, c ≠ '.' := by
  have hletters : ∀ letter : Char, letter = 'e' ∨ letter = 'E' →
      Text.digit? letter = none ∧ letter ≠ '.' := by
    rintro letter (rfl | rfl) <;> decide
  cases h with
  | none => exact ⟨hrest.1, fun c hc => (hrest.2 c hc).1⟩
  | bare hletter | plus hletter | minus hletter =>
    refine ⟨fun c hc => ?_, fun c hc => ?_⟩
    · cases hc
      exact (hletters _ hletter).1
    · cases hc
      exact (hletters _ hletter).2

theorem follows_fraction {fraction : Option (List Nat)} (h : FractionSpelled fraction cs)
    (hrest : NoDigit rest) : NoDigit (cs ++ rest) := by
  cases h with
  | none => exact hrest
  | some =>
    intro c hc
    cases hc
    decide

theorem magnitude?_of_spelled {n : Numeral} {whole fraction exponent : List Char}
    (hwhole : n.whole ≠ []) (hzero : n.whole.head? = some 0 → n.whole = [0])
    (hdigits : DigitsSpelled n.whole whole) (hfraction : FractionSpelled n.fraction? fraction)
    (hexponent : ExponentSpelled n.exponent? exponent) (hrest : Ends rest) :
    magnitude? n.isNegative (whole ++ (fraction ++ (exponent ++ rest))) = some (n, rest) := by
  obtain ⟨hnoDigit, hnoPoint⟩ := follows_exponent hexponent hrest
  rw [magnitude?, whole?_of_spelled hwhole hzero hdigits (follows_fraction hfraction hnoDigit),
    Option.bind_eq_bind, Option.bind_some]
  simp only [fraction?_of_spelled hfraction hnoDigit hnoPoint, exponent?_of_spelled hexponent hrest,
    Option.bind_eq_bind, Option.bind_some]
  rfl

theorem exists_digit_of_spelled (hds : ds ≠ []) (h : DigitsSpelled ds cs) :
    ∃ c more d, cs = c :: more ∧ Text.digit? c = some d := by
  cases cs with
  | nil =>
    cases ds with
    | nil => exact absurd rfl hds
    | cons d ds => cases h
  | cons c more =>
    cases ds with
    | nil => cases h
    | cons d ds => exact ⟨c, more, d, rfl, (List.cons.inj h).1⟩

/-- A number is read however it is written, when it ends there. -/
theorem numeral?_of_spelled {n : Numeral} (h : n.Spelled cs) (hrest : Ends rest) :
    numeral? (cs ++ rest) = some (n, rest) := by
  obtain ⟨hwhole, hzero, hdigits, hfraction, hexponent⟩ := h
  rename_i whole fraction exponent
  have hread := magnitude?_of_spelled hwhole hzero hdigits hfraction hexponent hrest
  rcases hsign : n.isNegative with _ | _
  · obtain ⟨c, more, d, rfl, hc⟩ := exists_digit_of_spelled hwhole hdigits
    rw [hsign] at hread
    simp only [Bool.false_eq_true, if_false, List.nil_append, List.append_assoc, List.cons_append]
      at hread ⊢
    rw [numeral?]
    · exact hread
    · rintro _ heq
      rw [(List.cons.inj heq).1] at hc
      cases hc
  · rw [hsign] at hread
    simpa [numeral?] using hread

/-! ### Tokens -/

/-- The text of a token that is always written alike. -/
def Token.word? : Token → Option (List Char)
  | openBrace => some ['\x7b']
  | closeBrace => some ['\x7d']
  | openBracket => some ['[']
  | closeBracket => some [']']
  | colon => some [':']
  | comma => some [',']
  | null => some ['n', 'u', 'l', 'l']
  | boolean true => some ['t', 'r', 'u', 'e']
  | boolean false => some ['f', 'a', 'l', 's', 'e']
  | number _ | string _ => none

/-- How tokens may be written one after the other: blanks stand anywhere between them, and a number ends
where nothing follows that would go on with it. -/
inductive Spells : List Token → List Char → Prop
  | nil : Spells [] []
  | blank {ts : List Token} {c : Char} {cs : List Char} (h : isBlank c = true) (below : Spells ts cs) :
      Spells ts (c :: cs)
  | word {t : Token} {ts : List Token} {text cs : List Char} (h : t.word? = some text)
      (below : Spells ts cs) : Spells (t :: ts) (text ++ cs)
  | number {n : Numeral} {ts : List Token} {text cs : List Char} (h : n.Spelled text) (hends : Ends cs)
      (below : Spells ts cs) : Spells (.number n :: ts) (text ++ cs)
  | string {ps : List Piece} {ts : List Token} {body cs : List Char} (h : Piece.SpelledAll ps body)
      (below : Spells ts cs) : Spells (.string ps :: ts) ('"' :: (body ++ '"' :: cs))

theorem Ends.append {more : List Char} (h : Ends cs) (hmore : Ends more) : Ends (cs ++ more) := by
  cases cs with
  | nil => exact hmore
  | cons c cs => exact h

/-- Spellings may be written one after the other, where a number at the end of the first would end. -/
theorem Spells.append {ts us : List Token} {more : List Char} (h : Spells ts cs) (hmore : Spells us more)
    (hends : Ends more) : Spells (ts ++ us) (cs ++ more) := by
  induction h with
  | nil => exact hmore
  | blank hblank _ ih => exact .blank hblank ih
  | word hword _ ih =>
    rw [List.append_assoc]
    exact .word hword ih
  | number hnumber hend _ ih =>
    rw [List.append_assoc]
    exact .number hnumber (hend.append hends) ih
  | @string ps ts body cs hbody _ ih =>
    have hstring := Spells.string hbody ih
    simpa using hstring

theorem Spells.blanks {ts : List Token} {blanks : List Char} (hblanks : ∀ c ∈ blanks, isBlank c = true)
    (h : Spells ts cs) : Spells ts (blanks ++ cs) := by
  induction blanks with
  | nil => exact h
  | cons c blanks ih =>
    rw [List.forall_mem_cons] at hblanks
    exact .blank hblanks.1 (ih hblanks.2)

/-- A token that is always written alike starts with no blank and is read. -/
theorem token?_of_word {t : Token} {text : List Char} (h : t.word? = some text) (rest : List Char) :
    (∃ c more, text = c :: more ∧ isBlank c = false) ∧ token? (text ++ rest) = some (t, rest) := by
  cases t with
  | number n => cases h
  | string ps => cases h
  | boolean b => cases b <;> cases h <;> exact ⟨⟨_, _, rfl, by decide⟩, rfl⟩
  | _ => cases h; exact ⟨⟨_, _, rfl, by decide⟩, rfl⟩

/-- A number starts with its sign or with a digit. -/
theorem Numeral.Spelled.exists_first {n : Numeral} (h : n.Spelled cs) :
    ∃ c more, cs = c :: more ∧ (c = '-' ∨ ∃ d, Text.digit? c = some d) := by
  obtain ⟨hwhole, -, hdigits, -, -⟩ := h
  rename_i whole fraction exponent
  rcases n.isNegative with _ | _
  · obtain ⟨c, more, d, rfl, hc⟩ := exists_digit_of_spelled hwhole hdigits
    exact ⟨c, _, rfl, .inr ⟨d, hc⟩⟩
  · exact ⟨'-', _, rfl, .inl rfl⟩

/-- Neither of these starts a token of another sort. -/
theorem token?_of_first {c : Char} (h : c = '-' ∨ ∃ d, Text.digit? c = some d) (rest : List Char) :
    isBlank c = false ∧
      token? (c :: rest) = (numeral? (c :: rest)).map fun (n, rest) => (.number n, rest) := by
  have hother : ∀ other : Char, other ≠ '-' → Text.digit? other = none → c ≠ other := by
    rintro other hminus hdigit rfl
    rcases h with rfl | ⟨d, hd⟩
    · exact hminus rfl
    · rw [hdigit] at hd
      cases hd
  constructor
  · have hblank := hother ' ' (by decide) (by decide)
    have hline := hother '\n' (by decide) (by decide)
    have htab := hother '\t' (by decide) (by decide)
    have hreturn := hother '\r' (by decide) (by decide)
    simp [isBlank, hblank, hline, htab, hreturn]
  · rw [token?]
    all_goals exact fun _ h => hother _ (by decide) (by decide) (List.cons.inj h).1

/-- What is not blank is cut off as one token. -/
theorem tokensAt_of_token {c : Char} {t : Token} (hc : isBlank c = false)
    (ht : token? (c :: cs) = some (t, rest)) (fuel : Nat) :
    tokensAt (fuel + 1) (c :: cs) = (tokensAt fuel rest).map (t :: ·) := by
  cases hbelow : tokensAt fuel rest <;> simp [tokensAt, hc, ht, hbelow]

/-- A text is cut into the tokens that it spells. -/
theorem tokensAt_of_spells {ts : List Token} (h : Spells ts cs) {fuel : Nat}
    (hfuel : cs.length < fuel) : tokensAt fuel cs = some ts := by
  -- every token takes at least one character, so the fuel is enough for what is left
  induction h generalizing fuel with
  | nil =>
    obtain ⟨fuel, rfl⟩ := Nat.exists_eq_succ_of_ne_zero (Nat.ne_of_gt hfuel)
    rfl
  | @blank ts c cs hblank _ ih =>
    obtain ⟨fuel, rfl⟩ := Nat.exists_eq_succ_of_ne_zero (Nat.ne_zero_of_lt hfuel)
    rw [tokensAt, if_pos hblank]
    exact ih (Nat.lt_of_succ_lt_succ hfuel)
  | @word t ts text cs hword _ ih =>
    obtain ⟨⟨c, more, rfl, hc⟩, hread⟩ := token?_of_word hword cs
    obtain ⟨fuel, rfl⟩ := Nat.exists_eq_succ_of_ne_zero (Nat.ne_zero_of_lt hfuel)
    rw [List.cons_append] at hread hfuel ⊢
    rw [tokensAt_of_token hc hread, ih]
    · rfl
    · simp at hfuel
      omega
  | @number n ts text cs hnumber hends _ ih =>
    obtain ⟨c, more, rfl, hfirst⟩ := hnumber.exists_first
    obtain ⟨hc, hread⟩ := token?_of_first hfirst (more ++ cs)
    obtain ⟨fuel, rfl⟩ := Nat.exists_eq_succ_of_ne_zero (Nat.ne_zero_of_lt hfuel)
    rw [← List.cons_append, numeral?_of_spelled hnumber hends] at hread
    rw [List.cons_append] at hread hfuel ⊢
    rw [tokensAt_of_token hc hread, ih]
    · rfl
    · simp at hfuel
      omega
  | @string ps ts body cs hbody _ ih =>
    obtain ⟨fuel, rfl⟩ := Nat.exists_eq_succ_of_ne_zero (Nat.ne_zero_of_lt hfuel)
    have hread : token? ('"' :: (body ++ '"' :: cs)) = some (.string ps, cs) := by
      rw [token?, pieces?_of_spelled hbody]
      rfl
    rw [tokensAt_of_token (by decide) hread, ih]
    · rfl
    · simp at hfuel
      omega

theorem tokens?_of_spells {ts : List Token} (h : Spells ts cs) : tokens? cs = some ts :=
  tokensAt_of_spells h (Nat.lt_succ_self _)

end ClassComposition.Json
