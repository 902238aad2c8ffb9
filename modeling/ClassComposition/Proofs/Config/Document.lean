import ClassComposition.Config.Document
import ClassComposition.Proofs.Json.Library

/-!
# Options in documents

A document gives some of the options, each of them at most once, in any order and with fields of other
names among them.  It is read as what it gives, with the standard options in place of what it leaves
out; and nothing else is accepted.  The options are written as such a document, whatever texts they
hold.

## Main definitions

* `Config.Given` — what may be said of the options.
* `Config.Gives`, `Config.Given.By` — what the fields of a document say.

## Main results

* `Config.ofDocument?_eq_some_iff` — which documents are read, and as what.
* `Config.read?_write` — every lawful library reads options back that it has written.
* `Config.read?_of_given`, `Config.read?_eq_none` — every library reads objects by what they give.
* `Config.json_options` — so do reader and writer, in which every spelling of a document is read.
-/

namespace ClassComposition.Config

open Json (underName slot? slots? truth? text? piecesOf Spells tokens)

variable {fields : List (String × Json)}

/-! ### What is given -/

/-- What may be said of the options: each of them, or nothing. -/
structure Given where
  inlineSimpleArrays : Option Bool
  initMember : Option String
  afterInitMember : Option String

/-- The options that are given, and the standard ones where nothing is said. -/
def Given.config (g : Given) : Config where
  inlineSimpleArrays := g.inlineSimpleArrays.getD true
  initMember := g.initMember.getD "init"
  afterInitMember := g.afterInitMember.getD "_afterInit"

/-- Under a name there is what is given, once, or there is nothing. -/
def Gives {α : Type} (fields : List (String × Json)) (name : String) (read : Json → Option α)
    (given : Option α) : Prop := (underName fields name).map read = given.toList.map some

instance {α : Type} [DecidableEq α] (fields : List (String × Json)) (name : String)
    (read : Json → Option α) (given : Option α) : Decidable (Gives fields name read given) :=
  inferInstanceAs (Decidable ((underName fields name).map read = given.toList.map some))

/-- The fields of a document say this of the options. -/
structure Given.By (g : Given) (fields : List (String × Json)) : Prop where
  inlineSimpleArrays : Gives fields "inline_simple_arrays" truth? g.inlineSimpleArrays
  initMember : Gives fields "init_member" text? g.initMember
  afterInitMember : Gives fields "after_init_member" text? g.afterInitMember

section Fields

variable {α : Type} {name : String} {read : Json → Option α}

/-- An option is read when its field gives it or is missing. -/
theorem bind_slot?_eq_some_iff (standard a : α) :
    (slot? fields name).bind (orStandard standard read) = some a ↔
      ∃ given, Gives fields name read given ∧ a = given.getD standard := by
  unfold Gives slot?
  rcases underName fields name with _ | ⟨v, _ | ⟨w, more⟩⟩
  · -- nothing is said, and the standard option is taken
    constructor
    · intro h
      cases h
      exact ⟨none, rfl, rfl⟩
    · rintro ⟨_ | b, hgiven, rfl⟩
      · rfl
      · cases hgiven
  · constructor
    · intro h
      have hread : read v = some a := h
      exact ⟨some a, by simp [hread], rfl⟩
    · rintro ⟨_ | b, hgiven, rfl⟩
      · cases hgiven
      · have hread : read v = some a := by simpa using hgiven
        exact hread
  · -- a field that occurs twice gives nothing
    constructor
    · intro h
      cases h
    · rintro ⟨_ | b, hgiven, -⟩
      · cases hgiven
      · simp at hgiven

theorem Gives.length_le {given : Option α} (h : Gives fields name read given) :
    (underName fields name).length ≤ 1 := by
  have hlength := congrArg List.length h
  rw [List.length_map, List.length_map] at hlength
  cases given with
  | none => simp [hlength]
  | some a => simp [hlength]

/-- What stands in a field that gives something can be read. -/
theorem Gives.exists_read {given : Option α} (h : Gives fields name read given) {v : Json}
    (hv : v ∈ underName fields name) : ∃ a, read v = some a := by
  have hmem : read v ∈ given.toList.map some := by
    rw [← h]
    exact List.mem_map_of_mem hv
  obtain ⟨a, -, ha⟩ := List.mem_map.mp hmem
  exact ⟨a, ha.symm⟩

end Fields

/-- A document is read as options exactly when its fields give them. -/
theorem ofDocument?_eq_some_iff {document : Json} (hfields : document.fields? = some (.named fields))
    {c : Config} :
    ofDocument? document = some c ↔ ∃ g : Given, g.By fields ∧ c = g.config := by
  -- the three fields are looked up first and read afterwards, each by itself
  have hslots : ofDocument? document
      = (slot? fields "inline_simple_arrays").bind fun inlining =>
          (slot? fields "init_member").bind fun init =>
            (slot? fields "after_init_member").bind fun after =>
              (orStandard true truth? inlining).bind fun b =>
                (orStandard "init" text? init).bind fun m =>
                  (orStandard "_afterInit" text? after).bind fun a => some ⟨b, m, a⟩ := by
    rcases hinlining : slot? fields "inline_simple_arrays" with _ | inlining
    · simp [ofDocument?, slots?, hfields, fieldNames, hinlining]
    rcases hinit : slot? fields "init_member" with _ | init
    · simp [ofDocument?, slots?, hfields, fieldNames, hinlining, hinit]
    rcases hafter : slot? fields "after_init_member" with _ | after
    · simp [ofDocument?, slots?, hfields, fieldNames, hinlining, hinit, hafter]
    simp [ofDocument?, slots?, hfields, fieldNames, standard, hinlining, hinit, hafter]
  rw [hslots]
  constructor
  · intro h
    obtain ⟨inlining, hinlining, h⟩ := Option.bind_eq_some_iff.mp h
    obtain ⟨init, hinit, h⟩ := Option.bind_eq_some_iff.mp h
    obtain ⟨after, hafter, h⟩ := Option.bind_eq_some_iff.mp h
    obtain ⟨b, hb, h⟩ := Option.bind_eq_some_iff.mp h
    obtain ⟨m, hm, h⟩ := Option.bind_eq_some_iff.mp h
    obtain ⟨a, ha, h⟩ := Option.bind_eq_some_iff.mp h
    cases h
    obtain ⟨given, hgiven, rfl⟩ :=
      (bind_slot?_eq_some_iff true b).mp (Option.bind_eq_some_iff.mpr ⟨inlining, hinlining, hb⟩)
    obtain ⟨given', hgiven', rfl⟩ :=
      (bind_slot?_eq_some_iff "init" m).mp (Option.bind_eq_some_iff.mpr ⟨init, hinit, hm⟩)
    obtain ⟨given'', hgiven'', rfl⟩ :=
      (bind_slot?_eq_some_iff "_afterInit" a).mp (Option.bind_eq_some_iff.mpr ⟨after, hafter, ha⟩)
    exact ⟨⟨given, given', given''⟩, ⟨hgiven, hgiven', hgiven''⟩, rfl⟩
  · rintro ⟨g, ⟨hgiven, hgiven', hgiven''⟩, rfl⟩
    obtain ⟨inlining, hinlining, hb⟩ :=
      Option.bind_eq_some_iff.mp ((bind_slot?_eq_some_iff true _).mpr ⟨_, hgiven, rfl⟩)
    obtain ⟨init, hinit, hm⟩ :=
      Option.bind_eq_some_iff.mp ((bind_slot?_eq_some_iff "init" _).mpr ⟨_, hgiven', rfl⟩)
    obtain ⟨after, hafter, ha⟩ :=
      Option.bind_eq_some_iff.mp ((bind_slot?_eq_some_iff "_afterInit" _).mpr ⟨_, hgiven'', rfl⟩)
    simp only [hinlining, hinit, hafter, Option.bind_some, hb, hm, ha]
    rfl

/-! ### What is written -/

/-- The document of the options. -/
def document (c : Config) : Json :=
  .object [(piecesOf "inline_simple_arrays", .boolean c.inlineSimpleArrays),
    (piecesOf "init_member", .string (piecesOf c.initMember)),
    (piecesOf "after_init_member", .string (piecesOf c.afterInitMember))]

theorem document?_datum (c : Config) : c.datum.document? = some c.document := rfl

/-- Its fields. -/
def written (c : Config) : List (String × Json) :=
  [("inline_simple_arrays", .boolean c.inlineSimpleArrays),
    ("init_member", .string (piecesOf c.initMember)),
    ("after_init_member", .string (piecesOf c.afterInitMember))]

theorem fields?_document (c : Config) : c.document.fields? = some (.named c.written) :=
  Json.fields?_object c.written

theorem given_written (c : Config) :
    Given.By ⟨some c.inlineSimpleArrays, some c.initMember, some c.afterInitMember⟩ c.written := by
  refine ⟨rfl, ?_, ?_⟩
  · simp [Gives, written, underName, text?, Json.decode_piecesOf]
  · simp [Gives, written, underName, text?, Json.decode_piecesOf]

/-! ### What a library reads -/

section Libraries

variable {L : Json.Library}

/-- What a lawful library writes for options it reads as these options. -/
theorem read?_write (hL : L.Lawful) (c : Config) : read? L (c.write L) = some c := by
  rw [read?, write, hL.parse?_write c.document?_datum, Option.bind_some,
    ofDocument?_eq_some_iff c.fields?_document]
  exact ⟨_, c.given_written, rfl⟩

/-- Of a text that a library reads as an object, the options are what its fields give. -/
theorem read?_of_given {text : String} {document : Json} (hparse : L.parse? text = some document)
    (hfields : document.fields? = some (.named fields)) {g : Given} (hg : g.By fields) :
    read? L text = some g.config := by
  rw [read?, hparse, Option.bind_some, ofDocument?_eq_some_iff hfields]
  exact ⟨g, hg, rfl⟩

/-- Where the fields of an object give no options, there are none. -/
theorem read?_eq_none {text : String} {document : Json} (hparse : L.parse? text = some document)
    (hfields : document.fields? = some (.named fields)) (h : ∀ g : Given, ¬ g.By fields) :
    read? L text = none := by
  rw [read?, hparse, Option.bind_some, Option.eq_none_iff_forall_ne_some]
  intro c hc
  obtain ⟨g, hg, -⟩ := (ofDocument?_eq_some_iff hfields).mp hc
  exact h g hg

end Libraries

theorem Given.By.length_le {g : Given} (hg : g.By fields) {name : String} (hname : name ∈ fieldNames) :
    (underName fields name).length ≤ 1 := by
  simp only [fieldNames, List.mem_cons, List.not_mem_nil, or_false] at hname
  rcases hname with rfl | rfl | rfl
  · exact hg.inlineSimpleArrays.length_le
  · exact hg.initMember.length_le
  · exact hg.afterInitMember.length_le

/-- Options are read back from what is written for them, whatever texts they hold.  Every text that
spells a document is read as this document, and of an object the options are what its fields give, in
any order and with fields of other names among them, and the standard ones where it gives nothing.
There are no options where one of these fields occurs twice, or holds a value of another sort. -/
theorem json_options :
    (∀ c : Config, ofJson? c.toJson = some c) ∧
      (∀ (d : Json) (text : String), Spells (tokens d) text.toList → Json.parse? text = some d) ∧
      ∀ (text : String) (document : Json) (fields : List (String × Json)),
        Json.parse? text = some document → document.fields? = some (.named fields) →
          (∀ g : Given, g.By fields → ofJson? text = some g.config) ∧
          (∀ name ∈ fieldNames, 2 ≤ (underName fields name).length → ofJson? text = none) ∧
          (∀ v ∈ underName fields "inline_simple_arrays", (∀ b, v ≠ .boolean b) → ofJson? text = none) ∧
          ∀ name ∈ ["init_member", "after_init_member"], ∀ v ∈ underName fields name,
            (∀ pieces, v ≠ .string pieces) → ofJson? text = none := by
  refine ⟨read?_write Json.library_lawful, fun _ _ h => Json.library_lawful.parse?_of_spells h, ?_⟩
  intro text document fields hparse hfields
  -- whatever is wrong, it is wrong with what one of the fields would give
  have hnone : (∀ g : Given, ¬ g.By fields) → ofJson? text = none :=
    read?_eq_none (L := Json.library) hparse hfields
  refine ⟨fun g hg => read?_of_given (L := Json.library) hparse hfields hg, ?_, ?_, ?_⟩
  · intro name hname htwice
    exact hnone fun g hg => absurd htwice (Nat.not_le_of_lt (Nat.lt_succ_of_le (hg.length_le hname)))
  · intro v hv hkind
    refine hnone fun g hg => ?_
    obtain ⟨b, hb⟩ := hg.inlineSimpleArrays.exists_read hv
    cases v with
    | boolean b => exact hkind b rfl
    | _ => cases hb
  · intro name hname v hv hkind
    have htext : text? v = none := by
      cases v with
      | string pieces => exact absurd rfl (hkind pieces)
      | _ => rfl
    refine hnone fun g hg => ?_
    have hread : ∃ s, text? v = some s := by
      simp only [List.mem_cons, List.not_mem_nil, or_false] at hname
      rcases hname with rfl | rfl
      · exact hg.initMember.exists_read hv
      · exact hg.afterInitMember.exists_read hv
    obtain ⟨s, hs⟩ := hread
    rw [htext] at hs
    cases hs

/-! ### Three documents -/

namespace Sample

/-- A text that gives two of the options, one of them by escapes, with fields of another name. -/
def partialText : String :=
  "\x7b \"later\" : [1.5e+3, null], \"after_init_member\":\"\\u0041\\n\",
    \"later\":\x7b\x7d, \"inline_simple_arrays\" :false \x7d"

/-- Its fields. -/
def partialFields : List (String × Json) :=
  [("later", .array [.number ⟨false, [1], some [5], some 3⟩, .null]),
    ("after_init_member", .string [.unit 65, .char '\n']), ("later", .object []),
    ("inline_simple_arrays", .boolean false)]

/-- A text that gives an option twice, and its fields. -/
def repeatedText : String := "\x7b\"init_member\":\"a\",\"init_member\":\"b\"\x7d"

def repeatedFields : List (String × Json) :=
  [("init_member", .string [.char 'a']), ("init_member", .string [.char 'b'])]

/-- A text with null for an option, and its fields. -/
def nullText : String := "\x7b\"after_init_member\":null\x7d"

def nullFields : List (String × Json) := [("after_init_member", .null)]

end Sample

/-- The first of the documents is read, with the standard option for the one that is missing, and the
others are not. -/
theorem json_options_samples :
    ofJson? Sample.partialText = some ⟨false, "init", "A\n"⟩ ∧ ofJson? Sample.repeatedText = none ∧
      ofJson? Sample.nullText = none := by
  obtain ⟨-, -, hread⟩ := json_options
  have hpartial := hread Sample.partialText _ Sample.partialFields
    (Json.parse?_of_tokens (by decide +kernel)) (Json.fields?_object _)
  have hrepeated := hread Sample.repeatedText _ Sample.repeatedFields
    (Json.parse?_of_tokens (by decide +kernel)) (Json.fields?_object _)
  have hnull := hread Sample.nullText _ Sample.nullFields
    (Json.parse?_of_tokens (by decide +kernel)) (Json.fields?_object _)
  refine ⟨?_, ?_, ?_⟩
  · have hgiven : Given.By ⟨some false, none, some "A\n"⟩ Sample.partialFields :=
      ⟨by decide +kernel, by decide +kernel, by decide +kernel⟩
    exact hpartial.1 _ hgiven
  · exact hrepeated.2.1 "init_member" (by decide) (by decide)
  · exact hnull.2.2.2 "after_init_member" (by decide) .null (by simp [Sample.nullFields, underName])
      (fun _ => by simp)

end ClassComposition.Config
