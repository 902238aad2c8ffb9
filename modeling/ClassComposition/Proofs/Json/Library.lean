import ClassComposition.Json.Library
import ClassComposition.Proofs.Json.Writing

/-!
# What libraries for JSON promise

A program that hands its data to a library, and takes documents from it, relies on two things: the ways to
spell a document are all read as this document, and what is written for some data spells the document of
the data.  How numbers are written is left open, so only data without numbers has a document here.  Reader
and writer keep both promises.

## Main definitions

* `Json.Datum.document?` — the document of data without numbers.
* `Json.Library.Lawful` — the two promises.

## Main results

* `Json.Library.Lawful.parse?_write` — what is written is read as the document of the data.
* `Json.library_lawful` — reader and writer keep the promises.
-/

namespace ClassComposition.Json

namespace Datum

mutual

/-- The document of data without numbers. -/
def document? : Datum → Option Json
  | null => some .null
  | boolean b => some (.boolean b)
  | text s => some (.string (piecesOf s))
  | count _ | double _ => none
  | list items => (itemDocuments? items).map .array
  | record members => (memberDocuments? members).map .object
termination_by structural d => d

/-- The documents of items without numbers. -/
def itemDocuments? : List Datum → Option (List Json)
  | [] => some []
  | d :: rest => d.document?.bind fun document => (itemDocuments? rest).map (document :: ·)
termination_by structural items => items

/-- The documents of members without numbers, under the pieces of their names. -/
def memberDocuments? : List (String × Datum) → Option (List (List Piece × Json))
  | [] => some []
  | (name, d) :: rest =>
    d.document?.bind fun document => (memberDocuments? rest).map ((piecesOf name, document) :: ·)
termination_by structural members => members

end

mutual

/-- What is written for data spells the document of the data, at every level of indentation. -/
theorem spells_write (d : Datum) {indent : String} (hindent : ∀ c ∈ indent.toList, isBlank c = true)
    {document : Json} (h : d.document? = some document) :
    Spells (tokens document) (d.write indent).toList := by
  match d with
  | null =>
    cases h
    rw [write]
    exact Spells.word (t := .null) rfl .nil
  | boolean b =>
    cases h
    exact spells_writeBoolean b
  | text s =>
    cases h
    have hstring := spells_writeString s .nil
    rwa [List.append_nil] at hstring
  | list items =>
    obtain ⟨documents, hdocuments, rfl⟩ := Option.map_eq_some_iff.mp h
    obtain ⟨lines, htexts, rfl, hlines⟩ :=
      spells_writeItems items (isBlank_of_mem_deeper hindent) hdocuments
    rw [write, ← htexts]
    exact spells_writeList hindent hlines
  | record members =>
    obtain ⟨documents, hdocuments, rfl⟩ := Option.map_eq_some_iff.mp h
    obtain ⟨lines, htexts, rfl, hlines⟩ :=
      spells_writeMembers members (isBlank_of_mem_deeper hindent) hdocuments
    rw [write, ← htexts]
    exact spells_writeRecord hindent hlines
termination_by structural d

/-- Items are written one by one. -/
theorem spells_writeItems (items : List Datum) {indent : String}
    (hindent : ∀ c ∈ indent.toList, isBlank c = true) {documents : List Json}
    (h : itemDocuments? items = some documents) :
    ∃ lines : List (String × Json), lines.map Prod.fst = writeItems indent items ∧
      lines.map Prod.snd = documents ∧ ∀ p ∈ lines, Spells (tokens p.2) p.1.toList := by
  match items with
  | [] =>
    cases h
    exact ⟨[], rfl, rfl, List.forall_mem_nil _⟩
  | d :: rest =>
    obtain ⟨document, hd, h⟩ := Option.bind_eq_some_iff.mp h
    obtain ⟨others, hrest, rfl⟩ := Option.map_eq_some_iff.mp h
    obtain ⟨lines, htexts, rfl, hlines⟩ := spells_writeItems rest hindent hrest
    refine ⟨(d.write indent, document) :: lines, ?_, rfl, ?_⟩
    · rw [List.map_cons, htexts, writeItems]
    · exact List.forall_mem_cons.mpr ⟨spells_write d hindent hd, hlines⟩
termination_by structural items

/-- So are members, each behind its name. -/
theorem spells_writeMembers (members : List (String × Datum)) {indent : String}
    (hindent : ∀ c ∈ indent.toList, isBlank c = true) {documents : List (List Piece × Json)}
    (h : memberDocuments? members = some documents) :
    ∃ lines : List (String × String × Json),
      lines.map (fun p => (p.1, p.2.1)) = writeMembers indent members ∧
      lines.map (fun p => (piecesOf p.1, p.2.2)) = documents ∧
      ∀ p ∈ lines, Spells (tokens p.2.2) p.2.1.toList := by
  match members with
  | [] =>
    cases h
    exact ⟨[], rfl, rfl, List.forall_mem_nil _⟩
  | (name, d) :: rest =>
    obtain ⟨document, hd, h⟩ := Option.bind_eq_some_iff.mp h
    obtain ⟨others, hrest, rfl⟩ := Option.map_eq_some_iff.mp h
    obtain ⟨lines, htexts, rfl, hlines⟩ := spells_writeMembers rest hindent hrest
    refine ⟨(name, d.write indent, document) :: lines, ?_, rfl, ?_⟩
    · rw [List.map_cons, htexts, writeMembers]
    · exact List.forall_mem_cons.mpr ⟨spells_write d hindent hd, hlines⟩
termination_by structural members

end

end Datum

/-! ### The promises -/

/-- What a library promises: every text that spells a document is read as this document, and what is
written for data without numbers spells the document of the data. -/
structure Library.Lawful (L : Library) : Prop where
  parse?_of_spells {d : Json} {text : String} : Spells (tokens d) text.toList → L.parse? text = some d
  spells_write {d : Datum} {document : Json} :
    d.document? = some document → Spells (tokens document) (L.write d).toList

/-- Data that a lawful library writes is read by it as the document of the data. -/
theorem Library.Lawful.parse?_write {L : Library} (hL : L.Lawful) {d : Datum} {document : Json}
    (h : d.document? = some document) : L.parse? (L.write d) = some document :=
  hL.parse?_of_spells (hL.spells_write h)

theorem library_lawful : library.Lawful where
  parse?_of_spells := parse?_of_spells
  spells_write := Datum.spells_write _ (List.forall_mem_nil _)

end ClassComposition.Json
