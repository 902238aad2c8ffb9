import ClassComposition.Error

/-!
# Class paths

A class path is a dotted text: a root namespace, any number of inner namespaces, and the short name of
the class.  It needs at least two segments, and none of them may be empty.

## Main definitions

* `ClassPath.segments` — the segments of a dotted text.
* `ClassPath.shortName` — the last segment.
* `ClassPath.split` — the segments of a well-formed class path, or what is wrong with it.
* `ClassPath.Below` — a path followed by a dot and further segments.

## Main results

* `ClassPath.segments_injective` — a path is known by its segments.
* `ClassPath.isPrefix_segments_iff` — the segments of a path begin its own and those of the paths below it.
* `ClassPath.getLast?_segments` — the short name is the last segment.
* `ClassPath.shortName_ne_empty` — a class with a well-formed path has a name.
-/

namespace ClassComposition.ClassPath

/-- The character between segments. -/
def separator : Char := '.'

/-- The segments of a list of characters: one more than it has separators. -/
def splitChars : List Char → List (List Char)
  | [] => [[]]
  | c :: rest =>
    if c = separator then [] :: splitChars rest
    else
      match splitChars rest with
      | segment :: more => (c :: segment) :: more
      | [] => [[c]]

/-- The segments of a dotted text. -/
def segments (path : String) : List String := (splitChars path.toList).map String.ofList

/-- The last segment of a dotted text. -/
def shortName (path : String) : String := (segments path).getLastD path

/-- The segments of a class path.  An empty segment is reported before a missing namespace. -/
def split (path : String) : Except ClassError (List String) :=
  let parts := segments path
  if parts.any (· == "") then .error (.malformedPath path)
  else if parts.length < 2 then .error (.missingNamespace path)
  else .ok parts

/-- The one path is the other one followed by a separator and further segments. -/
def Below (inner outer : String) : Prop := ∃ rest, inner = outer ++ "." ++ rest

/-! ### Splitting -/

theorem splitChars_ne_nil (cs : List Char) : splitChars cs ≠ [] := by
  cases cs with
  | nil => simp [splitChars]
  | cons c rest =>
    simp only [splitChars]
    split
    · simp
    · split <;> simp

theorem segments_ne_nil (path : String) : segments path ≠ [] :=
  fun h => splitChars_ne_nil path.toList (List.map_eq_nil_iff.mp h)

/-- The short name of a path is its last segment. -/
theorem getLast?_segments (path : String) : (segments path).getLast? = some (shortName path) := by
  rw [shortName, List.getLastD_eq_getLast?, List.getLast?_eq_some_getLast (segments_ne_nil path)]
  rfl

/-- Joining the segments of a list of characters gives the list back. -/
theorem intercalate_splitChars (cs : List Char) : [separator].intercalate (splitChars cs) = cs := by
  induction cs with
  | nil => rfl
  | cons c rest ih =>
    obtain ⟨segment, more, hsplit⟩ := List.exists_cons_of_ne_nil (splitChars_ne_nil rest)
    rw [hsplit] at ih
    by_cases hc : c = separator
    · -- an empty segment before a separator, and what follows it is joined already
      subst hc
      have hjoin : [separator].intercalate ([] :: segment :: more)
          = separator :: [separator].intercalate (segment :: more) := by
        simp [List.intercalate, List.intersperse]
      rw [splitChars, if_pos rfl, hsplit, hjoin, ih]
    · have hjoin : [separator].intercalate ((c :: segment) :: more)
          = c :: [separator].intercalate (segment :: more) := by
        cases more <;> simp [List.intercalate, List.intersperse]
      rw [splitChars, if_neg hc, hsplit]
      dsimp only
      rw [hjoin, ih]

/-- A path is known by its segments. -/
theorem segments_injective {p q : String} (h : segments p = segments q) : p = q := by
  have hchars : splitChars p.toList = splitChars q.toList := by
    have hlists := congrArg (List.map String.toList) h
    simpa [segments, List.map_map, Function.comp_def] using hlists
  have hlist : p.toList = q.toList := by
    rw [← intercalate_splitChars p.toList, hchars, intercalate_splitChars]
  exact String.toList_inj.mp hlist

/-- A separator cuts a list of characters into the segments before it and those behind it. -/
theorem splitChars_append (before after : List Char) :
    splitChars (before ++ separator :: after) = splitChars before ++ splitChars after := by
  induction before with
  | nil =>
    show splitChars (separator :: after) = [] :: splitChars after
    rw [splitChars, if_pos rfl]
  | cons c rest ih =>
    obtain ⟨segment, more, hsplit⟩ := List.exists_cons_of_ne_nil (splitChars_ne_nil rest)
    rw [hsplit] at ih
    by_cases hc : c = separator
    · rw [List.cons_append, splitChars, if_pos hc, ih, splitChars, if_pos hc, hsplit]
      rfl
    · rw [List.cons_append, splitChars, if_neg hc, ih, splitChars, if_neg hc, hsplit]
      rfl

theorem toList_append_separator (path rest : String) :
    (path ++ "." ++ rest).toList = path.toList ++ separator :: rest.toList := by
  rw [String.toList_append, String.toList_append, List.append_assoc]
  rfl

theorem segments_append (path rest : String) :
    segments (path ++ "." ++ rest) = segments path ++ segments rest := by
  rw [segments, segments, segments, toList_append_separator, splitChars_append, List.map_append]

theorem intercalate_append {before after : List (List Char)} (hbefore : before ≠ [])
    (hafter : after ≠ []) :
    [separator].intercalate (before ++ after)
      = [separator].intercalate before ++ separator :: [separator].intercalate after := by
  obtain ⟨first, others, rfl⟩ := List.exists_cons_of_ne_nil hafter
  induction before with
  | nil => exact absurd rfl hbefore
  | cons segment rest ih =>
    rcases rest with _ | ⟨next, rest⟩
    · simp [List.intercalate, List.intersperse]
    · have ih := ih (List.cons_ne_nil next rest)
      simp only [List.intercalate, List.intersperse, List.cons_append, List.flatten_cons] at ih ⊢
      rw [ih]
      simp

/-- The segments of a path begin its own and those of the paths below it, and no others. -/
theorem isPrefix_segments_iff {outer inner : String} :
    segments outer <+: segments inner ↔ inner = outer ∨ Below inner outer := by
  constructor
  · rintro ⟨more, hmore⟩
    have hchars : splitChars inner.toList
        = splitChars outer.toList ++ more.map String.toList := by
      have hlists := congrArg (List.map String.toList) hmore
      simpa [segments, List.map_map, Function.comp_def] using hlists.symm
    -- with no further segments the paths are the same, and else what is joined behind the separator is the
    -- rest of the inner one
    rcases hnone : more with _ | ⟨segment, others⟩
    · left
      apply segments_injective
      rw [← hmore, hnone, List.append_nil]
    · right
      have hafter : more.map String.toList ≠ [] := by
        rw [hnone]
        exact List.cons_ne_nil _ _
      refine ⟨String.ofList ([separator].intercalate (more.map String.toList)),
        String.toList_inj.mp ?_⟩
      rw [toList_append_separator, String.toList_ofList, ← intercalate_splitChars inner.toList, hchars,
        intercalate_append (splitChars_ne_nil _) hafter, intercalate_splitChars]
  · rintro (rfl | ⟨rest, rfl⟩)
    · exact List.prefix_refl _
    · rw [segments_append]
      exact List.prefix_append _ _

/-- A path that can be split has at least two segments, and none of them is empty. -/
theorem split_eq_ok {path : String} {parts : List String} (h : split path = .ok parts) :
    parts = segments path ∧ 2 ≤ parts.length ∧ "" ∉ parts := by
  unfold split at h
  dsimp only at h
  by_cases hempty : (segments path).any (· == "") = true
  · rw [if_pos hempty] at h
    cases h
  rw [if_neg hempty] at h
  by_cases hshort : (segments path).length < 2
  · rw [if_pos hshort] at h
    cases h
  rw [if_neg hshort] at h
  cases h
  refine ⟨rfl, by omega, fun hmem => hempty ?_⟩
  exact List.any_eq_true.mpr ⟨"", hmem, rfl⟩

/-- A path with at least two segments, none of them empty, can be split. -/
theorem split_eq {path : String} (hlength : 2 ≤ (segments path).length) (hempty : "" ∉ segments path) :
    split path = .ok (segments path) := by
  have hnone : ¬ (segments path).any (· == "") = true := by
    rw [List.any_eq_true]
    rintro ⟨segment, hmem, heq⟩
    rw [beq_iff_eq.mp heq] at hmem
    exact hempty hmem
  unfold split
  dsimp only
  rw [if_neg hnone, if_neg (Nat.not_lt.mpr hlength)]

/-- A class with a well-formed path has a name. -/
theorem shortName_ne_empty {path : String} {parts : List String} (h : split path = .ok parts) :
    shortName path ≠ "" := by
  obtain ⟨rfl, -, hempty⟩ := split_eq_ok h
  have hlast := List.mem_of_getLast? (getLast?_segments path)
  intro heq
  rw [heq] at hlast
  exact hempty hlast

end ClassComposition.ClassPath
