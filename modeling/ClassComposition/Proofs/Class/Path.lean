import ClassComposition.Class.Path

/-!
# Splitting and joining class paths

A path is cut at all of its separators, so none of its segments has one, and joining them gives the path
back.  There is no other list that does both, which is why a path and its segments stand for each other.
An empty segment is a place where a separator, or an end of the path, meets another one.

## Main definitions

* `ClassPath.IsSegment` — a text without separators that stands between two of them, or at an end.

## Main results

* `ClassPath.eq_segments_iff` — the segments are the only texts without separators that join to the path.
* `ClassPath.mem_segments_iff` — they are the texts that stand between separators.
* `ClassPath.split_cases` — what becomes of a path, told by its segments.
* `ClassPath.split_eq_ok_iff`, `ClassPath.split_invalidDirective_iff`,
  `ClassPath.split_missingDependency_iff` — the paths with each outcome.
-/

namespace ClassComposition.ClassPath

variable {path segment : String} {parts : List String}

/-- A text without separators that has a separator, or an end of the path, on either side. -/
def IsSegment (segment path : String) : Prop :=
  separator ∉ segment.toList ∧ ∃ before after, path = before ++ segment ++ after ∧
    (before = "" ∨ ∃ outer, before = outer ++ ".") ∧ (after = "" ∨ ∃ inner, after = "." ++ inner)

/-! ### Segments -/

theorem splitChars_of_notMem {cs : List Char} (h : separator ∉ cs) : splitChars cs = [cs] := by
  induction cs with
  | nil => rfl
  | cons c rest ih =>
    obtain ⟨hc, hrest⟩ := List.ne_and_not_mem_of_not_mem_cons h
    rw [splitChars, if_neg (Ne.symm hc), ih hrest]

theorem segments_of_notMem (h : separator ∉ path.toList) : segments path = [path] := by
  rw [segments, splitChars_of_notMem h, List.map_singleton, String.ofList_toList]

theorem notMem_of_mem_splitChars {cs piece : List Char} (h : piece ∈ splitChars cs) :
    separator ∉ piece := by
  induction cs generalizing piece with
  | nil =>
    rw [List.mem_singleton.mp h]
    exact List.not_mem_nil
  | cons c rest ih =>
    by_cases hc : c = separator
    · rw [splitChars, if_pos hc] at h
      rcases List.mem_cons.mp h with rfl | hmem
      · exact List.not_mem_nil
      · exact ih hmem
    · obtain ⟨first, more, hsplit⟩ := List.exists_cons_of_ne_nil (splitChars_ne_nil rest)
      rw [splitChars, if_neg hc, hsplit] at h
      rw [hsplit] at ih
      rcases List.mem_cons.mp h with rfl | hmem
      · -- the character is put in front of the first piece of the rest
        exact List.not_mem_cons_of_ne_of_not_mem (Ne.symm hc) (ih List.mem_cons_self)
      · exact ih (List.mem_cons_of_mem _ hmem)

theorem notMem_of_mem_segments (h : segment ∈ segments path) : separator ∉ segment.toList := by
  obtain ⟨piece, hpiece, rfl⟩ := List.mem_map.mp h
  rw [String.toList_ofList]
  exact notMem_of_mem_splitChars hpiece

/-! ### Joining -/

theorem intercalate_segments (path : String) : ".".intercalate (segments path) = path := by
  apply String.toList_inj.mp
  have hpieces : (segments path).map String.toList = splitChars path.toList := by
    simp [segments, List.map_map, Function.comp_def]
  rw [String.toList_intercalate, hpieces]
  exact intercalate_splitChars path.toList

/-- What has been joined is split into the same texts, unless there is a separator in one of them or there
are none. -/
theorem segments_intercalate (hne : parts ≠ []) (hfree : ∀ s ∈ parts, separator ∉ s.toList) :
    segments (".".intercalate parts) = parts := by
  induction parts with
  | nil => exact absurd rfl hne
  | cons first rest ih =>
    obtain ⟨hfirst, hrest⟩ := List.forall_mem_cons.mp hfree
    cases rest with
    | nil => rw [String.intercalate_singleton, segments_of_notMem hfirst]
    | cons second more =>
      rw [String.intercalate_cons_cons, segments_append, segments_of_notMem hfirst,
        ih (List.cons_ne_nil second more) hrest]
      rfl

/-- The segments of a path are the only texts without separators that join to it. -/
theorem eq_segments_iff :
    parts = segments path ↔
      parts ≠ [] ∧ (∀ s ∈ parts, separator ∉ s.toList) ∧ ".".intercalate parts = path := by
  constructor
  · rintro rfl
    exact ⟨segments_ne_nil path, fun _ => notMem_of_mem_segments, intercalate_segments path⟩
  · rintro ⟨hne, hfree, rfl⟩
    exact (segments_intercalate hne hfree).symm

/-! ### What stands between separators -/

/-- A member of a list that is joined has, on either side, nothing or a separator. -/
theorem exists_sides (before after : List String) (segment : String) :
    ∃ left right, ".".intercalate (before ++ segment :: after) = left ++ segment ++ right ∧
      (left = "" ∨ ∃ outer, left = outer ++ ".") ∧ (right = "" ∨ ∃ inner, right = "." ++ inner) := by
  obtain ⟨right, hright, hside⟩ : ∃ right, ".".intercalate (segment :: after) = segment ++ right ∧
      (right = "" ∨ ∃ inner, right = "." ++ inner) := by
    cases after with
    | nil => exact ⟨"", by rw [String.intercalate_singleton, String.append_empty], .inl rfl⟩
    | cons next more =>
      refine ⟨"." ++ ".".intercalate (next :: more), ?_, .inr ⟨_, rfl⟩⟩
      rw [String.intercalate_cons_cons, String.append_assoc]
  cases before with
  | nil => exact ⟨"", right, by rw [List.nil_append, hright, String.empty_append], .inl rfl, hside⟩
  | cons first rest =>
    refine ⟨".".intercalate (first :: rest) ++ ".", right, ?_, .inr ⟨_, rfl⟩, hside⟩
    rw [String.intercalate_append_of_ne_nil (List.cons_ne_nil first rest) (List.cons_ne_nil _ _),
      hright, String.append_assoc, String.append_assoc, String.append_assoc]

/-- The segments of a path are the texts without separators that stand between two of them, or at an
end. -/
theorem mem_segments_iff : segment ∈ segments path ↔ IsSegment segment path := by
  constructor
  · intro hmem
    refine ⟨notMem_of_mem_segments hmem, ?_⟩
    obtain ⟨before, after, hparts⟩ := List.append_of_mem hmem
    have hsides := exists_sides before after segment
    rw [← hparts, intercalate_segments] at hsides
    exact hsides
  · rintro ⟨hfree, before, after, rfl, hbefore, hafter⟩
    -- the segment is cut out alone, first behind what precedes it and then before what follows it
    have hself : segment ∈ segments segment := by
      rw [segments_of_notMem hfree]
      exact List.mem_singleton_self segment
    have hright : segment ∈ segments (segment ++ after) := by
      rcases hafter with rfl | ⟨inner, rfl⟩
      · rwa [String.append_empty]
      · rw [← String.append_assoc, segments_append]
        exact List.mem_append_left _ hself
    rw [String.append_assoc]
    rcases hbefore with rfl | ⟨outer, rfl⟩
    · rwa [String.empty_append]
    · rw [segments_append]
      exact List.mem_append_right _ hright

example : ∀ path ∈ ["", ".A", "Ns.", "Ns..A"], "" ∈ segments path := by decide

/-- A path has more than one segment exactly if there is a separator in it. -/
theorem two_le_length_segments_iff : 2 ≤ (segments path).length ↔ separator ∈ path.toList := by
  by_cases hmem : separator ∈ path.toList
  · obtain ⟨before, after, hpath⟩ := List.append_of_mem hmem
    have hsegments : segments path
        = (splitChars before).map String.ofList ++ (splitChars after).map String.ofList := by
      rw [segments, hpath, splitChars_append, List.map_append]
    have hbefore := List.length_pos_iff.mpr (splitChars_ne_nil before)
    have hafter := List.length_pos_iff.mpr (splitChars_ne_nil after)
    rw [hsegments, List.length_append, List.length_map, List.length_map]
    exact iff_of_true (by omega) hmem
  · rw [segments_of_notMem hmem]
    exact iff_of_false (Nat.not_succ_le_self 1) hmem

/-! ### The outcomes -/

/-- A path with an empty segment is malformed, another one without separators has no namespace, and all
others are split into their segments. -/
theorem split_cases (path : String) :
    ("" ∈ segments path ∧ split path = .error (.malformedPath path)) ∨
    ("" ∉ segments path ∧ separator ∉ path.toList ∧ split path = .error (.missingNamespace path)) ∨
    ("" ∉ segments path ∧ separator ∈ path.toList ∧ split path = .ok (segments path)) := by
  have hany : (segments path).any (· == "") = true ↔ "" ∈ segments path := by simp
  by_cases hempty : "" ∈ segments path
  · refine .inl ⟨hempty, ?_⟩
    rw [split, if_pos (hany.mpr hempty)]
  by_cases hmem : separator ∈ path.toList
  · exact .inr (.inr ⟨hempty, hmem, split_eq (two_le_length_segments_iff.mpr hmem) hempty⟩)
  · have hshort := Nat.not_le.mp (mt two_le_length_segments_iff.mp hmem)
    refine .inr (.inl ⟨hempty, hmem, ?_⟩)
    rw [split, if_neg (mt hany.mp hempty), if_pos hshort]

/-- A path is split into two or more texts that are neither empty nor have separators, and that join to
it. -/
theorem split_eq_ok_iff :
    split path = .ok parts ↔
      2 ≤ parts.length ∧ (∀ s ∈ parts, s ≠ "" ∧ separator ∉ s.toList) ∧
        ".".intercalate parts = path := by
  constructor
  · intro h
    obtain ⟨rfl, hlength, hempty⟩ := split_eq_ok h
    refine ⟨hlength, fun s hs => ⟨?_, notMem_of_mem_segments hs⟩, intercalate_segments path⟩
    rintro rfl
    exact hempty hs
  · rintro ⟨hlength, hparts, hjoin⟩
    have hne : parts ≠ [] := List.ne_nil_of_length_pos (by omega)
    obtain rfl := eq_segments_iff.mpr ⟨hne, fun s hs => (hparts s hs).2, hjoin⟩
    exact split_eq hlength fun hmem => (hparts "" hmem).1 rfl

/-- The malformed paths are those with an empty segment. -/
theorem split_invalidDirective_iff :
    (∃ e, split path = .error e ∧ e.kind = .invalidDirective) ↔ "" ∈ segments path := by
  rcases split_cases path with ⟨hempty, hsplit⟩ | ⟨hempty, -, hsplit⟩ | ⟨hempty, -, hsplit⟩
  · exact iff_of_true ⟨_, hsplit, rfl⟩ hempty
  · refine iff_of_false ?_ hempty
    rintro ⟨e, he, hkind⟩
    cases hsplit.symm.trans he
    cases hkind
  · refine iff_of_false ?_ hempty
    rintro ⟨e, he, -⟩
    cases hsplit.symm.trans he

/-- The paths without a namespace are those that are not empty and have no separator. -/
theorem split_missingDependency_iff :
    (∃ e, split path = .error e ∧ e.kind = .missingDependency) ↔
      path ≠ "" ∧ separator ∉ path.toList := by
  rcases split_cases path with ⟨hempty, hsplit⟩ | ⟨hempty, hfree, hsplit⟩ | ⟨-, hmem, hsplit⟩
  · refine iff_of_false ?_ ?_
    · rintro ⟨e, he, hkind⟩
      cases hsplit.symm.trans he
      cases hkind
    · -- without separators the empty segment would be the path itself
      rintro ⟨hne, hfree⟩
      rw [segments_of_notMem hfree] at hempty
      exact hne (List.mem_singleton.mp hempty).symm
  · rw [segments_of_notMem hfree] at hempty
    exact iff_of_true ⟨_, hsplit, rfl⟩ ⟨fun h => hempty (h ▸ List.mem_singleton_self path), hfree⟩
  · refine iff_of_false ?_ fun h => h.2 hmem
    rintro ⟨e, he, -⟩
    cases hsplit.symm.trans he

end ClassComposition.ClassPath
