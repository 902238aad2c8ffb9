import ClassComposition.Proofs.Member.Settled

/-!
# What a body contributes to the table

Classification goes through the members of a body in order, and into an object before it goes on to the
next member.  The functions, the patterns and the arrays that are copied are written to the table as they
are met, and nothing else is.  A classification that succeeds has met all of the body, so no object in it
lies below itself.  Conversely classification stops for no body of which this is so, for it goes as deep as
any contents: what is derived for the members of a body is what is computed.

## Main definitions

* `Contents.references`, `Contents.referencesAll` — the leaves that are written to the table, in order.

## Main results

* `ClassifiedMembers.exists_entries_eq` — what is classified has contents, and the table grows by theirs.
* `ClassifiedMembers.run_skeleton` — each derivation is computed.
-/

namespace ClassComposition

/-- What a member that is no object adds to the table: itself, unless it is data or an array that is kept
as a literal. -/
def Store.referencesOf (inlineSimple : Bool) : Value × List Value → List Value
  | (.function f, _) => [.function f]
  | (.pattern p, _) => [.pattern p]
  | (.array a, items) =>
    if items.isEmpty || (inlineSimple && items.all Value.isSimple) then [] else [.array a]
  | _ => []

namespace Contents

mutual

/-- What contents add to the table, depth first. -/
def references (inlineSimple : Bool) : Contents (Value × List Value) → List Value
  | leaf a => Store.referencesOf inlineSimple a
  | object properties => referencesAll inlineSimple properties
termination_by structural c => c

/-- What contents under keys add to the table, from the first to the last. -/
def referencesAll (inlineSimple : Bool) :
    List (String × Contents (Value × List Value)) → List Value
  | [] => []
  | (_, c) :: rest => references inlineSimple c ++ referencesAll inlineSimple rest
termination_by structural properties => properties

end

end Contents

variable {s : Store} {inlineSimple : Bool}

/-- A leaf has contents, and the table grows by what they add. -/
theorem exists_shows_leaf {v : Value} (before : List Value) {added : List Value} (hv : v.kind ≠ .object)
    (hadded : Store.referencesOf inlineSimple (s.exact v) = added) :
    ∃ c : Contents (Value × List Value), s.Shows (fun _ => True) s.exact v c ∧
      before ++ added = before ++ c.references inlineSimple :=
  ⟨.leaf (s.exact v), .leaf hv, by rw [Contents.references, hadded]⟩

theorem exists_shows_data {v : Value} (before : List Value) (hv : v.kind ≠ .object)
    (hnone : Store.referencesOf inlineSimple (s.exact v) = []) :
    ∃ c : Contents (Value × List Value), s.Shows (fun _ => True) s.exact v c ∧
      before = before ++ c.references inlineSimple := by
  have hshows := exists_shows_leaf before hv hnone
  rwa [List.append_nil] at hshows

mutual

/-- A value that is classified has contents, and the table grows by what they add. -/
theorem Classified.exists_entries_eq {v : Value} {t u : ReferenceTable} {d : MemberDescriptor} :
    Classified s inlineSimple v t d u →
      ∃ c : Contents (Value × List Value), s.Shows (fun _ => True) s.exact v c ∧
        u.entries = t.entries ++ c.references inlineSimple
  | .literal h t => by
    have hleaf : v.kind ≠ .object := by
      intro heq
      simp [heq] at h
    refine exists_shows_data t.entries hleaf ?_
    cases v with
    | null | boolean b | number x => rfl
    | _ => simp [Value.kind] at h
  | .text x t => exists_shows_data t.entries (by simp [Value.kind]) rfl
  | .function f t => exists_shows_leaf t.entries (by simp [Value.kind]) rfl
  | .pattern p t => exists_shows_leaf t.entries (by simp [Value.kind]) rfl
  | .emptyArray h t =>
    exists_shows_data t.entries (by simp [Value.kind])
      (by simp [Store.referencesOf, Store.exact, Store.elements, h])
  | .inlineArray h inlined t =>
    exists_shows_data t.entries (by simp [Value.kind])
      (by simp [Store.referencesOf, Store.exact, Store.elements, inlined])
  | .arrayCopy (a := a) h kept t => by
    refine exists_shows_leaf t.entries (by simp [Value.kind]) ?_
    have hempty : (s.array a).isEmpty = false := by simpa [List.isEmpty_eq_false_iff] using h
    simp [Store.referencesOf, Store.exact, Store.elements, hempty, kept]
  | .object h => by
    -- an object adds what its properties add and nothing for itself
    obtain ⟨properties, hall, hentries⟩ := h.exists_entries_eq
    exact ⟨.object properties, .object trivial hall, hentries⟩

/-- Members that are classified have contents, and the table grows by what these add in order. -/
theorem ClassifiedMembers.exists_entries_eq {entries : Assoc String Value} {ms result : Skeleton}
    {t u : ReferenceTable} :
    ClassifiedMembers s inlineSimple entries ms t result u →
      ∃ contents : List (String × Contents (Value × List Value)),
        s.ShowsAll (fun _ => True) s.exact entries contents ∧
        u.entries = t.entries ++ Contents.referencesAll inlineSimple contents
  | .nil _ t => ⟨[], .nil, (List.append_nil _).symm⟩
  | .cons first others => by
    obtain ⟨c, hfirst, hadded⟩ := first.exists_entries_eq
    obtain ⟨contents, hothers, hrest⟩ := others.exists_entries_eq
    refine ⟨(_, c) :: contents, .cons hfirst hothers, ?_⟩
    rw [hrest, hadded, Contents.referencesAll, List.append_assoc]

end

/-! ### Computing what is derived -/

section Completeness

variable {path : String} {α : Type} {among : Handle .object → Prop} {read : Value → α}
  {t u : ReferenceTable} {ms : Skeleton}

theorem Classifying.run_memberAt_object {fuel : Nat} {name : String} {o : Handle .object}
    (h : run (members (memberAt s inlineSimple path fuel) (s.object o) []) t = (.ok ms, u)) :
    run (memberAt s inlineSimple path (fuel + 1) name (.object o)) t = (.ok (.nested ms), u) := by
  rw [memberAt, run_bind_eq_ok]
  exact ⟨ms, u, h, rfl⟩

mutual

/-- What a value gives is computed, if classification may go as deep as the value's contents. -/
theorem Classified.run_memberAt {v : Value} {t u : ReferenceTable} {d : MemberDescriptor} {c : Contents α}
    {fuel : Nat} {name : String} (hc : s.Shows among read v c) (hdepth : c.depth ≤ fuel) :
    Classified s inlineSimple v t d u →
      Classifying.run (Classifying.memberAt s inlineSimple path fuel name v) t = (.ok d, u)
  | .literal h t => by
    cases v with
    | null | boolean | number =>
      rw [Classifying.memberAt]
      rfl
    | _ => rcases h with h | h | h <;> cases h
  | .text x t | .function x t | .pattern x t => by
    rw [Classifying.memberAt]
    rfl
  | .emptyArray h t => by
    rw [Classifying.memberAt, h]
    rfl
  | .inlineArray h inlined t => by
    rw [Classifying.memberAt, if_neg (mt List.isEmpty_iff.mp h), if_pos inlined]
    rfl
  | .arrayCopy h kept t => by
    rw [Classifying.memberAt, if_neg (mt List.isEmpty_iff.mp h), if_neg (Bool.eq_false_iff.mp kept)]
    rfl
  | .object h => by
    obtain ⟨properties, rfl, -, hproperties⟩ := hc.exists_properties
    rw [Contents.depth] at hdepth
    obtain ⟨below, rfl⟩ : ∃ below, fuel = below + 1 := ⟨fuel - 1, by omega⟩
    exact Classifying.run_memberAt_object (h.run_members hproperties (by omega))

/-- So is what the entries of an object give. -/
theorem ClassifiedMembers.run_members {entries : Assoc String Value} {t u : ReferenceTable}
    {ms result : Skeleton} {cs : List (String × Contents α)} {fuel : Nat}
    (hcs : s.ShowsAll among read entries cs) (hdepth : Contents.depthAll cs ≤ fuel) :
    ClassifiedMembers s inlineSimple entries ms t result u →
      Classifying.run (Classifying.members (Classifying.memberAt s inlineSimple path fuel) entries ms) t
        = (.ok result, u)
  | .nil _ _ => rfl
  | .cons first others => by
    cases hcs with
    | cons hfirst hbelow =>
      rw [Contents.depthAll] at hdepth
      rw [Classifying.members, Classifying.run_bind_eq_ok]
      exact ⟨_, _, first.run_memberAt hfirst (by omega), others.run_members hbelow (by omega)⟩

end

/-- What the members of a body give is computed in every store: what is classified has contents, and
classification goes as deep as any contents. -/
theorem ClassifiedMembers.run_skeleton {b : ClassBody} {shared : List String}
    (h : ClassifiedMembers s inlineSimple (b.memberEntries shared) [] t ms u) :
    Classifying.run (Classifying.skeleton s inlineSimple path b shared) t = (.ok ms, u) := by
  obtain ⟨cs, hcs, -⟩ := h.exists_entries_eq
  exact h.run_members hcs hcs.depthAll_le_nesting

end Completeness

end ClassComposition
