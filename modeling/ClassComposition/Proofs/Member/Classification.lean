import ClassComposition.Proofs.Effect
import ClassComposition.Proofs.Member.Leaves

/-!
# What classification gives

A classification that succeeds is a derivation: each value gives a descriptor and a table that has grown
by the value's own entries, and an object gives those of its properties from left to right.  How deep the
computation was allowed to go no longer shows.

## Main definitions

* `Classified`, `ClassifiedMembers` — one value, and the members of an object or a body.
* `ClassBody.memberEntries` — the entries of a body that become members.

## Main results

* `classified_of_memberAt`, `classifiedMembers_of_skeleton` — a classification that succeeds has a
  derivation.
* `Classified.isPrefix`, `ClassifiedMembers.isPrefix` — the table only grows.
* `Classified.allLeaves`, `ClassifiedMembers.allLeaves` — all indices point into it.
* `ClassifiedMembers.mem_keys_iff` — the entries, and no others, become members.
* `ClassifiedMembers.get?_function` — a function is found under its name.
-/

namespace ClassComposition

/-- The entries of a body that become members: all but the directives and the shared names. -/
def ClassBody.memberEntries (b : ClassBody) (shared : List String) : Assoc String Value :=
  b.entries.filter fun p => !Directive.isReserved p.1 && !shared.contains p.1

mutual

/-- A value gives a descriptor while a table grows. -/
inductive Classified (s : Store) (inlineSimple : Bool) :
    Value → ReferenceTable → MemberDescriptor → ReferenceTable → Prop
  | literal {v : Value} (h : v.kind = .null ∨ v.kind = .boolean ∨ v.kind = .number)
      (t : ReferenceTable) : Classified s inlineSimple v t (.literal v) t
  | text (x : String) (t : ReferenceTable) : Classified s inlineSimple (.text x) t (.text x) t
  | function (f : Handle .function) (t : ReferenceTable) :
      Classified s inlineSimple (.function f) t (.function t.size) (t.push (.function f)).2
  | pattern (p : Handle .pattern) (t : ReferenceTable) :
      Classified s inlineSimple (.pattern p) t (.pattern t.size) (t.push (.pattern p)).2
  | emptyArray {a : Handle .array} (h : s.array a = []) (t : ReferenceTable) :
      Classified s inlineSimple (.array a) t .emptyArray t
  | inlineArray {a : Handle .array} (h : s.array a ≠ [])
      (inlined : (inlineSimple && (s.array a).all Value.isSimple) = true) (t : ReferenceTable) :
      Classified s inlineSimple (.array a) t (.inlineArray (s.array a)) t
  | arrayCopy {a : Handle .array} (h : s.array a ≠ [])
      (kept : (inlineSimple && (s.array a).all Value.isSimple) = false) (t : ReferenceTable) :
      Classified s inlineSimple (.array a) t (.arrayCopy t.size) (t.push (.array a)).2
  | object {o : Handle .object} {ms : Skeleton} {t u : ReferenceTable}
      (h : ClassifiedMembers s inlineSimple (s.object o) [] t ms u) :
      Classified s inlineSimple (.object o) t (.nested ms) u

/-- Members are classified one after the other and written into a skeleton while a table grows. -/
inductive ClassifiedMembers (s : Store) (inlineSimple : Bool) :
    Assoc String Value → Skeleton → ReferenceTable → Skeleton → ReferenceTable → Prop
  | nil (ms : Skeleton) (t : ReferenceTable) : ClassifiedMembers s inlineSimple [] ms t ms t
  | cons {name : String} {v : Value} {rest : Assoc String Value} {d : MemberDescriptor}
      {ms result : Skeleton} {t u r : ReferenceTable} (first : Classified s inlineSimple v t d u)
      (others : ClassifiedMembers s inlineSimple rest
        (Assoc.insert ms (MemberKey.parse name) d) u result r) :
      ClassifiedMembers s inlineSimple ((name, v) :: rest) ms t result r

end

section Derivations

variable {s : Store} {inlineSimple : Bool} {path : String}

/-! ### Derivations from what is known of arrays and objects -/

theorem Classified.inlineArray_of_eq {a : Handle .array} {items : List Value} (h : s.array a = items)
    (hitems : items ≠ []) (inlined : (inlineSimple && items.all Value.isSimple) = true)
    (t : ReferenceTable) : Classified s inlineSimple (.array a) t (.inlineArray items) t := by
  subst h
  exact .inlineArray hitems inlined t

theorem Classified.arrayCopy_of_eq {a : Handle .array} {items : List Value} (h : s.array a = items)
    (hitems : items ≠ []) (kept : (inlineSimple && items.all Value.isSimple) = false)
    (t : ReferenceTable) :
    Classified s inlineSimple (.array a) t (.arrayCopy t.size) (t.push (.array a)).2 := by
  subst h
  exact .arrayCopy hitems kept t

theorem Classified.object_of_eq {o : Handle .object} {properties : Assoc String Value} {ms : Skeleton}
    {t u : ReferenceTable} (h : s.object o = properties)
    (members : ClassifiedMembers s inlineSimple properties [] t ms u) :
    Classified s inlineSimple (.object o) t (.nested ms) u := by
  subst h
  exact .object members

/-! ### Derivations of what is computed -/

theorem classifiedMembers_of_members
    {classify : String → Value → Classifying MemberDescriptor}
    (member : ∀ {name v t d u}, Classifying.run (classify name v) t = (.ok d, u) →
      Classified s inlineSimple v t d u)
    {entries : Assoc String Value} {ms result : Skeleton} {t u : ReferenceTable}
    (h : Classifying.run (Classifying.members classify entries ms) t = (.ok result, u)) :
    ClassifiedMembers s inlineSimple entries ms t result u := by
  induction entries generalizing ms t with
  | nil =>
    cases h
    exact .nil _ _
  | cons p rest ih =>
    obtain ⟨name, v⟩ := p
    rw [Classifying.members, Classifying.run_bind_eq_ok] at h
    obtain ⟨d, t₁, hfirst, hothers⟩ := h
    exact .cons (member hfirst) (ih hothers)

/-- A value whose classification succeeds has a derivation. -/
theorem classified_of_memberAt {fuel : Nat} {name : String} {v : Value} {t u : ReferenceTable}
    {d : MemberDescriptor}
    (h : Classifying.run (Classifying.memberAt s inlineSimple path fuel name v) t = (.ok d, u)) :
    Classified s inlineSimple v t d u := by
  -- only an object needs the induction; all other values do not look at the fuel
  induction fuel using Nat.strongRecOn generalizing name v t d u with
  | ind fuel ih =>
    unfold Classifying.memberAt at h
    cases v with
    | null =>
      cases h
      exact .literal (.inl rfl) _
    | boolean b =>
      cases h
      exact .literal (.inr (.inl rfl)) _
    | number x =>
      cases h
      exact .literal (.inr (.inr rfl)) _
    | text x =>
      cases h
      exact .text x _
    | function f =>
      cases h
      exact .function f _
    | pattern p =>
      cases h
      exact .pattern p _
    | array a =>
      dsimp only at h
      by_cases hempty : (s.array a).isEmpty = true
      · rw [if_pos hempty] at h
        cases h
        exact .emptyArray (List.isEmpty_iff.mp hempty) _
      rw [if_neg hempty] at h
      have hne : s.array a ≠ [] := fun heq => hempty (List.isEmpty_iff.mpr heq)
      by_cases hinline : (inlineSimple && (s.array a).all Value.isSimple) = true
      · rw [if_pos hinline] at h
        cases h
        exact .inlineArray hne hinline _
      · rw [if_neg hinline] at h
        cases h
        exact .arrayCopy hne (Bool.eq_false_iff.mpr hinline) _
    | object o =>
      cases fuel with
      | zero => cases h
      | succ fuel =>
        dsimp only at h
        rw [Classifying.run_bind_eq_ok] at h
        obtain ⟨ms, t₁, hmembers, hpure⟩ := h
        cases hpure
        exact .object (classifiedMembers_of_members (ih fuel (Nat.lt_succ_self fuel)) hmembers)
    | undefined => cases h
    | inst i => cases h
    | big n => cases h

theorem classifiedMembers_of_skeleton {b : ClassBody} {shared : List String}
    {t u : ReferenceTable} {ms : Skeleton}
    (h : Classifying.run (Classifying.skeleton s inlineSimple path b shared) t = (.ok ms, u)) :
    ClassifiedMembers s inlineSimple (b.memberEntries shared) [] t ms u :=
  classifiedMembers_of_members classified_of_memberAt h

/-! ### What derivations keep -/

mutual

/-- Classifying a value only adds to the table. -/
theorem Classified.isPrefix {v : Value} {t u : ReferenceTable} {d : MemberDescriptor} :
    Classified s inlineSimple v t d u → t.IsPrefix u
  | .literal _ t | .text _ t | .emptyArray _ t | .inlineArray _ _ t => .refl t
  | .function f t => ReferenceTable.isPrefix_push t (.function f)
  | .pattern p t => ReferenceTable.isPrefix_push t (.pattern p)
  | .arrayCopy (a := a) _ _ t => ReferenceTable.isPrefix_push t (.array a)
  | .object h => h.isPrefix

theorem ClassifiedMembers.isPrefix {entries : Assoc String Value} {ms result : Skeleton}
    {t u : ReferenceTable} :
    ClassifiedMembers s inlineSimple entries ms t result u → t.IsPrefix u
  | .nil _ t => .refl t
  | .cons first others => first.isPrefix.trans others.isPrefix

end

mutual

/-- The indices of a classified value point into the table. -/
theorem Classified.allLeaves {v : Value} {t u : ReferenceTable} {d : MemberDescriptor} :
    Classified s inlineSimple v t d u → d.AllLeaves (MemberDescriptor.PointsInto u)
  | .literal _ _ | .text _ _ | .emptyArray _ _ | .inlineArray _ _ _ => trivial
  | .function f t => ⟨f, t.get?_push_size (.function f)⟩
  | .pattern p t => ⟨p, t.get?_push_size (.pattern p)⟩
  | .arrayCopy (a := a) _ _ t => ⟨a, t.get?_push_size (.array a)⟩
  | .object h => (Skeleton.allLeaves_nested _).mpr (h.allLeaves Skeleton.allLeaves_nil)

/-- Where the members written so far point into the table, so do all of them in the end. -/
theorem ClassifiedMembers.allLeaves {entries : Assoc String Value} {ms result : Skeleton}
    {t u : ReferenceTable} :
    ClassifiedMembers s inlineSimple entries ms t result u →
      Skeleton.AllLeaves (MemberDescriptor.PointsInto t) ms →
      Skeleton.AllLeaves (MemberDescriptor.PointsInto u) result
  | .nil _ _, hms => hms
  | .cons first others, hms =>
    have hgrown := Skeleton.allLeaves_of_isPrefix first.isPrefix hms
    others.allLeaves (Skeleton.allLeaves_insert hgrown _ first.allLeaves)

end

/-- The members are those written before and those that the entries name. -/
theorem ClassifiedMembers.mem_keys_iff {entries : Assoc String Value} {ms result : Skeleton}
    {t u : ReferenceTable} {key : MemberKey}
    (h : ClassifiedMembers s inlineSimple entries ms t result u) :
    key ∈ Assoc.keys result ↔
      key ∈ Assoc.keys ms ∨ ∃ name ∈ Assoc.keys entries, MemberKey.parse name = key := by
  induction entries generalizing ms t with
  | nil =>
    cases h
    simp [Assoc.keys]
  | cons p rest ih =>
    obtain ⟨name, v⟩ := p
    obtain _ | ⟨_, others⟩ := h
    have hrest : Assoc.keys ((name, v) :: rest) = name :: Assoc.keys rest := rfl
    -- the first entry writes its key, and the others write theirs into what this gave
    rw [ih others, Assoc.mem_keys_insert, hrest]
    constructor
    · rintro ((rfl | hms) | ⟨other, hother, hkey⟩)
      · exact .inr ⟨name, List.mem_cons_self, rfl⟩
      · exact .inl hms
      · exact .inr ⟨other, List.mem_cons_of_mem _ hother, hkey⟩
    · rintro (hms | ⟨other, hother, rfl⟩)
      · exact .inl (.inr hms)
      · rcases List.mem_cons.mp hother with rfl | hlater
        · exact .inl (.inl rfl)
        · exact .inr ⟨other, hlater, rfl⟩

/-- A member under a key that none of the entries names stays as it is. -/
theorem ClassifiedMembers.get?_of_notMem {entries : Assoc String Value} {ms result : Skeleton}
    {t u : ReferenceTable} {key : MemberKey}
    (hkey : ∀ name ∈ Assoc.keys entries, MemberKey.parse name ≠ key) :
    ClassifiedMembers s inlineSimple entries ms t result u →
      Assoc.get? result key = Assoc.get? ms key
  | .nil _ _ => rfl
  | .cons _ others => by
    have hfirst := hkey _ List.mem_cons_self
    have hrest := fun name hname => hkey name (List.mem_cons_of_mem _ hname)
    rw [others.get?_of_notMem hrest, Assoc.get?_insert_of_ne _ _ hfirst]

/-- Where every name occurs once, a function is found under its name, with itself as its entry. -/
theorem ClassifiedMembers.get?_function {entries : Assoc String Value} {ms result : Skeleton}
    {t u : ReferenceTable} {name : String} {f : Handle .function}
    (hnames : (Assoc.keys entries).Nodup) (hmem : (name, .function f) ∈ entries) :
    ClassifiedMembers s inlineSimple entries ms t result u →
      ∃ i, Assoc.get? result (MemberKey.parse name) = some (.function i) ∧
        u.get? i = some (.function f)
  | @ClassifiedMembers.cons _ _ _ _ rest _ _ _ _ _ _ first others => by
    obtain ⟨hfresh, hrest⟩ := List.nodup_cons.mp hnames
    rcases List.mem_cons.mp hmem with heq | hlater
    · cases heq
      cases first with
      | literal h => rcases h with h | h | h <;> cases h
      | function =>
        -- the other entries have other names, and write under other keys
        have hothers : ∀ other ∈ Assoc.keys rest, MemberKey.parse other ≠ MemberKey.parse name := by
          intro other hother heq
          obtain rfl := MemberKey.parse_injective heq
          exact hfresh hother
        refine ⟨t.size, ?_, others.isPrefix.get? (t.get?_push_size (.function f))⟩
        rw [others.get?_of_notMem hothers, Assoc.get?_insert_self]
    · exact others.get?_function hrest hlater

end Derivations

end ClassComposition
