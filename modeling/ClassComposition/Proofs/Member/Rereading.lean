import ClassComposition.Class.Directives
import ClassComposition.Proofs.Member.Contribution

/-!
# Reading a body again

Classification reads a body through object properties, and no deeper than it was allowed to go.  It reads
the same in another store as long as all that is reached in this way has the same properties and the same
elements there.  Being allowed to go deeper makes a difference only if it was cut off before.

## Main definitions

* `Store.Below` — what is reached from a value through object properties.
* `Store.SameBelow` — what is reached has the same properties and elements in both stores.
* `ClassError.isCyclic` — the error of a classification that was cut off.

## Main results

* `Classifying.memberAt_congr` — the same is read in both stores.
* `Classifying.run_memberAt_of_le` — going deeper changes nothing unless the classification was cut off.
* `Classifying.run_skeleton_of_sameBelow`, `Classifying.run_skeleton_of_ok` — both together, for a body.
* `Directives.parse_congr` — directives are read the same.
-/

namespace ClassComposition

namespace Store

variable {s t u : Store} {v x : Value}

/-- The second value is the first one, or is reached from it through object properties. -/
inductive Below (s : Store) : Value → Value → Prop
  | refl (v : Value) : Below s v v
  | property {o : Handle .object} {p : String × Value} {x : Value} (hp : p ∈ s.object o)
      (below : Below s p.2 x) : Below s (.object o) x

/-- What is reached from a value has the same properties and elements in both stores. -/
def SameBelow (s t : Store) (v : Value) : Prop :=
  ∀ x, s.Below v x → t.entries x = s.entries x ∧ t.elements x = s.elements x

theorem SameBelow.property {o : Handle .object} (h : s.SameBelow t (.object o)) {p : String × Value}
    (hp : p ∈ s.object o) : s.SameBelow t p.2 := fun x hx => h x (.property hp hx)

theorem SameBelow.object_eq {o : Handle .object} (h : s.SameBelow t (.object o)) :
    t.object o = s.object o := (h _ (.refl _)).1

theorem SameBelow.array_eq {a : Handle .array} (h : s.SameBelow t (.array a)) :
    t.array a = s.array a := (h _ (.refl _)).2

theorem SameBelow.below (h : s.SameBelow t v) (hx : s.Below v x) : t.Below v x := by
  induction hx with
  | refl v => exact .refl v
  | property hp _ ih =>
    have hp' := hp
    rw [← h.object_eq] at hp'
    exact .property hp' (ih (h.property hp))

theorem SameBelow.below_of (h : s.SameBelow t v) (hx : t.Below v x) : s.Below v x := by
  induction hx with
  | refl v => exact .refl v
  | property hp _ ih =>
    rw [h.object_eq] at hp
    exact .property hp (ih (h.property hp))

theorem SameBelow.symm (h : s.SameBelow t v) : t.SameBelow s v := by
  intro x hx
  obtain ⟨hentries, helements⟩ := h x (h.below_of hx)
  exact ⟨hentries.symm, helements.symm⟩

theorem SameBelow.trans (hst : s.SameBelow t v) (htu : t.SameBelow u v) : s.SameBelow u v := by
  intro x hx
  obtain ⟨hentries, helements⟩ := hst x hx
  obtain ⟨hentries', helements'⟩ := htu x (hst.below hx)
  exact ⟨hentries'.trans hentries, helements'.trans helements⟩

/-- What is reached from a value of a well-formed store is a value of it. -/
theorem Below.has (h : s.Below v x) (hs : s.WellFormed) (hv : s.Has v) : s.Has x := by
  induction h with
  | refl v => exact hv
  | property hp _ ih => exact ih (hs.has_property _ _ hp)

/-- What lies below a value is reached from it. -/
theorem Below.exists_steps (h : s.Below v x) (hs : s.WellFormed) :
    ∃ steps, s.reach? v steps = some x := by
  induction h with
  | refl v => exact ⟨[], rfl⟩
  | @property o p x hp _ ih =>
    obtain ⟨steps, hsteps⟩ := ih
    have hfound : s.property? (.object o) p.1 = some p.2 := Assoc.get?_of_mem (hs.nodup_keys o) hp
    refine ⟨.property p.1 :: steps, ?_⟩
    rw [reach?, hfound]
    exact hsteps

/-- A value that was there reads the same when the store has grown. -/
theorem Within.sameBelow (hst : s.Within t) (hs : s.WellFormed) (hv : s.Has v) : s.SameBelow t v :=
  fun _ hx => hst.held_eq (hx.has hs hv)

mutual

/-- What reads the same has the same contents in both stores. -/
theorem Shows.sameBelow {among : Handle .object → Prop} {v : Value} {c : Contents (Value × List Value)} :
    s.Shows among s.exact v c → s.SameBelow t v → t.Shows among t.exact v c
  | .leaf hleaf, hsame => by
    have hread : t.exact v = s.exact v := by
      unfold exact
      rw [(hsame v (.refl v)).2]
    rw [← hread]
    exact .leaf hleaf
  | .object ho below, hsame => by
    have hproperties := below.sameBelow fun p hp => hsame.property hp
    rw [← hsame.object_eq] at hproperties
    exact .object ho hproperties

theorem ShowsAll.sameBelow {among : Handle .object → Prop} {entries : Assoc String Value}
    {cs : List (String × Contents (Value × List Value))} :
    s.ShowsAll among s.exact entries cs → (∀ p ∈ entries, s.SameBelow t p.2) →
      t.ShowsAll among t.exact entries cs
  | .nil, _ => .nil
  | .cons first below, hsame => by
    rw [List.forall_mem_cons] at hsame
    exact .cons (first.sameBelow hsame.1) (below.sameBelow hsame.2)

end

end Store

/-! ### Classification -/

/-- Whether a classification was cut off. -/
def ClassError.isCyclic : ClassError → Bool
  | .cyclicMember _ _ => true
  | _ => false

namespace Classifying

variable {s s' : Store} {inlineSimple : Bool} {path : String}

theorem members_congr {classify classify' : String → Value → Classifying MemberDescriptor}
    {entries : Assoc String Value} (h : ∀ p ∈ entries, classify' p.1 p.2 = classify p.1 p.2)
    (ms : Skeleton) : members classify' entries ms = members classify entries ms := by
  induction entries generalizing ms with
  | nil => rfl
  | cons p rest ih =>
    obtain ⟨hfirst, hrest⟩ := List.forall_mem_cons.mp h
    rw [members, members, hfirst]
    congr 1
    funext d
    exact ih hrest _

/-- A value is classified in the same way in both stores. -/
theorem memberAt_congr {fuel : Nat} {name : String} {v : Value} (h : s.SameBelow s' v) :
    memberAt s' inlineSimple path fuel name v = memberAt s inlineSimple path fuel name v := by
  induction fuel using Nat.strongRecOn generalizing name v with
  | ind fuel ih =>
    cases v with
    | array a =>
      rw [memberAt, memberAt, h.array_eq]
    | object o =>
      cases fuel with
      | zero => rfl
      | succ fuel =>
        have hmembers : members (memberAt s' inlineSimple path fuel) (s.object o) []
            = members (memberAt s inlineSimple path fuel) (s.object o) [] :=
          members_congr (fun p hp => ih fuel (Nat.lt_succ_self fuel) (h.property hp)) []
        rw [memberAt, memberAt, h.object_eq, hmembers]
    | _ => rw [memberAt, memberAt]

/-- Where no entry was cut off for want of depth, neither were all of them. -/
theorem run_members_of_le {classify classify' : String → Value → Classifying MemberDescriptor}
    (member : ∀ {name v t outcome u}, run (classify name v) t = (outcome, u) →
      (∀ e, outcome = .error e → e.isCyclic = false) → run (classify' name v) t = (outcome, u))
    {entries : Assoc String Value} {ms : Skeleton} {t u : ReferenceTable}
    {outcome : Except ClassError Skeleton} (h : run (members classify entries ms) t = (outcome, u))
    (hended : ∀ e, outcome = .error e → e.isCyclic = false) :
    run (members classify' entries ms) t = (outcome, u) := by
  induction entries generalizing ms t with
  | nil => exact h
  | cons p rest ih =>
    obtain ⟨name, v⟩ := p
    rw [members, run_bind] at h ⊢
    rcases hfirst : run (classify name v) t with ⟨e | d, t₁⟩
    · rw [hfirst] at h
      cases h
      rw [member hfirst fun e' he => ?_]
      cases he
      exact hended e rfl
    · rw [hfirst] at h
      have hgoes : ∀ e : ClassError, Except.ok d = .error e → e.isCyclic = false := by
        intro e he
        cases he
      rw [member hfirst hgoes]
      exact ih h

/-- A value whose classification was not cut off is classified in the same way when it may go deeper. -/
theorem run_memberAt_of_le {fuel fuel' : Nat} (hle : fuel ≤ fuel') {name : String} {v : Value}
    {t u : ReferenceTable} {outcome : Except ClassError MemberDescriptor}
    (h : run (memberAt s inlineSimple path fuel name v) t = (outcome, u))
    (hended : ∀ e, outcome = .error e → e.isCyclic = false) :
    run (memberAt s inlineSimple path fuel' name v) t = (outcome, u) := by
  induction fuel using Nat.strongRecOn generalizing fuel' name v t u outcome with
  | ind fuel ih =>
    cases v with
    | object o =>
      cases fuel with
      | zero =>
        cases h
        -- without fuel an object is cut off, which is excluded
        cases hended _ rfl
      | succ fuel =>
        obtain ⟨fuel', rfl⟩ : ∃ n, fuel' = n + 1 := ⟨fuel' - 1, by omega⟩
        rw [memberAt, run_bind] at h ⊢
        rcases hmembers : run (members (memberAt s inlineSimple path fuel) (s.object o) []) t
          with ⟨e | ms, t₁⟩
        · rw [hmembers] at h
          cases h
          rw [run_members_of_le (fun hrun hend => ih fuel (Nat.lt_succ_self fuel) (by omega) hrun hend)
            hmembers fun e' he => ?_]
          cases he
          exact hended e rfl
        · rw [hmembers] at h
          have hgoes : ∀ e : ClassError, Except.ok ms = .error e → e.isCyclic = false := by
            intro e he
            cases he
          rw [run_members_of_le (fun hrun hend => ih fuel (Nat.lt_succ_self fuel) (by omega) hrun hend)
            hmembers hgoes]
          exact h
    | _ =>
      rw [memberAt] at h ⊢
      exact h

variable {b : ClassBody} {shared : List String}

/-- The members of a body that reads the same are classified in the same way, unless the classification
was cut off. -/
theorem run_skeleton_of_sameBelow (hsame : ∀ p ∈ b.entries, s.SameBelow s' p.2)
    (hle : s.nesting ≤ s'.nesting) {t u : ReferenceTable} {outcome : Except ClassError Skeleton}
    (h : run (skeleton s inlineSimple path b shared) t = (outcome, u))
    (hended : ∀ e, outcome = .error e → e.isCyclic = false) :
    run (skeleton s' inlineSimple path b shared) t = (outcome, u) := by
  have hcongr : skeleton s' inlineSimple path b shared
      = members (memberAt s inlineSimple path s'.nesting) (b.memberEntries shared) [] :=
    members_congr (fun p hp => memberAt_congr (hsame p (List.mem_filter.mp hp).1)) []
  rw [hcongr]
  exact run_members_of_le (fun hrun hend => run_memberAt_of_le hle hrun hend) h hended

/-- Where the members of a body are classified, they are so in every store in which it reads the same. -/
theorem run_skeleton_of_ok (hsame : ∀ p ∈ b.entries, s.SameBelow s' p.2) {t u : ReferenceTable}
    {ms : Skeleton}
    (h : run (skeleton s inlineSimple path b shared) t = (.ok ms, u)) :
    run (skeleton s' inlineSimple path b shared) t = (.ok ms, u) := by
  rcases Nat.le_total s.nesting s'.nesting with hle | hle
  · exact run_skeleton_of_sameBelow hsame hle h fun e he => nomatch he
  -- the contents are not too deep for the second store either
  obtain ⟨contents, hcontents, -⟩ := (classifiedMembers_of_skeleton h).exists_entries_eq
  have hmembers : ∀ p ∈ b.memberEntries shared, p ∈ b.entries := fun p hp => (List.mem_filter.mp hp).1
  have hcontents' := hcontents.sameBelow fun p hp => hsame p (hmembers p hp)
  have hdepth := hcontents.depthAll_le_nesting
  have hdepth' := hcontents'.depthAll_le_nesting
  have hok : (run (skeleton s inlineSimple path b shared) t).1.isOk = Contents.isStorableAll contents :=
    isOk_members (fun _ _ _ hc hdepth t => isOk_memberAt hc hdepth t) hcontents hdepth [] t
  have hok' : (run (skeleton s' inlineSimple path b shared) t).1.isOk = Contents.isStorableAll contents :=
    isOk_members (fun _ _ _ hc hdepth t => isOk_memberAt hc hdepth t) hcontents' hdepth' [] t
  rcases hrun : run (skeleton s' inlineSimple path b shared) t with ⟨e | ms', u'⟩
  · rw [hrun, ← hok, h] at hok'
    cases hok'
  · have hback := run_skeleton_of_sameBelow (fun p hp => (hsame p hp).symm) hle hrun fun e he => nomatch he
    rw [← h, ← hback]

end Classifying

/-! ### Directives -/

/-- The directives of a body that reads the same say the same. -/
theorem Directives.parse_congr {s s' : Store} {b : ClassBody} (path : String)
    (hsame : ∀ p ∈ b.entries, s.SameBelow s' p.2) :
    Directives.parse s' path b = Directives.parse s path b := by
  have hentry : ∀ {name v}, b.get? name = some v → s.SameBelow s' v :=
    fun hv => hsame _ (Assoc.mem_of_get? hv)
  have habstract : abstractness s' path b = abstractness s path b := by
    unfold abstractness
    rcases hv : b.get? Directive.options.name with _ | v
    · rfl
    cases v with
    | object o =>
      dsimp only
      rw [(hentry hv).object_eq]
    | _ => rfl
  have hnames : ∀ directive, names s' path b directive = names s path b directive := by
    intro directive
    unfold names
    rcases hv : b.get? directive.name with _ | v
    · rfl
    cases v with
    | array a =>
      dsimp only
      rw [(hentry hv).array_eq]
    | _ => rfl
  -- directives are read from the body, its arrays of names and its object of options only
  unfold parse
  rw [habstract, hnames, hnames]

end ClassComposition
