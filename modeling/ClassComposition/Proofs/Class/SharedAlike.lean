import ClassComposition.Proofs.Class.SameBody
import ClassComposition.Proofs.Class.SharedState
import ClassComposition.Proofs.Registry.Atomicity

/-!
# Shared members in two runs

What a class shares is composed of the parent's shared members and of the entries of its body.  Where both
are the same in two runs, so is what comes of them: the names in their order, and values with the same
contents.  The values themselves are the same, too, but for the copies that each run makes of an object
that is redeclared.

## Main definitions

* `ClassBody.Copies` — the names under which a class has a copy.
* `SharedMembers.Alike` — shared members of two runs.

## Main results

* `SharedMembers.inherit_alike`, `SharedMembers.declare_alike` — what is handed down and what is added.
* `ClassDefinition.composeShared_alike` — both together.
-/

namespace ClassComposition

variable {s s' t t' : Store} {path : String} {body : ClassBody} {w w' : World}

/-- The names under which a class has a copy: those under which its body redeclares an object of the
parent's, and those under which the parent has a copy and the body nothing. -/
def ClassBody.Copies (b : ClassBody) (parent : SharedMembers) (above : String → Prop) (name : String) :
    Prop :=
  (name ∈ Assoc.keys parent ∧ ∃ o, b.get? name = some (.object o)) ∨ (b.get? name = none ∧ above name)

namespace SharedMembers

/-- Shared members of two runs: the same names in order, and under each the same value, or objects with
the same contents where there are copies. -/
def Alike (copies : String → Prop) (s s' : Store) (m m' : SharedMembers) : Prop :=
  Assoc.Beside (fun name v v' => s.SameContents s' v v' ∧ (v = v' ∨ copies name)) m m'

variable {copies above : String → Prop} {m m' : SharedMembers}

namespace Alike

theorem within (h : Alike copies s s' m m') (hst : s.Within t) (hst' : s'.Within t') :
    Alike copies t t' m m' :=
  Assoc.Beside.mono h fun _ _ _ _ _ hv => ⟨hv.1.within hst hst', hv.2⟩

theorem mono {more : String → Prop} (h : Alike copies s s' m m') (hmore : ∀ n, copies n → more n) :
    Alike more s s' m m' :=
  Assoc.Beside.mono h fun name _ _ _ _ hv => ⟨hv.1, hv.2.imp_right (hmore name)⟩

theorem has_shallow (h : Alike copies s s' m m') (hs : s.WellFormed) :
    ∀ p ∈ m, s.Has p.2 ∧ s.Shallow p.2 := by
  intro p hp
  obtain ⟨v, -, hv, -⟩ := h.exists_of_mem hp
  exact ⟨hv.has, hv.shallow hs⟩

theorem has_shallow' (h : Alike copies s s' m m') (hs' : s'.WellFormed) :
    ∀ p ∈ m', s'.Has p.2 ∧ s'.Shallow p.2 := by
  intro p hp
  obtain ⟨v, -, hv, -⟩ := h.symm.exists_of_mem hp
  exact ⟨hv.has', hv.symm.shallow hs'⟩

end Alike

/-! ### What is handed down -/

variable (path) in
theorem inheritOne_alike (hs : w.store.WellFormed) (hs' : w'.store.WellFormed)
    (hbody : body.SameIn w.store w'.store) {name : String} {inherited inherited' : Value}
    (h : w.store.SameContents w'.store inherited inherited')
    (hsame : inherited = inherited' ∨ above name) :
    Action.Alike
      (fun v s v' s' => s.SameContents s' v v' ∧
        (v = v' ∨ (∃ o, body.get? name = some (.object o)) ∨ (body.get? name = none ∧ above name)))
      (inheritOne path name inherited (body.get? name)) w
      (inheritOne path name inherited' (body.get? name)) w' := by
  rcases hdeclared : body.get? name with _ | declared
  · exact Action.alike_pure ⟨h, hsame.imp_right fun habove => .inr ⟨rfl, habove⟩⟩
  rcases h.eq_or_objects with ⟨hleaf, rfl⟩ | ⟨o, o', rfl, rfl⟩
  · cases inherited with
    | array a =>
      cases declared with
      | array b => exact Action.alike_pure ⟨hbody.sameContents hdeclared, .inl rfl⟩
      | _ => exact Action.alike_throw rfl
    | object o => exact absurd rfl hleaf
    | _ => cases declared <;> exact Action.alike_throw rfl
  · cases declared with
    | object source =>
      -- both runs lay the body's object over a copy of their own
      have hlaid := h.overlay hs hs' (hbody.sameContents hdeclared) hs.continues hs'.continues
      unfold Action.Alike
      rw [run_inheritOne_object, run_inheritOne_object]
      exact .ok ⟨hlaid, .inr (.inl ⟨source, rfl⟩)⟩
    | _ => exact Action.alike_throw rfl

variable (path) in
theorem inherit_alike (hs : w.store.WellFormed) (hs' : w'.store.WellFormed)
    (hbody : body.SameIn w.store w'.store) {parent parent' : SharedMembers}
    (h : Alike above w.store w'.store parent parent') :
    Action.Alike
      (fun m s m' s' => Alike (body.Copies parent above) s s' m m')
      (inherit path body parent) w (inherit path body parent') w' := by
  induction parent generalizing parent' w w' with
  | nil =>
    cases h
    exact Action.alike_pure .nil
  | cons p rest ih =>
    obtain ⟨name, inherited⟩ := p
    rcases h with _ | @⟨_, ⟨name', inherited'⟩, _, rest', ⟨hname, hsame, hkeep⟩, below⟩
    obtain rfl : name = name' := hname
    have hdeclared : ∀ v, body.get? name = some v → w.store.Has v ∧ w'.store.Has v := fun v hv =>
      ⟨(hbody.sameContents hv).has, (hbody.sameContents hv).has'⟩
    -- what is made for the first member grows both stores, in which the others are then composed
    have hone := (inheritOne_alike path hs hs' hbody hsame hkeep).and_preserved
      (preserves_inheritOne hs (fun _ => ⟨hsame.has, hsame.shallow hs⟩) fun v hv => (hdeclared v hv).1)
      (preserves_inheritOne hs' (fun _ => ⟨hsame.has', hsame.symm.shallow hs'⟩)
        fun v hv => (hdeclared v hv).2)
      hs.continues hs'.continues
    rw [inherit, inherit]
    refine Action.alike_bind hone fun v v' u u' hv => Action.alike_record_bind fun u₁ u₁' hu hu' => ?_
    obtain ⟨⟨hcontents, hcopies⟩, hgrown, hgrown'⟩ := hv
    rw [← hu] at hgrown hcontents
    rw [← hu'] at hgrown' hcontents
    have hbodyLater := hbody.within hs hs' hgrown.within hgrown'.within
    have hbelow := Alike.within below hgrown.within hgrown'.within
    have hothers := (ih hgrown.wellFormed hgrown'.wellFormed hbodyLater hbelow).and_preserved
      (preserves_inherit fun p hp => preserves_inheritOne hgrown.wellFormed
        (fun _ => hbelow.has_shallow hgrown.wellFormed p hp)
        fun v hv => hbodyLater.has _ (Assoc.mem_of_get? hv))
      (preserves_inherit fun p hp => preserves_inheritOne hgrown'.wellFormed
        (fun _ => hbelow.has_shallow' hgrown'.wellFormed p hp)
        fun v hv => hbodyLater.has' _ (Assoc.mem_of_get? hv))
      hgrown.wellFormed.continues hgrown'.wellFormed.continues
    refine Action.alike_bind hothers fun m m' u₂ u₂' hm => Action.alike_pure ?_
    obtain ⟨hall, hthen, hthen'⟩ := hm
    refine .cons ⟨rfl, hcontents.within hthen.within hthen'.within, ?_⟩ (hall.mono fun other hother => ?_)
    · exact hcopies.imp_right fun hcopy => hcopy.imp_left fun ho => ⟨List.mem_cons_self, ho⟩
    · exact hother.imp_left fun ho => ⟨List.mem_cons_of_mem _ ho.1, ho.2⟩

/-! ### What is added -/

variable {skeleton? skeleton?' : Option Skeleton}

theorem declarable_alike (h : Alike copies s s' m m')
    (hskeleton : ∀ key, Assoc.contains (skeleton?.getD []) key = Assoc.contains (skeleton?'.getD []) key)
    (name : String) :
    declarable path body skeleton? m name = declarable path body skeleton?' m' name := by
  have hshared : Assoc.contains m name = Assoc.contains m' name := by
    rw [Bool.eq_iff_iff, Assoc.contains_iff, Assoc.contains_iff, h.keys_eq]
  unfold declarable
  rw [hskeleton, hshared]

variable (path) in
/-- The names that the body declares are added in both runs, up to the first that may not be. -/
theorem declare_alike (hbody : body.SameIn s s') (h : Alike copies s s' m m')
    (hskeleton : ∀ key, Assoc.contains (skeleton?.getD []) key = Assoc.contains (skeleton?'.getD []) key)
    (names : List String) :
    Alike copies s s' (declare path body skeleton? m names).1 (declare path body skeleton?' m' names).1 ∧
      SameOutcome (fun _ _ => True) (declare path body skeleton? m names).2
        (declare path body skeleton?' m' names).2 := by
  induction names generalizing m m' with
  | nil => exact ⟨h, .ok trivial⟩
  | cons name rest ih =>
    rw [declare, declare, ← declarable_alike h hskeleton]
    rcases hname : declarable path body skeleton? m name with e | v
    · exact ⟨h, .error rfl⟩
    · -- the value is the body's entry, under a name that is new in both
      have hnew := notMem_of_declarable hname
      have hnew' : name ∉ Assoc.keys m' := h.keys_eq ▸ hnew
      have hv := hbody.sameContents (get?_of_declarable hname)
      dsimp only
      refine ih ?_
      rw [Assoc.insert_of_notMem hnew, Assoc.insert_of_notMem hnew']
      exact h.snoc ⟨hv, .inl rfl⟩

end SharedMembers

/-! ### Both together -/

namespace ClassDefinition

variable (path) in
/-- What was handed down is completed alike by what the body declares. -/
theorem declareOwn_alike (hs : s.WellFormed) (hs' : s'.WellFormed) (hbody : body.SameIn s s')
    {copies : String → Prop} {m m' : SharedMembers} {skeleton? skeleton?' : Option Skeleton}
    (hu : s.Continues w.store) (hu' : s'.Continues w'.store)
    (hm : SharedMembers.Alike copies w.store w'.store m m')
    (hskeleton : ∀ key, Assoc.contains (skeleton?.getD []) key = Assoc.contains (skeleton?'.getD []) key)
    (names : List String) :
    Action.Alike
      (fun m t m' t' => SharedMembers.Alike copies t t' m m' ∧ s.Continues t ∧ s'.Continues t')
      (declareOver path body skeleton? names m) w (declareOver path body skeleton?' names m') w' := by
  obtain ⟨hdeclared, hsame⟩ := SharedMembers.declare_alike path
    (hbody.within hs hs' hu.within hu'.within) hm hskeleton names
  rcases hrun : SharedMembers.declare path body skeleton? m names with ⟨result, outcome⟩
  rcases hrun' : SharedMembers.declare path body skeleton?' m' names with ⟨result', outcome'⟩
  rw [hrun, hrun'] at hdeclared hsame
  cases hsame with
  | ok =>
    rw [declareOver_of_ok hrun, declareOver_of_ok hrun']
    exact Action.alike_pure ⟨hdeclared, hu, hu'⟩
  | error hkind =>
    rw [declareOver_of_error hrun, declareOver_of_error hrun']
    exact Action.alike_throw hkind

variable (path) in
/-- The shared members of a class are composed alike when those of the parent are alike, and the parents
have the same members. -/
theorem composeShared_alike (hs : w.store.WellFormed) (hs' : w'.store.WellFormed)
    (hbody : body.SameIn w.store w'.store) {above : String → Prop}
    {parent? parent?' : Option ClassDefinition} (names : List String)
    (h : Option.Rel (fun c c' => SharedMembers.Alike above w.store w'.store c.shared c'.shared ∧
      ∀ key, Assoc.contains c.skeleton key = Assoc.contains c'.skeleton key) parent? parent?') :
    Action.Alike
      (fun m s m' s' => SharedMembers.Alike
        (body.Copies ((parent?.map ClassDefinition.shared).getD []) above) s s' m m' ∧
        w.store.Continues s ∧ w'.store.Continues s')
      (composeShared path body parent? names) w (composeShared path body parent?' names) w' := by
  rw [composeShared_eq, composeShared_eq]
  -- without parents nothing is handed down, and the body declares its names on nothing
  cases h with
  | none =>
    refine Action.alike_bind (R := fun m s m' s' => m = [] ∧ m' = [] ∧ s = w.store ∧ s' = w'.store)
      (Action.alike_pure ⟨rfl, rfl, rfl, rfl⟩) ?_
    rintro m m' u u' ⟨rfl, rfl, hu, hu'⟩
    refine declareOwn_alike path hs hs' hbody ?_ ?_ .nil (fun _ => rfl) names
    · rw [hu]
      exact hs.continues
    · rw [hu']
      exact hs'.continues
  | @some parent parent' hparent =>
    -- handing down leaves what was there in both stores, so the bodies may still be read
    have hinherit := (SharedMembers.inherit_alike path hs hs' hbody hparent.1).and_preserved
      (SharedMembers.preserves_inherit fun p hp => SharedMembers.preserves_inheritOne hs
        (fun _ => hparent.1.has_shallow hs p hp) fun v hv => hbody.has _ (Assoc.mem_of_get? hv))
      (SharedMembers.preserves_inherit fun p hp => SharedMembers.preserves_inheritOne hs'
        (fun _ => hparent.1.has_shallow' hs' p hp) fun v hv => hbody.has' _ (Assoc.mem_of_get? hv))
      hs.continues hs'.continues
    refine Action.alike_bind hinherit fun m m' u u' hm => ?_
    have hskeleton : ∀ key, Assoc.contains ((some parent.skeleton).getD []) key
        = Assoc.contains ((some parent'.skeleton).getD []) key := hparent.2
    exact declareOwn_alike path hs hs' hbody hm.2.1 hm.2.2 hm.1 hskeleton names

end ClassDefinition

end ClassComposition
