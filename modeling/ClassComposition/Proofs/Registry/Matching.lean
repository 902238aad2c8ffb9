import ClassComposition.Proofs.Class.Matching

/-!
# Defining a class twice

One class is defined in two registries, each in a world of its own.  Where the path has the same place in
both, the classes that the body names are the same in both, and the stores agree on what the compilation
reads, the second definition follows the first one, and publishes the same class but for what it shares.

## Main definitions

* `Registry.Ready` — what a definition needs of a store.
* `Registry.SamePlace` — places that are told apart by the tree of their root at most.
* `Registry.Published` — what two definitions of one class have answered.

## Main results

* `Registry.matches_define` — the second definition follows the first one.
-/

namespace ClassComposition

open ClassComposition.Action

namespace Registry

variable {admitted : ClassError → Prop} {T : Store → Store → Prop} {V : Value → Value → Prop}
  {I : Nat → Nat → Prop} {P : Handle .prototype → Handle .prototype → Prop} {r r' : Registry}
  {path : String} {body : ClassBody} {w w' : World}

/-- What a definition needs of a store: it is well formed, and has the values of the body and what the
body redeclares of the parent's shared members, in which no object lies below itself. -/
structure Ready (r : Registry) (body : ClassBody) (s : Store) : Prop where
  wellFormed : s.WellFormed
  has_entries : ∀ p ∈ body.entries, s.Has p.2
  redeclared : ∀ parent, r.parentOf? body = some parent → ∀ p ∈ parent.shared,
    body.contains p.1 = true → s.Has p.2 ∧ s.Acyclic p.2

namespace Ready

variable {s : Store}

/-- What is handed down leaves the store as it was. -/
theorem preserves_inheritOne (h : r.Ready body s) {parent : ClassDefinition}
    (hparent : r.parentOf? body = some parent) {p : String × Value} (hp : p ∈ parent.shared) :
    (SharedMembers.inheritOne path p.1 p.2 (body.get? p.1)).Preserves s.Continues := by
  refine SharedMembers.preserves_inheritOne h.wellFormed (fun hsome => ?_) fun v hv => ?_
  · obtain ⟨hhas, hacyclic⟩ := h.redeclared parent hparent p hp hsome
    exact ⟨hhas, hacyclic.shallow h.wellFormed hhas⟩
  · exact h.has_entries _ (Assoc.mem_of_get? hv)

end Ready

/-- Two places are at the same segments of roots of the same name. -/
def SamePlace (x y : String × Namespace × List String) : Prop := x.1 = y.1 ∧ x.2.2 = y.2.2

theorem samePlace_refl (place : Except ClassError (String × Namespace × List String)) :
    Agree SamePlace place place :=
  (Agree.refl place).mono fun _ _ h => ⟨congrArg (·.1) h, congrArg (·.2.2) h⟩

/-- Two definitions have published classes that are the same but for what they share, with constructors
that correspond, at one place. -/
structure Published (V : Value → Value → Prop) (I : Nat → Nat → Prop)
    (P : Handle .prototype → Handle .prototype → Prop) (r r' : Registry) (path : String)
    (answer answer' : Constructor × Registry) : Prop where
  corresponds : Constructor.Corresponds I P answer.1 answer'.1
  published : ∃ c c' root space space' below, c.path = path ∧ ClassDefinition.SameButShared V c c' ∧
    r.place path = .ok (root, space, below) ∧ r'.place path = .ok (root, space', below) ∧
    answer.2 = r.publish c answer.1 root space below ∧
    answer'.2 = r'.publish c' answer'.1 root space' below

/-- A definition is followed in another registry in which the path has the same place and the classes that
the body names are the same, when the store is read in the same way. -/
theorem matches_define (hT : T w.store w'.store) (hconfig : r'.config = r.config)
    (hplace : Agree SamePlace (r.place path) (r'.place path))
    (hclasses : ∀ directives, Directives.parse w.store path body = .ok directives →
      (∀ p, directives.parent? = some p → r'.definition? p = r.definition? p) ∧
      ∀ p ∈ directives.mixins, r'.definition? p = r.definition? p)
    (hparse : Directives.parse w'.store path body = Directives.parse w.store path body)
    (hbody : ∀ name v, body.get? name = some v → V v v)
    (hone : ∀ parent, r.parentOf? body = some parent → ∀ p ∈ parent.shared, ∀ u u',
      T u.store u'.store →
      Matches admitted T V (SharedMembers.inheritOne path p.1 p.2 (body.get? p.1)) u
        (SharedMembers.inheritOne path p.1 p.2 (body.get? p.1)) u')
    (hclassify : ∀ s s' names table outcome t, T s s' →
      Classifying.run (Classifying.skeleton s r.config.inlineSimpleArrays path body names) table
        = (outcome, t) →
      (∀ e, outcome = .error e → admitted e) →
      Classifying.run (Classifying.skeleton s' r.config.inlineSimpleArrays path body names) table
        = (outcome, t))
    (hprototype : ∀ c c' u ps s s', (ClassDefinition.compile r.config r.classes path body).run w
        = (.ok c, u) → ClassDefinition.SameButShared V c c' →
      Constructor.parts c.path c.references c.skeleton = .ok ps → T s s' →
      T (s.newPrototype (Constructor.prototypeOf c ps.slots)).2
          (s'.newPrototype (Constructor.prototypeOf c' ps.slots)).2 ∧
        P (s.newPrototype (Constructor.prototypeOf c ps.slots)).1
          (s'.newPrototype (Constructor.prototypeOf c' ps.slots)).1)
    (hroutine : ∀ s s', T s s' →
      T s.newRoutine.2 s'.newRoutine.2 ∧ I s.newRoutine.1 s'.newRoutine.1) :
    Matches admitted T (Published V I P r r' path) (r.define path body) w (r'.define path body) w' := by
  have hparents : ∀ parentPath parent, body.get? Directive.parent.name = some (.text parentPath) →
      Assoc.get? r.classes parentPath = some parent → r.parentOf? body = some parent :=
    fun parentPath parent hnamed hget => (parentOf?_eq hnamed).trans hget
  have hcompile : Matches admitted T (fun c c' => c.path = path ∧ ClassDefinition.SameButShared V c c')
      (ClassDefinition.compile r.config r.classes path body) w
      (ClassDefinition.compile r'.config r'.classes path body) w' := by
    -- compilation reads the registry at the named classes only, and there the two agree
    have hrun : (ClassDefinition.compile r'.config r'.classes path body).run w'
        = (ClassDefinition.compile r.config r.classes path body).run w' := by
      rw [hconfig]
      refine ClassDefinition.compile_congr ?_ ?_
      · intro directives hparsed
        rw [hparse] at hparsed
        exact (hclasses directives hparsed).1
      · intro directives hparsed
        rw [hparse] at hparsed
        exact (hclasses directives hparsed).2
    unfold Matches
    rw [hrun]
    exact ClassDefinition.matches_compile hT hparse hbody
      (fun parentPath parent hnamed hget => hone parent (hparents parentPath parent hnamed hget)) hclassify
  unfold define
  refine matches_ofExcept_bind_of_agree hT hplace ?_
  rintro ⟨root, space, below⟩ ⟨_, space', _⟩ hplaced hplaced' ⟨rfl, rfl⟩
  refine matches_bind hcompile.with_answer ?_
  rintro c c' u u' hu ⟨⟨hpath, hc⟩, _, hcompiled⟩
  have hbuild : Matches admitted T (Constructor.Corresponds I P) (Constructor.build r.config c) u
      (Constructor.build r'.config c') u' := by
    rw [hconfig]
    exact Constructor.matches_build hu hc (fun ps s s' => hprototype c c' _ ps s s' hcompiled hc) hroutine
  refine matches_bind hbuild fun k k' u u' hu hk => ?_
  refine matches_bind (matches_record hu _ _) fun _ _ u u' hu _ => ?_
  exact matches_pure hu ⟨hk, c, c', root, space, space', below, hpath, hc, hplaced, hplaced', rfl, rfl⟩

end Registry

end ClassComposition
