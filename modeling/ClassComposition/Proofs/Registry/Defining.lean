import ClassComposition.Proofs.Class.References
import ClassComposition.Proofs.Registry.Reachable
import ClassComposition.Proofs.Store.Extension

/-!
# Definitions that succeed

What a compilation that succeeds goes through is all that it takes to succeed.  So where there is a place for
a class, the stages of its compilation can be told, and its initializer and its hook can be called, the class
can be defined: the registry has it with the members that the stages give, and the store has a new prototype.

## Main definitions

* `Action.Gives` — an action that answers in a world, and what holds then.
* `ClassDefinition.Composition.root`, `ClassDefinition.Composition.child` — the stages of bodies that name no
  parent, or only extend one.
* `Registry.Defined` — a definition that has answered.

## Main results

* `ClassDefinition.Composition.run_compile` — a compilation goes through its stages.
* `Constructor.run_build` — a class of which all indices are good gets its constructor.
* `Registry.Reachable.gives_define` — a definition answers.
-/

namespace ClassComposition

/-! ### Answers -/

namespace Action

variable {α β : Type}

/-- An action answers in a world, and something holds of its answer and of the world that it leaves. -/
def Gives (action : Action α) (w : World) (Q : α → World → Prop) : Prop :=
  ∃ a w', action.run w = (.ok a, w') ∧ Q a w'

theorem gives_bind {action : Action α} {f : α → Action β} {w : World} {Q : β → World → Prop}
    (h : action.Gives w fun a u => (f a).Gives u Q) : (action >>= f).Gives w Q := by
  obtain ⟨a, u, hfirst, b, w', hsecond, hQ⟩ := h
  exact ⟨b, w', run_bind_eq_ok.mpr ⟨a, u, hfirst, hsecond⟩, hQ⟩

theorem gives_onStore {f : Store → α × Store} {w : World} {Q : α → World → Prop}
    (h : Q (f w.store).1 { w with store := (f w.store).2 }) : (onStore f).Gives w Q :=
  ⟨_, _, run_onStore f w, h⟩

end Action

namespace ClassDefinition

variable {config : Config} {classes : Assoc String ClassDefinition} {path : String} {body : ClassBody}

/-! ### Compiling -/

theorem run_forM_record (keys : List MemberKey) (note : MemberKey → Event) (w : World) :
    ∃ w', (keys.forM fun key => Action.record (note key)).run w = (.ok ⟨⟩, w') := by
  induction keys generalizing w with
  | nil => exact ⟨w, rfl⟩
  | cons key rest ih =>
    obtain ⟨w', hrest⟩ := ih { w with journal := note key :: w.journal }
    rw [List.forM_eq_forM, List.forM_cons]
    exact ⟨w', Action.run_bind_eq_ok.mpr ⟨_, _, Action.run_record _ _, hrest⟩⟩

/-- Members into which the parent's can be merged are merged. -/
theorem Inherited.run_mergeParent {own merged : Skeleton} {parent? : Option ClassDefinition}
    (h : Inherited path own parent? merged) (w : World) :
    ∃ w', (mergeParent path own parent?).run w = (.ok merged, w') := by
  cases h with
  | root => exact ⟨w, rfl⟩
  | @child parent _ kept extended =>
    obtain ⟨w', hnoted⟩ := run_forM_record kept (.implementationKept path) w
    refine ⟨w', ?_⟩
    unfold mergeParent
    dsimp only
    rw [extended]
    exact Action.run_bind_eq_ok.mpr ⟨_, w', hnoted, rfl⟩

/-- Mixins that can be merged one after the other are merged. -/
theorem Mixed.run_foldlM {a b : Assembly} {mixins : List String}
    (h : Mixed config classes path a mixins b) (w : World) :
    ∃ w', (mixins.foldlM (mergeMixin config classes path) a).run w = (.ok b, w') := by
  induction h generalizing w with
  | nil a => exact ⟨w, rfl⟩
  | @cons a b mixinPath rest mixin skeleton found merged others ih =>
    obtain ⟨w', hrest⟩ := ih
      { w with journal := .mixinMerged path mixinPath a.references.size :: w.journal }
    refine ⟨w', ?_⟩
    rw [List.foldlM_cons]
    refine Action.run_bind_eq_ok.mpr ⟨_, _, ?_, hrest⟩
    unfold mergeMixin
    rw [found]
    refine Action.run_bind_eq_ok.mpr ⟨mixin, w, rfl, ?_⟩
    refine Action.run_bind_eq_ok.mpr ⟨(), _, rfl, ?_⟩
    dsimp only [ReferenceTable.append]
    rw [merged]
    rfl

/-- A compilation goes through its stages, and gives the class that they give. -/
theorem Composition.run_compile {w : World} (k : Composition config classes path body w) :
    ∃ w', (compile config classes path body).run w = (.ok k.definition, w') ∧
      w'.store = k.world.store := by
  obtain ⟨w₁, hmerged⟩ := k.inherited.run_mergeParent k.world
  obtain ⟨w₂, hmixed⟩ := k.mixed.run_foldlM w₁
  have hclassified : (classifyOwn config path body k.shared (inheritedReferences k.parent?)).run k.world
      = (.ok (k.own, k.references), k.world) := by
    refine Action.run_bind_eq_ok.mpr ⟨_, _, Action.run_store _, ?_⟩
    rw [k.own_classified]
    rfl
  refine ⟨w₂, ?_, ?_⟩
  · refine Action.run_bind_eq_ok.mpr ⟨_, _, Action.run_store _, ?_⟩
    refine Action.run_bind_eq_ok.mpr ⟨_, _, Action.run_ofExcept_eq_ok.mpr ⟨k.parsed, rfl⟩, ?_⟩
    refine Action.run_bind_eq_ok.mpr ⟨_, _, Action.run_ofExcept_eq_ok.mpr ⟨k.parent_found, rfl⟩, ?_⟩
    refine Action.run_bind_eq_ok.mpr ⟨_, _, k.shared_composed, ?_⟩
    refine Action.run_bind_eq_ok.mpr ⟨_, _, hclassified, ?_⟩
    refine Action.run_bind_eq_ok.mpr ⟨_, _, hmerged, ?_⟩
    refine Action.run_bind_eq_ok.mpr ⟨_, _, hmixed, ?_⟩
    exact Action.run_bind_eq_ok.mpr ⟨_, _, Action.run_ofExcept_eq_ok.mpr ⟨k.visible, rfl⟩, rfl⟩
  · rw [(mixed_of_foldlM hmixed).2, (inherited_of_mergeParent hmerged).2]

/-! ### Stages -/

/-- Shared members that a body does not redeclare are handed down as they are. -/
theorem run_inherit_of_undeclared {shared : SharedMembers}
    (h : (shared.all fun p => (body.get? p.1).isNone) = true) (w : World) :
    ∃ journal, (SharedMembers.inherit path body shared).run w = (.ok shared, { w with journal }) := by
  induction shared generalizing w with
  | nil => exact ⟨w.journal, rfl⟩
  | cons p rest ih =>
    obtain ⟨name, v⟩ := p
    rw [List.all_cons, Bool.and_eq_true, Option.isNone_iff_eq_none] at h
    obtain ⟨journal, hrest⟩ := ih h.2
      { w with journal := .sharedInherited path name (body.contains name) :: w.journal }
    refine ⟨journal, ?_⟩
    rw [SharedMembers.inherit, h.1]
    refine Action.run_bind_eq_ok.mpr ⟨v, w, rfl, ?_⟩
    refine Action.run_bind_eq_ok.mpr ⟨(), _, rfl, ?_⟩
    exact Action.run_bind_eq_ok.mpr ⟨rest, _, hrest, rfl⟩

theorem run_composeShared_of_undeclared {parent : ClassDefinition}
    (h : (parent.shared.all fun p => (body.get? p.1).isNone) = true) (w : World) :
    ∃ journal, (composeShared path body (some parent) []).run w
      = (.ok parent.shared, { w with journal }) := by
  obtain ⟨journal, hrun⟩ := run_inherit_of_undeclared h w
  exact ⟨journal, Action.run_bind_eq_ok.mpr ⟨_, _, hrun, rfl⟩⟩

theorem within_composeShared_of_undeclared {parent : ClassDefinition}
    (h : (parent.shared.all fun p => (body.get? p.1).isNone) = true) (w : World) :
    w.store.Within ((composeShared path body (some parent) []).run w).2.store := by
  obtain ⟨journal, hrun⟩ := run_composeShared_of_undeclared h w
  rw [hrun]
  exact .refl w.store

namespace Composition

variable {w : World} {own merged : Skeleton} {references : ReferenceTable}

/-- The stages for a body that names no parent. -/
def root {mixins names : List String} {shared : SharedMembers} {whole : Assembly}
    (hparsed : Directives.parse w.store path body
      = .ok { Directives.none with mixins := mixins, shared := names })
    (hdeclared : SharedMembers.declare path body none [] names = (shared, .ok ()))
    (hown : Classifying.run (Classifying.skeleton w.store config.inlineSimpleArrays path body
      (Assoc.keys shared)) .empty = (.ok own, references))
    (hmixed : Mixed config classes path ⟨own, references, []⟩ mixins whole)
    (hvisible : SharedMembers.checkVisible path whole.skeleton shared = .ok ()) :
    Composition config classes path body w where
  directives := { Directives.none with mixins := mixins, shared := names }
  parent? := none
  shared := shared
  world := w
  own := own
  references := references
  merged := own
  whole := whole
  parsed := hparsed
  parent_found := rfl
  shared_composed := by
    have hcompose : composeShared path body none names = pure shared := declareOver_of_ok hdeclared
    exact congrArg (·.run w) hcompose
  own_classified := hown
  inherited := .root
  mixed := hmixed
  visible := hvisible

/-- The stages for a body that only extends a parent, and redeclares nothing of what the parent shares. -/
def child {parentPath owner : String} {parent : ClassDefinition} {kept : List MemberKey}
    (hparsed : Directives.parse w.store path body = .ok { Directives.none with parent? := some parentPath })
    (hparent : findParent classes path (some parentPath) = .ok (some parent))
    (hundeclared : (parent.shared.all fun p => (body.get? p.1).isNone) = true)
    (hown : Classifying.run (Classifying.skeleton w.store config.inlineSimpleArrays path body
      (Assoc.keys parent.shared)) parent.references = (.ok own, references))
    (howner : parent.name = owner)
    (hextended : Skeleton.extend path own owner parent.skeleton = (merged, .ok kept))
    (hvisible : SharedMembers.checkVisible path merged parent.shared = .ok ()) :
    Composition config classes path body w where
  directives := { Directives.none with parent? := some parentPath }
  parent? := some parent
  shared := parent.shared
  world := ((composeShared path body (some parent) []).run w).2
  own := own
  references := references
  merged := merged
  whole := ⟨merged, references, parent.implemented⟩
  parsed := hparsed
  parent_found := hparent
  shared_composed := by
    obtain ⟨journal, hrun⟩ := run_composeShared_of_undeclared hundeclared w
    rw [hrun]
    exact hrun
  own_classified := by
    obtain ⟨journal, hrun⟩ := run_composeShared_of_undeclared hundeclared w
    rw [hrun]
    exact hown
  inherited := .child (howner ▸ hextended)
  mixed := .nil _
  visible := hvisible

end Composition

end ClassDefinition

/-! ### Building -/

/-- A class of which all indices are good gets its constructor, if its initializer and its hook can be
called. -/
theorem Constructor.run_build {config : Config} {c : ClassDefinition} {init? hook? : Option String}
    (hc : c.ReferencesSound) (hconcrete : c.isAbstract = false) (hinit : initOf config c = .ok init?)
    (hhook : hookOf config c = .ok hook?) (w : World) :
    ∃ k w', (build config c).run w = (.ok k, w') ∧
      ∃ p h fields, k.routine = .compiled h fields init? hook? ∧
        w'.store = (w.store.newPrototype p).2.newRoutine.2 := by
  obtain ⟨ps, hparts⟩ := exists_parts c.path hc.2
  have hrun : ∃ k w', (build config c).run w = (.ok k, w') := by
    unfold build
    rw [hconcrete, if_neg Bool.false_ne_true, hparts, hinit, hhook]
    exact ⟨_, _, rfl⟩
  obtain ⟨k, w', hbuild⟩ := hrun
  obtain ⟨ps', init'?, hook'?, -, hinit', hhook', rfl, hstore⟩ := build_eq_ok hconcrete hbuild
  rw [hinit] at hinit'
  rw [hhook] at hhook'
  cases hinit'
  cases hhook'
  exact ⟨_, w', hbuild, _, _, _, rfl, hstore⟩

/-! ### Defining -/

namespace Registry

variable {config : Config} {r after : Registry} {path : String} {body : ClassBody} {w w' : World}

theorem Reachable.of_define (hr : r.Reachable config) {k : Constructor}
    (h : (r.define path body).run w = (.ok (k, after), w')) : after.Reachable config := by
  have hafter := hr.perform w (.define path body)
  rw [Registry.perform, h] at hafter
  exact hafter

/-- A definition that has answered with a constructor: the class is published under the path, the constructor
has the initializer and the hook, and what the store had is there as before. -/
structure Defined (r : Registry) (path : String) (body : ClassBody) (w : World) (c : ClassDefinition)
    (place : String × Namespace × List String) (init? hook? : Option String) (k : Constructor) (w' : World) :
    Prop where
  run_define : (r.define path body).run w = (.ok (k, r.publish c k place.1 place.2.1 place.2.2), w')
  routine : ∃ h fields, k.routine = .compiled h fields init? hook?
  within : w.store.Within w'.store

/-- Where there is a place for a class, its compilation has all its stages and its initializer and its hook
can be called, the class can be defined. -/
theorem Reachable.gives_define (hr : r.Reachable config) {place : String × Namespace × List String}
    (hplaced : r.place path = .ok place) (k : ClassDefinition.Composition config r.classes path body w)
    (hworld : w.store.Within k.world.store) {c : ClassDefinition} (hc : k.definition = c)
    (hconcrete : c.isAbstract = false) {init? hook? : Option String}
    (hinit : Constructor.initOf config c = .ok init?) (hhook : Constructor.hookOf config c = .ok hook?)
    {Q : Constructor × Registry → World → Prop}
    (hthen : ∀ ctor u, r.Defined path body w c place init? hook? ctor u →
      Q (ctor, r.publish c ctor place.1 place.2.1 place.2.2) u) : (r.define path body).Gives w Q := by
  subst hc
  obtain rfl := hr.config_eq
  obtain ⟨w₁, hcompile, hstore₁⟩ := k.run_compile
  have hsound := k.referencesSound fun _ _ hc => hr.compiled.referencesSound hc
  obtain ⟨ctor, w₂, hbuild, p, h, fields, hroutine, hstore₂⟩ :=
    Constructor.run_build hsound hconcrete hinit hhook w₁
  obtain ⟨w', hrecord, hsame⟩ : ∃ w', (Action.record (.classDefined path k.definition.skeleton.length
      k.definition.references.size k.definition.shared.length k.definition.isAbstract)).run w₂
        = (.ok (), w') ∧ w'.store = w₂.store := ⟨_, rfl, rfl⟩
  have hrun : (r.define path body).run w
      = (.ok (ctor, r.publish k.definition ctor place.1 place.2.1 place.2.2), w') := by
    -- placing, compiling, building and recording, each at the world the one before it left
    refine Action.run_bind_eq_ok.mpr ⟨_, _, Action.run_ofExcept_eq_ok.mpr ⟨hplaced, rfl⟩, ?_⟩
    refine Action.run_bind_eq_ok.mpr ⟨_, _, hcompile, ?_⟩
    refine Action.run_bind_eq_ok.mpr ⟨_, _, hbuild, ?_⟩
    exact Action.run_bind_eq_ok.mpr ⟨_, _, hrecord, rfl⟩
  have hwithin : w.store.Within w'.store := by
    rw [hsame, hstore₂, hstore₁]
    exact (hworld.trans (Store.within_newPrototype _ p)).trans (Store.within_newRoutine _)
  exact ⟨_, w', hrun, hthen ctor w' ⟨hrun, ⟨h, fields, hroutine⟩, hwithin⟩⟩

end Registry

end ClassComposition
