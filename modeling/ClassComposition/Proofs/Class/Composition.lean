import ClassComposition.Class.Definition
import ClassComposition.Proofs.Effect

/-!
# The stages of a compilation

A successful compilation reads the directives, finds the parent, composes the shared members, classifies
the body's own members over the parent's table, merges the parent's members in and then the mixins' one
after the other.  `Composition` records these stages with what holds of each; every statement about
compiled classes is drawn from it, and none opens the compiler again.

## Main definitions

* `Inherited` — own members with those of the parent merged in.
* `Mixed` — mixins merged one after the other into what was assembled before.
* `Composition`, `Composition.definition` — the stages of a compilation and the class they give.
* `handDown`, `declareOver` — the two steps in which shared members are composed.

## Main results

* `composeShared_eq`, `run_declareOver` — shared members, step by step.
* `exists_composition` — a compiled class is the result of its stages.
-/

namespace ClassComposition

namespace ClassDefinition

/-- Own members with those of the parent, if there is one, merged in. -/
inductive Inherited (path : String) (own : Skeleton) : Option ClassDefinition → Skeleton → Prop
  | root : Inherited path own none own
  | child {parent : ClassDefinition} {merged : Skeleton} {kept : List MemberKey}
      (extended : Skeleton.extend path own parent.name parent.skeleton = (merged, .ok kept)) :
      Inherited path own (some parent) merged

/-- Mixins merged one after the other into what was assembled before. -/
inductive Mixed (config : Config) (classes : Assoc String ClassDefinition) (path : String) :
    Assembly → List String → Assembly → Prop
  | nil (a : Assembly) : Mixed config classes path a [] a
  | cons {a b : Assembly} {mixinPath : String} {rest : List String} {mixin : ClassDefinition}
      {skeleton : Skeleton}
      (found : findMixin config classes path a.implemented mixinPath = .ok mixin)
      (merged : Skeleton.implement path a.skeleton mixin.skeleton a.references.size
        = (skeleton, .ok ()))
      (others : Mixed config classes path
        ⟨skeleton, (a.references.append mixin.references).2, a.implemented ++ [mixinPath]⟩ rest b) :
      Mixed config classes path a (mixinPath :: rest) b

/-- The stages of a compilation that starts in a world. -/
structure Composition (config : Config) (classes : Assoc String ClassDefinition) (path : String)
    (body : ClassBody) (w : World) where
  /-- What the directives say. -/
  directives : Directives
  /-- The parent, if there is one. -/
  parent? : Option ClassDefinition
  /-- The shared members. -/
  shared : SharedMembers
  /-- The world after the shared members have been composed; the store stays as it is from here on. -/
  world : World
  /-- The body's own members. -/
  own : Skeleton
  /-- The parent's table with the body's references behind it. -/
  references : ReferenceTable
  /-- The own members with the parent's. -/
  merged : Skeleton
  /-- What there is once the mixins have been merged in. -/
  whole : Assembly
  parsed : Directives.parse w.store path body = .ok directives
  parent_found : findParent classes path directives.parent? = .ok parent?
  shared_composed :
    (composeShared path body parent? directives.shared).run w = (.ok shared, world)
  own_classified :
    Classifying.run (Classifying.skeleton world.store config.inlineSimpleArrays path body
      (Assoc.keys shared)) (inheritedReferences parent?) = (.ok own, references)
  inherited : Inherited path own parent? merged
  mixed : Mixed config classes path
    ⟨merged, references, (parent?.map ClassDefinition.implemented).getD []⟩ directives.mixins whole
  visible : SharedMembers.checkVisible path whole.skeleton shared = .ok ()

namespace Composition

variable {config : Config} {classes : Assoc String ClassDefinition} {path : String}
  {body : ClassBody} {w : World}

/-- The class that the stages give. -/
def definition (k : Composition config classes path body w) : ClassDefinition where
  path := path
  name := ClassPath.shortName path
  parent? := k.directives.parent?
  mixins := k.directives.mixins
  implemented := k.whole.implemented
  isAbstract := k.directives.isAbstract
  skeleton := k.whole.skeleton
  references := k.whole.references
  shared := k.shared
  lineage := (k.parent?.map ClassDefinition.lineage).getD [] ++ [path]
  ancestorNames := (k.parent?.map ClassDefinition.ancestorNames).getD [] ++ [ClassPath.shortName path]
  overrideChains := ClassComposition.overrideChains
    ((k.parent?.map ClassDefinition.ancestorNames).getD [] ++ [ClassPath.shortName path])
    k.whole.skeleton
  body := body
  ownReferences := k.references.size - (inheritedReferences k.parent?).size

end Composition

end ClassDefinition

/-- Directives that are read are those that each of the readers finds. -/
theorem Directives.parse_eq_ok {s : Store} {path : String} {b : ClassBody} {directives : Directives}
    (h : parse s path b = .ok directives) :
    abstractness s path b = .ok directives.isAbstract ∧ parentPath? path b = .ok directives.parent? ∧
      names s path b .mixins = .ok directives.mixins ∧ names s path b .shared = .ok directives.shared := by
  unfold parse at h
  obtain ⟨isAbstract, habstract, h⟩ := bind_eq_ok.mp h
  obtain ⟨parent?, hparent, h⟩ := bind_eq_ok.mp h
  obtain ⟨mixins, hmixins, h⟩ := bind_eq_ok.mp h
  obtain ⟨shared, hshared, h⟩ := bind_eq_ok.mp h
  cases h
  exact ⟨habstract, hparent, hmixins, hshared⟩

/-- A parent that is read is named by the body. -/
theorem Directives.get?_parent {path parentPath : String} {b : ClassBody}
    (h : parentPath? path b = .ok (some parentPath)) :
    b.get? Directive.parent.name = some (.text parentPath) := by
  unfold parentPath? at h
  split at h
  · cases h
  · next text htext =>
    cases h
    exact htext
  · cases h

namespace ClassDefinition

/-! ### Looking other classes up -/

variable {config : Config} {classes : Assoc String ClassDefinition} {path : String}

/-- A parent that is found is a class under the path the directives name, and none of its chain has the
short name of the new class. -/
theorem findParent_eq_ok {parentPath? : Option String} {parent : ClassDefinition}
    (h : findParent classes path parentPath? = .ok (some parent)) :
    ∃ parentPath, parentPath? = some parentPath ∧ Assoc.get? classes parentPath = some parent ∧
      ClassPath.shortName path ∉ parent.ancestorNames := by
  rcases parentPath? with _ | parentPath
  · cases h
  · rw [findParent] at h
    rcases hget : Assoc.get? classes parentPath with _ | found
    · rw [hget] at h
      cases h
    rw [hget] at h
    dsimp only at h
    by_cases hname : found.ancestorNames.contains (ClassPath.shortName path) = true
    · rw [if_pos hname] at h
      cases h
    · rw [if_neg hname] at h
      cases h
      exact ⟨parentPath, rfl, hget, fun hmem => hname (List.contains_iff_mem.mpr hmem)⟩

theorem eq_none_of_findParent {parentPath? : Option String}
    (h : findParent classes path parentPath? = .ok none) : parentPath? = none := by
  rcases parentPath? with _ | parentPath
  · rfl
  · rw [findParent] at h
    rcases hget : Assoc.get? classes parentPath with _ | found
    · rw [hget] at h
      cases h
    · rw [hget] at h
      dsimp only at h
      split at h <;> cases h

/-- A mixin that is found is a class under its path, without shared members, not implemented before and
without a post-construction hook. -/
theorem findMixin_eq_ok {implemented : List String} {mixinPath : String} {mixin : ClassDefinition}
    (h : findMixin config classes path implemented mixinPath = .ok mixin) :
    Assoc.get? classes mixinPath = some mixin ∧ mixin.shared = [] ∧ mixinPath ∉ implemented ∧
      Assoc.get? mixin.skeleton (MemberKey.parse config.afterInitMember) = none := by
  -- each check in turn either ends the search with an error or gives one of the facts
  unfold findMixin at h
  rcases hget : Assoc.get? classes mixinPath with _ | found
  · rw [hget] at h
    cases h
  rw [hget] at h
  dsimp only at h
  by_cases hshared : (!found.shared.isEmpty) = true
  · rw [if_pos hshared] at h
    cases h
  rw [if_neg hshared] at h
  by_cases hrepeated : implemented.contains mixinPath = true
  · rw [if_pos hrepeated] at h
    cases h
  rw [if_neg hrepeated] at h
  by_cases hhook : Assoc.contains found.skeleton (MemberKey.parse config.afterInitMember) = true
  · rw [if_pos hhook] at h
    cases h
  rw [if_neg hhook] at h
  cases h
  rw [Bool.not_eq_true, Bool.not_eq_false', List.isEmpty_iff] at hshared
  rw [Assoc.contains_iff, ← Assoc.get?_eq_none_iff] at hhook
  exact ⟨rfl, hshared, fun hmem => hrepeated (List.contains_iff_mem.mpr hmem), hhook⟩

/-- The parent of a composition is the class under the path that the directives name. -/
theorem Composition.findParent_eq {body : ClassBody} {w : World} {parent : ClassDefinition}
    (k : Composition config classes path body w) (h : k.parent? = some parent) :
    ∃ parentPath, k.directives.parent? = some parentPath ∧
      Assoc.get? classes parentPath = some parent ∧
      ClassPath.shortName path ∉ parent.ancestorNames :=
  findParent_eq_ok (h ▸ k.parent_found)

/-- Where the directives name a parent it is found, and else there is none. -/
theorem Composition.parents_eq {body : ClassBody} {w : World}
    (k : Composition config classes path body w) :
    k.parent?.toList.map some = k.directives.parent?.toList.map (Assoc.get? classes) := by
  rcases hparent : k.parent? with _ | parent
  · have hfound := k.parent_found
    rw [hparent] at hfound
    rw [eq_none_of_findParent hfound]
    rfl
  · obtain ⟨parentPath, hpath, hget, -⟩ := k.findParent_eq hparent
    rw [hpath, Option.toList_some, Option.toList_some, List.map_singleton, List.map_singleton, hget]

theorem Composition.exists_parent {body : ClassBody} {w : World}
    (k : Composition config classes path body w) {parentPath : String}
    (h : k.directives.parent? = some parentPath) :
    ∃ parent, k.parent? = some parent ∧ Assoc.get? classes parentPath = some parent := by
  rcases hparent : k.parent? with _ | parent
  · have hfound := k.parent_found
    rw [hparent] at hfound
    rw [eq_none_of_findParent hfound] at h
    cases h
  · obtain ⟨named, hnamed, hget, -⟩ := k.findParent_eq hparent
    rw [h] at hnamed
    cases hnamed
    exact ⟨parent, rfl, hget⟩

/-- What holds of all classes that were there holds of the parent. -/
theorem Composition.holds_of_parent {P : ClassDefinition → Prop} {body : ClassBody} {w : World}
    (k : Composition config classes path body w)
    (hclasses : ∀ p c, Assoc.get? classes p = some c → P c) {parent : ClassDefinition}
    (h : k.parent? = some parent) : P parent := by
  obtain ⟨parentPath, -, hget, -⟩ := k.findParent_eq h
  exact hclasses parentPath parent hget

/-- Where no class is lost, the parent is the class that is found later under the path that the directives
name. -/
theorem Composition.parent_eq {body : ClassBody} {w : World} {later : Assoc String ClassDefinition}
    (k : Composition config classes path body w)
    (hkept : ∀ p c, Assoc.get? classes p = some c → Assoc.get? later p = some c)
    {parentPath : String} {parent : ClassDefinition} (h : k.directives.parent? = some parentPath)
    (hparent : Assoc.get? later parentPath = some parent) : k.parent? = some parent := by
  obtain ⟨found, hfound, hget⟩ := k.exists_parent h
  rw [hkept parentPath found hget] at hparent
  rw [hfound, hparent]

/-! ### Shared members -/

section SharedMembers

variable {body : ClassBody} {parent? : Option ClassDefinition} {skeleton? : Option Skeleton}
  {names : List String} {inherited shared : SharedMembers}

/-- What is handed down by the parent, if there is one. -/
def handDown (path : String) (body : ClassBody) : Option ClassDefinition → Action SharedMembers
  | none => pure []
  | some parent => SharedMembers.inherit path body parent.shared

/-- The names that the body declares, added to what was handed down. -/
def declareOver (path : String) (body : ClassBody) (skeleton? : Option Skeleton) (names : List String)
    (inherited : SharedMembers) : Action SharedMembers :=
  match SharedMembers.declare path body skeleton? inherited names with
  | (shared, .ok ()) => return shared
  | (_, .error e) => throw e

/-- Shared members are composed in two steps. -/
theorem composeShared_eq : composeShared path body parent? names =
    handDown path body parent? >>=
      declareOver path body (parent?.map ClassDefinition.skeleton) names := by
  cases parent? <;> rfl

theorem declareOver_of_ok
    (h : SharedMembers.declare path body skeleton? inherited names = (shared, .ok ())) :
    declareOver path body skeleton? names inherited = pure shared := by
  rw [declareOver, h]

theorem declareOver_of_error {e : ClassError}
    (h : SharedMembers.declare path body skeleton? inherited names = (shared, .error e)) :
    declareOver path body skeleton? names inherited = throw e := by
  rw [declareOver, h]

theorem run_declareOver {w w' : World}
    (h : (declareOver path body skeleton? names inherited).run w = (.ok shared, w')) :
    SharedMembers.declare path body skeleton? inherited names = (shared, .ok ()) ∧ w' = w := by
  rcases hdeclare : SharedMembers.declare path body skeleton? inherited names with ⟨result, e | u⟩
  · rw [declareOver_of_error hdeclare] at h
    cases h
  · rw [declareOver_of_ok hdeclare] at h
    cases h
    exact ⟨rfl, rfl⟩

end SharedMembers

/-! ### The stages of the compiler -/

theorem store_of_forM_record {keys : List MemberKey} {note : MemberKey → Event} {w w' : World}
    {u : PUnit} (h : (keys.forM fun key => Action.record (note key)).run w = (.ok u, w')) :
    w'.store = w.store := by
  induction keys generalizing w with
  | nil =>
    cases h
    rfl
  | cons key rest ih =>
    rw [List.forM_eq_forM, List.forM_cons, Action.run_bind_eq_ok] at h
    obtain ⟨_, w₁, hnote, hrest⟩ := h
    rw [Action.run_record] at hnote
    cases hnote
    have hstore := ih hrest
    exact hstore

theorem inherited_of_mergeParent {own merged : Skeleton} {parent? : Option ClassDefinition}
    {w w' : World} (h : (mergeParent path own parent?).run w = (.ok merged, w')) :
    Inherited path own parent? merged ∧ w'.store = w.store := by
  cases parent? with
  | none =>
    cases h
    exact ⟨.root, rfl⟩
  | some parent =>
    unfold mergeParent at h
    dsimp only at h
    rcases he : Skeleton.extend path own parent.name parent.skeleton with ⟨skeleton, e | kept⟩
    · rw [he] at h
      cases h
    · rw [he] at h
      dsimp only at h
      rw [Action.run_bind_eq_ok] at h
      -- what follows a merge without conflict is a note for each alias
      obtain ⟨_, w₁, hkept, hpure⟩ := h
      cases hpure
      exact ⟨.child he, store_of_forM_record hkept⟩

theorem mixed_of_foldlM {mixins : List String} {a b : Assembly} {w w' : World}
    (h : (mixins.foldlM (mergeMixin config classes path) a).run w = (.ok b, w')) :
    Mixed config classes path a mixins b ∧ w'.store = w.store := by
  induction mixins generalizing a w with
  | nil =>
    cases h
    exact ⟨.nil _, rfl⟩
  | cons mixinPath rest ih =>
    rw [List.foldlM_cons, Action.run_bind_eq_ok] at h
    obtain ⟨a₁, w₁, hstep, hrest⟩ := h
    -- one step finds the mixin, notes it and merges it; only the merge can still fail
    unfold mergeMixin at hstep
    rw [Action.run_bind_eq_ok] at hstep
    obtain ⟨mixin, w₂, hfind, hstep⟩ := hstep
    obtain ⟨hfound, rfl⟩ := Action.run_ofExcept_eq_ok.mp hfind
    dsimp only at hstep
    rw [Action.run_bind_eq_ok] at hstep
    obtain ⟨_, w₃, hrecord, hstep⟩ := hstep
    rw [Action.run_record] at hrecord
    cases hrecord
    rcases hi : Skeleton.implement path a.skeleton mixin.skeleton
      (a.references.append mixin.references).1 with ⟨skeleton, e | u⟩
    · rw [hi] at hstep
      cases hstep
    · rw [hi] at hstep
      cases hstep
      obtain ⟨hothers, hstore⟩ := ih hrest
      exact ⟨.cons hfound hi hothers, hstore⟩

theorem classified_of_classifyOwn {body : ClassBody} {shared : SharedMembers}
    {table references : ReferenceTable} {own : Skeleton} {w w' : World}
    (h : (classifyOwn config path body shared table).run w = (.ok (own, references), w')) :
    Classifying.run (Classifying.skeleton w.store config.inlineSimpleArrays path body
      (Assoc.keys shared)) table = (.ok own, references) ∧ w' = w := by
  unfold classifyOwn at h
  rw [Action.run_bind_eq_ok] at h
  obtain ⟨s, w₁, hs, h⟩ := h
  rw [Action.run_store] at hs
  cases hs
  rcases hc : Classifying.run (Classifying.skeleton w.store config.inlineSimpleArrays path body
    (Assoc.keys shared)) table with ⟨e | skeleton, grown⟩
  · rw [hc] at h
    cases h
  · rw [hc] at h
    cases h
    exact ⟨rfl, rfl⟩

/-- A compiled class is the result of its stages, and from where the shared members have been composed
on the compilation leaves the store as it is. -/
theorem exists_composition {body : ClassBody} {w w' : World} {c : ClassDefinition}
    (h : (compile config classes path body).run w = (.ok c, w')) :
    ∃ k : Composition config classes path body w,
      c = k.definition ∧ w'.store = k.world.store := by
  -- the stages are peeled off in their order; checks leave the world alone, and so do merges but for their
  -- notes
  unfold compile at h
  rw [Action.run_bind_eq_ok] at h
  obtain ⟨s, w₁, hs, h⟩ := h
  rw [Action.run_store] at hs
  cases hs
  rw [Action.run_bind_eq_ok] at h
  obtain ⟨directives, w₂, hparse, h⟩ := h
  obtain ⟨hparsed, rfl⟩ := Action.run_ofExcept_eq_ok.mp hparse
  rw [Action.run_bind_eq_ok] at h
  obtain ⟨parent?, w₃, hfind, h⟩ := h
  obtain ⟨hfound, rfl⟩ := Action.run_ofExcept_eq_ok.mp hfind
  rw [Action.run_bind_eq_ok] at h
  obtain ⟨shared, w₄, hshared, h⟩ := h
  dsimp only at h
  rw [Action.run_bind_eq_ok] at h
  obtain ⟨⟨own, references⟩, w₅, hclassify, h⟩ := h
  obtain ⟨hown, rfl⟩ := classified_of_classifyOwn hclassify
  dsimp only at h
  rw [Action.run_bind_eq_ok] at h
  obtain ⟨merged, w₆, hmerged, h⟩ := h
  obtain ⟨hinherited, hstore₆⟩ := inherited_of_mergeParent hmerged
  rw [Action.run_bind_eq_ok] at h
  obtain ⟨whole, w₇, hwhole, h⟩ := h
  obtain ⟨hmixed, hstore₇⟩ := mixed_of_foldlM hwhole
  rw [Action.run_bind_eq_ok] at h
  obtain ⟨_, w₈, hcheck, h⟩ := h
  obtain ⟨hvisible, rfl⟩ := Action.run_ofExcept_eq_ok.mp hcheck
  cases h
  refine ⟨⟨directives, parent?, shared, w₅, own, references, merged, whole, hparsed,
    hfound, hshared, hown, hinherited, hmixed, hvisible⟩, rfl, ?_⟩
  rw [hstore₇, hstore₆]

end ClassDefinition

end ClassComposition
