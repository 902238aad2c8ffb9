import ClassComposition.Proofs.Class.Construction
import ClassComposition.Proofs.Member.Classification
import ClassComposition.Proofs.Member.Copying
import ClassComposition.Proofs.Registry.Reachable

/-!
# References of compiled classes

Every index in the skeleton of a class points into the class's own table, to an entry of the right sort.
The classifier writes indices at the end of the table as it grows, a parent's indices stay good because
the class starts from the parent's table, and a mixin's are moved by the length that the table had when
the mixin's was appended.  So compiling a class hands the property on from its parent and its mixins to
the class, and a constructor never looks behind the end of a table.

## Main definitions

* `ClassDefinition.ReferencesSound` — all indices point into the class's own table.
* `MergeInvariant` — what classification gives, and merging members and moving indices keep.

## Main results

* `ClassDefinition.Composition.referencesSound` — the stages of a compilation hand the property on.
* `Compiled.referencesSound` — it holds of all classes compiled one after the other.
* `MergeInvariant.of_compiled` — such a property holds of all of them, too.
* `Registry.Reachable.references_sound` — all of this for the classes of a reachable registry.
-/

namespace ClassComposition

open MemberDescriptor

/-! ### The invariant -/

namespace ClassDefinition

/-- All indices in the skeleton, at any depth, point into the class's own table, to entries of the right
sort. -/
def ReferencesSound (c : ClassDefinition) : Prop :=
  Skeleton.AllLeaves (PointsInto c.references) c.skeleton

theorem ReferencesSound.distinct {c : ClassDefinition} (h : c.ReferencesSound) :
    c.skeleton.Distinct := Skeleton.AllLeaves.distinct h

variable {config : Config} {classes : Assoc String ClassDefinition} {path : String}
  {body : ClassBody} {w : World}

/-- Merging the parent in keeps the indices good over a table that starts with the parent's. -/
theorem Inherited.allLeaves {own merged : Skeleton} {parent? : Option ClassDefinition}
    {t : ReferenceTable} (h : Inherited path own parent? merged)
    (hgrown : (inheritedReferences parent?).IsPrefix t)
    (hparent : ∀ parent, parent? = some parent → parent.ReferencesSound)
    (hown : Skeleton.AllLeaves (PointsInto t) own) : Skeleton.AllLeaves (PointsInto t) merged := by
  cases h with
  | root => exact hown
  | @child parent merged kept extended =>
    have hlower := Skeleton.allLeaves_of_isPrefix hgrown (hparent parent rfl)
    exact Skeleton.allLeaves_rootMerge
      (rootMerge_of_extend hlower.distinct Skeleton.allLeaves_mergeMember extended) hlower.2 hown

/-- Merging one mixin in keeps the indices good: the mixin's are moved behind the table that there was. -/
theorem allLeaves_implement {a : Assembly} {mixin : ClassDefinition} {skeleton : Skeleton}
    (merged : Skeleton.implement path a.skeleton mixin.skeleton a.references.size
      = (skeleton, .ok ()))
    (hmixin : mixin.ReferencesSound) (ha : Skeleton.AllLeaves (PointsInto a.references) a.skeleton) :
    Skeleton.AllLeaves (PointsInto (a.references.append mixin.references).2) skeleton := by
  have hlower := Skeleton.allLeaves_shiftMembers (t := a.references) hmixin
  have hgrown := ReferenceTable.isPrefix_append a.references mixin.references
  obtain ⟨slots, hsteps⟩ :=
    rootMerge_of_implement hmixin.distinct Skeleton.allLeaves_mergeMember merged
  exact Skeleton.allLeaves_rootMerge hsteps hlower.2 (Skeleton.allLeaves_of_isPrefix hgrown ha)

/-- Merging mixins in one after the other keeps the indices good. -/
theorem Mixed.allLeaves {a b : Assembly} {mixins : List String}
    (h : Mixed config classes path a mixins b)
    (hclasses : ∀ p c, Assoc.get? classes p = some c → c.ReferencesSound)
    (ha : Skeleton.AllLeaves (PointsInto a.references) a.skeleton) :
    Skeleton.AllLeaves (PointsInto b.references) b.skeleton := by
  induction h with
  | nil a => exact ha
  | cons found merged others ih =>
    obtain ⟨hmixin, -⟩ := findMixin_eq_ok found
    exact ih (allLeaves_implement merged (hclasses _ _ hmixin) ha)

/-- The stages of a compilation give a class with good indices when all earlier classes have them. -/
theorem Composition.referencesSound (k : Composition config classes path body w)
    (hclasses : ∀ p c, Assoc.get? classes p = some c → c.ReferencesSound) :
    k.definition.ReferencesSound := by
  have hown := classifiedMembers_of_skeleton k.own_classified
  have hparent : ∀ parent, k.parent? = some parent → parent.ReferencesSound :=
    fun parent => k.holds_of_parent hclasses
  have hmerged := k.inherited.allLeaves hown.isPrefix hparent (hown.allLeaves Skeleton.allLeaves_nil)
  exact k.mixed.allLeaves hclasses hmerged

end ClassDefinition

/-- All classes compiled one after the other have good indices. -/
theorem Compiled.referencesSound {config : Config} {classes : Assoc String ClassDefinition}
    (h : Compiled config classes) {p : String} {c : ClassDefinition}
    (hc : Assoc.get? classes p = some c) : c.ReferencesSound :=
  h.holds_each (fun _ hclasses k => k.referencesSound hclasses) hc

/-- The keys of compiled classes are pairwise different at every level. -/
theorem Compiled.distinct {config : Config} {classes : Assoc String ClassDefinition}
    (h : Compiled config classes) {p : String} {c : ClassDefinition}
    (hc : Assoc.get? classes p = some c) : c.skeleton.Distinct :=
  (h.referencesSound hc).distinct

theorem ClassDefinition.Composition.distinct_parent {config : Config}
    {classes : Assoc String ClassDefinition} {path : String} {body : ClassBody} {w : World}
    (k : Composition config classes path body w) (h : Compiled config classes)
    {parent : ClassDefinition} (hparent : k.parent? = some parent) : parent.skeleton.Distinct :=
  k.holds_of_parent (fun _ _ hc => h.distinct hc) hparent

/-! ### What merges hand on -/

/-- A property of skeletons that every stage of a compilation hands on: classification gives it, merging
at the root keeps it, and it does not depend on where the entries of a table stand.  What the property
needs to know of the merge of two members is `R`. -/
structure MergeInvariant (R : MemberDescriptor → MemberDescriptor → MemberDescriptor → Prop)
    (P : Skeleton → Prop) : Prop where
  member : ∀ {path key d own merged},
    mergeMember path key d (some own) = (merged, .ok ()) → R d own merged
  merge : ∀ {owner? lower upper result slots},
    RootMerge R owner? lower upper result slots → P lower → P upper → P result
  shift : ∀ offset {ms}, P ms → P (shiftMembers offset ms)
  classified : ∀ {s inlineSimple entries ms t u},
    ClassifiedMembers s inlineSimple entries [] t ms u → P ms

namespace MergeInvariant

variable {R : MemberDescriptor → MemberDescriptor → MemberDescriptor → Prop} {P : Skeleton → Prop}
  {config : Config} {classes : Assoc String ClassDefinition} {path : String}

theorem of_inherited (h : MergeInvariant R P) {own merged : Skeleton} {parent? : Option ClassDefinition}
    (hinherited : ClassDefinition.Inherited path own parent? merged)
    (hdistinct : ∀ parent, parent? = some parent → parent.skeleton.Distinct)
    (hparent : ∀ parent, parent? = some parent → P parent.skeleton) (hown : P own) : P merged := by
  cases hinherited with
  | root => exact hown
  | child extended =>
    have hsteps := rootMerge_of_extend (hdistinct _ rfl) h.member extended
    exact h.merge hsteps (hparent _ rfl) hown

theorem of_mixed (h : MergeInvariant R P) (hcompiled : Compiled config classes)
    {a b : ClassDefinition.Assembly} {mixins : List String}
    (hmixed : ClassDefinition.Mixed config classes path a mixins b)
    (hclasses : ∀ p c, Assoc.get? classes p = some c → P c.skeleton) (ha : P a.skeleton) :
    P b.skeleton := by
  induction hmixed with
  | nil a => exact ha
  | @cons a b mixinPath rest mixin skeleton found merged others ih =>
    obtain ⟨hmixin, -⟩ := ClassDefinition.findMixin_eq_ok found
    obtain ⟨slots, hsteps⟩ := rootMerge_of_implement (hcompiled.distinct hmixin) h.member merged
    have hlower := h.shift a.references.size (hclasses _ _ hmixin)
    exact ih (h.merge hsteps hlower ha)

/-- What every stage hands on holds of all classes compiled one after the other. -/
theorem of_compiled (h : MergeInvariant R P) (hcompiled : Compiled config classes) {c : ClassDefinition}
    (hc : Assoc.get? classes path = some c) : P c.skeleton := by
  refine hcompiled.holds_each (P := fun c => P c.skeleton) ?_ hc
  intro classes path body w hcompiled hclasses k
  have hown := h.classified (classifiedMembers_of_skeleton k.own_classified)
  have hmerged := h.of_inherited k.inherited (fun _ => k.distinct_parent hcompiled)
    (fun _ => k.holds_of_parent hclasses) hown
  exact h.of_mixed hcompiled k.mixed hclasses hmerged

end MergeInvariant

/-! ### Reachable registries -/

namespace Registry

/-- In a reachable registry every index in the skeleton of a class, at any depth, is less than the size
of the class's own table and points to an entry of its sort.  The constructor of a class that compiles
against such a registry is never kept from being built by an index. -/
theorem Reachable.references_sound {config : Config} {r : Registry} (hr : r.Reachable config) :
    (∀ path c, r.definition? path = some c → ∀ d, Skeleton.Occurs d c.skeleton →
      (∀ i, d.index? = some i → i < c.references.size) ∧ d.PointsInto c.references) ∧
    (∀ path body w c w',
      (ClassDefinition.compile config r.classes path body).run w = (.ok c, w') →
      ∀ config' w₁ i p n,
        ((Constructor.build config' c).run w₁).1 ≠ .error (.indexOutOfRange i p n)) := by
  constructor
  · intro path c hc d hd
    have hsound : c.ReferencesSound := hr.compiled.referencesSound hc
    rcases hleaf : d.members? with _ | ms
    · have hpoints := Skeleton.leaf_of_occurs hd hsound hleaf
      exact ⟨fun i hi => hpoints.lt_size hi, hpoints⟩
    · obtain rfl := eq_nested_of_members? hleaf
      refine ⟨?_, trivial⟩
      intro i hi
      cases hi
  · intro path body w c w' hcompile config' w₁ i p n hbuild
    obtain ⟨k, rfl, -⟩ := ClassDefinition.exists_composition hcompile
    have hsound := k.referencesSound fun p c hc => hr.compiled.referencesSound hc
    -- a constructor that is not built has an unfit initializer or hook, and neither is this error
    rcases hrun : (Constructor.build config' k.definition).run w₁ with ⟨outcome, w₂⟩
    rw [hrun] at hbuild
    obtain rfl : outcome = .error (.indexOutOfRange i p n) := hbuild
    rcases Constructor.build_eq_error hsound hrun with ⟨kind, heq⟩ | heq <;> cases heq

/-- The method that comes from the mixin inside the object of the class: its index was moved behind the
parent's and the class's own references. -/
theorem Reachable.references_sound_leaf :
    Skeleton.Occurs (.function 5) (Sample.definition "Ns.Leaf").skeleton ∧
      5 < (Sample.definition "Ns.Leaf").references.size := by
  have hobject : (MemberKey.plain "options", nested [(.plain "own", .function 3),
      (.plain "list", .arrayCopy 1), (.plain "size", .literal .null), (.plain "extra", .function 5)])
      ∈ (Sample.definition "Ns.Leaf").skeleton := Assoc.mem_of_get? rfl
  have hinside : Skeleton.Occurs (.function 5) (Sample.definition "Ns.Leaf").skeleton :=
    .inside hobject (.root (Assoc.mem_of_get? rfl : (MemberKey.plain "extra", function 5) ∈ _))
  have hsound := Sample.reachable.references_sound.1 "Ns.Leaf" _ rfl _ hinside
  exact ⟨hinside, hsound.1 5 rfl⟩

end Registry

end ClassComposition
