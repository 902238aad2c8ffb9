import ClassComposition.Proofs.Class.References
import ClassComposition.Proofs.Member.Conformance

/-!
# Conformance of classes

A class conforms to every class of its inheritance chain and to every mixin that it or one of them
implements.  Each stage of a compilation keeps what there was and makes the class conform to the class it
merges in, and conformance is handed down, so all definitions together keep the property.

## Main definitions

* `ClassDefinition.ConformsUpwards` — a class conforms to all it is composed from.

## Main results

* `ClassDefinition.Composition.above_parent`, `ClassDefinition.Composition.above_mixin` — what one
  compilation gives towards the parent and towards each mixin.
* `Compiled.conformsUpwards` — classes compiled one after the other conform upwards.
* `Registry.Reachable.conforms` — the same for reachable registries, with what one step forbids.
-/

namespace ClassComposition

open MemberDescriptor

namespace ClassDefinition

variable {config : Config} {classes : Assoc String ClassDefinition} {path : String}
  {body : ClassBody} {w : World}

/-! ### One compilation -/

theorem Mixed.implemented_eq {a b : Assembly} {mixins : List String}
    (h : Mixed config classes path a mixins b) : b.implemented = a.implemented ++ mixins := by
  induction h with
  | nil a => exact (List.append_nil _).symm
  | cons found merged others ih => rw [ih, List.append_assoc, List.singleton_append]

/-- Merging mixins in lets members grow, and gives each member of a mixin one that may override it. -/
theorem Mixed.above (hcompiled : Compiled config classes) {a b : Assembly} {mixins : List String}
    (h : Mixed config classes path a mixins b) :
    Skeleton.Above Grown b.skeleton a.skeleton ∧
      ∀ mixinPath ∈ mixins, ∃ mixin, Assoc.get? classes mixinPath = some mixin ∧
        Skeleton.Above Overriding b.skeleton mixin.skeleton := by
  induction h with
  | nil a =>
    refine ⟨.refl Grown.refl a.skeleton, ?_⟩
    intro mixinPath hmem
    cases hmem
  | @cons a b mixinPath rest mixin skeleton found merged others ih =>
    obtain ⟨hgrown, hmixins⟩ := ih
    obtain ⟨hmixin, -⟩ := findMixin_eq_ok found
    obtain ⟨slots, hsteps⟩ := rootMerge_of_implement (hcompiled.distinct hmixin)
      Skeleton.mergedOver_mergeMember merged
    obtain ⟨hupper, hlower⟩ := Skeleton.above_rootMerge hsteps
    refine ⟨hgrown.trans (fun _ _ _ => .trans) hupper, ?_⟩
    intro p hmem
    rcases List.mem_cons.mp hmem with rfl | hrest
    · refine ⟨mixin, hmixin, ?_⟩
      -- what later mixins do keeps what this one's members were merged into
      have hmoved : Skeleton.Above Overriding b.skeleton
          (shiftMembers a.references.size mixin.skeleton) :=
        hgrown.trans (fun _ _ _ => Grown.overriding) hlower
      exact hmoved.of_shiftMembers
    · exact hmixins p hrest

theorem Inherited.above {own merged : Skeleton} {parent : ClassDefinition}
    (h : Inherited path own (some parent) merged) (hparent : parent.skeleton.Distinct) :
    Skeleton.Above Overriding merged parent.skeleton := by
  cases h with
  | child extended =>
    have hsteps := rootMerge_of_extend hparent Skeleton.mergedOver_mergeMember extended
    exact (Skeleton.above_rootMerge hsteps).2

namespace Composition

/-- Members of the parent have members in the class that may override them. -/
theorem above_parent (hcompiled : Compiled config classes) (k : Composition config classes path body w)
    {parent : ClassDefinition} (h : k.parent? = some parent) :
    Skeleton.Above Overriding k.definition.skeleton parent.skeleton := by
  have hinherited := k.inherited
  rw [h] at hinherited
  have habove := hinherited.above (k.distinct_parent hcompiled h)
  exact (k.mixed.above hcompiled).1.trans (fun _ _ _ => Grown.overriding) habove

theorem above_mixin (hcompiled : Compiled config classes) (k : Composition config classes path body w)
    {mixinPath : String} (h : mixinPath ∈ k.directives.mixins) :
    ∃ mixin, Assoc.get? classes mixinPath = some mixin ∧
      Skeleton.Above Overriding k.definition.skeleton mixin.skeleton :=
  (k.mixed.above hcompiled).2 mixinPath h

end Composition

/-! ### All definitions -/

/-- A class conforms to the classes of its inheritance chain and to the mixins of all of them, which are
all found. -/
def ConformsUpwards (classes : Assoc String ClassDefinition) (c : ClassDefinition) : Prop :=
  ∀ p, p ∈ c.lineage ∨ p ∈ c.implemented →
    ∃ s, Assoc.get? classes p = some s ∧ c.skeleton.Conforms s.skeleton

/-- A compilation hands conformance on from the classes before it. -/
theorem Composition.conformsUpwards (hcompiled : Compiled config classes)
    (k : Composition config classes path body w) (fresh : Assoc.get? classes path = none)
    (hclasses : ∀ p c, Assoc.get? classes p = some c → c.ConformsUpwards classes) :
    k.definition.ConformsUpwards (classes ++ [(path, k.definition)]) := by
  have kept : ∀ {p s}, Assoc.get? classes p = some s →
      Assoc.get? (classes ++ [(path, k.definition)]) p = some s := by
    intro p s hs
    rw [Assoc.get?_append, hs, Option.some_or]
  -- what the parent conforms to, the class conforms to
  have hupwards : ∀ parent, k.parent? = some parent → ∀ p, p ∈ parent.lineage ∨ p ∈ parent.implemented →
      ∃ s, Assoc.get? (classes ++ [(path, k.definition)]) p = some s ∧
        k.definition.skeleton.Conforms s.skeleton := by
    intro parent hparent p hp
    obtain ⟨parentPath, -, hget, -⟩ := k.findParent_eq hparent
    obtain ⟨s, hs, hconforms⟩ := hclasses parentPath parent hget p hp
    exact ⟨s, kept hs, (Skeleton.conforms_of_above (k.above_parent hcompiled hparent)).trans hconforms⟩
  intro p hp
  rcases hp with hlineage | himplemented
  · have hchain : p ∈ (k.parent?.map lineage).getD [] ++ [path] := hlineage
    rcases List.mem_append.mp hchain with habove | hself
    · rcases hparent : k.parent? with _ | parent
      · rw [hparent] at habove
        cases habove
      · rw [hparent] at habove
        exact hupwards parent hparent p (.inl habove)
    · obtain rfl := List.mem_singleton.mp hself
      refine ⟨k.definition, ?_, .refl _⟩
      rw [Assoc.get?_append, fresh, Option.none_or, Assoc.get?, if_pos rfl]
  · have hmixins : p ∈ (k.parent?.map implemented).getD [] ++ k.directives.mixins := by
      rw [← k.mixed.implemented_eq]
      exact himplemented
    rcases List.mem_append.mp hmixins with habove | hown
    · rcases hparent : k.parent? with _ | parent
      · rw [hparent] at habove
        cases habove
      · rw [hparent] at habove
        exact hupwards parent hparent p (.inr habove)
    · obtain ⟨mixin, hget, habove⟩ := k.above_mixin hcompiled hown
      exact ⟨mixin, kept hget, Skeleton.conforms_of_above habove⟩

theorem ConformsUpwards.snoc {c d : ClassDefinition} (h : c.ConformsUpwards classes) :
    c.ConformsUpwards (classes ++ [(path, d)]) := by
  intro p hp
  obtain ⟨s, hs, hconforms⟩ := h p hp
  refine ⟨s, ?_, hconforms⟩
  rw [Assoc.get?_append, hs, Option.some_or]

end ClassDefinition

/-- Classes compiled one after the other conform upwards. -/
theorem Compiled.conformsUpwards {config : Config} {classes : Assoc String ClassDefinition}
    (h : Compiled config classes) {p : String} {c : ClassDefinition}
    (hc : Assoc.get? classes p = some c) : c.ConformsUpwards classes := by
  refine h.holds (P := fun classes c => c.ConformsUpwards classes) ?_ ?_ hc
  · intro classes path body w hcompiled fresh hclasses k
    exact k.conformsUpwards hcompiled fresh hclasses
  · intro classes path c d hconforms
    exact hconforms.snoc

namespace Registry

/-- In a reachable registry a class conforms to each class of its inheritance chain, itself included, and
to each mixin in its list of implemented ones.  In one step more is true: a member of the direct parent or
of a mixin that the class itself declares, if it is neither a method nor the null placeholder, is no
method in the class. -/
theorem Reachable.conforms {config : Config} {r : Registry} (hr : r.Reachable config) {path : String}
    {c : ClassDefinition} (hc : r.definition? path = some c) :
    (∀ p, p ∈ c.lineage ∨ p ∈ c.implemented →
      ∃ s, r.definition? p = some s ∧ c.skeleton.Conforms s.skeleton) ∧
    (∀ p s, c.parent? = some p ∨ p ∈ c.mixins → r.definition? p = some s →
      ∀ key d, Assoc.get? s.skeleton key = some d → d.isCallable = false →
        d.isPlaceholder = false →
        ∃ d', Assoc.get? c.skeleton key = some d' ∧ d'.isCallable = false) := by
  refine ⟨hr.compiled.conformsUpwards hc, ?_⟩
  intro p s hp hs key d hd hcallable hplaceholder
  obtain ⟨before, body, w, k, hbefore, rfl, -, hkept⟩ := hr.compiled.exists_composition hc
  have habove : Skeleton.Above Overriding k.definition.skeleton s.skeleton := by
    rcases hp with hparent | hmixin
    · exact k.above_parent hbefore (k.parent_eq hkept hparent hs)
    · obtain ⟨mixin, hget, habove⟩ := k.above_mixin hbefore hmixin
      have hsame : some mixin = some s := (hkept p mixin hget).symm.trans hs
      cases hsame
      exact habove
  obtain ⟨d', hd', hover⟩ := habove key d hd
  exact ⟨d', hd', hover.not_isCallable hcallable hplaceholder⟩

/-- The class of the sample with a parent and a mixin conforms to both. -/
theorem Reachable.conforms_leaf :
    (Sample.definition "Ns.Leaf").skeleton.Conforms (Sample.definition "Ns.Base").skeleton ∧
      (Sample.definition "Ns.Leaf").skeleton.Conforms (Sample.definition "Ns.Mix").skeleton := by
  have hleaf : Sample.registry.definition? "Ns.Leaf" = some (Sample.definition "Ns.Leaf") := rfl
  have hlineage : (Sample.definition "Ns.Leaf").lineage = ["Ns.Base", "Ns.Leaf"] := rfl
  have himplemented : (Sample.definition "Ns.Leaf").implemented = ["Ns.Mix"] := rfl
  have hconforms := (Sample.reachable.conforms hleaf).1
  constructor
  · obtain ⟨s, hs, hbase⟩ := hconforms "Ns.Base" (.inl (hlineage ▸ List.mem_cons_self))
    have hsame : some (Sample.definition "Ns.Base") = some s := hs
    cases hsame
    exact hbase
  · obtain ⟨s, hs, hmix⟩ := hconforms "Ns.Mix" (.inr (himplemented ▸ List.mem_cons_self))
    have hsame : some (Sample.definition "Ns.Mix") = some s := hs
    cases hsame
    exact hmix

end Registry

end ClassComposition
