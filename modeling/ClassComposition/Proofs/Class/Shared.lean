import ClassComposition.Proofs.Member.Classification
import ClassComposition.Proofs.Registry.Reachable

/-!
# Shared members of compiled classes

A shared member is an object or an array, and so is what a body declares under its name.  An instance
member never has the name of a shared one.  So a function that a body declares is not shared, and neither
is it a directive: it becomes a member of the class.

## Main definitions

* `Value.IsContainer` — objects and arrays.
* `SharedMembers.Proper` — shared members that are containers, also where a body declares them.
* `SharedMembers.Addable` — a name may be added to a set of shared members.
* `SharedMembers.Offends` — a name may not be added, and the kind of error that says so.

## Main results

* `SharedMembers.declarable_spec` — a name is added, or refused for the first thing wrong with it.
* `ClassDefinition.proper_of_composeShared` — composing shared members gives proper ones.
* `ClassDefinition.Composition.mem_memberEntries` — a declared function becomes a member.
* `Compiled.shared_isContainer` — the shared members of compiled classes are containers.
* `SharedMembers.notMem_of_checkVisible` — no instance member has the name of a shared one.
-/

namespace ClassComposition

/-- An object or an array. -/
def Value.IsContainer (v : Value) : Prop := v.kind = .object ∨ v.kind = .array

theorem Value.not_isContainer_function (f : Handle .function) : ¬ (Value.function f).IsContainer := by
  rintro (h | h) <;> cases h

theorem Store.kind_deepCopy (s : Store) (o : Handle .object) :
    (s.deepCopy (.object o)).1.kind = .object := rfl

namespace SharedMembers

variable {path : String} {b : ClassBody} {w w' : World}

/-- Shared members are objects and arrays, and so is what a body declares under their names. -/
def Proper (b : ClassBody) (shared : SharedMembers) : Prop :=
  ∀ p ∈ shared, p.2.IsContainer ∧ ∀ v, b.get? p.1 = some v → v.IsContainer

/-! ### Inheriting and declaring -/

theorem isContainer_of_inheritOne {name : String} {inherited v : Value} {declared? : Option Value}
    (h : (inheritOne path name inherited declared?).run w = (.ok v, w'))
    (hinherited : inherited.IsContainer) :
    v.IsContainer ∧ ∀ d, declared? = some d → d.IsContainer := by
  cases declared? with
  | none =>
    cases h
    refine ⟨hinherited, ?_⟩
    intro d hd
    cases hd
  | some declared =>
    -- both sides are arrays or both are objects, and else there is no answer
    cases inherited with
    | array a =>
      cases declared with
      | array a' =>
        cases h
        refine ⟨.inr rfl, ?_⟩
        intro d hd
        cases hd
        exact .inr rfl
      | _ => cases h
    | object o =>
      cases declared with
      | object o' =>
        cases h
        refine ⟨.inl (Store.kind_deepCopy w.store o), ?_⟩
        intro d hd
        cases hd
        exact .inl rfl
      | _ => cases h
    | _ => cases declared <;> cases h

/-- What a class starts from is proper when the parent's shared members are containers. -/
theorem proper_of_inherit {parent shared : SharedMembers}
    (h : (inherit path b parent).run w = (.ok shared, w'))
    (hparent : ∀ p ∈ parent, p.2.IsContainer) : Proper b shared := by
  induction parent generalizing shared w with
  | nil =>
    cases h
    intro p hp
    cases hp
  | cons q rest ih =>
    obtain ⟨name, inherited⟩ := q
    obtain ⟨hfirst, hrest⟩ := List.forall_mem_cons.mp hparent
    rw [inherit, Action.run_bind_eq_ok] at h
    obtain ⟨v, w₁, hone, h⟩ := h
    rw [Action.run_bind_eq_ok] at h
    obtain ⟨_, w₂, hrecord, h⟩ := h
    rw [Action.run_bind_eq_ok] at h
    obtain ⟨others, w₃, hothers, h⟩ := h
    cases h
    intro p hp
    rcases List.mem_cons.mp hp with rfl | hmem
    · exact isContainer_of_inheritOne hone hfirst
    · exact ih hothers hrest p hmem

variable {parentSkeleton? : Option Skeleton} {shared : SharedMembers} {name : String}

/-- A name may be added: the body has an object or an array under it, and it is neither an instance member
of the parent nor shared already. -/
structure Addable (b : ClassBody) (parentSkeleton? : Option Skeleton) (shared : SharedMembers)
    (name : String) : Prop where
  isContainer : ∃ v, b.get? name = some v ∧ v.IsContainer
  notInstance : MemberKey.parse name ∉ Assoc.keys (parentSkeleton?.getD [])
  notShared : name ∉ Assoc.keys shared

/-- A name may not be added.  What is wrong with it is looked for in a fixed order, and the first thing that
is found gives the kind of the error. -/
inductive Offends (b : ClassBody) (parentSkeleton? : Option Skeleton) (shared : SharedMembers)
    (name : String) : ErrorKind → Prop
  /-- The body has nothing under the name. -/
  | missing (hget : b.get? name = none) : Offends b parentSkeleton? shared name .invalidDirective
  /-- The body has something else than an object or an array. -/
  | notContainer {v : Value} (hget : b.get? name = some v) (hkind : ¬ v.IsContainer) :
      Offends b parentSkeleton? shared name .invalidMember
  /-- It is an instance member of the parent. -/
  | inherited {v : Value} (hget : b.get? name = some v) (hkind : v.IsContainer)
      (hmem : MemberKey.parse name ∈ Assoc.keys (parentSkeleton?.getD [])) :
      Offends b parentSkeleton? shared name .visibilityConflict
  /-- It is shared already. -/
  | repeated {v : Value} (hget : b.get? name = some v) (hkind : v.IsContainer)
      (hnew : MemberKey.parse name ∉ Assoc.keys (parentSkeleton?.getD []))
      (hmem : name ∈ Assoc.keys shared) : Offends b parentSkeleton? shared name .duplicateDefinition

/-- A name offends only if it may not be added. -/
theorem Offends.not_addable {kind : ErrorKind} (h : Offends b parentSkeleton? shared name kind) :
    ¬ Addable b parentSkeleton? shared name := by
  rintro ⟨⟨v, hv, hcontainer⟩, hinstance, hshared⟩
  cases h with
  | missing hget => rw [hget] at hv; cases hv
  | notContainer hget hkind =>
    rw [hget] at hv
    cases hv
    exact hkind hcontainer
  | inherited _ _ hmem => exact hinstance hmem
  | repeated _ _ _ hmem => exact hshared hmem

/-- A name that may be added is added with the entry of the body, and any other is refused for the first
thing that is wrong with it. -/
theorem declarable_spec (path : String) (b : ClassBody) (parentSkeleton? : Option Skeleton)
    (shared : SharedMembers) (name : String) :
    match declarable path b parentSkeleton? shared name with
    | .ok v => b.get? name = some v ∧ Addable b parentSkeleton? shared name
    | .error e => Offends b parentSkeleton? shared name e.kind := by
  unfold declarable
  rcases hget : b.get? name with _ | v
  · exact .missing hget
  by_cases hkind : v.IsContainer
  · have hpass : ¬(v.kind ≠ .object ∧ v.kind ≠ .array) := fun h => hkind.elim h.1 h.2
    simp only [if_neg hpass, Assoc.contains_iff]
    by_cases hinstance : MemberKey.parse name ∈ Assoc.keys (parentSkeleton?.getD [])
    · rw [if_pos hinstance]
      exact .inherited hget hkind hinstance
    by_cases hshared : name ∈ Assoc.keys shared
    · rw [if_neg hinstance, if_pos hshared]
      exact .repeated hget hkind hinstance hshared
    · rw [if_neg hinstance, if_neg hshared]
      exact ⟨rfl, ⟨v, hget, hkind⟩, hinstance, hshared⟩
  · have hrefused : v.kind ≠ .object ∧ v.kind ≠ .array := not_or.mp hkind
    simp only [if_pos hrefused]
    exact .notContainer hget hkind

/-- A name that is added may be, and it is added with the entry of the body. -/
theorem declarable_eq_ok {v : Value} (h : declarable path b parentSkeleton? shared name = .ok v) :
    b.get? name = some v ∧ Addable b parentSkeleton? shared name := by
  have hspec := declarable_spec path b parentSkeleton? shared name
  rw [h] at hspec
  exact hspec

theorem proper_of_declare {result : SharedMembers} {names : List String}
    (h : declare path b parentSkeleton? shared names = (result, .ok ()))
    (hshared : Proper b shared) : Proper b result := by
  induction names generalizing shared with
  | nil =>
    cases h
    exact hshared
  | cons name rest ih =>
    rw [declare] at h
    rcases hname : declarable path b parentSkeleton? shared name with e | v
    · rw [hname] at h
      cases h
    · rw [hname] at h
      obtain ⟨hget, ⟨x, hx, hcontainer⟩, -, -⟩ := declarable_eq_ok hname
      rw [hget] at hx
      cases hx
      refine ih h ?_
      intro p hp
      rcases Assoc.mem_insert hp with rfl | hmem
      · refine ⟨hcontainer, ?_⟩
        intro d hd
        rw [hget] at hd
        cases hd
        exact hcontainer
      · exact hshared p hmem

/-! ### Names -/

theorem notMem_of_checkVisible {skeleton : Skeleton} {shared : SharedMembers}
    (h : checkVisible path skeleton shared = .ok ()) :
    ∀ p ∈ shared, MemberKey.parse p.1 ∉ Assoc.keys skeleton := by
  induction shared with
  | nil =>
    intro p hp
    cases hp
  | cons q rest ih =>
    obtain ⟨name, v⟩ := q
    rw [checkVisible] at h
    by_cases hname : Assoc.contains skeleton (MemberKey.parse name) = true
    · rw [if_pos hname] at h
      cases h
    · rw [if_neg hname] at h
      rw [Assoc.contains_iff] at hname
      intro p hp
      rcases List.mem_cons.mp hp with rfl | hmem
      · exact hname
      · exact ih h p hmem

end SharedMembers

/-! ### Directives -/

/-- A function that a body declares does not stand under a reserved name. -/
theorem Directives.not_isReserved {s : Store} {path : String} {b : ClassBody} {directives : Directives}
    (h : Directives.parse s path b = .ok directives) {name : String} {f : Handle .function}
    (hname : b.get? name = some (.function f)) : Directive.isReserved name = false := by
  obtain ⟨habstract, hparent, hmixins, hshared⟩ := Directives.parse_eq_ok h
  rw [← Bool.not_eq_true]
  intro hreserved
  have hmem : name ∈ Directive.all.map Directive.name := List.contains_iff_mem.mp hreserved
  -- each of the four directives refuses a function
  obtain ⟨directive, -, rfl⟩ := List.mem_map.mp hmem
  cases directive with
  | parent =>
    rw [parentPath?, hname] at hparent
    cases hparent
  | mixins =>
    rw [names, hname] at hmixins
    cases hmixins
  | options =>
    rw [abstractness, hname] at habstract
    cases habstract
  | shared =>
    rw [names, hname] at hshared
    cases hshared

/-! ### Compiled classes -/

namespace ClassDefinition

variable {config : Config} {classes : Assoc String ClassDefinition} {path : String}
  {body : ClassBody} {w w' : World}

/-- Composing shared members gives proper ones when the parent's are containers. -/
theorem proper_of_composeShared {parent? : Option ClassDefinition} {names : List String}
    {shared : SharedMembers} (h : (composeShared path body parent? names).run w = (.ok shared, w'))
    (hparent : ∀ parent, parent? = some parent → ∀ p ∈ parent.shared, p.2.IsContainer) :
    SharedMembers.Proper body shared := by
  rw [composeShared_eq, Action.run_bind_eq_ok] at h
  obtain ⟨inherited, w₁, hdown, h⟩ := h
  refine SharedMembers.proper_of_declare (run_declareOver h).1 ?_
  cases parent? with
  | none =>
    cases hdown
    intro p hp
    cases hp
  | some parent => exact SharedMembers.proper_of_inherit hdown (hparent parent rfl)

/-- The shared members of a class are proper when those of the classes before it are containers. -/
theorem Composition.proper (k : Composition config classes path body w)
    (hclasses : ∀ p c, Assoc.get? classes p = some c → ∀ q ∈ c.shared, q.2.IsContainer) :
    SharedMembers.Proper body k.shared :=
  proper_of_composeShared k.shared_composed fun _ => k.holds_of_parent hclasses

/-- A function that the body declares becomes a member. -/
theorem Composition.mem_memberEntries (k : Composition config classes path body w)
    (hclasses : ∀ p c, Assoc.get? classes p = some c → ∀ q ∈ c.shared, q.2.IsContainer)
    {name : String} {f : Handle .function} (hname : body.get? name = some (.function f)) :
    (name, .function f) ∈ body.memberEntries (Assoc.keys k.shared) := by
  have hreserved := Directives.not_isReserved k.parsed hname
  have hshared : ¬ (Assoc.keys k.shared).contains name = true := by
    intro hcontains
    obtain ⟨p, hp, rfl⟩ := List.mem_map.mp (List.contains_iff_mem.mp hcontains)
    exact Value.not_isContainer_function f ((k.proper hclasses p hp).2 _ hname)
  rw [ClassBody.memberEntries, List.mem_filter]
  refine ⟨Assoc.mem_of_get? hname, ?_⟩
  rw [hreserved, Bool.eq_false_iff.mpr hshared]
  rfl

end ClassDefinition

theorem Compiled.shared_isContainer {config : Config} {classes : Assoc String ClassDefinition}
    (h : Compiled config classes) {p : String} {c : ClassDefinition}
    (hc : Assoc.get? classes p = some c) : ∀ q ∈ c.shared, q.2.IsContainer := by
  refine h.holds_each (P := fun c => ∀ q ∈ c.shared, q.2.IsContainer) ?_ hc
  intro classes path body w _ hclasses k q hq
  exact (k.proper hclasses q hq).1

end ClassComposition
