import ClassComposition.Proofs.Registry.Agreement
import ClassComposition.Proofs.Registry.Lookup

/-!
# Shared state in the hierarchy

The shared members of a class are fixed when the class is defined: those of the parent in the parent's
order, each one handed down as the body has it, and behind them those that the class declares.  A member
that the body has nothing for is handed down as it is, so that along any line of descent without such a
body all instances read one and the same object or array.

## Main definitions

* `Registry.Descends` — one class is below another, and no body in between has an entry of a name.

## Main results

* `Registry.Reachable.exists_define` — every class comes from a definition.
* `Registry.Descends.get?_shared` — a shared member stays the same along a line of descent.
* `Registry.Reachable.shared_state` — the shared members of all classes, and what instances read of them.
-/

namespace ClassComposition

namespace Registry

open Constructor

variable {config : Config} {r : Registry} {path : String} {c : ClassDefinition}

/-! ### Definitions of classes -/

/-- A class that an operation adds was defined by it. -/
theorem definition?_perform_of_none {w : World} {operation : Operation}
    (hfresh : r.definition? path = none) (hc : (r.perform w operation).definition? path = some c) :
    ∃ k after w', (r.define path c.body).run w = (.ok (k, after), w') ∧
      r.perform w operation = after := by
  cases operation with
  | addRoot name =>
    rw [Registry.perform, definition?, classes_addRoot] at hc
    rw [definition?, hc] at hfresh
    cases hfresh
  | addConstructor p k =>
    rw [Registry.perform] at hc
    rcases hadd : r.addConstructor p k with e | after
    · rw [hadd] at hc
      rw [hc] at hfresh
      cases hfresh
    · rw [hadd] at hc
      obtain ⟨-, rfl⟩ := addConstructor_eq_ok hadd
      rw [show r.definition? path = some c from hc] at hfresh
      cases hfresh
  | define p body =>
    rcases hrun : (r.define p body).run w with ⟨e | ⟨k, after⟩, w'⟩
    · rw [Registry.perform, hrun] at hc
      rw [hc] at hfresh
      cases hfresh
    · have hafter : r.perform w (.define p body) = after := by
        rw [Registry.perform, hrun]
      obtain ⟨d, w₁, w₂, -, -, -, -, -, hclasses, -⟩ := composition_of_define hrun
      rw [hafter, definition?, hclasses] at hc
      rcases Compiled.get?_snoc hc with hbefore | ⟨rfl, rfl⟩
      · rw [definition?, hbefore] at hfresh
        cases hfresh
      · exact ⟨k, after, w', hrun, hafter⟩

theorem Leads.trans {r after later : Registry} (hr : r.Leads after) (h : after.Leads later) :
    r.Leads later := by
  induction h with
  | refl => exact hr
  | perform _ w operation ih => exact ih.perform w operation

/-- Every class of a reachable registry comes from a definition with its body in some world. -/
theorem Reachable.exists_define (hr : r.Reachable config) (hc : r.definition? path = some c) :
    ∃ (before : Registry) (w : World) (k : Constructor) (after : Registry) (w' : World),
      before.Reachable config ∧ (before.define path c.body).run w = (.ok (k, after), w') ∧
      after.definition? path = some c ∧ before.Leads after ∧ after.Leads r := by
  induction hr with
  | empty => cases hc
  | @perform reached hreached w operation ih =>
    rcases hbefore : reached.definition? path with _ | d
    · obtain ⟨k, after, w', hrun, rfl⟩ := definition?_perform_of_none hbefore hc
      exact ⟨reached, w, k, _, w', hreached, hrun, hc, .perform .refl w operation, .refl⟩
    · obtain ⟨hkept, -⟩ := (Leads.refl.perform w operation).kept hbefore
      rw [hc] at hkept
      cases hkept
      obtain ⟨before, w₁, k, after, w', hfirst, hrun, hdefined, hthen, hleads⟩ := ih hbefore
      exact ⟨before, w₁, k, after, w', hfirst, hrun, hdefined, hthen, hleads.perform w operation⟩

/-! ### Lines of descent -/

/-- The second class is the first or below it, and none below the first, down to the second, has an entry
of a name in its body. -/
inductive Descends (r : Registry) (name : String) (top : String) : String → Prop
  | refl : Descends r name top top
  | step {parentPath path : String} {c : ClassDefinition} (above : Descends r name top parentPath)
      (found : r.definition? path = some c) (parent : c.parent? = some parentPath)
      (undeclared : c.body.get? name = none) : Descends r name top path

theorem Reachable.shared_handedDown (hr : r.Reachable config) (hc : r.definition? path = some c)
    {parentPath : String} {parent : ClassDefinition} (hparent : c.parent? = some parentPath)
    (hfound : r.definition? parentPath = some parent) {name : String} {inherited : Value}
    (hget : Assoc.get? parent.shared name = some inherited)
    (hundeclared : c.body.get? name = none) : Assoc.get? c.shared name = some inherited := by
  obtain ⟨before, body, w, k, -, rfl, -, hkept⟩ := hr.compiled.exists_composition hc
  have hk := k.parent_eq hkept hparent hfound
  obtain ⟨v, hv, hdown⟩ := k.shared_handedDown hk hget
  rw [show body.get? name = none from hundeclared] at hdown
  cases hdown
  exact hv

/-- A shared member stays the same along a line of descent without a body that has it. -/
theorem Descends.get?_shared (hr : r.Reachable config) {name top low : String}
    (h : r.Descends name top low) {c d : ClassDefinition} (hc : r.definition? top = some c)
    (hd : r.definition? low = some d) {v : Value} (hv : Assoc.get? c.shared name = some v) :
    Assoc.get? d.shared name = some v := by
  induction h generalizing d with
  | refl =>
    rw [hc] at hd
    cases hd
    exact hv
  | @step parentPath path e above found parent undeclared ih =>
    rw [found] at hd
    cases hd
    obtain ⟨before, body, w, k, -, rfl, -, hkept⟩ := hr.compiled.exists_composition found
    obtain ⟨p, hp, hget⟩ := k.exists_parent parent
    have hfound := hkept parentPath p hget
    exact hr.shared_handedDown found parent hfound (ih hfound) undeclared

/-! ### Shared members of all classes -/

/-- The parent that a class names was there when the class was defined. -/
theorem exists_parent_of_define {body : ClassBody} {w w' : World} {k : Constructor}
    {after : Registry} (h : (r.define path body).run w = (.ok (k, after), w'))
    (hc : after.definition? path = some c) {parentPath : String}
    (hparent : c.parent? = some parentPath) : ∃ parent, r.definition? parentPath = some parent := by
  obtain ⟨d, w₁, w₂, -, -, -, hfresh, -, hclasses, -⟩ := composition_of_define h
  rw [definition?, hclasses, Assoc.get?_append, hfresh, Option.none_or, Assoc.get?, if_pos rfl] at hc
  cases hc
  obtain ⟨parent, -, hget⟩ := d.exists_parent hparent
  exact ⟨parent, hget⟩

/-- What the definition of a class made of the shared members: those of the parent come first, each one
handed down, and those that the directive names follow. -/
theorem shared_of_define {body : ClassBody} {w w' : World}
    {k : Constructor} {after : Registry} (h : (r.define path body).run w = (.ok (k, after), w'))
    (hc : after.definition? path = some c) :
    ∃ names, Directives.parse w.store path body = .ok ⟨c.parent?, c.mixins, names, c.isAbstract⟩ ∧
      Assoc.keys c.shared =
        Assoc.keys (((c.parent?.bind r.definition?).map ClassDefinition.shared).getD []) ++ names ∧
      ∀ parentPath parent, c.parent? = some parentPath → r.definition? parentPath = some parent →
        ∀ name inherited, Assoc.get? parent.shared name = some inherited →
          ∃ v, Assoc.get? c.shared name = some v ∧
            HandedDown w.store w'.store inherited (body.get? name) v := by
  obtain ⟨d, w₁, w₂, hworld, hbuild, hstore, hfresh, -, hclasses, -⟩ := composition_of_define h
  obtain ⟨hobjects, -⟩ := containers_of_build hbuild
  rw [definition?, hclasses, Assoc.get?_append, hfresh, Option.none_or, Assoc.get?, if_pos rfl] at hc
  cases hc
  refine ⟨d.directives.shared, d.parsed, ?_, ?_⟩
  · have hkeys := d.shared_keys
    have hparents := d.parents_eq
    rcases hnamed : d.directives.parent? with _ | parentPath
    · rcases hfound : d.parent? with _ | parent
      · rw [hfound] at hkeys
        simpa [ClassDefinition.Composition.definition, hnamed] using hkeys
      · simp [hnamed, hfound] at hparents
    · obtain ⟨parent, hfound, hget⟩ := d.exists_parent hnamed
      rw [hfound] at hkeys
      simpa [ClassDefinition.Composition.definition, hnamed, definition?, hget] using hkeys
  · intro parentPath parent hparent hfound name inherited hget
    have hk := d.parent_eq (fun _ _ hp => hp) hparent hfound
    obtain ⟨v, hv, hdown⟩ := d.shared_handedDown hk hget
    have hsize : d.world.store.objects.size = w'.store.objects.size := by
      rw [hstore, hobjects, hworld]
    exact ⟨v, hv, hdown.mono (Nat.le_refl _) (Nat.le_of_eq hsize)⟩

/-- Shared state in the hierarchy.  Every shared member is an object or an array, no name is shared twice,
and none is read as the key of an instance member.  Each class has the shared names of its parent in their
order and behind them those of its directive.  What it has under a name of the parent's is of the same
kind: the parent's very value where its body has nothing, the body's array where the body has an array,
and a new object where the body has an object.  So along a line of descent without an entry of a name,
the instances of all classes read the same handle under the name, and none of them owns it, as long as no
patch writes to the slot of this very name. -/
theorem Reachable.shared_state (hr : r.Reachable config) :
    (∀ path c, r.definition? path = some c →
      (∀ p ∈ c.shared, p.2.IsContainer) ∧ (Assoc.keys c.shared).Nodup ∧
      (∀ name ∈ Assoc.keys c.shared, MemberKey.parse name ∉ Assoc.keys c.skeleton) ∧
      ∃ (before : Registry) (w : World) (k : Constructor) (after : Registry) (w' : World)
          (names : List String),
        before.Reachable config ∧ (before.define path c.body).run w = (.ok (k, after), w') ∧
        after.Leads r ∧
        Directives.parse w.store path c.body = .ok ⟨c.parent?, c.mixins, names, c.isAbstract⟩ ∧
        Assoc.keys c.shared =
          Assoc.keys (((c.parent?.bind r.definition?).map ClassDefinition.shared).getD []) ++ names ∧
        ∀ parentPath parent, c.parent? = some parentPath → r.definition? parentPath = some parent →
          ∀ name inherited, Assoc.get? parent.shared name = some inherited →
            ∃ v, Assoc.get? c.shared name = some v ∧ v.kind = inherited.kind ∧
              HandedDown w.store w'.store inherited (c.body.get? name) v) ∧
    (∀ name top low c d, r.definition? top = some c → r.definition? low = some d →
      r.Descends name top low → ∀ v, Assoc.get? c.shared name = some v →
        Assoc.get? d.shared name = some v ∧
        ∀ k s, d.isAbstract = false → r.constructor? low none = some k → d.references.ArraysIn s →
          k.SlotUnpatched d s (MemberKey.parse name) → ∃ i t, k.materialize? s = some (i, t) ∧
            t.member? i name = some v ∧ t.ownsField i name = false) := by
  have hcompiled := hr.compiled
  constructor
  · intro path c hc
    have hvisible : ∀ name ∈ Assoc.keys c.shared, MemberKey.parse name ∉ Assoc.keys c.skeleton := by
      intro name hname
      obtain ⟨p, hp, rfl⟩ := List.mem_map.mp hname
      exact hcompiled.shared_visible hc p hp
    obtain ⟨before, w, k, after, w', hbefore, hdefine, hdefined, hfirst, hleads⟩ :=
      hr.exists_define hc
    obtain ⟨names, hparsed, hkeys, hdown⟩ := shared_of_define hdefine hdefined
    -- the parent is still the class that it was then
    have hkept : ∀ parentPath, c.parent? = some parentPath →
        before.definition? parentPath = r.definition? parentPath := by
      intro parentPath hparent
      obtain ⟨parent, hfound⟩ := exists_parent_of_define hdefine hdefined hparent
      rw [hfound, ((hfirst.trans hleads).kept hfound).1]
    have hparents : c.parent?.bind before.definition? = c.parent?.bind r.definition? := by
      rcases hparent : c.parent? with _ | parentPath
      · rfl
      · exact hkept parentPath hparent
    rw [hparents] at hkeys
    refine ⟨hcompiled.shared_isContainer hc, hcompiled.nodup_shared hc, hvisible, before, w, k, after,
      w', names, hbefore, hdefine, hleads, hparsed, hkeys, ?_⟩
    intro parentPath parent hparent hfound name inherited hget
    rw [← hkept parentPath hparent] at hfound
    obtain ⟨v, hv, hhanded⟩ := hdown parentPath parent hparent hfound name inherited hget
    exact ⟨v, hv, hhanded.kind_eq.1, hhanded⟩
  · intro name top low c d hc hd hdescends v hv
    have hshared := hdescends.get?_shared hr hc hd hv
    refine ⟨hshared, ?_⟩
    intro k s hconcrete hk harrays hunpatched
    obtain ⟨i, t, hmade, hnew⟩ := hr.exists_newInstance hd hconcrete hk harrays
    have habsent : Assoc.get? d.skeleton (MemberKey.parse name) = none := by
      rw [Assoc.get?_eq_none_iff]
      exact hcompiled.shared_visible hd _ (Assoc.mem_of_get? hshared)
    obtain ⟨hmember, howned⟩ := hr.member?_shared hd hconcrete hk hnew hunpatched habsent
    exact ⟨i, t, hmade, hmember.trans hshared, howned⟩

end Registry

/-! ### A sample

Below the class that shares an object stands one that has nothing for it, and below that one another that
redeclares it. -/

namespace Sample

/-- The registry with a class that redeclares the shared object. -/
def redeclaring : Registry :=
  heirs.perform world (.define "Ns.Last" ⟨[("Extends", .text "Ns.Heir"), ("options", .object ⟨2⟩)]⟩)

end Sample

namespace Registry

/-- The class that has nothing for the shared object has the very object of its parent, and its instances
read it without owning it.  The class that redeclares it has a new object. -/
theorem Reachable.shared_state_heir :
    ∃ k w' d e, (Sample.sharing.define "Ns.Heir" Sample.heir).run Sample.world
        = (.ok (k, Sample.heirs), w') ∧
      Sample.redeclaring.definition? "Ns.Heir" = some d ∧
      Assoc.get? d.shared "options" = some (.object ⟨0⟩) ∧
      (∃ i t, k.materialize? w'.store = some (i, t) ∧ t.member? i "options" = some (.object ⟨0⟩) ∧
        t.ownsField i "options" = false) ∧
      Sample.redeclaring.definition? "Ns.Last" = some e ∧
      ∃ s u, HandedDown s u (.object ⟨0⟩) (some (.object ⟨2⟩)) (.object ⟨3⟩) ∧
        Assoc.get? e.shared "options" = some (.object ⟨3⟩) := by
  have hreachable : Sample.redeclaring.Reachable .standard :=
    (((Reachable.empty.perform _ _).perform _ _).perform _ _).perform _ _
  obtain ⟨hclasses, hdescends⟩ := hreachable.shared_state
  obtain ⟨k, w', hdefine⟩ : ∃ k w', (Sample.sharing.define "Ns.Heir" Sample.heir).run Sample.world
      = (.ok (k, Sample.heirs), w') := ⟨_, _, rfl⟩
  obtain ⟨c, hc⟩ : ∃ c, Sample.redeclaring.definition? "Ns.Store" = some c := ⟨_, rfl⟩
  obtain ⟨d, hd⟩ : ∃ d, Sample.redeclaring.definition? "Ns.Heir" = some d := ⟨_, rfl⟩
  obtain ⟨e, he⟩ : ∃ e, Sample.redeclaring.definition? "Ns.Last" = some e := ⟨_, rfl⟩
  have hshared : Assoc.get? c.shared "options" = some (.object ⟨0⟩) := by
    cases hc
    rfl
  have hparent : d.parent? = some "Ns.Store" ∧ d.body.get? "options" = none ∧
      d.isAbstract = false ∧ d.references = ⟨[.function ⟨1⟩]⟩ := by
    cases hd
    exact ⟨rfl, rfl, rfl, rfl⟩
  obtain ⟨hnamed, hundeclared, hconcrete, hreferences⟩ := hparent
  obtain ⟨hsame, hinstances⟩ := hdescends "options" "Ns.Store" "Ns.Heir" c d hc hd
    (.step .refl hd hnamed hundeclared) (.object ⟨0⟩) hshared
  have hk : Sample.redeclaring.constructor? "Ns.Heir" none = some k := by
    cases hdefine
    rfl
  have harrays : d.references.ArraysIn w'.store := by
    intro index a h
    rw [hreferences] at h
    match index with
    | 0 => cases h
    | index + 1 => cases h
  have hheirs : Sample.heirs.definition? "Ns.Heir" = some d := hd
  have hunpatched := unpatched_of_define hdefine hheirs hconcrete
  have hmade := hinstances k w'.store hconcrete hk harrays (hunpatched.slot _)
  -- the class below redeclares the object
  have hlast : e.parent? = some "Ns.Heir" ∧ e.body.get? "options" = some (.object ⟨2⟩) ∧
      Assoc.get? e.shared "options" = some (.object ⟨3⟩) := by
    cases he
    exact ⟨rfl, rfl, rfl⟩
  obtain ⟨hbelow, hredeclared, hown⟩ := hlast
  obtain ⟨-, -, -, before, w, k', after, u, names, -, -, -, -, -, hdown⟩ := hclasses _ _ he
  obtain ⟨v, hv, -, hhanded⟩ := hdown _ d hbelow hd _ _ hsame
  rw [hown] at hv
  cases hv
  rw [hredeclared] at hhanded
  exact ⟨k, w', d, e, hdefine, hd, hsame, hmade, he, w.store, u.store, hhanded, hown⟩

end Registry

end ClassComposition
