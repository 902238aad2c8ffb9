import ClassComposition.Proofs.Class.Matching
import ClassComposition.Proofs.Member.Rereading
import ClassComposition.Proofs.Store.Following

/-!
# Classes that differ in the identity of new things

When a class is compiled once more, in a store that follows the first one under a renaming, the same comes
of it but for the handles of what it makes: the copies among its shared members, its prototype, and the
identity of its routine.

## Main definitions

* `Constructor.LivesIn`, `ClassDefinition.LivesIn` — a store has what they refer to.
* `Renaming.definition`, `Renaming.constructor` — classes and constructors, renamed.

## Main results

* `SharedMembers.matches_inheritOne` — what is handed down is the same under the renaming.
* `Store.Follows.sameBelow` — what was there reads the same in both stores.
* `Renaming.slotsOf_prototypeOf` — so do the prototypes of both classes.
* `ClassDefinition.Composition.livesIn`, `Constructor.livesIn_of_build` — what is made is there.
-/

namespace ClassComposition

open ClassComposition.Action

variable {ρ : Renaming} {s s' s₀ : Store}

/-! ### What is renamed -/

/-- The prototype of the instances that a routine makes. -/
def Routine.handle? : Routine → Option (Handle .prototype)
  | .compiled h _ _ _ => some h
  | .abstract => none
  | .external h _ => some h

/-- A store has what a constructor refers to: the identity of its routine has been given out, and the
prototype of its instances is there. -/
structure Constructor.LivesIn (k : Constructor) (s : Store) : Prop where
  id_lt : k.id < s.routines
  has_prototype : ∀ h, k.routine.handle? = some h → s.prototypes.Has h

/-- A store has what a class shares. -/
def ClassDefinition.LivesIn (c : ClassDefinition) (s : Store) : Prop := ∀ p ∈ c.shared, s.Has p.2

theorem ClassDefinition.LivesIn.within {c : ClassDefinition} (h : c.LivesIn s) (hs : s.Within s') :
    c.LivesIn s' := fun p hp => hs.has (h p hp)

theorem Constructor.LivesIn.grows {k : Constructor} (h : k.LivesIn s) (hs : s.Grows s') : k.LivesIn s' :=
  ⟨Nat.lt_of_lt_of_le h.id_lt hs.routines_le,
    fun handle hhandle => hs.continues.within.prototypes.has (h.has_prototype handle hhandle)⟩

/-- The slots of a class hold functions and patterns, and so no objects. -/
theorem Constructor.kind_slots {path : String} {t : ReferenceTable} {ms : Skeleton} {ps : Parts}
    (hms : ∀ p ∈ ms, p.2.AllLeaves (MemberDescriptor.PointsInto t)) (h : parts path t ms = .ok ps) :
    ∀ q ∈ ps.slots, q.2.kind ≠ .object := by
  induction ms generalizing ps with
  | nil =>
    cases h
    exact fun q hq => nomatch hq
  | cons p rest ih =>
    obtain ⟨key, d⟩ := p
    rw [List.forall_mem_cons] at hms
    obtain ⟨others, hothers, ⟨-, i, -, rfl⟩ | ⟨i, v, hslot, hv, rfl⟩⟩ := parts_cons_cases h
    · have hrest := ih hms.2 hothers
      exact hrest
    · refine List.forall_mem_cons.mpr ⟨?_, ih hms.2 hothers⟩
      -- only methods and patterns become slots, and their indices point to functions and patterns
      cases d with
      | function j =>
        obtain ⟨f, hf⟩ := hms.1
        cases hslot
        rw [hf] at hv
        cases hv
        simp [Value.kind]
      | pattern j =>
        obtain ⟨x, hx⟩ := hms.1
        cases hslot
        rw [hx] at hv
        cases hv
        simp [Value.kind]
      | _ => cases hslot

/-- The prototype of a class holds no objects but those that the class shares. -/
theorem Constructor.hasObject_prototypeOf {path : String} {t : ReferenceTable} {ms : Skeleton}
    {ps : Parts} {c : ClassDefinition} (hms : ∀ p ∈ ms, p.2.AllLeaves (MemberDescriptor.PointsInto t))
    (h : parts path t ms = .ok ps) (hc : c.LivesIn s) :
    ∀ q ∈ (prototypeOf c ps.slots).slots, s.HasObject q.2 := by
  intro q hq
  rcases List.mem_append.mp (Assoc.mem_of_mem_ofList hq) with hslot | hshared
  · intro o ho
    refine absurd ?_ (kind_slots hms h q hslot)
    rw [ho]
    rfl
  · obtain ⟨p, hp, rfl⟩ := List.mem_map.mp hshared
    exact (hc p hp).hasObject

namespace Renaming

variable (ρ)

/-- A prototype's handle, renamed. -/
def handle (h : Handle .prototype) : Handle .prototype := ⟨ρ.prototype h.index⟩

/-- A way to make instances, with its prototype renamed. -/
def making : Routine → Routine
  | .compiled h fields init? hook? => .compiled (ρ.handle h) fields init? hook?
  | .abstract => .abstract
  | .external h code => .external (ρ.handle h) code

/-- A constructor with its identity and its prototype renamed. -/
def constructor (k : Constructor) : Constructor :=
  { k with id := ρ.routine k.id, routine := ρ.making k.routine }

/-- A class with the objects that it shares renamed. -/
def definition (c : ClassDefinition) : ClassDefinition := { c with shared := ρ.entries c.shared }

@[simp] theorem constructor_refl (k : Constructor) : Renaming.refl.constructor k = k := by
  obtain ⟨path, id, routine⟩ := k
  cases routine <;> rfl

@[simp] theorem definition_refl (c : ClassDefinition) : Renaming.refl.definition c = c := by
  simp [definition]

theorem constructor_comp (σ : Renaming) (k : Constructor) :
    (ρ.comp σ).constructor k = ρ.constructor (σ.constructor k) := by
  obtain ⟨path, id, routine⟩ := k
  cases routine <;> rfl

theorem definition_comp (σ : Renaming) (c : ClassDefinition) :
    (ρ.comp σ).definition c = ρ.definition (σ.definition c) := by
  simp [definition, entries_comp]

/-- A value in the second run is that of the first one, renamed. -/
def Renames (v v' : Value) : Prop := v' = ρ.value v

variable {ρ}

/-- Renamings that do the same to what a store has do so to its constructors. -/
theorem EqOn.constructor_eq {σ : Renaming} (h : ρ.EqOn σ s) {k : Constructor} (hk : k.LivesIn s) :
    ρ.constructor k = σ.constructor k := by
  obtain ⟨path, id, routine⟩ := k
  obtain ⟨hid, hprototype⟩ := hk
  have hhandle : ∀ h', routine.handle? = some h' → ρ.handle h' = σ.handle h' := by
    intro h' hroutine
    exact congrArg Handle.mk (h.prototype h'.index (hprototype h' hroutine))
  have hmaking : ρ.making routine = σ.making routine := by
    cases routine with
    | compiled h' fields init? hook? =>
      rw [making, making, hhandle h' rfl]
    | abstract => rfl
    | external h' code =>
      rw [making, making, hhandle h' rfl]
  unfold constructor
  dsimp only
  rw [h.routine id hid, hmaking]

theorem EqOn.definition_eq {σ : Renaming} (h : ρ.EqOn σ s) {c : ClassDefinition} (hc : c.LivesIn s) :
    ρ.definition c = σ.definition c := by
  unfold definition
  rw [h.entries_eq fun p hp => (hc p hp).hasObject]

theorem Keeps.constructor_eq (h : ρ.Keeps s) {k : Constructor} (hk : k.LivesIn s) :
    ρ.constructor k = k := by
  rw [EqOn.constructor_eq h hk, constructor_refl]

theorem Keeps.definition_eq (h : ρ.Keeps s) {c : ClassDefinition} (hc : c.LivesIn s) :
    ρ.definition c = c := by
  rw [EqOn.definition_eq h hc, definition_refl]

/-- Maps that stand side by side under the renaming are the same under it. -/
theorem eq_entries_of_beside {κ : Type} {m m' : Assoc κ Value} (h : Assoc.Beside (fun _ => ρ.Renames) m m') :
    m' = ρ.entries m := by
  induction h with
  | nil => rfl
  | @cons p q rest others first below ih =>
    obtain ⟨k, v⟩ := p
    obtain ⟨k', v'⟩ := q
    obtain ⟨rfl, rfl⟩ : k = k' ∧ v' = ρ.value v := first
    rw [ih]
    rfl

theorem eq_definition {c c' : ClassDefinition} (h : ClassDefinition.SameButShared ρ.Renames c c') :
    c' = ρ.definition c := by
  rw [h.1, eq_entries_of_beside h.2]
  rfl

theorem eq_constructor {k k' : Constructor}
    (h : Constructor.Corresponds (fun i i' => i' = ρ.routine i) (fun h h' => h' = ρ.handle h) k k') :
    k' = ρ.constructor k := by
  cases h with
  | compiled hid hh =>
    subst hid hh
    rfl
  | abstract hid =>
    subst hid
    rfl

theorem entries_ofList {κ : Type} [DecidableEq κ] (pairs : List (κ × Value)) :
    ρ.entries (Assoc.ofList pairs) = Assoc.ofList (ρ.entries pairs) := by
  have hfold : ∀ m : Assoc κ Value,
      ρ.entries (pairs.foldl (fun m p => Assoc.insert m p.1 p.2) m)
        = (ρ.entries pairs).foldl (fun m p => Assoc.insert m p.1 p.2) (ρ.entries m) := by
    induction pairs with
    | nil => exact fun m => rfl
    | cons p rest ih =>
      intro m
      rw [List.foldl_cons, ih, entries_insert]
      rfl
  exact hfold []

/-- The slots of a class hold functions and patterns, which are not renamed. -/
theorem entries_slots {path : String} {t : ReferenceTable} {ms : Skeleton} {ps : Constructor.Parts}
    (hms : ∀ p ∈ ms, p.2.AllLeaves (MemberDescriptor.PointsInto t))
    (h : Constructor.parts path t ms = .ok ps) : ρ.entries ps.slots = ps.slots := by
  have hleaves : ps.slots.map (fun q => (q.1, ρ.value q.2)) = ps.slots.map id :=
    List.map_congr_left fun q hq => by rw [value_of_leaf (Constructor.kind_slots hms h q hq)]; rfl
  rw [entries, hleaves, List.map_id]

/-- The prototypes of two classes are the same under the renaming when the classes are. -/
theorem slotsOf_prototypeOf {c : ClassDefinition} {slots : List (MemberKey × Value)}
    (hslots : ρ.entries slots = slots) :
    ρ.slotsOf (Constructor.prototypeOf c slots) = Constructor.prototypeOf (ρ.definition c) slots := by
  have hall : ρ.entries (slots ++ c.shared.map fun p => (MemberKey.parse p.1, p.2))
      = slots ++ (ρ.entries c.shared).map fun p => (MemberKey.parse p.1, p.2) := by
    rw [entries, List.map_append, ← entries, hslots, entries, List.map_map, List.map_map]
    rfl
  unfold slotsOf Constructor.prototypeOf
  dsimp only
  rw [entries_ofList, hall]
  rfl

end Renaming

/-! ### Reading and handing down -/

/-- What was there reads the same in the store that follows. -/
theorem Store.Follows.sameBelow (h : Store.Follows ρ s s') (hρ : ρ.Keeps s₀) (hs₀ : s₀.WellFormed)
    (hs : s₀.Within s) {v : Value} (hv : s₀.Has v) : s.SameBelow s' v := by
  intro x hx
  have hhas : s₀.Has x := ((hs.sameBelow hs₀ hv).below_of hx).has hs₀ hv
  constructor
  · have hentries : ∀ p ∈ s.entries x, s₀.HasObject p.2 := by
      cases x with
      | object o =>
        intro p hp
        rw [show s.entries (.object o) = s₀.object o from hs.object_eq hhas] at hp
        exact (hs₀.has_property o p hp).hasObject
      | _ => exact fun p hp => nomatch hp
    have hfollows := h.entries_eq x
    rw [hρ.value_eq hhas.hasObject, hρ.entries_eq hentries] at hfollows
    exact hfollows
  · cases x with
    | array a => exact congrArg (·.get a) h.arrays_eq
    | _ => rfl

/-- What is handed down is the same under the renaming: the parent's own value or the body's, which both
were there, or a copy that is made in both. -/
theorem SharedMembers.matches_inheritOne {admitted : ClassError → Prop} {path name : String}
    {inherited : Value} {declared? : Option Value} {w w' : World} (hρ : ρ.Keeps s₀) (hs₀ : s₀.WellFormed)
    (hinherited : s₀.Has inherited) (hshallow : declared?.isSome = true → s₀.Shallow inherited)
    (hdeclared : ∀ v, declared? = some v → s₀.Has v) (hw : s₀.Grows w.store)
    (h : Store.Follows ρ w.store w'.store) :
    Matches admitted (fun u u' => s₀.Grows u ∧ Store.Follows ρ u u') ρ.Renames
      (inheritOne path name inherited declared?) w (inheritOne path name inherited declared?) w' := by
  cases declared? with
  | none => exact matches_pure ⟨hw, h⟩ (hρ.value_eq hinherited.hasObject).symm
  | some declared =>
    have hsource := hdeclared declared rfl
    have hfollowed := hshallow rfl
    cases inherited with
    | array a =>
      cases declared with
      | array b => exact matches_pure ⟨hw, h⟩ (hρ.value_eq hsource.hasObject).symm
      | _ => exact matches_throw ⟨hw, h⟩ _
    | object target =>
      cases declared with
      | object source =>
        -- the one case in which something is made: a copy over which the body's object is laid
        obtain ⟨hlaid, hcopy⟩ := h.overlay_deepCopy hs₀ hinherited hfollowed hsource hw.continues
        rw [hρ.value_eq hinherited.hasObject, hρ.value_eq hsource.hasObject] at hlaid
        rw [hρ.value_eq hinherited.hasObject] at hcopy
        intro _
        exact ⟨⟨Store.grows_overlay_deepCopy hs₀ hsource hinherited hfollowed hw, hlaid⟩, .ok hcopy⟩
      | _ => exact matches_throw ⟨hw, h⟩ _
    | _ => exact matches_throw ⟨hw, h⟩ _

theorem SharedMembers.grows_inheritOne {path name : String} {inherited : Value}
    {declared? : Option Value} (hs₀ : s₀.WellFormed)
    (hinherited : declared?.isSome = true → s₀.Has inherited ∧ s₀.Shallow inherited)
    (hdeclared : ∀ v, declared? = some v → s₀.Has v) :
    (inheritOne path name inherited declared?).Preserves
      fun s => s₀.Grows s ∧ s.prototypes = s₀.prototypes := by
  refine preserves_inheritOne_of ?_
  rintro target source s rfl rfl ⟨hs, hprototypes⟩
  obtain ⟨htarget, hshallow⟩ := hinherited rfl
  have honly := Store.onlyObjects_overlay_deepCopy target source s
  exact ⟨Store.grows_overlay_deepCopy hs₀ (hdeclared _ rfl) htarget hshallow hs,
    (congrArg Store.prototypes honly).trans hprototypes⟩

/-! ### What has been made is there -/

theorem HandedDown.has {inherited v : Value} {declared? : Option Value}
    (h : HandedDown s s' inherited declared? v) (hs : s.Within s') (hinherited : s.Has inherited)
    (hdeclared : ∀ d, declared? = some d → s.Has d) : s'.Has v := by
  cases h with
  | same => exact hs.has hinherited
  | array a b => exact hs.has (hdeclared _ rfl)
  | object o p isNew has => exact has

/-- What a class shares is there once its shared members have been composed, when the values of the body are
there and what the parent shares. -/
theorem ClassDefinition.Composition.livesIn {config : Config} {classes : Assoc String ClassDefinition}
    {path : String} {body : ClassBody} {w : World} (k : Composition config classes path body w)
    (hw : w.store.Within k.world.store) (hbody : ∀ p ∈ body.entries, w.store.Has p.2)
    (hparent : ∀ parent, k.parent? = some parent → parent.LivesIn w.store) :
    k.definition.LivesIn k.world.store := by
  have hentry : ∀ {name v}, body.get? name = some v → w.store.Has v :=
    fun hv => hbody _ (Assoc.mem_of_get? hv)
  obtain ⟨inherited, hdown, hdeclare⟩ := exists_inherited_of_composeShared k.shared_composed
  intro p hp
  rcases SharedMembers.mem_of_declare hdeclare hp with hinherited | hv
  · obtain ⟨q, hq, hone⟩ := SharedMembers.exists_of_handedDown hdown hinherited
    refine hone.has hw ?_ fun d hd => hentry hd
    rcases hfound : k.parent? with _ | parent
    · rw [hfound] at hq
      cases hq
    · rw [hfound] at hq
      exact hparent parent hfound q hq
  · exact hw.has (hentry hv)

/-- A constructor that has just been built has been given an identity, and its prototype is there. -/
theorem Constructor.livesIn_of_build {config : Config} {c : ClassDefinition} {w w' : World}
    {k : Constructor} (h : (build config c).run w = (.ok k, w')) : k.LivesIn w'.store := by
  rcases hc : c.isAbstract with _ | _
  · obtain ⟨ps, init?, hook?, -, -, -, rfl, hstore⟩ := build_eq_ok hc h
    rw [hstore]
    refine ⟨Nat.lt_succ_self w.store.routines, ?_⟩
    rintro handle hhandle
    cases hhandle
    exact Pool.has_alloc_self w.store.prototypes (prototypeOf c ps.slots)
  · rw [build_of_abstract hc] at h
    cases h
    exact ⟨Nat.lt_succ_self w.store.routines, fun handle hhandle => nomatch hhandle⟩

end ClassComposition
