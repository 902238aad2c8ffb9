import ClassComposition.Proofs.Class.Prototype
import ClassComposition.Proofs.Member.Data
import ClassComposition.Proofs.Method.Quiet

/-!
# Methods of materialized instances

An instance that has only the fields it was made with reads every method of its class: a field comes from
a member that is no method, and its name is read as the key of that member, so it hides no method.

## Main definitions

* `Constructor.fieldNames` — the names of the fields that a constructor makes.
* `Constructor.Materialized` — an instance of a constructor with no other fields.

## Main results

* `Compiled.dataReadBack` — the keys of all members that are no methods are read back from their texts.
* `Registry.Reachable.callee_of_resolves` — what calling a method on such an instance runs.
* `Constructor.materialized_materialize` — a new instance has no other fields.
* `Constructor.run_construct_of_init` — making an instance runs the initializer on a new one.
-/

namespace ClassComposition

open MemberDescriptor

/-! ### Members of compiled classes -/

theorem dataReadBack_mergeInvariant :
    MergeInvariant Skeleton.SameCallable Skeleton.DataReadBack where
  member := Skeleton.sameCallable_mergeMember
  merge := Skeleton.dataReadBack_rootMerge
  shift := Skeleton.dataReadBack_shiftMembers
  classified := Skeleton.dataReadBack_of_classified

namespace Compiled

variable {config : Config} {classes : Assoc String ClassDefinition} {path : String} {c : ClassDefinition}

/-- The keys of all members that are no methods are read back from their texts. -/
theorem dataReadBack (h : Compiled config classes) (hc : Assoc.get? classes path = some c) :
    Skeleton.DataReadBack c.skeleton := dataReadBack_mergeInvariant.of_compiled h hc

end Compiled

/-! ### Fields -/

namespace Initializer

mutual

theorem addsContainers_run : ∀ (i : Initializer) (s : Store), s.AddsContainers (i.run s).2
  | .keep _, s => .refl s
  | .array items, s => s.addsContainers_newArray items
  | .copy source, s => by
    cases source with
    | array a => exact s.addsContainers_newArray _
    | object o => exact s.addsContainers_newObject _
    | _ => exact .refl s
  | .object properties, s => by
    rw [Initializer.run]
    exact (addsContainers_runAll properties s).trans (Store.addsContainers_newObject _ _)
termination_by structural i => i

theorem addsContainers_runAll : ∀ (fields : List (String × Initializer)) (s : Store),
    s.AddsContainers (runAll fields s).2
  | [], s => .refl s
  | (_, i) :: rest, s => by
    rw [runAll]
    exact (addsContainers_run i s).trans (addsContainers_runAll rest (i.run s).2)
termination_by structural fields => fields

end

theorem keys_runAll (fields : List (String × Initializer)) (s : Store) :
    Assoc.keys (runAll fields s).1 = fields.map Prod.fst := by
  induction fields generalizing s with
  | nil => rfl
  | cons field rest ih =>
    obtain ⟨name, i⟩ := field
    exact congrArg (name :: ·) (ih (i.run s).2)

end Initializer

namespace Constructor

/-- The names of the fields that a constructor makes. -/
def fieldNames (k : Constructor) : List String :=
  match k.routine with
  | .compiled _ fields _ _ => fields.map Prod.fst
  | _ => []

/-- An instance of the constructor that owns no other fields than those it was made with. -/
structure Materialized (k : Constructor) (s : Store) (i : Handle .inst) : Prop where
  prototype : k.prototype? = some (s.instanceAt i).prototype
  fields : ∀ name, s.ownsField i name = true → name ∈ k.fieldNames

/-- A new instance owns the fields that it was made with. -/
theorem materialized_materialize {k : Constructor} {h : Handle .prototype}
    {fields : List (String × Initializer)} {init? hook? : Option String}
    (hk : k.routine = .compiled h fields init? hook?) (s : Store) :
    k.Materialized (materialize h fields s).2 (materialize h fields s).1 := by
  have hinstance : (materialize h fields s).2.instanceAt (materialize h fields s).1
      = ⟨h, Assoc.ofList (Initializer.runAll fields s).1⟩ := Pool.get_alloc_self _ _
  refine ⟨?_, ?_⟩
  · rw [hinstance, prototype?, hk]
  · intro name hname
    rw [Store.ownsField, hinstance, Assoc.contains_iff] at hname
    obtain ⟨p, hp, rfl⟩ := List.mem_map.mp hname
    have hmade := Assoc.mem_keys_of_mem (Assoc.mem_of_mem_ofList hp)
    rw [Initializer.keys_runAll] at hmade
    rw [fieldNames, hk]
    exact hmade

/-- A new instance adds to the containers of the store, and to its instances. -/
theorem materialize_frame (h : Handle .prototype) (fields : List (String × Initializer)) (s : Store) :
    (materialize h fields s).2.functions = s.functions ∧
      (materialize h fields s).2.prototypes = s.prototypes ∧
      s.arrays.Within (materialize h fields s).2.arrays := by
  have hadds := Initializer.addsContainers_runAll fields s
  have hrest : (Initializer.runAll fields s).2 = _ := hadds.rest_eq
  have hfunctions := congrArg Store.functions hrest
  have hprototypes := congrArg Store.prototypes hrest
  exact ⟨hfunctions, hprototypes, hadds.arrays⟩

/-- The initializer of a class that has a method of its name is this method. -/
theorem initOf_of_resolves {config : Config} {c : ClassDefinition} {f : Handle .function}
    (h : c.Resolves (.parse config.initMember) f) : initOf config c = .ok (some config.initMember) := by
  obtain ⟨i, hi, -⟩ := h
  rw [initOf, hi]
  rfl

/-- A class without a member of the hook's name has no hook. -/
theorem hookOf_of_absent {config : Config} {c : ClassDefinition}
    (h : Assoc.get? c.skeleton (.parse config.afterInitMember) = none) : hookOf config c = .ok none := by
  rw [hookOf, h]

/-- Without a hook, making an instance ends with the initializer. -/
theorem run_construct_of_init {k : Constructor} {h : Handle .prototype}
    {fields : List (String × Initializer)} {name : String}
    (hk : k.routine = .compiled h fields (some name) none) {depth : Nat} {args : List Value}
    {w w' : World} {v : Value}
    (hrun : (callMember depth (materialize h fields w.store).1 name args).run
      { w with store := (materialize h fields w.store).2 } = (.ok v, w')) :
    (k.construct depth args).run w = (.ok (materialize h fields w.store).1, w') := by
  have hinit : (callOptional depth (materialize h fields w.store).1 (some name) args).run
      { w with store := (materialize h fields w.store).2 } = (.ok (), w') := by
    rw [callOptional, Action.run_bind, hrun]
    rfl
  rw [run_construct_of_compiled hk, Action.run_bind, hinit]
  rfl

/-- A field comes from a member that is neither a method nor a pattern, and has its name. -/
theorem exists_mem_of_field {path : String} {t : ReferenceTable} {ms : Skeleton} {ps : Parts}
    (h : parts path t ms = .ok ps) {name : String} (hname : name ∈ ps.fields.map Prod.fst) :
    ∃ p ∈ ms, p.2.slotIndex? = none ∧ p.1.display = name := by
  induction ms generalizing ps with
  | nil =>
    cases h
    cases hname
  | cons p rest ih =>
    obtain ⟨key, d⟩ := p
    obtain ⟨others, hothers, ⟨hslot, field, -, rfl⟩ | ⟨i, v, -, -, rfl⟩⟩ := parts_cons_cases h
    · rcases List.mem_cons.mp hname with rfl | hlater
      · exact ⟨(key, d), List.mem_cons_self, hslot, rfl⟩
      · obtain ⟨q, hq, hfield⟩ := ih hothers hlater
        exact ⟨q, List.mem_cons_of_mem _ hq, hfield⟩
    · obtain ⟨q, hq, hfield⟩ := ih hothers hname
      exact ⟨q, List.mem_cons_of_mem _ hq, hfield⟩

/-- No field has a name that is read as the key of a method. -/
theorem notMem_fields_of_resolves {c : ClassDefinition} (hc : c.ReferencesSound)
    (hdata : Skeleton.DataReadBack c.skeleton) {ps : Parts}
    (hps : parts c.path c.references c.skeleton = .ok ps) {name : String} {f : Handle .function}
    (hresolves : c.Resolves (.parse name) f) : name ∉ ps.fields.map Prod.fst := by
  intro hname
  obtain ⟨⟨key, d⟩, hmem, hslot, rfl⟩ := exists_mem_of_field hps hname
  have hcallable : d.isCallable = false := by
    cases d with
    | function i => cases hslot
    | _ => rfl
  -- the name is read as the key of the field's own member, which is no method
  have hkey : MemberKey.parse key.display = key := hdata (key, d) hmem hcallable
  obtain ⟨i, hi, -⟩ := hresolves
  rw [hkey, Assoc.get?_of_mem hc.1 hmem] at hi
  cases hi
  cases hslot

end Constructor

/-! ### Calling methods -/

namespace Registry

/-- The constructor of a class that is not abstract makes the fields that its members give, and calls the
initializer and the hook that it has. -/
theorem Reachable.exists_routine {config : Config} {r : Registry} (hr : r.Reachable config)
    {path : String} {c : ClassDefinition} {k : Constructor} (hc : r.definition? path = some c)
    (hconcrete : c.isAbstract = false) (hk : r.constructor? path none = some k) :
    ∃ h ps init? hook?, Constructor.parts c.path c.references c.skeleton = .ok ps ∧
      Constructor.initOf config c = .ok init? ∧ Constructor.hookOf config c = .ok hook? ∧
      k.routine = .compiled h ps.fields init? hook? := by
  obtain ⟨built, w₁, w₂, hget, hbuild⟩ := hr.constructor_built hc
  simp only [constructor?, hget] at hk
  cases hk
  obtain ⟨ps, init?, hook?, hparts, hinit, hhook, hbuilt, -⟩ := Constructor.build_eq_ok hconcrete hbuild
  exact ⟨_, ps, init?, hook?, hparts, hinit, hhook, congrArg Constructor.routine hbuilt⟩

/-- Calling a name that the class resolves to a function runs this function, on an instance that owns no
other fields than those it was made with. -/
theorem Reachable.callee_of_resolves {config : Config} {r : Registry} (hr : r.Reachable config)
    {path : String} {c : ClassDefinition} {k : Constructor} (hc : r.definition? path = some c)
    (hconcrete : c.isAbstract = false) (hk : r.constructor? path none = some k) {s : Store}
    (hunpatched : k.Unpatched c s) {i : Handle .inst} (hi : k.Materialized s i) {name : String}
    {f : Handle .function} (hresolves : c.Resolves (.parse name) f) : s.callee i name = .ok f := by
  obtain ⟨h, ps, init?, hook?, hparts, -, -, hroutine⟩ := hr.exists_routine hc hconcrete hk
  have hsound := hr.compiled.referencesSound hc
  -- fields come first in a look-up, but none of them has a name that is read as a key of a method
  have hunowned : Assoc.get? (s.instanceAt i).fields name = none := by
    rw [Assoc.get?_eq_none_iff, ← Assoc.contains_iff]
    intro howned
    have hfield := hi.fields name howned
    rw [Constructor.fieldNames, hroutine] at hfield
    exact Constructor.notMem_fields_of_resolves hsound (hr.compiled.dataReadBack hc) hparts hresolves
      hfield
  have hslot := (Constructor.slot?_prototypeOf hsound (hr.compiled.shared_isContainer hc)
    (hr.compiled.shared_visible hc) hparts).mpr hresolves
  have hprototype : s.prototypeOf i = Constructor.prototypeOf c ps.slots :=
    hunpatched _ ps hi.prototype hparts
  have hmember : s.member? i name = some (.function f) := by
    rw [Store.member?, hunowned]
    dsimp only
    rw [hprototype]
    exact hslot
  rw [Store.callee, hmember]

end Registry

end ClassComposition
