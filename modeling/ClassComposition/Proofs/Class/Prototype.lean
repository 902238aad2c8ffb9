import ClassComposition.Proofs.Class.References
import ClassComposition.Proofs.Class.Shared
import ClassComposition.Proofs.Method.Frame

/-!
# The prototype behind an instance

The prototype of a class holds a function under a key exactly when the class resolves the key to it.  As
long as no slot is written, an instance that has just been made reads its members from that prototype,
whatever the methods did that ran while it was made.

## Main definitions

* `ClassDefinition.Resolves` — a key stands for a function in a class.
* `Constructor.Unpatched`, `Constructor.SlotUnpatched` — the prototype, or one slot of it, is still as it
  was built.

## Main results

* `Constructor.slot?_prototypeOf` — the functions in a new prototype.
* `Constructor.unpatched_of_build` — a new prototype is not patched.
* `Registry.unpatched_of_define` — nor is the class of a definition that has just succeeded.
* `Constructor.prototypeOf_of_construct` — an instance that has been made reads the class's prototype.
* `Registry.Reachable.member?_of_construct` — the functions that a new instance reads from it.
-/

namespace ClassComposition

open MemberDescriptor

/-- A key stands for a function in a class: its descriptor points to the function. -/
def ClassDefinition.Resolves (c : ClassDefinition) (key : MemberKey) (f : Handle .function) : Prop :=
  ∃ i, Assoc.get? c.skeleton key = some (.function i) ∧ c.references.get? i = some (.function f)

/-- A key stands for at most one function. -/
theorem ClassDefinition.Resolves.unique {c : ClassDefinition} {key : MemberKey}
    {f g : Handle .function} (hf : c.Resolves key f) (hg : c.Resolves key g) : f = g := by
  obtain ⟨i, hi, hfi⟩ := hf
  obtain ⟨j, hj, hgj⟩ := hg
  rw [hi] at hj
  cases hj
  rw [hfi] at hgj
  cases hgj
  rfl

/-- A method of a class whose references are sound stands for a function. -/
theorem ClassDefinition.ReferencesSound.exists_resolves {c : ClassDefinition}
    (hc : c.ReferencesSound) {key : MemberKey} {d : MemberDescriptor}
    (hd : Assoc.get? c.skeleton key = some d) (hcallable : d.isCallable = true) :
    ∃ i f, d = .function i ∧ c.references.get? i = some (.function f) := by
  cases d with
  | function i =>
    obtain ⟨f, hf⟩ := Skeleton.allLeaves_of_get? hc hd
    exact ⟨i, f, rfl, hf⟩
  | _ => cases hcallable

namespace Constructor

/-! ### Slots of a new prototype -/

/-- The slots of a new prototype hold a function exactly where the class stands for it: the slots come
from the members, and the shared members under other keys are no functions. -/
theorem slot?_prototypeOf {c : ClassDefinition} (hc : c.ReferencesSound)
    (hshared : ∀ q ∈ c.shared, q.2.IsContainer)
    (hvisible : ∀ q ∈ c.shared, MemberKey.parse q.1 ∉ Assoc.keys c.skeleton) {ps : Parts}
    (hps : parts c.path c.references c.skeleton = .ok ps) {key : MemberKey} {f : Handle .function} :
    (prototypeOf c ps.slots).slot? key = some (.function f) ↔ c.Resolves key f := by
  have hkeys := keys_slots_sublist hps
  have hslots : Assoc.ofList ps.slots = ps.slots := Assoc.ofList_of_nodup (hc.1.sublist hkeys)
  have hget := get?_slots hc.1 hps key
  constructor
  · intro hslot
    have hmem := Assoc.mem_of_mem_ofList (Assoc.mem_of_get? hslot)
    rcases List.mem_append.mp hmem with hmember | hextra
    · rw [Assoc.get?_of_mem (hc.1.sublist hkeys) hmember] at hget
      rcases hd : Assoc.get? c.skeleton key with _ | d
      · rw [hd] at hget
        cases hget
      rw [hd, Option.bind_some] at hget
      have hpoints := Skeleton.allLeaves_of_get? hc hd
      cases d with
      | function i => exact ⟨i, hd, hget.symm⟩
      | pattern i =>
        -- the entry of a pattern is no function
        obtain ⟨p, hp⟩ := hpoints
        have hentry : some (Value.function f) = some (.pattern p) := hget.trans hp
        cases hentry
      | _ => cases hget
    · obtain ⟨q, hq, heq⟩ := List.mem_map.mp hextra
      have hvalue : q.2 = .function f := congrArg Prod.snd heq
      exact absurd (hvalue ▸ hshared q hq) (Value.not_isContainer_function f)
  · rintro ⟨i, hi, hf⟩
    have hkey : key ∈ Assoc.keys c.skeleton := Assoc.mem_keys_of_mem (Assoc.mem_of_get? hi)
    -- the shared members are written last, but not under this key
    have hextra : key ∉ Assoc.keys (c.shared.map fun p => (MemberKey.parse p.1, p.2)) := by
      intro hmem
      obtain ⟨p, hp, rfl⟩ := List.mem_map.mp hmem
      obtain ⟨q, hq, rfl⟩ := List.mem_map.mp hp
      exact hvisible q hq hkey
    rw [Prototype.slot?, prototypeOf, Assoc.ofList, List.foldl_append,
      Assoc.get?_foldl_insert_of_notMem _ hextra]
    rw [hi, Option.bind_some] at hget
    have hentry : Assoc.get? ps.slots key = some (.function f) := hget.trans hf
    rw [← hentry]
    exact congrArg (Assoc.get? · key) hslots

/-! ### Prototypes that are as they were built -/

/-- No slot of the prototype has been written since the constructor was built from the class. -/
def Unpatched (k : Constructor) (c : ClassDefinition) (s : Store) : Prop :=
  ∀ h ps, k.prototype? = some h → parts c.path c.references c.skeleton = .ok ps →
    s.prototype h = prototypeOf c ps.slots

/-- The slot under one key holds what it held when the constructor was built from the class, whatever has
been written to the others. -/
def SlotUnpatched (k : Constructor) (c : ClassDefinition) (s : Store) (key : MemberKey) : Prop :=
  ∀ h ps, k.prototype? = some h → parts c.path c.references c.skeleton = .ok ps →
    (s.prototype h).slot? key = (prototypeOf c ps.slots).slot? key

theorem Unpatched.slot {k : Constructor} {c : ClassDefinition} {s : Store} (h : k.Unpatched c s)
    (key : MemberKey) : k.SlotUnpatched c s key := by
  intro handle ps hhandle hparts
  rw [h handle ps hhandle hparts]

theorem Unpatched.congr {k : Constructor} {c : ClassDefinition} {s t : Store} (h : k.Unpatched c s)
    (hst : t.prototypes = s.prototypes) : k.Unpatched c t := by
  intro handle ps hhandle hparts
  rw [← h handle ps hhandle hparts, Store.prototype, Store.prototype, hst]

/-- A prototype that has just been built is not patched. -/
theorem unpatched_of_build {config : Config} {c : ClassDefinition} {w w' : World} {k : Constructor}
    (hc : c.isAbstract = false) (h : (build config c).run w = (.ok k, w')) :
    k.Unpatched c w'.store := by
  obtain ⟨ps, init?, hook?, hparts, -, -, rfl, hstore⟩ := build_eq_ok hc h
  intro handle ps' hhandle hparts'
  cases hhandle
  rw [hparts] at hparts'
  cases hparts'
  rw [hstore]
  exact Pool.get_alloc_self w.store.prototypes (prototypeOf c ps.slots)

/-! ### New instances -/

mutual

theorem prototypes_run : ∀ (i : Initializer) (s : Store), (i.run s).2.prototypes = s.prototypes
  | .keep _, _ => rfl
  | .array _, _ => rfl
  | .copy source, _ => by cases source <;> rfl
  | .object properties, s => by
    rw [Initializer.run]
    exact prototypes_runAll properties s
termination_by structural i => i

theorem prototypes_runAll : ∀ (fields : List (String × Initializer)) (s : Store),
    (Initializer.runAll fields s).2.prototypes = s.prototypes
  | [], _ => rfl
  | (_, i) :: rest, s => by
    rw [Initializer.runAll]
    exact (prototypes_runAll rest (i.run s).2).trans (prototypes_run i s)
termination_by structural fields => fields

end

theorem prototypeOf_materialize (h : Handle .prototype) (fields : List (String × Initializer))
    (s : Store) :
    (materialize h fields s).2.prototypeOf (materialize h fields s).1 = s.prototype h := by
  have hinstance := Pool.get_alloc_self (Initializer.runAll fields s).2.instances
    ⟨h, Assoc.ofList (Initializer.runAll fields s).1⟩
  have hprototypes := prototypes_runAll fields s
  show (Initializer.runAll fields s).2.prototypes.get _ = s.prototypes.get h
  rw [hprototypes]
  exact congrArg (fun i : Instance => s.prototypes.get i.prototype) hinstance

theorem keeps_callOptional {Q : Store → Store → Prop} (hQ : MethodFrame Q) (depth : Nat)
    (this : Handle .inst) (name? : Option String) (args : List Value) :
    (callOptional depth this name? args).Keeps Q := by
  cases name? with
  | none => exact hQ.keeps_pure ()
  | some name =>
    exact hQ.keeps_bind (hQ.keeps_callMember depth this name args) fun _ => hQ.keeps_pure ()

/-- Making an instance keeps what methods keep, if a new instance does. -/
theorem keeps_construct {Q : Store → Store → Prop} (hQ : MethodFrame Q)
    (hnew : ∀ h fields s, Q s (materialize h fields s).2) (depth : Nat) (k : Constructor)
    (args : List Value) : (construct depth k args).Keeps Q := by
  unfold construct
  rcases k.routine with ⟨h, fields, init?, hook?⟩ | _ | ⟨h, code⟩
  · refine hQ.keeps_bind (MethodFrame.keeps_onStore (hnew h fields)) fun this => ?_
    refine hQ.keeps_bind (keeps_callOptional hQ depth this init? args) fun _ => ?_
    refine hQ.keeps_bind (keeps_callOptional hQ depth this hook? []) fun _ => ?_
    exact hQ.keeps_pure this
  · exact hQ.keeps_throw _
  · refine hQ.keeps_bind (MethodFrame.keeps_onStore (hnew h [])) fun this => ?_
    refine hQ.keeps_bind (hQ.keeps_runBody (hQ.keeps_invoke depth) code) fun _ => ?_
    exact hQ.keeps_pure this

/-- The routine of a compiled class makes the instance first, and calls the initializer and the hook in the
world that has it. -/
theorem run_construct_of_compiled {k : Constructor} {h : Handle .prototype}
    {fields : List (String × Initializer)} {init? hook? : Option String}
    (hk : k.routine = .compiled h fields init? hook?) (depth : Nat) (args : List Value) (w : World) :
    (construct depth k args).run w =
      (do
        callOptional depth (materialize h fields w.store).1 init? args
        callOptional depth (materialize h fields w.store).1 hook? []
        return (materialize h fields w.store).1 : Action (Handle .inst)).run
          { w with store := (materialize h fields w.store).2 } := by
  unfold construct
  rw [hk]
  dsimp only
  rw [Action.run_bind, Action.run_onStore]

/-- An instance that has been made reads the prototype of its class as it was before, whatever the
initializer and the hook did. -/
theorem prototypeOf_of_construct {depth : Nat} {k : Constructor} {args : List Value} {w w' : World}
    {i : Handle .inst} {h : Handle .prototype} (hk : k.prototype? = some h)
    (hrun : (construct depth k args).run w = (.ok i, w')) :
    w'.store.prototypeOf i = w.store.prototype h := by
  rcases hroutine : k.routine with ⟨p, fields, init?, hook?⟩ | _ | ⟨p, code⟩
  · rw [prototype?, hroutine] at hk
    cases hk
    rw [run_construct_of_compiled hroutine, Action.run_bind_eq_ok] at hrun
    obtain ⟨_, w₂, hinit, hrun⟩ := hrun
    rw [Action.run_bind_eq_ok] at hrun
    obtain ⟨_, w₃, hhook, hrun⟩ := hrun
    cases hrun
    -- the instance is made first, and what the initializer and the hook run leaves its prototype
    have hfirst := keeps_callOptional methodFrame_samePrototypes depth
      (materialize h fields w.store).1 init? args
      { w with store := (materialize h fields w.store).2 }
    have hsecond := keeps_callOptional methodFrame_samePrototypes depth
      (materialize h fields w.store).1 hook? [] w₂
    rw [hinit] at hfirst
    rw [hhook] at hsecond
    rw [hsecond.prototypeOf, hfirst.prototypeOf]
    exact prototypeOf_materialize h fields w.store
  · rw [prototype?, hroutine] at hk
    cases hk
  · rw [prototype?, hroutine] at hk
    cases hk

end Constructor

/-! ### Compiled classes -/

/-- No instance member of a compiled class has the name of a shared one. -/
theorem Compiled.shared_visible {config : Config} {classes : Assoc String ClassDefinition}
    (h : Compiled config classes) {p : String} {c : ClassDefinition}
    (hc : Assoc.get? classes p = some c) :
    ∀ q ∈ c.shared, MemberKey.parse q.1 ∉ Assoc.keys c.skeleton := by
  obtain ⟨before, body, w, k, -, rfl, -⟩ := h.exists_composition hc
  exact SharedMembers.notMem_of_checkVisible k.visible

namespace Registry

/-- A class that has just been defined is not patched. -/
theorem unpatched_of_define {r after : Registry} {path : String} {body : ClassBody} {w w' : World}
    {k : Constructor} {c : ClassDefinition} (h : (r.define path body).run w = (.ok (k, after), w'))
    (hc : after.definition? path = some c) (hconcrete : c.isAbstract = false) :
    k.Unpatched c w'.store := by
  obtain ⟨composition, w₁, w₂, -, hbuild, hstore, hfresh, -, hclasses, -⟩ := composition_of_define h
  rw [definition?, hclasses, Assoc.get?_append, hfresh, Option.none_or, Assoc.get?, if_pos rfl] at hc
  cases hc
  rw [hstore]
  exact Constructor.unpatched_of_build hconcrete hbuild

/-- The functions that a new instance of a class reads under a name of which it owns no field are those
that the class resolves the name to. -/
theorem Reachable.member?_of_construct {config : Config} {r : Registry} (hr : r.Reachable config)
    {path : String} {c : ClassDefinition} {k : Constructor} (hc : r.definition? path = some c)
    (hconcrete : c.isAbstract = false) (hk : r.constructor? path none = some k) {depth : Nat}
    {args : List Value} {w w' : World} {i : Handle .inst} (hunpatched : k.Unpatched c w.store)
    (hmade : (k.construct depth args).run w = (.ok i, w')) {name : String}
    (hfield : w'.store.ownsField i name = false) {f : Handle .function} :
    w'.store.member? i name = some (.function f) ↔ c.Resolves (MemberKey.parse name) f := by
  -- the constructor of the class is the one that was built from it, so it has a prototype
  obtain ⟨built, w₁, w₂, hget, hbuild⟩ := hr.constructor_built hc
  simp only [constructor?, hget] at hk
  cases hk
  obtain ⟨ps, init?, hook?, hparts, -, -, hbuilt, -⟩ := Constructor.build_eq_ok hconcrete hbuild
  have hprototype : k.prototype? = some (w₁.store.newPrototype
      (Constructor.prototypeOf c ps.slots)).1 := by
    rw [hbuilt]
    rfl
  have hown : Assoc.get? (w'.store.instanceAt i).fields name = none := by
    rw [Store.ownsField, Assoc.contains, Option.isSome_eq_false_iff, Option.isNone_iff_eq_none]
      at hfield
    exact hfield
  rw [Store.member?, hown]
  dsimp only
  rw [Constructor.prototypeOf_of_construct hprototype hmade, hunpatched _ ps hprototype hparts]
  exact Constructor.slot?_prototypeOf (hr.compiled.referencesSound hc)
    (hr.compiled.shared_isContainer hc) (hr.compiled.shared_visible hc) hparts

end Registry

end ClassComposition
