import ClassComposition.Proofs.Class.Methods

/-!
# Calling kept implementations

A class that overrides a method of its parent keeps the parent's under an alias made of the parent's name
and the method's.  A call of the kept implementation writes that alias as text, and the instance reads the
text again to find the member.  The two keys are the same when the name of the parent has no separator in
it and the name of the method is not empty, and a class may well be defined under another name: then
what an instance finds is left to whatever the class has under the key that was read.

## Main results

* `Action.run_callKept` — a call of a kept implementation invokes what is read under the alias.
* `Registry.Reachable.callKept_reaches_iff` — when a new instance calls the parent's implementation.
-/

namespace ClassComposition

/-! ### Calls -/

/-- Calling a kept implementation invokes the function that is read under the alias. -/
theorem Action.run_callKept {depth : Nat} {i : Handle .inst} {owner method : String}
    {args : List Value} {w : World} {f : Handle .function}
    (h : w.store.member? i (MemberKey.aliased owner method).display = some (.function f)) :
    (callKept depth i owner method args).run w = (invoke depth f i args).run w := by
  have hcallee : w.store.callee i (MemberKey.aliased owner method).display = .ok f := by
    rw [Store.callee, h]
  exact run_callMemberWith hcallee

/-- Where nothing is read under the alias the call fails, and nothing is changed. -/
theorem Action.run_callKept_of_missing {depth : Nat} {i : Handle .inst} {owner method : String}
    {args : List Value} {w : World}
    (h : w.store.member? i (MemberKey.aliased owner method).display = none) :
    (callKept depth i owner method args).run w = (.error
      (.memberMissing (w.store.classPath i) (MemberKey.aliased owner method).display), w) := by
  have hcallee : w.store.callee i (MemberKey.aliased owner method).display = .error
      (.memberMissing (w.store.classPath i) (MemberKey.aliased owner method).display) := by
    rw [Store.callee, h]
  unfold callKept callKeptWith callMemberWith
  rw [run_bind, run_store]
  dsimp only
  rw [hcallee]
  rfl

namespace Registry

/-- A new instance of a class that overrides a method of its parent reads the parent's implementation
under the alias and calls it there exactly if the alias is read as it was written, which is so when the
parent's name is free of separators and the method's is not empty, or if the class has the same function
under what the alias is read as. -/
theorem Reachable.callKept_reaches_iff {config : Config} {r : Registry} (hr : r.Reachable config)
    {path parentPath : String} {c p : ClassDefinition} {k : Constructor}
    (hc : r.definition? path = some c) (hparent : c.parent? = some parentPath)
    (hp : r.definition? parentPath = some p) (hconcrete : c.isAbstract = false) {name : String}
    {g : Handle .function} (hdeclared : c.body.get? name = some (.function g))
    {d : MemberDescriptor} (hd : Assoc.get? p.skeleton (.parse name) = some d)
    (hcallable : d.isCallable = true) (hk : r.constructor? path none = some k) {depth : Nat}
    {args : List Value} {w w' : World} {i : Handle .inst} (hunpatched : k.Unpatched c w.store)
    (hmade : (k.construct depth args).run w = (.ok i, w'))
    (hfield : w'.store.ownsField i (MemberKey.aliased p.name name).display = false) :
    ∃ f, p.Resolves (.parse name) f ∧
      ((w'.store.member? i (MemberKey.aliased p.name name).display = some (.function f) ∧
          ∀ depth args,
            (callKept depth i p.name name args).run w' = (invoke depth f i args).run w') ↔
        ((MemberKey.separator ∉ p.name.toList ∧ name ≠ "") ∨
          c.Resolves (.parse (MemberKey.aliased p.name name).display) f)) := by
  obtain ⟨index, f, rfl, hf⟩ := (hr.compiled.referencesSound hp).exists_resolves hd hcallable
  have hresolves : p.Resolves (.parse name) f := ⟨index, hd, hf⟩
  have hreads := hr.member?_of_construct hc hconcrete hk hunpatched hmade hfield (f := f)
  refine ⟨f, hresolves, ?_⟩
  constructor
  · rintro ⟨hmember, -⟩
    exact .inr (hreads.mp hmember)
  · intro hcondition
    have hfound : c.Resolves (.parse (MemberKey.aliased p.name name).display) f := by
      rcases hcondition with ⟨hfree, hname⟩ | hfound
      · rw [MemberKey.parse_display_aliased.mpr ⟨hr.name_ne_empty hp, hfree, hname⟩]
        exact hr.compiled.resolves_kept hc hparent hp hdeclared hresolves
      · exact hfound
    have hmember := hreads.mpr hfound
    exact ⟨hmember, fun depth args => Action.run_callKept hmember⟩

end Registry

/-! ### Two overridden methods

The class of the sample overrides a method of its parent and reaches the parent's.  Another class does the
same below a parent whose name has a separator in it, and does not reach it. -/

namespace Sample

/-- The constructor that a definition gives and the world that it leaves. -/
def defined (before : Registry) (path : String) (body : ClassBody) : Constructor × World :=
  match (before.define path body).run world with
  | (.ok (k, _), w) => (k, w)
  | (.error _, w) => (default, w)

/-- The world after an instance has been made as soon as its class was defined. -/
def made (before : Registry) (path : String) (body : ClassBody) : World :=
  (((defined before path body).1.construct 8 []).run (defined before path body).2).2

/-- A registry with a class whose name has a separator in it. -/
def separated : Registry :=
  ((Registry.empty .standard).perform world (.addRoot "Ns")).perform world
    (.define "Ns.A$B" ⟨[("run", .function ⟨0⟩)]⟩)

/-- The body of a class that extends it and overrides its method. -/
def overriding : ClassBody := ⟨[("Extends", .text "Ns.A$B"), ("run", .function ⟨1⟩)]⟩

/-- The class with a separator in its name. -/
def parentSeparated : ClassDefinition := (separated.definition? "Ns.A$B").getD default

/-- The registry with both classes. -/
def bothSeparated : Registry := separated.perform world (.define "Ns.C" overriding)

/-- The class that extends the other one. -/
def childSeparated : ClassDefinition := (bothSeparated.definition? "Ns.C").getD default

theorem bothSeparated_reachable : bothSeparated.Reachable .standard :=
  ((Registry.Reachable.empty.perform _ _).perform _ _).perform _ _

end Sample

namespace Registry

/-- An instance of the sample's class reads the first function under the alias and calls it there. -/
theorem Reachable.callKept_reaches_base :
    (Sample.made Sample.before "Ns.Leaf" Sample.leaf).store.member? ⟨0⟩ "Base$run"
        = some (.function ⟨0⟩) ∧
      ∀ depth args,
        (callKept depth ⟨0⟩ "Base" "run" args).run (Sample.made Sample.before "Ns.Leaf" Sample.leaf)
          = (invoke depth ⟨0⟩ ⟨0⟩ args).run (Sample.made Sample.before "Ns.Leaf" Sample.leaf) := by
  have hleaf : Sample.registry.definition? "Ns.Leaf" = some (Sample.definition "Ns.Leaf") := rfl
  have hbase : Sample.registry.definition? "Ns.Base" = some (Sample.definition "Ns.Base") := rfl
  have hconcrete : (Sample.definition "Ns.Leaf").isAbstract = false := rfl
  have hdefine : (Sample.before.define "Ns.Leaf" Sample.leaf).run Sample.world
      = (.ok ((Sample.defined Sample.before "Ns.Leaf" Sample.leaf).1, Sample.registry),
        (Sample.defined Sample.before "Ns.Leaf" Sample.leaf).2) := rfl
  have hunpatched := unpatched_of_define hdefine hleaf hconcrete
  have hmade : ((Sample.defined Sample.before "Ns.Leaf" Sample.leaf).1.construct 8 []).run
      (Sample.defined Sample.before "Ns.Leaf" Sample.leaf).2
      = (.ok ⟨0⟩, Sample.made Sample.before "Ns.Leaf" Sample.leaf) := rfl
  have hbelow : Assoc.get? (Sample.definition "Ns.Base").skeleton (.parse "run")
      = some (.function 0) := rfl
  obtain ⟨f, hf, hreaches⟩ := Sample.reachable.callKept_reaches_iff hleaf rfl hbase hconcrete
    (rfl : Sample.leaf.get? "run" = some (.function ⟨1⟩)) hbelow rfl rfl hunpatched hmade rfl
  have hresolves : (Sample.definition "Ns.Base").Resolves (.parse "run") ⟨0⟩ := ⟨0, hbelow, rfl⟩
  obtain rfl := hf.unique hresolves
  exact hreaches.mpr (.inl ⟨by decide, by decide⟩)

/-- Below a parent whose name has a separator in it, an instance that owns no field and whose class is not
patched finds nothing under the alias: calling the parent's implementation fails, although the class has
it. -/
theorem Reachable.callKept_misses_separated :
    Sample.bothSeparated.Reachable .standard ∧
      Sample.bothSeparated.definition? "Ns.C" = some Sample.childSeparated ∧
      Sample.childSeparated.parent? = some "Ns.A$B" ∧
      Sample.bothSeparated.definition? "Ns.A$B" = some Sample.parentSeparated ∧
      Sample.childSeparated.isAbstract = false ∧
      Sample.childSeparated.body.get? "run" = some (.function ⟨1⟩) ∧
      Sample.parentSeparated.Resolves (.parse "run") ⟨0⟩ ∧
      ∃ (k : Constructor) (w w' : World),
        Sample.bothSeparated.constructor? "Ns.C" none = some k ∧
        k.Unpatched Sample.childSeparated w.store ∧ (k.construct 8 []).run w = (.ok ⟨0⟩, w') ∧
        w'.store.ownsField ⟨0⟩ "A$B$run" = false ∧ w'.store.member? ⟨0⟩ "A$B$run" = none ∧
        ∀ depth args, (callKept depth ⟨0⟩ "A$B" "run" args).run w'
          = (.error (.memberMissing "Ns.C" "A$B$run"), w') := by
  have hc : Sample.bothSeparated.definition? "Ns.C" = some Sample.childSeparated := rfl
  have hp : Sample.bothSeparated.definition? "Ns.A$B" = some Sample.parentSeparated := rfl
  have hdefine : (Sample.separated.define "Ns.C" Sample.overriding).run Sample.world
      = (.ok ((Sample.defined Sample.separated "Ns.C" Sample.overriding).1, Sample.bothSeparated),
        (Sample.defined Sample.separated "Ns.C" Sample.overriding).2) := rfl
  have hmade : ((Sample.defined Sample.separated "Ns.C" Sample.overriding).1.construct 8 []).run
      (Sample.defined Sample.separated "Ns.C" Sample.overriding).2
      = (.ok ⟨0⟩, Sample.made Sample.separated "Ns.C" Sample.overriding) := rfl
  have hmissing : (Sample.made Sample.separated "Ns.C" Sample.overriding).store.member? ⟨0⟩
      (MemberKey.aliased "A$B" "run").display = none := rfl
  refine ⟨Sample.bothSeparated_reachable, hc, rfl, hp, rfl, rfl, ⟨0, rfl, rfl⟩, ?_⟩
  refine ⟨_, _, _, rfl, unpatched_of_define hdefine hc rfl, hmade, rfl, hmissing, ?_⟩
  intro depth args
  rw [Action.run_callKept_of_missing hmissing]
  rfl

end Registry

end ClassComposition
