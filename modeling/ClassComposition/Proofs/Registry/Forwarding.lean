import ClassComposition.Proofs.Method.Forwarding
import ClassComposition.Proofs.Class.Reading
import ClassComposition.Proofs.Registry.Overriding

/-!
# Initializers that forward

Along an inheritance chain each class that declares the initializer may forward to the one that it overrides,
and write what it likes before it ends, as long as it calls nothing else.  Then instances of the class at the
bottom can always be made: the calls go up through all classes that declare the initializer, each of them
finds the next one under the alias of its parent, and none of them fails.

## Main definitions

* `Forwarding` — the code of the classes that declare a method.

## Main results

* `Registry.Reachable.construct_answers` — an instance can be made in every store that has the methods.
-/

namespace ClassComposition

/-- Each class of a chain that declares the method declares a function that forwards to the implementation
which it overrides, if a class above declares the method, and calls nothing else. -/
abbrev Forwarding (s : Store) (name : String) (chain : List ClassDefinition) : Prop :=
  Overriding (fun _ owner? f => ForwardsTo name owner? (s.function f).body) name chain

namespace Registry

variable {config : Config} {r : Registry} {c : ClassDefinition} {above : List ClassDefinition}

/-- Where the classes of a chain forward the initializer and the class at the bottom has no hook, an instance
of that class can be made with any arguments, in every store that has the functions of the chain and in which
the class has not been patched. -/
theorem Reachable.construct_answers (hr : r.Reachable config) (hchain : r.Chain (c :: above))
    (hname : config.initMember ≠ "") {w : World}
    (hforwarding : Forwarding w.store config.initMember (c :: above))
    (hdeclared : declaring config.initMember (c :: above) ≠ [])
    (hhook : Assoc.get? c.skeleton (.parse config.afterInitMember) = none)
    (hconcrete : c.isAbstract = false) {k : Constructor} (hk : r.constructor? c.path none = some k)
    (hunpatched : k.Unpatched c w.store) {depth : Nat}
    (hdepth : (declaring config.initMember (c :: above)).length ≤ depth) (args : List Value) :
    ∃ i w', (k.construct depth args).run w = (.ok i, w') := by
  obtain ⟨h, ps, init?, hook?, -, hinit, hhooked, hroutine⟩ := hr.exists_routine hchain.found hconcrete hk
  obtain ⟨hfunctions, hprototypes, -⟩ := Constructor.materialize_frame h ps.fields w.store
  have hmade := Constructor.materialized_materialize hroutine w.store
  -- the initializer runs on a new instance, which reads the class
  have hcallee : ∀ {member f}, c.Resolves (.parse member) f →
      (Constructor.materialize h ps.fields w.store).2.callee
        (Constructor.materialize h ps.fields w.store).1 member = .ok f :=
    hr.callee_of_resolves hchain.found hconcrete hk (hunpatched.congr hprototypes) hmade
  have hkept : Forwarding (Constructor.materialize h ps.fields w.store).2 config.initMember
      (c :: above) := by
    simp only [Forwarding, Store.function, hfunctions]
    exact hforwarding
  obtain ⟨f, hf, hdescent⟩ := Chain.exists_method
    (P := fun declarers f => Descent (Constructor.materialize h ps.fields w.store).2
      (Constructor.materialize h ps.fields w.store).1 config.initMember declarers.length f)
    hr hchain hname hcallee List.suffix_rfl hkept hdeclared .last .next
  rw [Constructor.initOf_of_resolves hf] at hinit
  rw [Constructor.hookOf_of_absent hhook] at hhooked
  cases hinit
  cases hhooked
  obtain ⟨v, w', hrun⟩ := Descent.run_invoke
    (w := { w with store := (Constructor.materialize h ps.fields w.store).2 }) hdescent hdepth args
  have hfound := hcallee hf
  refine ⟨_, w', Constructor.run_construct_of_init hroutine (Eq.trans ?_ hrun)⟩
  exact run_callMemberWith (w := { w with store := (Constructor.materialize h ps.fields w.store).2 }) hfound

end Registry

end ClassComposition
