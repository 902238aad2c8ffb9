import ClassComposition.Proofs.Class.Reading
import ClassComposition.Proofs.Method.Recording
import ClassComposition.Proofs.Registry.Overriding

/-!
# Cooperating overrides

Classes of an inheritance chain work together on a method when each one that declares it first calls the
implementation kept from its parent, if a class above it declares the method, and then records that its
turn has come.  The implementation is kept under the name of the parent, whichever class above it the
function comes from, and all classes below inherit the alias.  So the calls go through all declaring
classes up to the topmost one, and each of them records its turn once, from the root down.

## Main definitions

* `turns` — what the classes that declare a method record.
* `Cooperative` — the code of the declaring classes.

## Main results

* `Registry.Chain.exists_relay` — the methods of a cooperative chain make up a relay.
* `Registry.Reachable.cooperative_turns` — calling the method records the turns of all classes.
-/

namespace ClassComposition

/-! ### Chains that cooperate -/

section Cooperative

variable {s t : Store} {log : Handle .array} {name : String} {c : ClassDefinition}
  {above chain : List ClassDefinition}

/-- What the declaring classes record, from the root down: their paths. -/
def turns (name : String) (chain : List ClassDefinition) : List Value :=
  (declaring name chain).reverse.map fun c => .text c.path

/-- Each class of a chain either does not declare the method, or declares a function that first calls the
parent's implementation, if a class above declares the method, and then records the class. -/
inductive Cooperative (s : Store) (log : Handle .array) (name : String) : List ClassDefinition → Prop
  | nil : Cooperative s log name []
  | silent {c : ClassDefinition} {above : List ClassDefinition} (absent : c.body.get? name = none)
      (others : Cooperative s log name above) : Cooperative s log name (c :: above)
  | declared {c : ClassDefinition} {above : List ClassDefinition} {f : Handle .function}
      (present : c.body.get? name = some (.function f))
      (code : RecordsAfter log name c.path (keptOwner? name above) (s.function f).body)
      (others : Cooperative s log name above) : Cooperative s log name (c :: above)

theorem length_turns : (turns name chain).length = (declaring name chain).length := by
  rw [turns, List.length_map, List.length_reverse]

theorem Cooperative.congr (h : Cooperative s log name chain)
    (hst : ∀ f, t.function f = s.function f) : Cooperative t log name chain := by
  induction h with
  | nil => exact .nil
  | silent absent _ ih => exact .silent absent ih
  | @declared c above f present code _ ih =>
    rw [← hst f] at code
    exact .declared present code ih

/-- A cooperative chain is one of classes that override the method with such code. -/
theorem Cooperative.overriding (h : Cooperative s log name chain) :
    Overriding (fun c owner? f => RecordsAfter log name c.path owner? (s.function f).body) name chain := by
  induction h with
  | nil => exact .nil
  | silent absent _ ih => exact .silent absent ih
  | declared present code _ ih => exact .declared present code ih

end Cooperative

namespace Registry

variable {config : Config} {r : Registry} {c d : ClassDefinition}
  {above below chain : List ClassDefinition} {s : Store} {i : Handle .inst} {log : Handle .array}
  {name : String}

theorem Chain.nodup_turns (hr : r.Reachable config) (h : r.Chain chain) : (turns name chain).Nodup := by
  have hpaths := Chain.nodup_paths hr h
  have hdeclaring : ((declaring name chain).map ClassDefinition.path).Nodup :=
    hpaths.sublist (List.filter_sublist.map _)
  have hentries : turns name chain
      = (((declaring name chain).map ClassDefinition.path).map Value.text).reverse := by
    rw [turns, List.map_reverse, List.map_map]
    rfl
  rw [hentries, List.nodup_reverse]
  exact hdeclaring.map fun _ _ heq => Value.text.inj heq

/-- Where an instance reads the methods of the class at the bottom of a cooperative chain, the methods
that the declaring classes from any class upwards have make up a relay, and that class has the first
one. -/
theorem Chain.exists_relay (hr : r.Reachable config) (h : r.Chain (d :: below)) (hname : name ≠ "")
    (hcallee : ∀ {member f}, d.Resolves (.parse member) f → s.callee i member = .ok f)
    (hsuffix : c :: above <:+ d :: below) (hcooperative : Cooperative s log name (c :: above))
    (hdeclared : declaring name (c :: above) ≠ []) :
    ∃ f, c.Resolves (.parse name) f ∧ Relay s i log name f (turns name (c :: above)) := by
  refine Chain.exists_method (P := fun declarers f =>
    Relay s i log name f (declarers.reverse.map fun c => .text c.path)) hr h hname hcallee hsuffix
    hcooperative.overriding hdeclared ?_ ?_
  · exact fun code => .first code
  · intro c owner f g declarers code hcallee hrelay
    rw [List.reverse_cons, List.map_append]
    exact .after code hcallee hrelay

/-- Calling the method on an instance that reads the methods of the class at the bottom of the chain
records the turns of all classes. -/
theorem Chain.run_callMember (hr : r.Reachable config) (h : r.Chain (c :: above)) (hname : name ≠ "")
    {w : World} (hcallee : ∀ {member f}, c.Resolves (.parse member) f → w.store.callee i member = .ok f)
    (hlog : w.store.arrays.Has log) (hcooperative : Cooperative w.store log name (c :: above))
    (hdeclared : declaring name (c :: above) ≠ []) {depth : Nat}
    (hdepth : (declaring name (c :: above)).length ≤ depth) (args : List Value) :
    ∃ v w', (callMember depth i name args).run w = (.ok v, w') ∧
      w.store.Logged log (turns name (c :: above)) w'.store := by
  obtain ⟨f, hf, hrelay⟩ :=
    Chain.exists_relay hr h hname hcallee List.suffix_rfl hcooperative hdeclared
  rw [← length_turns] at hdepth
  obtain ⟨v, w', hrun, hlogged⟩ := hrelay.run_invoke hdepth rfl hlog args
  exact ⟨v, w', (run_callMemberWith (hcallee hf)).trans hrun, hlogged⟩

/-- Where the classes of a chain cooperate on a method, calling it once records the turns of all classes
that declare it, each once and in order from the root down: on every instance of the class at the bottom
that owns no other fields than those it was made with, and, if the method is the initializer and the class
has no hook, when an instance is made.  Without mixins, a class has no hook if no class of its chain
declares one (`Chain.get?_eq_none_of_undeclared`). -/
theorem Reachable.cooperative_turns (hr : r.Reachable config) (hchain : r.Chain (c :: above))
    (hname : name ≠ "") {w : World} (hlog : w.store.arrays.Has log)
    (hcooperative : Cooperative w.store log name (c :: above))
    (hdeclared : declaring name (c :: above) ≠ []) (hconcrete : c.isAbstract = false)
    {k : Constructor} (hk : r.constructor? c.path none = some k)
    (hunpatched : k.Unpatched c w.store) {depth : Nat}
    (hdepth : (declaring name (c :: above)).length ≤ depth) (args : List Value) :
    (turns name (c :: above)).Nodup ∧
      (∀ i, k.Materialized w.store i → ∃ v w', (callMember depth i name args).run w = (.ok v, w') ∧
        w'.store.array log = w.store.array log ++ turns name (c :: above)) ∧
      (name = config.initMember →
        Assoc.get? c.skeleton (.parse config.afterInitMember) = none →
        ∃ i w', (k.construct depth args).run w = (.ok i, w') ∧
          w'.store.array log = w.store.array log ++ turns name (c :: above)) := by
  refine ⟨Chain.nodup_turns hr hchain, ?_, ?_⟩
  · intro i hi
    have hcallee : ∀ {member f}, c.Resolves (.parse member) f → w.store.callee i member = .ok f :=
      hr.callee_of_resolves hchain.found hconcrete hk hunpatched hi
    obtain ⟨v, w', hrun, hlogged⟩ := Chain.run_callMember hr hchain hname hcallee hlog hcooperative
      hdeclared hdepth args
    exact ⟨v, w', hrun, hlogged.array_eq⟩
  · rintro rfl hhook
    obtain ⟨h, ps, init?, hook?, -, hinit, hhooked, hroutine⟩ :=
      hr.exists_routine hchain.found hconcrete hk
    obtain ⟨hfunctions, hprototypes, harrays⟩ := Constructor.materialize_frame h ps.fields w.store
    -- the new instance reads the class, and the store around it has what the call needs
    have hmade := Constructor.materialized_materialize hroutine w.store
    have hcallee : ∀ {member f}, c.Resolves (.parse member) f →
        (Constructor.materialize h ps.fields w.store).2.callee
          (Constructor.materialize h ps.fields w.store).1 member = .ok f :=
      hr.callee_of_resolves hchain.found hconcrete hk (hunpatched.congr hprototypes) hmade
    have hkept := hcooperative.congr fun f => congrArg (Pool.get · f) hfunctions
    obtain ⟨f, hf, -⟩ := Chain.exists_relay hr hchain hname hcallee List.suffix_rfl hkept hdeclared
    rw [Constructor.initOf_of_resolves hf] at hinit
    rw [Constructor.hookOf_of_absent hhook] at hhooked
    cases hinit
    cases hhooked
    obtain ⟨v, w', hrun, hlogged⟩ := Chain.run_callMember hr hchain hname hcallee
      (w := { w with store := (Constructor.materialize h ps.fields w.store).2 }) (harrays.has hlog)
      hkept hdeclared hdepth args
    refine ⟨_, w', Constructor.run_construct_of_init hroutine hrun, ?_⟩
    rw [hlogged.array_eq]
    exact congrArg (· ++ _) (harrays.get_eq log hlog)

end Registry

/-! ### A chain with a gap

Three classes, of which the first and the last declare the initializer.  The last one calls what it has
from the class between them, which only inherits it. -/

namespace Sample

/-- Two initializers, and the empty array in which they record their classes. -/
def recording : World where
  store := { Store.empty with
    functions := ⟨#[⟨some "first", [.record ⟨0⟩ "Ns.A"]⟩,
      ⟨some "last", [.discard (.callKept "B" "init" []), .record ⟨0⟩ "Ns.C"]⟩]⟩
    arrays := ⟨#[[]]⟩ }
  journal := []

/-- The registry with the first two classes. -/
def beforeLast : Registry :=
  (((Registry.empty .standard).perform recording (.addRoot "Ns")).perform recording
    (.define "Ns.A" ⟨[("init", .function ⟨0⟩)]⟩)).perform recording
    (.define "Ns.B" ⟨[("Extends", .text "Ns.A")]⟩)

/-- The body of the last class. -/
def lastBody : ClassBody := ⟨[("Extends", .text "Ns.B"), ("init", .function ⟨1⟩)]⟩

/-- The registry with all three classes. -/
def withGap : Registry := beforeLast.perform recording (.define "Ns.C" lastBody)

/-- The constructor of the last class, and the world in which it has been built. -/
def lastBuilt : Constructor × World :=
  match (beforeLast.define "Ns.C" lastBody).run recording with
  | (.ok (k, _), w) => (k, w)
  | (.error _, w) => (default, w)

/-- The world in which one instance of the last class has been made. -/
def constructed : World := ((lastBuilt.1.construct 2 []).run lastBuilt.2).2

/-- A class of the registry. -/
def inGap (path : String) : ClassDefinition := (withGap.definition? path).getD default

theorem withGap_reachable : withGap.Reachable .standard :=
  (((Registry.Reachable.empty.perform _ _).perform _ _).perform _ _).perform _ _

theorem withGap_chain : withGap.Chain [inGap "Ns.C", inGap "Ns.B", inGap "Ns.A"] := by
  refine .child rfl ⟨?_, ?_, ?_⟩ rfl (.child rfl ⟨?_, ?_, ?_⟩ rfl (.root rfl ⟨?_, ?_, ?_⟩ rfl))
  all_goals decide

end Sample

namespace Registry

/-- Making a second instance of the last class and calling the initializer on the first one both record
the first class and the last one once more, in this order. -/
theorem Reachable.cooperative_turns_gap :
    (∃ v w', (callMember 2 ⟨0⟩ "init" []).run Sample.constructed = (.ok v, w') ∧
        w'.store.array ⟨0⟩ = [.text "Ns.A", .text "Ns.C", .text "Ns.A", .text "Ns.C"]) ∧
      ∃ i w', (Sample.lastBuilt.1.construct 2 []).run Sample.constructed = (.ok i, w') ∧
        w'.store.array ⟨0⟩ = [.text "Ns.A", .text "Ns.C", .text "Ns.A", .text "Ns.C"] := by
  have hc : Sample.withGap.definition? "Ns.C" = some (Sample.inGap "Ns.C") := rfl
  have hconcrete : (Sample.inGap "Ns.C").isAbstract = false := rfl
  have hdefine : (Sample.beforeLast.define "Ns.C" Sample.lastBody).run Sample.recording
      = (.ok (Sample.lastBuilt.1, Sample.withGap), Sample.lastBuilt.2) := rfl
  have hunpatched : Sample.lastBuilt.1.Unpatched (Sample.inGap "Ns.C") Sample.constructed.store :=
    (unpatched_of_define hdefine hc hconcrete).congr rfl
  -- the class in the middle declares no such method, so its turn is silent
  have hcooperative : Cooperative Sample.constructed.store ⟨0⟩ "init"
      [Sample.inGap "Ns.C", Sample.inGap "Ns.B", Sample.inGap "Ns.A"] := by
    refine .declared (f := ⟨1⟩) rfl ?_ (.silent rfl (.declared (f := ⟨0⟩) rfl ?_ .nil))
    · exact callsThenRecords_of_quiet (.anew rfl) fun statement hmem => nomatch hmem
    · exact records_of_quiet fun statement hmem => nomatch hmem
  have hdeclared : declaring "init" [Sample.inGap "Ns.C", Sample.inGap "Ns.B", Sample.inGap "Ns.A"]
      ≠ [] := List.cons_ne_nil (Sample.inGap "Ns.C") [Sample.inGap "Ns.A"]
  have hhook : Assoc.get? (Sample.inGap "Ns.C").skeleton (.parse "_afterInit") = none :=
    Sample.withGap_chain.get?_eq_none_of_undeclared Sample.withGap_reachable (by decide) (by decide)
      (by decide) (Sample.inGap "Ns.C") List.mem_cons_self
  have hmade : Sample.lastBuilt.1.Materialized Sample.constructed.store ⟨0⟩ :=
    ⟨rfl, fun name hname => absurd hname Bool.false_ne_true⟩
  obtain ⟨-, hcall, hconstruct⟩ := Sample.withGap_reachable.cooperative_turns Sample.withGap_chain
    (by decide : "init" ≠ "") (by decide : Sample.constructed.store.arrays.Has ⟨0⟩) hcooperative
    hdeclared hconcrete rfl hunpatched (Nat.le_refl 2) []
  exact ⟨hcall ⟨0⟩ hmade, hconstruct rfl hhook⟩

end Registry

end ClassComposition
