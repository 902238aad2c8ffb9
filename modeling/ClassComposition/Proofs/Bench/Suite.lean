import ClassComposition.Bench.Suite
import ClassComposition.Proofs.Class.Reading
import ClassComposition.Proofs.Registry.Defining
import Mathlib.Data.List.Infix

/-!
# Benchmarks that succeed

A benchmark constructs instances one after the other in a store that grows with each of them.  What its
constructor needs of the store is the methods that were there when its classes had been defined, and no
construction changes these.  So where one instance can be made in every store with these methods, any number
of them can, and the benchmark succeeds however often it is run.

## Main definitions

* `Store.SameMethods` — stores with the same functions and the same prototypes.
* `Constructor.AnswersFrom` — a constructor that answers as long as the methods stay.
* `Setup.Sound`, `Benchmark.Sound` — the classes are defined with such a constructor, in every world.

## Main results

* `Constructor.AnswersFrom.run_constructTimes` — any number of instances can be made.
* `Benchmark.Sound.runMultiple_eq` — the outcome of a sound benchmark, however often it is run.
* `Suite.runMultiple_filtered` — the outcomes of a suite of sound benchmarks that has been filtered.
-/

namespace ClassComposition

/-! ### Methods that stay -/

/-- The methods of two stores are the same: their functions, and the prototypes in which they stand. -/
structure Store.SameMethods (s t : Store) : Prop where
  functions : t.functions = s.functions
  prototypes : t.prototypes = s.prototypes

/-- Running methods leaves the methods as they are. -/
theorem methodFrame_sameMethods : MethodFrame Store.SameMethods where
  refl := fun _ => ⟨rfl, rfl⟩
  trans := fun hst htu =>
    ⟨htu.functions.trans hst.functions, htu.prototypes.trans hst.prototypes⟩
  newArray := fun _ _ => ⟨rfl, rfl⟩
  setField := fun _ _ _ _ => ⟨rfl, rfl⟩
  push := by
    intro s target v
    cases target <;> exact ⟨rfl, rfl⟩
  setProperty := by
    intro s target key v
    cases target <;> exact ⟨rfl, rfl⟩

namespace Constructor

variable {k : Constructor} {depth : Nat} {args : List Value} {s : Store} {w : World}

theorem sameMethods_construct (depth : Nat) (k : Constructor) (args : List Value) (w : World) :
    w.store.SameMethods ((k.construct depth args).run w).2.store := by
  refine keeps_construct methodFrame_sameMethods (fun h fields s => ?_) depth k args w
  obtain ⟨hfunctions, hprototypes, -⟩ := materialize_frame h fields s
  exact ⟨hfunctions, hprototypes⟩

/-- A constructor answers in every world that has the methods of a store. -/
def AnswersFrom (k : Constructor) (depth : Nat) (args : List Value) (s : Store) : Prop :=
  ∀ w : World, s.SameMethods w.store → ∃ i w', (k.construct depth args).run w = (.ok i, w')

/-- Any number of instances can be made with a constructor that answers as long as the methods stay, as no
construction changes them. -/
theorem AnswersFrom.run_constructTimes (hk : k.AnswersFrom depth args s) (n : Nat)
    (hw : s.SameMethods w.store) :
    ∃ w', (Benchmark.constructTimes depth k args n).run w = (.ok (), w') := by
  induction n generalizing w with
  | zero => exact ⟨w, rfl⟩
  | succ n ih =>
    obtain ⟨i, w₁, hfirst⟩ := hk w hw
    have hsame := sameMethods_construct depth k args w
    rw [hfirst] at hsame
    obtain ⟨w', hrest⟩ := ih (methodFrame_sameMethods.trans hw hsame)
    exact ⟨w', Action.run_bind_eq_ok.mpr ⟨i, w₁, hfirst, hrest⟩⟩

end Constructor

/-- The constructor of a class without initializer and hook answers in every world: it calls nothing. -/
theorem Registry.Defined.answersFrom {r : Registry} {path : String} {body : ClassBody} {w u : World}
    {c : ClassDefinition} {place : String × Namespace × List String} {k : Constructor}
    (h : r.Defined path body w c place none none k u) (depth : Nat) (args : List Value) :
    k.AnswersFrom depth args u.store := by
  obtain ⟨handle, fields, hroutine⟩ := h.routine
  intro v _
  exact ⟨_, _, Constructor.run_construct_of_compiled hroutine depth args v⟩

/-- A class without initializer and hook that can be defined gets such a constructor. -/
theorem Registry.Reachable.gives_answering {config : Config} {r : Registry} (hr : r.Reachable config)
    {path : String} {body : ClassBody} {w : World} {place : String × Namespace × List String}
    (hplaced : r.place path = .ok place) (k : ClassDefinition.Composition config r.classes path body w)
    (hworld : w.store.Within k.world.store) (hconcrete : k.definition.isAbstract = false)
    (hinit : Constructor.initOf config k.definition = .ok none)
    (hhook : Constructor.hookOf config k.definition = .ok none) (depth : Nat) (args : List Value) :
    (r.define path body).Gives w fun answer u => answer.1.AnswersFrom depth args u.store :=
  hr.gives_define hplaced k hworld rfl hconcrete hinit hhook fun _ _ h => h.answersFrom depth args

/-! ### Benchmarks -/

/-- In every world the classes can be defined in a fresh registry, and the constructor that is answered
answers from then on. -/
def Setup.Sound (setup : Setup) (depth : Nat) (args : List Value) : Prop :=
  ∀ w, (setup Benchmark.freshRegistry).Gives w fun answer u => answer.1.AnswersFrom depth args u.store

namespace Benchmark

variable {b : Benchmark} {depth : Nat}

theorem freshRegistry_reachable : freshRegistry.Reachable .standard :=
  Registry.Reachable.empty.perform default (.addRoot root)

/-- The setup of a benchmark is sound for the arguments with which it constructs. -/
def Sound (depth : Nat) (b : Benchmark) : Prop := b.setup.Sound depth b.args

/-- The outcome of a benchmark in which nothing went wrong. -/
def passed (b : Benchmark) : Outcome := ⟨b.name, b.description, b.iterations, none⟩

/-- How many instances are constructed makes no difference to whether a benchmark is sound. -/
theorem Sound.withIterations (h : b.Sound depth) (n : Nat) :
    ({ b with iterations := n } : Benchmark).Sound depth := h

/-- A sound benchmark passes. -/
theorem Sound.run_eq (h : b.Sound depth) (w : World) : (b.run depth w).1 = b.passed := by
  obtain ⟨⟨k, r⟩, w₁, hsetup, hk⟩ := h w
  obtain ⟨w', hinstances⟩ := hk.run_constructTimes b.iterations (methodFrame_sameMethods.refl w₁.store)
  have hattempt : (b.attempt depth).run w = (.ok (), w') :=
    Action.run_bind_eq_ok.mpr ⟨(k, r), w₁, hsetup, hinstances⟩
  rw [run, hattempt, passed]

/-- It passes again and again. -/
theorem Sound.runAgain_eq (h : b.Sound depth) (more : Nat) {last : Outcome × World}
    (hlast : last.1 = b.passed) : (runAgain depth b more last).1 = b.passed := by
  induction more generalizing last with
  | zero => exact hlast
  | succ more ih =>
    obtain ⟨outcome, w⟩ := last
    obtain rfl : outcome = b.passed := hlast
    exact ih (h.run_eq w)

/-- So it does when it is run several times, or not even once. -/
theorem Sound.runMultiple_eq (h : b.Sound depth) (runs : Nat) (w : World) :
    (b.runMultiple depth runs w).1 = b.passed :=
  h.runAgain_eq (runs - 1) (h.run_eq w)

end Benchmark

/-! ### Suites -/

namespace Suite

/-- Benchmarks that pass in every world pass one after the other. -/
theorem runEach_eq {run : Benchmark → World → Benchmark.Outcome × World} {benchmarks : List Benchmark}
    (h : ∀ b ∈ benchmarks, ∀ w, (run b w).1 = b.passed) (w : World) :
    (runEach run benchmarks w).1 = benchmarks.map Benchmark.passed := by
  induction benchmarks generalizing w with
  | nil => rfl
  | cons b rest ih =>
    rw [List.forall_mem_cons] at h
    rw [runEach, List.map_cons, ← h.1 w, ← ih h.2 (run b w).2]

/-- A text stands in another one if the other one can be split around it. -/
theorem occursIn_iff {part text : List Char} : occursIn part text = true ↔ part <:+: text := by
  induction text with
  | nil => rw [occursIn, List.isEmpty_iff, List.infix_nil]
  | cons c rest ih =>
    rw [occursIn, Bool.or_eq_true, List.isPrefixOf_iff_prefix, ih, List.infix_cons_iff]

/-- Filters that are applied in turn leave the benchmarks whose name contains all of the texts. -/
theorem benchmarks_foldl_filter (s : Suite) (parts : List String) :
    (parts.foldl filter s).benchmarks =
      s.benchmarks.filter fun b => parts.all fun part => occursIn part.toList b.name.toList := by
  induction parts generalizing s with
  | nil => exact (List.filter_eq_self.mpr fun _ _ => rfl).symm
  | cons part rest ih =>
    rw [List.foldl_cons, ih, filter, List.filter_filter]
    simp only [List.all_cons, Bool.and_comm]

/-- Where all benchmarks of a suite are sound, filters are applied in turn and the number of iterations is
set, each benchmark that is left passes with this number of iterations, in the order of the suite, however
often the suite is run. -/
theorem runMultiple_filtered {s : Suite} {depth : Nat} (h : ∀ b ∈ s.benchmarks, b.Sound depth)
    (parts : List String) (n runs : Nat) (w : World) :
    (((parts.foldl filter s).withIterations n).runMultiple depth runs w).1 =
      (s.benchmarks.filter fun b => decide (∀ part ∈ parts, part.toList <:+: b.name.toList)).map
        fun b => ⟨b.name, b.description, n, none⟩ := by
  have hpassed : ∀ b ∈ ((parts.foldl filter s).withIterations n).benchmarks, ∀ w,
      (b.runMultiple depth runs w).1 = b.passed := by
    intro b hb w
    rw [withIterations, benchmarks_foldl_filter] at hb
    obtain ⟨original, hmem, rfl⟩ := List.mem_map.mp hb
    exact ((h original (List.mem_filter.mp hmem).1).withIterations n).runMultiple_eq runs w
  have hcontains : ∀ b : Benchmark, (parts.all fun part => occursIn part.toList b.name.toList)
      = decide (∀ part ∈ parts, part.toList <:+: b.name.toList) := by
    intro b
    rw [Bool.eq_iff_iff, List.all_eq_true, decide_eq_true_iff]
    simp only [occursIn_iff]
  rw [runMultiple, runEach_eq hpassed w, withIterations, benchmarks_foldl_filter, List.map_map]
  simp only [hcontains]
  rfl

end Suite

end ClassComposition
