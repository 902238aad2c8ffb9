import ClassComposition.Registry.Basic

/-!
# Benchmarks

A benchmark defines its classes in a fresh registry and then constructs one of them many times.  How long
that takes is measured from outside; what is said here is whether it succeeds.

## Main definitions

* `Setup`, `Setup.ofBodies` — class definitions.
* `Benchmark`, `Suite` — what is run.
* `Benchmark.Outcome` — how a run ended.
* `Benchmark.run`, `Benchmark.runMultiple`, `Suite.run`, `Suite.runMultiple`.
-/

namespace ClassComposition

/-- Class definitions that answer the constructor to be timed. -/
abbrev Setup := Registry → Action (Constructor × Registry)

/-- Make and define classes in turn; the answer is the last constructor, or the given one if there are no
classes. -/
def Setup.defineFrom : Option Constructor → List (String × Action ClassBody) → Setup
  | none, [], _ => throw (.raised "no class")
  | some k, [], r => return (k, r)
  | _, (path, makeBody) :: rest, r => do
    let (k, r) ← r.define path (← makeBody)
    defineFrom (some k) rest r

/-- Make and define classes in turn, at least one; the answer is the last constructor.  The values in the
bodies are made anew whenever the setup runs, so that no run sees what another did to them. -/
def Setup.ofBodies (classes : List (String × Action ClassBody)) : Setup :=
  Setup.defineFrom none classes

/-- A benchmark. -/
structure Benchmark where
  name : String
  /-- What the benchmark is about. -/
  description : String
  /-- The class definitions. -/
  setup : Setup
  /-- The arguments of every construction. -/
  args : List Value
  /-- How many instances a run constructs. -/
  iterations : Nat

namespace Benchmark

/-- The root namespace of benchmark classes. -/
def root : String := "Bench"

/-- The diagnostic text of a benchmark: its name and its iterations. -/
def diagnostic (b : Benchmark) : String :=
  "Benchmark \x7b name: " ++ Text.quoted b.name ++ ", iterations: " ++ toString b.iterations ++ " \x7d"

/-- How a run ended. -/
structure Outcome where
  name : String
  description : String
  iterations : Nat
  /-- What went wrong. -/
  error? : Option ClassError
  deriving DecidableEq, Repr

/-- Whether nothing went wrong. -/
def Outcome.success (o : Outcome) : Bool := o.error?.isNone

/-- The registry in which a benchmark defines its classes. -/
def freshRegistry : Registry := (Registry.empty Config.standard).addRoot root

/-- Construct a number of instances. -/
def constructTimes (depth : Nat) (k : Constructor) (args : List Value) : Nat → Action Unit
  | 0 => pure ()
  | n + 1 => do
    let _ ← k.construct depth args
    constructTimes depth k args n

/-- Define the classes and construct the instances; calls may be nested `depth` levels deep. -/
def attempt (depth : Nat) (b : Benchmark) : Action Unit := do
  let (k, _) ← b.setup freshRegistry
  constructTimes depth k b.args b.iterations

/-- Run a benchmark once. -/
def run (depth : Nat) (b : Benchmark) (w : World) : Outcome × World :=
  let (result, w) := (b.attempt depth).run w
  let error? := match result with
    | .ok () => none
    | .error e => some e
  ({ name := b.name, description := b.description, iterations := b.iterations, error? }, w)

/-- Run a benchmark again and again, `more` times after an outcome, until it fails. -/
def runAgain (depth : Nat) (b : Benchmark) : Nat → Outcome × World → Outcome × World
  | 0, last => last
  | more + 1, (outcome, w) =>
    if outcome.success then runAgain depth b more (b.run depth w) else (outcome, w)

/-- Run a benchmark several times, at least once: the first failure, or success. -/
def runMultiple (depth runs : Nat) (b : Benchmark) (w : World) : Outcome × World :=
  runAgain depth b (runs - 1) (b.run depth w)

end Benchmark

/-- A named list of benchmarks. -/
structure Suite where
  name : String
  benchmarks : List Benchmark

namespace Suite

/-- Whether a list of characters stands somewhere in another. -/
def occursIn (part : List Char) : List Char → Bool
  | [] => part.isEmpty
  | c :: rest => part.isPrefixOf (c :: rest) || occursIn part rest

/-- The benchmarks whose name contains a text. -/
def filter (s : Suite) (part : String) : Suite :=
  { s with benchmarks := s.benchmarks.filter fun b => occursIn part.toList b.name.toList }

/-- The same benchmarks with another number of iterations. -/
def withIterations (s : Suite) (n : Nat) : Suite :=
  { s with benchmarks := s.benchmarks.map fun b => { b with iterations := n } }

/-- Run benchmarks in turn. -/
def runEach (run : Benchmark → World → Benchmark.Outcome × World) :
    List Benchmark → World → List Benchmark.Outcome × World
  | [], w => ([], w)
  | b :: rest, w =>
    let (outcome, w) := run b w
    let (others, w) := runEach run rest w
    (outcome :: others, w)

/-- Run all benchmarks once. -/
def run (depth : Nat) (s : Suite) (w : World) : List Benchmark.Outcome × World :=
  runEach (Benchmark.run depth) s.benchmarks w

/-- Run all benchmarks several times each. -/
def runMultiple (depth runs : Nat) (s : Suite) (w : World) : List Benchmark.Outcome × World :=
  runEach (Benchmark.runMultiple depth runs) s.benchmarks w

end Suite

end ClassComposition
