import ClassComposition.Bench.Suite

/-!
# Micro-benchmarks

Seven benchmarks, each about one kind of member or one feature of composition.

## Main definitions

* `Micro.literalMembers`, …, `Micro.sharedMembers` — the class definitions.
* `Micro.suiteBy` — all benchmarks, where a library makes the patterns.
* `Micro.suite` — all benchmarks, with patterns as they are read here.
-/

namespace ClassComposition.Micro

/-- A whole number as a value. -/
def whole (n : Nat) : Value := .number (Number.ofNat n)

/-- A new object with these properties. -/
def object (properties : Assoc String Value) : Action Value :=
  Action.onStore (·.newObject properties)

/-- A new array of these elements. -/
def array (elements : List Value) : Action Value := Action.onStore (·.newArray elements)

/-- A new method with a name. -/
def method (name : String) (code : List Statement) : Action (String × Value) := do
  return (name, ← Action.onStore (·.newFunction ⟨some name, code⟩))

/-- A new pattern, made by a library that accepts certain sources. -/
def pattern (accepts : String → Bool) (source : String) : Action Value := do
  let (p, s) ← Action.ofExcept ((← Action.store).newPatternBy accepts source)
  Action.modifyStore fun _ => s
  return p

/-- A class with these members that extends a parent. -/
def childOf (parent : String) (members : Assoc String Value) : ClassBody :=
  ⟨(Directive.parent.name, .text parent) :: members⟩

/-- Numbers, texts, booleans and null. -/
def literalMembers : Setup := fun r =>
  r.define "Bench.Point" ⟨[
    ("x", whole 0), ("y", whole 0), ("label", .text "origin"), ("visible", .boolean true),
    ("parent", .null)]⟩

/-- Arrays of simple values. -/
def inlineArrays : Setup := fun r => do
  let nothing ← array []
  let colors ← array [.text "red", .text "green", .text "blue"]
  let weights ← array ((List.range 8).map fun n => whole (n + 1))
  r.define "Bench.Palette" ⟨[("empty", nothing), ("colors", colors), ("weights", weights)]⟩

/-- Objects made anew for each instance. -/
def nestedObjects : Setup := fun r => do
  let margin ← object [("top", whole 1), ("left", whole 2)]
  let layout ← object [("width", whole 100), ("height", whole 50), ("margin", margin)]
  let handlers ← object []
  r.define "Bench.Widget" ⟨[("layout", layout), ("handlers", handlers)]⟩

/-- The source of the pattern of rows. -/
def rowSource : String := "^row-\\d+$"

/-- An array that is copied, a pattern and a method. -/
def referenceMembers (accepts : String → Bool) : Setup := fun r => do
  let first ← object [("id", whole 1)]
  let second ← object [("id", whole 2)]
  let rows ← array [first, second]
  let matcher ← pattern accepts rowSource
  let count ← method "count" [.answer (.length (.member "rows"))]
  r.define "Bench.Table" ⟨[("rows", rows), ("matcher", matcher), count]⟩

/-- A chain of four classes whose initializers call the ones they override. -/
def deepInheritance : Setup := fun r => do
  let init ← method "init" [.setField "depth" (.literal (whole 1))]
  let (_, r) ← r.define "Bench.Level0" ⟨[("depth", whole 0), init]⟩
  let init ← method "init"
    [.discard (.forwardKept "Level0" "init"), .setField "first" (.argument 0 .null)]
  let (_, r) ← r.define "Bench.Level1" (childOf "Bench.Level0" [("first", .null), init])
  let tags ← array []
  let init ← method "init"
    [.discard (.forwardKept "Level1" "init"), .push (.member "tags") (.literal (.text "level2"))]
  let (_, r) ← r.define "Bench.Level2" (childOf "Bench.Level1" [("tags", tags), init])
  let init ← method "init" [.answer (.forwardKept "Level2" "init")]
  r.define "Bench.Level3" (childOf "Bench.Level2" [init])

/-- A class that implements two mixins. -/
def mixinComposition : Setup := fun r => do
  let listeners ← array []
  let on ← method "on" [.pushArgument (.member "listeners") 0]
  let (_, r) ← r.define "Bench.Observable" ⟨[("listeners", listeners), on]⟩
  let serialize ← method "serialize" [.answer .classPath]
  let (_, r) ← r.define "Bench.Serializable" ⟨[("format", .text "json"), serialize]⟩
  let mixins ← array [.text "Bench.Observable", .text "Bench.Serializable"]
  let attributes ← object []
  r.define "Bench.Model" ⟨[(Directive.mixins.name, mixins), ("attributes", attributes)]⟩

/-- A class that inherits a shared member. -/
def sharedMembers : Setup := fun r => do
  let cache ← object []
  let (_, r) ← r.define "Bench.Cached"
    ⟨[(Directive.shared.name, .text "cache"), ("cache", cache), ("hits", whole 0)]⟩
  r.define "Bench.CachedChild" (childOf "Bench.Cached" [("misses", whole 0)])

/-- How many instances a run constructs unless told otherwise. -/
def standardIterations : Nat := 10000

/-- All micro-benchmarks, where a library makes the patterns. -/
def benchmarksBy (accepts : String → Bool) : List Benchmark := [
  ⟨"literal_members", "Numbers, strings, booleans and null", literalMembers, [],
    standardIterations⟩,
  ⟨"inline_arrays", "Arrays of simple values", inlineArrays, [], standardIterations⟩,
  ⟨"nested_objects", "Plain object members copied per instance", nestedObjects, [],
    standardIterations⟩,
  ⟨"reference_members", "Non-simple arrays, patterns and methods", referenceMembers accepts, [],
    standardIterations⟩,
  ⟨"deep_inheritance", "Four-level chain with init calling the overridden init", deepInheritance,
    [.text "arg"], standardIterations⟩,
  ⟨"mixin_composition", "Class implementing two mixins", mixinComposition, [],
    standardIterations⟩,
  ⟨"shared_members", "Subclass inheriting a shared member", sharedMembers, [],
    standardIterations⟩]

/-- The suite of all micro-benchmarks, where a library makes the patterns. -/
def suiteBy (accepts : String → Bool) : Suite := ⟨"micro", benchmarksBy accepts⟩

/-- All micro-benchmarks. -/
def benchmarks : List Benchmark := benchmarksBy Pattern.isWellFormed

/-- The suite of all micro-benchmarks. -/
def suite : Suite := suiteBy Pattern.isWellFormed

end ClassComposition.Micro
