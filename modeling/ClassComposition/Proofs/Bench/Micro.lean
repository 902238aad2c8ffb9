import ClassComposition.Bench.Micro
import ClassComposition.Proofs.Bench.Suite
import ClassComposition.Proofs.Member.Contribution
import ClassComposition.Proofs.Registry.Forwarding

/-!
# The micro-benchmarks succeed

Each setup makes some values and defines some classes.  What a definition reads of the values is what was
written when they were made, since everything that comes later only adds to the store; so the stages of each
compilation can be told in every world.  The constructors of six benchmarks call nothing.  In the remaining
one the initializers of four classes forward to one another up the chain, and the functions that this takes
stay as they are however many instances there are.

## Main definitions

* `Micro.observable`, `Micro.serializable`, `Micro.cached`, `Micro.level0`, …, `Micro.level3` — the classes on
  which others are based, as they are compiled.

## Main results

* `Micro.literalMembers_sound`, …, `Micro.deepInheritance_sound` — one for each setup.
* `Micro.run_suiteBy` — the outcomes, where a library makes the patterns.
* `Micro.suite_never_fails` — whatever is filtered, and however often what is left is run, it succeeds.
-/

namespace ClassComposition

namespace Micro

open ClassComposition.Action Benchmark ClassDefinition

variable {w : World}

/-! ### New values -/

section Values

theorem gives_array {items : List Value} {Q : Value → World → Prop}
    (h : ∀ a u, w.store.Within u.store → u.store.arrays.Has a → u.store.array a = items → Q (.array a) u) :
    (array items).Gives w Q :=
  gives_onStore (h _ _ (w.store.within_newArray items) (Pool.has_alloc_self _ items)
    (Pool.get_alloc_self w.store.arrays items))

theorem gives_object {properties : Assoc String Value} {Q : Value → World → Prop}
    (h : ∀ o u, w.store.Within u.store → u.store.objects.Has o → u.store.object o = properties →
      Q (.object o) u) : (object properties).Gives w Q :=
  gives_onStore (h _ _ (w.store.within_newObject properties) (Pool.has_alloc_self _ properties)
    (Pool.get_alloc_self w.store.objects properties))

theorem gives_method {name : String} {code : List Statement} {Q : String × Value → World → Prop}
    (h : ∀ f u, w.store.Within u.store → u.store.functions.Has f → (u.store.function f).body = code →
      Q (name, .function f) u) : (method name code).Gives w Q := by
  refine gives_bind (gives_onStore ⟨_, _, rfl, ?_⟩)
  have hnew := Pool.get_alloc_self w.store.functions ⟨some name, code⟩
  exact h _ _ (w.store.within_newFunction ⟨some name, code⟩) (Pool.has_alloc_self _ _)
    (congrArg Method.body hnew)

theorem gives_pattern {accepts : String → Bool} {source : String} (hsource : accepts source = true)
    {Q : Value → World → Prop} (h : ∀ p u, w.store.Within u.store → Q (.pattern p) u) :
    (pattern accepts source).Gives w Q := by
  have hnew : w.store.newPatternBy accepts source = .ok (.pattern (w.store.patterns.alloc source).1,
      { w.store with patterns := (w.store.patterns.alloc source).2 }) := by
    rw [Store.newPatternBy, if_pos hsource]
  have hwithin : w.store.Within { w.store with patterns := (w.store.patterns.alloc source).2 } :=
    ⟨.refl _, .refl _, .refl _, Pool.within_alloc _ _, .refl _, .refl _⟩
  unfold pattern
  refine ⟨_, _, run_bind_eq_ok.mpr ⟨_, _, run_store w, ?_⟩,
    h (w.store.patterns.alloc source).1 ⟨_, w.journal⟩ hwithin⟩
  rw [hnew]
  rfl

end Values

/-! ### Classes of fields -/

variable {depth : Nat} {args : List Value}

theorem literalMembers_sound : literalMembers.Sound depth args := fun _ =>
  freshRegistry_reachable.gives_answering rfl (.root rfl rfl rfl (.nil _) rfl) (.refl _) rfl rfl rfl
    depth args

theorem inlineArrays_sound : inlineArrays.Sound depth args := by
  intro w
  refine gives_bind (gives_array fun nothing w₁ _ hnothing hempty => ?_)
  refine gives_bind (gives_array fun colors w₂ h₂ hcolors htexts => ?_)
  refine gives_bind (gives_array fun weights w₃ h₃ _ hnumbers => ?_)
  replace hempty := ((h₂.trans h₃).array_eq hnothing).trans hempty
  replace htexts := (h₃.array_eq hcolors).trans htexts
  have hmembers : ClassifiedMembers w₃.store true
      [("empty", .array nothing), ("colors", .array colors), ("weights", .array weights)] [] .empty _ _ :=
    .cons (.emptyArray hempty _) (.cons (.inlineArray_of_eq htexts (by decide) rfl _)
      (.cons (.inlineArray_of_eq hnumbers (by decide) rfl _) (.nil _ _)))
  exact freshRegistry_reachable.gives_answering rfl (.root rfl rfl hmembers.run_skeleton (.nil _) rfl)
    (.refl _) rfl rfl rfl depth args

theorem nestedObjects_sound : nestedObjects.Sound depth args := by
  intro w
  refine gives_bind (gives_object fun margin w₁ _ hmargin hsides => ?_)
  refine gives_bind (gives_object fun layout w₂ h₂ hlayout hsizes => ?_)
  refine gives_bind (gives_object fun handlers w₃ h₃ _ hnone => ?_)
  replace hsides := ((h₂.trans h₃).object_eq hmargin).trans hsides
  replace hsizes := (h₃.object_eq hlayout).trans hsizes
  have hnumber (n : Nat) (t : ReferenceTable) :
      Classified w₃.store true (whole n) t (.literal (whole n)) t := .literal (.inr (.inr rfl)) t
  have hnested (t : ReferenceTable) : Classified w₃.store true (.object margin) t (.nested _) t :=
    .object_of_eq hsides (.cons (hnumber 1 t) (.cons (hnumber 2 t) (.nil _ t)))
  have hmembers : ClassifiedMembers w₃.store true
      [("layout", .object layout), ("handlers", .object handlers)] [] .empty _ _ :=
    .cons (.object_of_eq hsizes (.cons (hnumber 100 _) (.cons (hnumber 50 _)
      (.cons (hnested _) (.nil _ _))))) (.cons (.object_of_eq hnone (.nil _ _)) (.nil _ _))
  exact freshRegistry_reachable.gives_answering rfl (.root rfl rfl hmembers.run_skeleton (.nil _) rfl)
    (.refl _) rfl rfl rfl depth args

/-- Here a library has to accept the source of the one pattern. -/
theorem referenceMembers_sound {accepts : String → Bool} (haccepts : accepts rowSource = true) :
    (referenceMembers accepts).Sound depth args := by
  intro w
  refine gives_bind (gives_object fun first w₁ _ _ _ => ?_)
  refine gives_bind (gives_object fun second w₂ _ _ _ => ?_)
  refine gives_bind (gives_array fun rows w₃ _ hrows hobjects => ?_)
  refine gives_bind (gives_pattern haccepts fun matcher w₄ h₄ => ?_)
  refine gives_bind (gives_method fun count w₅ h₅ _ _ => ?_)
  replace hobjects := ((h₄.trans h₅).array_eq hrows).trans hobjects
  have hmembers : ClassifiedMembers w₅.store true
      [("rows", .array rows), ("matcher", .pattern matcher), ("count", .function count)] [] .empty _ _ :=
    .cons (.arrayCopy_of_eq hobjects (List.cons_ne_nil _ _) rfl _) (.cons (.pattern _ _)
      (.cons (.function _ _) (.nil _ _)))
  exact freshRegistry_reachable.gives_answering rfl (.root rfl rfl hmembers.run_skeleton (.nil _) rfl)
    (.refl _) rfl rfl rfl depth args

/-! ### Mixins and shared members -/

/-- A class that declares one method, and has neither mixins nor shared members. -/
def classOf (path : String) (parent? : Option String) (lineage : List String) (skeleton : Skeleton)
    (references : List Value) (body : ClassBody) : ClassDefinition where
  path := path
  name := ClassPath.shortName path
  parent? := parent?
  mixins := []
  implemented := []
  isAbstract := false
  skeleton := skeleton
  references := ⟨references⟩
  shared := []
  lineage := lineage
  ancestorNames := lineage.map ClassPath.shortName
  overrideChains := overrideChains (lineage.map ClassPath.shortName) skeleton
  body := body
  ownReferences := 1

/-- The first mixin. -/
def observable (listeners : Handle .array) (on : Handle .function) : ClassDefinition :=
  classOf "Bench.Observable" none ["Bench.Observable"]
    [(.plain "listeners", .emptyArray), (.plain "on", .function 0)] [.function on]
    ⟨[("listeners", .array listeners), ("on", .function on)]⟩

/-- The second mixin. -/
def serializable (serialize : Handle .function) : ClassDefinition :=
  classOf "Bench.Serializable" none ["Bench.Serializable"]
    [(.plain "format", .text "json"), (.plain "serialize", .function 0)] [.function serialize]
    ⟨[("format", .text "json"), ("serialize", .function serialize)]⟩

theorem parse_mixins {s : Store} {mixins : Handle .array} (attributes : Handle .object)
    (h : s.array mixins = [.text "Bench.Observable", .text "Bench.Serializable"]) :
    Directives.parse s "Bench.Model"
        ⟨[(Directive.mixins.name, .array mixins), ("attributes", .object attributes)]⟩
      = .ok { Directives.none with mixins := ["Bench.Observable", "Bench.Serializable"] } := by
  have htexts : Directives.texts? (s.array mixins) = some ["Bench.Observable", "Bench.Serializable"] := by
    rw [h]
    rfl
  rw [Directives.parse, Directives.names_of_array rfl htexts]
  rfl

theorem mixinComposition_sound : mixinComposition.Sound depth args := by
  intro w
  -- first the two mixins, each defined in the registry that the one before has left
  refine gives_bind (gives_array fun listeners w₁ _ hlisteners hempty => ?_)
  refine gives_bind (gives_method fun on w₂ h₂ _ _ => ?_)
  replace hempty := (h₂.array_eq hlisteners).trans hempty
  have hmembers : ClassifiedMembers w₂.store true [("listeners", .array listeners), ("on", .function on)]
      [] .empty _ _ := .cons (.emptyArray hempty _) (.cons (.function _ _) (.nil _ _))
  refine gives_bind ?_
  refine freshRegistry_reachable.gives_define (c := observable listeners on) rfl
    (.root rfl rfl hmembers.run_skeleton (.nil _) rfl) (.refl _) rfl rfl rfl rfl fun k₁ w₃ hfirst => ?_
  have hr₁ := freshRegistry_reachable.of_define hfirst.run_define
  refine gives_bind (gives_method fun serialize w₄ _ _ _ => ?_)
  refine gives_bind ?_
  refine hr₁.gives_define (c := serializable serialize) rfl (.root rfl rfl rfl (.nil _) rfl) (.refl _)
    rfl rfl rfl rfl fun k₂ w₅ hsecond => ?_
  have hr₂ := hr₁.of_define hsecond.run_define
  -- then the class, whose directives are read from an array that is there by now
  refine gives_bind (gives_array fun mixins w₆ _ hmixins hpaths => ?_)
  refine gives_bind (gives_object fun attributes w₇ h₇ _ hnone => ?_)
  have hparsed := parse_mixins attributes ((h₇.array_eq hmixins).trans hpaths)
  have hmembers : ClassifiedMembers w₇.store true [("attributes", .object attributes)] [] .empty _ _ :=
    .cons (.object_of_eq hnone (.nil _ _)) (.nil _ _)
  exact hr₂.gives_answering rfl
    (.root hparsed rfl hmembers.run_skeleton (.cons rfl rfl (.cons rfl rfl (.nil _))) rfl) (.refl _)
    rfl rfl rfl depth args

/-- The class with a shared member. -/
def cached (cache : Handle .object) : ClassDefinition where
  path := "Bench.Cached"
  name := "Cached"
  parent? := none
  mixins := []
  implemented := []
  isAbstract := false
  skeleton := [(.plain "hits", .literal (whole 0))]
  references := .empty
  shared := [("cache", .object cache)]
  lineage := ["Bench.Cached"]
  ancestorNames := ["Cached"]
  overrideChains := []
  body := ⟨[(Directive.shared.name, .text "cache"), ("cache", .object cache), ("hits", whole 0)]⟩
  ownReferences := 0

theorem sharedMembers_sound : sharedMembers.Sound depth args := by
  intro w
  refine gives_bind (gives_object fun cache w₁ _ _ _ => ?_)
  refine gives_bind ?_
  refine freshRegistry_reachable.gives_define (c := cached cache) rfl
    (.root rfl rfl rfl (.nil _) rfl) (.refl _) rfl rfl rfl rfl fun k₁ w₂ hfirst => ?_
  have hr₁ := freshRegistry_reachable.of_define hfirst.run_define
  exact hr₁.gives_answering rfl (.child rfl rfl rfl rfl rfl rfl rfl)
    (within_composeShared_of_undeclared rfl w₂) rfl rfl rfl depth args

/-! ### A chain of initializers -/

section Levels

variable (f₀ f₁ f₂ f₃ : Handle .function) (tags : Handle .array)

/-- The class at the top of the chain. -/
def level0 : ClassDefinition :=
  classOf "Bench.Level0" none ["Bench.Level0"]
    [(.plain "depth", .literal (whole 0)), (.plain "init", .function 0)] [.function f₀]
    ⟨[("depth", whole 0), ("init", .function f₀)]⟩

/-- The class below it, which keeps its initializer. -/
def level1 : ClassDefinition :=
  classOf "Bench.Level1" (some "Bench.Level0") ["Bench.Level0", "Bench.Level1"]
    [(.plain "first", .literal .null), (.plain "init", .function 1), (.plain "depth", .literal (whole 0)),
      (.aliased "Level0" "init", .function 0)]
    [.function f₀, .function f₁] (childOf "Bench.Level0" [("first", .null), ("init", .function f₁)])

/-- The class below that one, which keeps two initializers. -/
def level2 : ClassDefinition :=
  classOf "Bench.Level2" (some "Bench.Level1") ["Bench.Level0", "Bench.Level1", "Bench.Level2"]
    [(.plain "tags", .emptyArray), (.plain "init", .function 2), (.plain "first", .literal .null),
      (.aliased "Level1" "init", .function 1), (.plain "depth", .literal (whole 0)),
      (.aliased "Level0" "init", .function 0)]
    [.function f₀, .function f₁, .function f₂]
    (childOf "Bench.Level1" [("tags", .array tags), ("init", .function f₂)])

/-- The class at the bottom, which keeps three. -/
def level3 : ClassDefinition :=
  classOf "Bench.Level3" (some "Bench.Level2")
    ["Bench.Level0", "Bench.Level1", "Bench.Level2", "Bench.Level3"]
    [(.plain "init", .function 3), (.plain "tags", .emptyArray), (.aliased "Level2" "init", .function 2),
      (.plain "first", .literal .null), (.aliased "Level1" "init", .function 1),
      (.plain "depth", .literal (whole 0)), (.aliased "Level0" "init", .function 0)]
    [.function f₀, .function f₁, .function f₂, .function f₃]
    (childOf "Bench.Level2" [("init", .function f₃)])

/-- All four, from the bottom up. -/
def levels : List ClassDefinition := [level3 f₀ f₁ f₂ f₃, level2 f₀ f₁ f₂ tags, level1 f₀ f₁, level0 f₀]

theorem name_level0 : (level0 f₀).name = "Level0" := (rfl : ClassPath.shortName "Bench.Level0" = "Level0")

theorem name_level1 : (level1 f₀ f₁).name = "Level1" :=
  (rfl : ClassPath.shortName "Bench.Level1" = "Level1")

theorem name_level2 : (level2 f₀ f₁ f₂ tags).name = "Level2" :=
  (rfl : ClassPath.shortName "Bench.Level2" = "Level2")

theorem name_level3 : (level3 f₀ f₁ f₂ f₃).name = "Level3" :=
  (rfl : ClassPath.shortName "Bench.Level3" = "Level3")

end Levels

/-- Whether a class is plain is told by its short name and by the names of its members. -/
theorem plain_of_names {c : ClassDefinition} {name : String} {members : List String} (hname : c.name = name)
    (hmembers : Assoc.keys c.body.entries = members)
    (hfree : ∀ n ∈ name :: members, MemberKey.separator ∉ n.toList) (hnodup : members.Nodup) : c.Plain := by
  subst hname hmembers
  rw [List.forall_mem_cons] at hfree
  exact ⟨hfree.1, hfree.2, hnodup⟩

variable {f₀ f₁ f₂ f₃ : Handle .function} {tags : Handle .array}

/-- The classes are a chain of each registry that has them. -/
theorem chain_levels {r : Registry} (h₃ : r.definition? "Bench.Level3" = some (level3 f₀ f₁ f₂ f₃))
    (h₂ : r.definition? "Bench.Level2" = some (level2 f₀ f₁ f₂ tags))
    (h₁ : r.definition? "Bench.Level1" = some (level1 f₀ f₁))
    (h₀ : r.definition? "Bench.Level0" = some (level0 f₀)) : r.Chain (levels f₀ f₁ f₂ f₃ tags) := by
  refine .child h₃ ?_ rfl (.child h₂ ?_ rfl (.child h₁ ?_ rfl (.root h₀ ?_ rfl)))
  · exact plain_of_names (name_level3 f₀ f₁ f₂ f₃) (rfl : _ = ["Extends", "init"]) (by decide) (by decide)
  · exact plain_of_names (name_level2 f₀ f₁ f₂ tags) (rfl : _ = ["Extends", "tags", "init"]) (by decide)
      (by decide)
  · exact plain_of_names (name_level1 f₀ f₁) (rfl : _ = ["Extends", "first", "init"]) (by decide)
      (by decide)
  · exact plain_of_names (name_level0 f₀) (rfl : _ = ["depth", "init"]) (by decide) (by decide)

/-- Each initializer but the topmost forwards to the one above it. -/
theorem forwarding_levels {s : Store} (h₃ : ForwardsTo "init" (some "Level2") (s.function f₃).body)
    (h₂ : ForwardsTo "init" (some "Level1") (s.function f₂).body)
    (h₁ : ForwardsTo "init" (some "Level0") (s.function f₁).body)
    (h₀ : ForwardsTo "init" none (s.function f₀).body) : Forwarding s "init" (levels f₀ f₁ f₂ f₃ tags) := by
  refine .declared rfl ?_ (.declared rfl ?_ (.declared rfl ?_ (.declared rfl h₀ .nil)))
  · rwa [keptOwner?_of_present rfl, name_level2]
  · rwa [keptOwner?_of_present rfl, name_level1]
  · rwa [keptOwner?_of_present rfl, name_level0]

/-- A new initializer forwards to what its code forwards to. -/
theorem gives_initializer {owner? : Option String} {code : List Statement}
    (hcode : ForwardsTo "init" owner? code) {Q : String × Value → World → Prop}
    (h : ∀ f u, w.store.Within u.store → u.store.functions.Has f →
      ForwardsTo "init" owner? (u.store.function f).body → Q ("init", .function f) u) :
    (method "init" code).Gives w Q := by
  refine gives_method fun f u hu hf hbody => h f u hu hf ?_
  rw [hbody]
  exact hcode

theorem deepInheritance_sound : deepInheritance.Sound (depth + 4) args := by
  intro w
  refine gives_bind (gives_initializer (.direct (by decide)) fun f₀ w₀ _ hf₀ hcode₀ => ?_)
  refine gives_bind ?_
  refine freshRegistry_reachable.gives_define (c := level0 f₀) rfl (.root rfl rfl rfl (.nil _) rfl)
    (.refl _) rfl rfl rfl rfl fun k₀ u₀ h₀ => ?_
  have hr₀ := freshRegistry_reachable.of_define h₀.run_define
  refine gives_bind (gives_initializer (.before (by decide)) fun f₁ w₁ hw₁ hf₁ hcode₁ => ?_)
  refine gives_bind ?_
  refine hr₀.gives_define (c := level1 f₀ f₁) rfl (.child rfl rfl rfl rfl (name_level0 f₀) rfl rfl)
    (within_composeShared_of_undeclared rfl w₁) rfl rfl rfl rfl fun k₁ u₁ h₁ => ?_
  have hr₁ := hr₀.of_define h₁.run_define
  refine gives_bind (gives_array fun tags v₁ hv₁ htags hempty => ?_)
  refine gives_bind (gives_initializer (.before (by decide)) fun f₂ w₂ hw₂ hf₂ hcode₂ => ?_)
  replace hempty := (hw₂.array_eq htags).trans hempty
  have hmembers : ClassifiedMembers w₂.store true [("tags", .array tags), ("init", .function f₂)] []
      ⟨[.function f₀, .function f₁]⟩ _ _ := .cons (.emptyArray hempty _) (.cons (.function _ _) (.nil _ _))
  refine gives_bind ?_
  refine hr₁.gives_define (c := level2 f₀ f₁ f₂ tags) rfl
    (.child rfl rfl rfl hmembers.run_skeleton (name_level1 f₀ f₁) rfl rfl)
    (within_composeShared_of_undeclared rfl w₂) rfl rfl rfl rfl fun k₂ u₂ h₂ => ?_
  have hr₂ := hr₁.of_define h₂.run_define
  refine gives_bind (gives_initializer .ending fun f₃ w₃ hw₃ hf₃ hcode₃ => ?_)
  refine hr₂.gives_define (c := level3 f₀ f₁ f₂ f₃) rfl
    (.child rfl rfl rfl rfl (name_level2 f₀ f₁ f₂ tags) rfl rfl)
    (within_composeShared_of_undeclared rfl w₃) rfl rfl rfl rfl fun k₃ u₃ h₃ => ?_
  have hr₃ := hr₂.of_define h₃.run_define
  -- the functions have not changed since they were made
  have hlast : w₃.store.Within u₃.store := h₃.within
  have hthird : w₂.store.Within u₃.store := h₂.within.trans (hw₃.trans hlast)
  have hsecond : w₁.store.Within u₃.store := h₁.within.trans (hv₁.trans (hw₂.trans hthird))
  have hfirst : w₀.store.Within u₃.store := h₀.within.trans (hw₁.trans hsecond)
  have hcode : Forwarding u₃.store "init" (levels f₀ f₁ f₂ f₃ tags) := by
    refine forwarding_levels ?_ ?_ ?_ ?_
    · rwa [hlast.function_eq hf₃]
    · rwa [hthird.function_eq hf₂]
    · rwa [hsecond.function_eq hf₁]
    · rwa [hfirst.function_eq hf₀]
  intro v hv
  have hforwarding : Forwarding v.store "init" (levels f₀ f₁ f₂ f₃ tags) := by
    simp only [Forwarding, Store.function, hv.functions]
    exact hcode
  have hunpatched := (Registry.unpatched_of_define h₃.run_define rfl rfl).congr hv.prototypes
  exact hr₃.construct_answers (chain_levels rfl rfl rfl rfl) (by decide) hforwarding
    (List.cons_ne_nil _ _) rfl rfl rfl hunpatched (Nat.le_add_left 4 depth) args

/-! ### All benchmarks -/

theorem benchmarksBy_sound {accepts : String → Bool} (haccepts : accepts rowSource = true) :
    ∀ b ∈ benchmarksBy accepts, b.Sound (depth + 4) := by
  simp only [benchmarksBy, List.forall_mem_cons]
  exact ⟨literalMembers_sound, inlineArrays_sound, nestedObjects_sound, referenceMembers_sound haccepts,
    deepInheritance_sound, mixinComposition_sound, sharedMembers_sound, List.forall_mem_nil _⟩

/-- With a library that accepts the pattern of rows, the outcomes of what is left of the suite are successes. -/
theorem run_suiteBy {accepts : String → Bool} (haccepts : accepts rowSource = true) (parts : List String)
    (n runs depth : Nat) (w : World) :
    (((parts.foldl Suite.filter (suiteBy accepts)).withIterations n).runMultiple (depth + 4) runs w).1 =
      ((suiteBy accepts).benchmarks.filter fun b =>
          decide (∀ part ∈ parts, part.toList <:+: b.name.toList)).map
        fun b => ⟨b.name, b.description, n, none⟩ :=
  Suite.runMultiple_filtered (benchmarksBy_sound haccepts) parts n runs w

/-- The micro-benchmarks never fail, where calls may be nested four levels deep.  Whatever they are filtered
by, however many instances each constructs and however often they are run, there is one outcome for each
benchmark whose name contains all of the texts, in the order of the suite, and it is a success. -/
theorem suite_never_fails (parts : List String) (n runs depth : Nat) (w : World) :
    (((parts.foldl Suite.filter suite).withIterations n).runMultiple (depth + 4) runs w).1.map
        (fun o => (o.name, o.iterations, o.success, o.error?)) =
      (suite.benchmarks.filter fun b => decide (∀ part ∈ parts, part.toList <:+: b.name.toList)).map
        fun b => (b.name, n, true, none) := by
  have hsource : Pattern.isWellFormed rowSource = true := rfl
  rw [suite, run_suiteBy hsource, List.map_map]
  rfl

end Micro

end ClassComposition
