import ClassComposition.Proofs.Class.Composition
import ClassComposition.Registry.Basic

/-!
# Reachable registries

A registry starts empty and changes by three operations, any of which may fail and then changes nothing.
Between two operations a program may do with the store whatever it likes, so each of them is performed in
a world of its own.  The classes of a reachable registry were compiled one after the other, each against
those before it, and that is all the statements about them need.

## Main definitions

* `Registry.Operation`, `Registry.perform` — the operations and what they leave.
* `Registry.Reachable` — the registries that operations lead to.
* `Compiled` — classes compiled one after the other.

## Main results

* `Registry.Reachable.compiled` — the classes of a reachable registry were compiled so.
* `Registry.Reachable.constructor_built` — the constructor of a class was built from it.
* `Registry.Reachable.shortName_ne_empty` — every class has a name.
* `Compiled.holds` — what every compilation hands on from the classes before it holds of all classes.
-/

namespace ClassComposition

/-! ### Classes in order of definition -/

/-- Classes compiled one after the other, each under a new path against those before it. -/
inductive Compiled (config : Config) : Assoc String ClassDefinition → Prop
  | nil : Compiled config []
  | snoc {classes : Assoc String ClassDefinition} {path : String} {body : ClassBody} {w : World}
      (earlier : Compiled config classes) (fresh : Assoc.get? classes path = none)
      (k : ClassDefinition.Composition config classes path body w) :
      Compiled config (classes ++ [(path, k.definition)])

namespace Compiled

variable {config : Config} {classes : Assoc String ClassDefinition}

theorem get?_snoc {path p : String} {c d : ClassDefinition}
    (h : Assoc.get? (classes ++ [(path, d)]) p = some c) :
    Assoc.get? classes p = some c ∨ (path = p ∧ d = c) := by
  rw [Assoc.get?_append] at h
  rcases hbefore : Assoc.get? classes p with _ | c'
  · rw [hbefore, Option.none_or, Assoc.get?] at h
    by_cases hp : path = p
    · rw [if_pos hp] at h
      cases h
      exact .inr ⟨hp, rfl⟩
    · rw [if_neg hp] at h
      cases h
  · rw [hbefore, Option.some_or] at h
    exact .inl h

/-- What every compilation hands on from the classes before it, and what is not lost when classes are
added, holds of all classes. -/
theorem holds {P : Assoc String ClassDefinition → ClassDefinition → Prop}
    (step : ∀ {classes path body w}, Compiled config classes → Assoc.get? classes path = none →
      (∀ p c, Assoc.get? classes p = some c → P classes c) →
      ∀ k : ClassDefinition.Composition config classes path body w,
        P (classes ++ [(path, k.definition)]) k.definition)
    (extend : ∀ {classes path c d}, P classes c → P (classes ++ [(path, d)]) c)
    (h : Compiled config classes) {p : String} {c : ClassDefinition}
    (hc : Assoc.get? classes p = some c) : P classes c := by
  induction h generalizing p c with
  | nil => cases hc
  | snoc earlier fresh k ih =>
    rcases get?_snoc hc with hbefore | ⟨-, rfl⟩
    · exact extend (ih hbefore)
    · exact step earlier fresh (fun p c hc => ih hc) k

/-- What is said of a class by itself is not lost when classes are added. -/
theorem holds_each {P : ClassDefinition → Prop}
    (step : ∀ {classes path body w}, Compiled config classes →
      (∀ p c, Assoc.get? classes p = some c → P c) →
      ∀ k : ClassDefinition.Composition config classes path body w, P k.definition)
    (h : Compiled config classes) {p : String} {c : ClassDefinition}
    (hc : Assoc.get? classes p = some c) : P c :=
  h.holds (P := fun _ c => P c) (fun hcompiled _ hclasses k => step hcompiled hclasses k) id hc

/-- A class that is found was compiled under the path it is found at, against classes that are still
there. -/
theorem exists_composition (h : Compiled config classes) {p : String} {c : ClassDefinition}
    (hc : Assoc.get? classes p = some c) :
    ∃ (before : Assoc String ClassDefinition) (body : ClassBody) (w : World)
      (k : ClassDefinition.Composition config before p body w),
      Compiled config before ∧ c = k.definition ∧ Assoc.get? before p = none ∧
      ∀ q d, Assoc.get? before q = some d → Assoc.get? classes q = some d := by
  induction h generalizing p c with
  | nil => cases hc
  | @snoc classes path body w earlier fresh k ih =>
    have kept : ∀ {q d}, Assoc.get? classes q = some d →
        Assoc.get? (classes ++ [(path, k.definition)]) q = some d := by
      intro q d hd
      rw [Assoc.get?_append, hd, Option.some_or]
    rcases get?_snoc hc with hbefore | ⟨rfl, rfl⟩
    · obtain ⟨before, body', w', k', hcompiled, hdef, hfresh, hkept⟩ := ih hbefore
      exact ⟨before, body', w', k', hcompiled, hdef, hfresh, fun q d hd => kept (hkept q d hd)⟩
    · exact ⟨classes, body, w, k, earlier, rfl, fresh, fun q d hd => kept hd⟩

theorem path_eq (h : Compiled config classes) {p : String} {c : ClassDefinition}
    (hc : Assoc.get? classes p = some c) : c.path = p := by
  obtain ⟨before, body, w, k, -, rfl, -⟩ := h.exists_composition hc
  rfl

theorem name_eq (h : Compiled config classes) {p : String} {c : ClassDefinition}
    (hc : Assoc.get? classes p = some c) : c.name = ClassPath.shortName p := by
  obtain ⟨before, body, w, k, -, rfl, -⟩ := h.exists_composition hc
  rfl

/-- The names along the inheritance chain are the last segments of the paths along it. -/
theorem ancestorNames_eq (h : Compiled config classes) {p : String} {c : ClassDefinition}
    (hc : Assoc.get? classes p = some c) : c.ancestorNames = c.lineage.map ClassPath.shortName := by
  refine h.holds_each (P := fun c => c.ancestorNames = c.lineage.map ClassPath.shortName) ?_ hc
  intro classes path body w _ hclasses k
  have hparent : ∀ parent, k.parent? = some parent →
      parent.ancestorNames = parent.lineage.map ClassPath.shortName :=
    fun parent => k.holds_of_parent hclasses
  rw [ClassDefinition.Composition.definition, List.map_append]
  cases hfound : k.parent? with
  | none => rfl
  | some parent => exact congrArg (· ++ [ClassPath.shortName path]) (hparent parent hfound)

theorem overrideChains_eq (h : Compiled config classes) {p : String} {c : ClassDefinition}
    (hc : Assoc.get? classes p = some c) :
    c.overrideChains = overrideChains c.ancestorNames c.skeleton := by
  obtain ⟨before, body, w, k, -, rfl, -⟩ := h.exists_composition hc
  rfl

end Compiled

/-! ### Operations -/

namespace Registry

/-- The operations that change a registry. -/
inductive Operation
  /-- Add a root namespace. -/
  | addRoot (name : String)
  /-- Define a class. -/
  | define (path : String) (body : ClassBody)
  /-- Register a constructor from outside. -/
  | addConstructor (path : String) (k : Constructor)

/-- The registry after an operation in a world; one that fails leaves it as it was. -/
def perform (r : Registry) (w : World) : Operation → Registry
  | .addRoot name => r.addRoot name
  | .define path body =>
    match (r.define path body).run w with
    | (.ok (_, after), _) => after
    | (.error _, _) => r
  | .addConstructor path k =>
    match r.addConstructor path k with
    | .ok after => after
    | .error _ => r

/-- The registries that operations lead to. -/
inductive Reachable (config : Config) : Registry → Prop
  | empty : Reachable config (.empty config)
  | perform {r : Registry} (before : Reachable config r) (w : World) (operation : Operation) :
      Reachable config (r.perform w operation)

variable {r after : Registry} {path : String} {body : ClassBody} {w w' : World} {k : Constructor}

/-- A definition that succeeds finds a place for the class, compiles it, builds its constructor and
publishes both. -/
theorem define_eq_ok (h : (r.define path body).run w = (.ok (k, after), w')) :
    ∃ root space below c w₁ w₂, r.place path = .ok (root, space, below) ∧
      (ClassDefinition.compile r.config r.classes path body).run w = (.ok c, w₁) ∧
      (Constructor.build r.config c).run w₁ = (.ok k, w₂) ∧
      after = r.publish c k root space below ∧ w'.store = w₂.store := by
  unfold define at h
  rw [Action.run_bind_eq_ok] at h
  obtain ⟨⟨root, space, below⟩, w₀, hplace, h⟩ := h
  obtain ⟨hplaced, rfl⟩ := Action.run_ofExcept_eq_ok.mp hplace
  dsimp only at h
  rw [Action.run_bind_eq_ok] at h
  obtain ⟨c, w₁, hcompile, h⟩ := h
  rw [Action.run_bind_eq_ok] at h
  obtain ⟨k', w₂, hbuild, h⟩ := h
  rw [Action.run_bind_eq_ok] at h
  obtain ⟨_, w₃, hrecord, h⟩ := h
  rw [Action.run_record] at hrecord
  cases hrecord
  cases h
  exact ⟨root, space, below, c, w₁, w₂, hplaced, hcompile, hbuild, rfl, rfl⟩

theorem split_of_place {place : String × Namespace × List String} (h : r.place path = .ok place) :
    ∃ parts, ClassPath.split path = .ok parts := by
  unfold Registry.place at h
  by_cases htaken : (r.hasClass path || r.hasConstructor path) = true
  · rw [if_pos htaken] at h
    cases h
  · rw [if_neg htaken] at h
    obtain ⟨parts, hparts, -⟩ := bind_eq_ok.mp h
    exact ⟨parts, hparts⟩

/-- A place is only given to a path that has neither a class nor a constructor. -/
theorem fresh_of_place {place : String × Namespace × List String} (h : r.place path = .ok place) :
    Assoc.get? r.classes path = none ∧ Assoc.get? r.constructors path = none := by
  unfold Registry.place at h
  by_cases htaken : (r.hasClass path || r.hasConstructor path) = true
  · rw [if_pos htaken] at h
    cases h
  · rw [Bool.or_eq_true, not_or] at htaken
    obtain ⟨hclass, hconstructor⟩ := htaken
    rw [hasClass, Assoc.contains_iff, ← Assoc.get?_eq_none_iff] at hclass
    rw [hasConstructor, Assoc.contains_iff, ← Assoc.get?_eq_none_iff] at hconstructor
    exact ⟨hclass, hconstructor⟩

/-- A definition that succeeds adds the class that the stages of its compilation give, and a constructor
that was built from it in the store that the compilation left. -/
theorem composition_of_define (h : (r.define path body).run w = (.ok (k, after), w')) :
    ∃ (c : ClassDefinition.Composition r.config r.classes path body w) (w₁ w₂ : World),
      w₁.store = c.world.store ∧
      (Constructor.build r.config c.definition).run w₁ = (.ok k, w₂) ∧ w'.store = w₂.store ∧
      Assoc.get? r.classes path = none ∧ after.config = r.config ∧
      after.classes = r.classes ++ [(path, c.definition)] ∧
      after.constructors = Assoc.insert r.constructors path k := by
  obtain ⟨root, space, below, d, w₁, w₂, hplaced, hcompile, hbuild, rfl, hstore⟩ := define_eq_ok h
  obtain ⟨c, rfl, hworld⟩ := ClassDefinition.exists_composition hcompile
  obtain ⟨hclass, hconstructor⟩ := fresh_of_place hplaced
  have hnew : path ∉ Assoc.keys r.classes := (Assoc.get?_eq_none_iff _ _).mp hclass
  exact ⟨c, w₁, w₂, hworld, hbuild, hstore, hclass, rfl, Assoc.insert_of_notMem hnew _, rfl⟩

theorem config_addRoot (name : String) : (r.addRoot name).config = r.config := by
  unfold addRoot
  split <;> rfl

theorem classes_addRoot (name : String) : (r.addRoot name).classes = r.classes := by
  unfold addRoot
  split <;> rfl

theorem constructors_addRoot (name : String) :
    (r.addRoot name).constructors = r.constructors := by
  unfold addRoot
  split <;> rfl

/-- A constructor is registered only for a path without a class, and nothing else changes. -/
theorem addConstructor_eq_ok (h : r.addConstructor path k = .ok after) :
    Assoc.get? r.classes path = none ∧
      after = { r with constructors := Assoc.insert r.constructors path k } := by
  unfold addConstructor at h
  by_cases hclass : r.hasClass path = true
  · rw [if_pos hclass] at h
    cases h
  · rw [if_neg hclass] at h
    cases h
    rw [hasClass, Assoc.contains_iff, ← Assoc.get?_eq_none_iff] at hclass
    exact ⟨hclass, rfl⟩

/-- What holds before an operation and is kept by those that succeed holds after it. -/
theorem perform_holds {P : Registry → Prop} (operation : Operation) (hr : P r)
    (addRoot : ∀ name, P (r.addRoot name))
    (define : ∀ path body k after w', (r.define path body).run w = (.ok (k, after), w') → P after)
    (addConstructor : ∀ path k after, r.addConstructor path k = .ok after → P after) :
    P (r.perform w operation) := by
  cases operation with
  | addRoot name => exact addRoot name
  | define path body =>
    rw [Registry.perform]
    rcases hd : (r.define path body).run w with ⟨e | ⟨k, after⟩, w'⟩
    · exact hr
    · exact define path body k after w' hd
  | addConstructor path k =>
    rw [Registry.perform]
    rcases ha : r.addConstructor path k with e | after
    · exact hr
    · exact addConstructor path k after ha

/-- What holds of the empty registry and is kept by an operation that succeeds holds of all reachable
registries. -/
theorem Reachable.invariant {config : Config} {P : Registry → Prop} (empty : P (.empty config))
    (addRoot : ∀ r name, Reachable config r → P r → P (r.addRoot name))
    (define : ∀ r path body w k after w', Reachable config r → P r →
      (r.define path body).run w = (.ok (k, after), w') → P after)
    (addConstructor : ∀ r path k after, Reachable config r → P r →
      r.addConstructor path k = .ok after → P after)
    {r : Registry} (hr : Reachable config r) : P r := by
  induction hr with
  | empty => exact empty
  | @perform r before w operation ih =>
    refine perform_holds operation ih ?_ ?_ ?_
    · intro name
      exact addRoot r name before ih
    · intro path body k after w' h
      exact define r path body w k after w' before ih h
    · intro path k after h
      exact addConstructor r path k after before ih h

theorem Reachable.config_eq {config : Config} {r : Registry} (hr : Reachable config r) :
    r.config = config := by
  refine hr.invariant (P := fun r => r.config = config) rfl ?_ ?_ ?_
  · intro r name _ ih
    rw [config_addRoot, ih]
  · intro r path body w k after w' _ ih h
    obtain ⟨c, w₁, w₂, -, -, -, -, hconfig, -⟩ := composition_of_define h
    rw [hconfig, ih]
  · intro r path k after _ ih h
    obtain ⟨-, rfl⟩ := addConstructor_eq_ok h
    exact ih

/-- The classes of a reachable registry were compiled one after the other. -/
theorem Reachable.compiled {config : Config} {r : Registry} (hr : Reachable config r) :
    Compiled config r.classes := by
  refine hr.invariant (P := fun r => Compiled config r.classes) .nil ?_ ?_ ?_
  · intro r name _ ih
    rw [classes_addRoot]
    exact ih
  · intro r path body w k after w' before ih h
    obtain ⟨c, w₁, w₂, -, -, -, hfresh, -, hclasses, -⟩ := composition_of_define h
    rw [hclasses]
    obtain rfl := before.config_eq
    exact .snoc ih hfresh c
  · intro r path k after _ ih h
    obtain ⟨-, rfl⟩ := addConstructor_eq_ok h
    exact ih

/-- Every class has a name: none was defined under a path whose last segment is empty. -/
theorem Reachable.shortName_ne_empty {config : Config} {r : Registry} (hr : Reachable config r) :
    ∀ {path c}, r.definition? path = some c → ClassPath.shortName path ≠ "" := by
  refine hr.invariant
    (P := fun r => ∀ {path c}, r.definition? path = some c → ClassPath.shortName path ≠ "") ?_ ?_ ?_ ?_
  · intro path c hc
    cases hc
  · intro r name _ ih path c hc
    rw [definition?, classes_addRoot] at hc
    exact ih hc
  · intro r path body w k after w' before ih h p c hc
    obtain ⟨root, space, below, d, w₁, w₂, hplaced, -⟩ := define_eq_ok h
    obtain ⟨d, w₁, w₂, -, -, -, -, -, hclasses, -⟩ := composition_of_define h
    rw [definition?, hclasses] at hc
    rcases Compiled.get?_snoc hc with hbefore | ⟨rfl, -⟩
    · exact ih hbefore
    · -- a path that could be placed was split, and no segment of a split path is empty
      obtain ⟨parts, hparts⟩ := split_of_place hplaced
      exact ClassPath.shortName_ne_empty hparts
  · intro r path k after _ ih h p c hc
    obtain ⟨-, rfl⟩ := addConstructor_eq_ok h
    exact ih hc

theorem Reachable.name_ne_empty {config : Config} {r : Registry} (hr : Reachable config r) {path : String}
    {c : ClassDefinition} (hc : r.definition? path = some c) : c.name ≠ "" := by
  rw [hr.compiled.name_eq hc]
  exact hr.shortName_ne_empty hc

/-- The constructor of a class is the one that was built from it. -/
theorem Reachable.constructor_built {config : Config} {r : Registry} (hr : Reachable config r) :
    ∀ {path c}, r.definition? path = some c →
      ∃ k w w', Assoc.get? r.constructors path = some k ∧
        (Constructor.build config c).run w = (.ok k, w') := by
  refine hr.invariant (P := fun r => ∀ {path c}, r.definition? path = some c →
    ∃ k w w', Assoc.get? r.constructors path = some k ∧
      (Constructor.build config c).run w = (.ok k, w')) ?_ ?_ ?_ ?_
  · intro path c hc
    cases hc
  · intro r name _ ih path c hc
    rw [definition?, classes_addRoot] at hc
    rw [constructors_addRoot]
    exact ih hc
  · intro r path body w k after w' before ih h p c hc
    obtain ⟨d, w₁, w₂, -, hbuild, -, hfresh, -, hclasses, hconstructors⟩ := composition_of_define h
    obtain rfl := before.config_eq
    rw [hconstructors, Assoc.get?_insert]
    rw [definition?, hclasses] at hc
    -- the class was there before, under another path than the new one, or it is the new one
    rcases Compiled.get?_snoc hc with hbefore | ⟨rfl, rfl⟩
    · have hne : path ≠ p := by
        rintro rfl
        rw [hfresh] at hbefore
        cases hbefore
      rw [if_neg hne]
      exact ih hbefore
    · rw [if_pos rfl]
      exact ⟨k, w₁, w₂, rfl, hbuild⟩
  · intro r path k after _ ih h p c hc
    obtain ⟨hfresh, rfl⟩ := addConstructor_eq_ok h
    have hne : path ≠ p := by
      rintro rfl
      rw [definition?, hfresh] at hc
      cases hc
    rw [Assoc.get?_insert, if_neg hne]
    exact ih hc

end Registry

/-! ### A small family of classes

A parent, a mixin and a class that extends the one and implements the other.  All three hold an object
under one name, and the class overrides a method of its parent. -/

namespace Sample

/-- Three functions, an array that is not simple, and the objects of the three classes. -/
def world : World where
  store := { Store.empty with
    functions := ⟨#[⟨some "base", [.answer (.literal (.text "base"))]⟩,
      ⟨some "leaf", [.answer (.literal (.text "leaf"))]⟩,
      ⟨some "mix", [.answer (.literal (.text "mix"))]⟩]⟩
    arrays := ⟨#[[.function ⟨0⟩]]⟩
    objects := ⟨#[[("list", .array ⟨0⟩), ("size", .null)], [("extra", .function ⟨2⟩)],
      [("own", .function ⟨1⟩)]]⟩ }
  journal := []

/-- The registry with the parent and the mixin. -/
def before : Registry :=
  (((Registry.empty .standard).perform world (.addRoot "Ns")).perform world
    (.define "Ns.Base" ⟨[("run", .function ⟨0⟩), ("options", .object ⟨0⟩)]⟩)).perform world
    (.define "Ns.Mix" ⟨[("mix", .function ⟨2⟩), ("options", .object ⟨1⟩)]⟩)

/-- The body of the class that extends the one and implements the other. -/
def leaf : ClassBody :=
  ⟨[("Extends", .text "Ns.Base"), ("Implements", .text "Ns.Mix"), ("run", .function ⟨1⟩),
    ("options", .object ⟨2⟩)]⟩

/-- The registry with all three. -/
def registry : Registry := before.perform world (.define "Ns.Leaf" leaf)

theorem before_reachable : before.Reachable .standard :=
  ((Registry.Reachable.empty.perform _ _).perform _ _).perform _ _

theorem reachable : registry.Reachable .standard := before_reachable.perform _ _

/-- A class of the registry. -/
def definition (path : String) : ClassDefinition := (registry.definition? path).getD default

end Sample

end ClassComposition
