import ClassComposition.Proofs.Class.Methods

/-!
# Inherited aliases

A class inherits the aliases of its parent with its other methods.  The merge that brings them in writes
aliases of its own while it goes through the parent's members, and an alias that it has written is then
taken for a member of the class.  So where the parent has a method under the very alias that the merge
writes for another of its methods, and comes to that one first, the alias of the class stands for the
other method, and the function that the parent has under it moves to an alias of the alias.  Nothing else
displaces an alias that the class does not declare.

## Main definitions

* `ClassDefinition.Displaces` — a method of the parent takes an alias of the parent in the class.

## Main results

* `Registry.Reachable.alias_retained_iff` — the aliases that stand for what they stand for in the parent.
-/

namespace ClassComposition

open MemberDescriptor

namespace ClassDefinition

/-! ### Displaced aliases -/

/-- The parent's method under `key` displaces what the parent has under an alias: the class overrides it,
and keeps it under that alias. -/
def Displaces (c parent : ClassDefinition) (key : MemberKey) (g : Handle .function)
    (owner member : String) : Prop :=
  parent.Resolves key g ∧ c.FindsTaken parent key ∧ owner = parent.name ∧ key.display = member

variable {c parent : ClassDefinition} {key : MemberKey} {owner member : String}

/-- A taken alias that the class does not declare is written for another method of the parent. -/
theorem exists_displaces (hsound : parent.ReferencesSound)
    (hundeclared : ¬ c.Declares (.aliased owner member))
    (htaken : c.FindsTaken parent (.aliased owner member)) :
    ∃ key g, c.Displaces parent key g owner member := by
  cases htaken with
  | own hdeclared => exact absurd hdeclared hundeclared
  | @kept key d hd hcallable htaken =>
    have hget := Assoc.get?_of_mem hsound.1 hd
    obtain ⟨i, g, rfl, hg⟩ := hsound.exists_resolves hget hcallable
    exact ⟨key, g, ⟨i, hget, hg⟩, htaken, rfl, rfl⟩

/-- An alias that is written for a method of the parent is taken. -/
theorem Displaces.findsTaken {g : Handle .function} (h : c.Displaces parent key g owner member) :
    c.FindsTaken parent (.aliased owner member) := by
  obtain ⟨⟨i, hi, -⟩, htaken, rfl, rfl⟩ := h
  exact .kept (Assoc.mem_of_get? hi) rfl htaken

end ClassDefinition

/-! ### Reachable registries -/

namespace Registry

/-- An alias that a class inherits and does not declare is a method of the class, and stands for the
function that it stands for in the parent unless a method with another function displaces it.  A displaced
function is found under the alias of its alias. -/
theorem Reachable.alias_retained_iff {config : Config} {r : Registry} (hr : r.Reachable config)
    {path parentPath : String} {c p : ClassDefinition} (hc : r.definition? path = some c)
    (hparent : c.parent? = some parentPath) (hp : r.definition? parentPath = some p)
    {owner member : String} {f : Handle .function} (hresolves : p.Resolves (.aliased owner member) f)
    (hundeclared : ¬ c.Declares (.aliased owner member)) :
    (∃ g, c.Resolves (.aliased owner member) g) ∧
      (c.Resolves (.aliased owner member) f ↔ ∀ key g, c.Displaces p key g owner member → g = f) ∧
      (∀ key g, c.Displaces p key g owner member →
        c.Resolves (.aliased owner member) g ∧
          c.Resolves (.aliased p.name (MemberKey.aliased owner member).display) f) := by
  have hsound := hr.compiled.referencesSound hp
  obtain ⟨hmoved, hretained⟩ := hr.compiled.resolves_method hc hparent hp hresolves
  have hdisplaced : ∀ {key g}, c.Displaces p key g owner member →
      c.Resolves (.aliased owner member) g := by
    rintro key g ⟨hg, htaken, rfl, rfl⟩
    exact (hr.compiled.resolves_method hc hparent hp hg).1 htaken
  -- an alias is inherited as it is, or a method of the parent displaces it
  have hcases : c.Resolves (.aliased owner member) f ∨
      ∃ key g, c.Displaces p key g owner member := by
    by_cases htaken : c.FindsTaken p (.aliased owner member)
    · exact .inr (ClassDefinition.exists_displaces hsound hundeclared htaken)
    · exact .inl (hretained htaken)
  refine ⟨?_, ⟨?_, ?_⟩, ?_⟩
  · rcases hcases with hsame | ⟨key, g, hg⟩
    · exact ⟨f, hsame⟩
    · exact ⟨g, hdisplaced hg⟩
  · intro hsame key g hg
    exact (hdisplaced hg).unique hsame
  · intro hall
    rcases hcases with hsame | ⟨key, g, hg⟩
    · exact hsame
    · obtain rfl := hall key g hg
      exact hdisplaced hg
  · intro key g hg
    exact ⟨hdisplaced hg, hmoved hg.findsTaken⟩

end Registry

/-! ### Namesakes

Two classes of one short name in different namespaces, and a class that extends the first and overrides
its method, so that it has an alias.  The second implements that class and gets the alias from it, under
its own short name. -/

namespace Sample

/-- The registry with the first namesake and the class that extends it. -/
def namesake : Registry :=
  (((Registry.empty .standard).perform world (.addRoot "Other")).perform world
    (.define "Other.P" ⟨[("m", .function ⟨0⟩)]⟩)).perform world
    (.define "Other.Q" ⟨[("Extends", .text "Other.P"), ("m", .function ⟨1⟩)]⟩)

/-- The same with the second namesake, and with one more class below each of the two. -/
def namesakes : Registry :=
  (((namesake.perform world (.define "Other.D"
    ⟨[("Extends", .text "Other.Q"), ("m", .function ⟨2⟩)]⟩)).perform world (.addRoot "Ns")).perform world
    (.define "Ns.P" ⟨[("Implements", .text "Other.Q"), ("m", .function ⟨2⟩)]⟩)).perform world
    (.define "Ns.C" ⟨[("Extends", .text "Ns.P"), ("m", .function ⟨1⟩)]⟩)

/-- A class of the registry. -/
def amongNamesakes (path : String) : ClassDefinition := (namesakes.definition? path).getD default

theorem namesakes_reachable : namesakes.Reachable .standard :=
  ((((((Registry.Reachable.empty.perform _ _).perform _ _).perform _ _).perform _ _).perform _ _).perform
    _ _).perform _ _

end Sample

namespace Registry

/-- The class below keeps the alias of its parent, which has another owner than the parent. -/
theorem Reachable.alias_retained_below :
    (Sample.amongNamesakes "Other.Q").Resolves (.aliased "P" "m") ⟨0⟩ ∧
      (Sample.amongNamesakes "Other.D").Resolves (.aliased "P" "m") ⟨0⟩ := by
  have hd : Sample.namesakes.definition? "Other.D" = some (Sample.amongNamesakes "Other.D") := rfl
  have hq : Sample.namesakes.definition? "Other.Q" = some (Sample.amongNamesakes "Other.Q") := rfl
  have hresolves : (Sample.amongNamesakes "Other.Q").Resolves (.aliased "P" "m") ⟨0⟩ := ⟨0, rfl, rfl⟩
  have hundeclared : ¬ (Sample.amongNamesakes "Other.D").Declares (.aliased "P" "m") := by
    rintro ⟨name, hname, hkey⟩
    obtain rfl : name = "m" := List.mem_singleton.mp hname
    revert hkey
    decide
  obtain ⟨-, hiff, -⟩ := Sample.namesakes_reachable.alias_retained_iff hd rfl hq hresolves hundeclared
  refine ⟨hresolves, hiff.mpr ?_⟩
  rintro key g ⟨-, -, howner, -⟩
  exact absurd howner (by decide)

/-- A class that extends the second namesake does not declare the alias, and overrides another method.
There the alias stands for that method of the parent, and no longer for the function of the first
namesake. -/
theorem Reachable.alias_displaced :
    Sample.namesakes.Reachable .standard ∧
      Sample.namesakes.definition? "Ns.C" = some (Sample.amongNamesakes "Ns.C") ∧
      (Sample.amongNamesakes "Ns.C").parent? = some "Ns.P" ∧
      Sample.namesakes.definition? "Ns.P" = some (Sample.amongNamesakes "Ns.P") ∧
      (Sample.amongNamesakes "Ns.P").Resolves (.aliased "P" "m") ⟨0⟩ ∧
      ¬ (Sample.amongNamesakes "Ns.C").Declares (.aliased "P" "m") ∧
      (Sample.amongNamesakes "Ns.C").Resolves (.aliased "P" "m") ⟨2⟩ ∧
      ¬ (Sample.amongNamesakes "Ns.C").Resolves (.aliased "P" "m") ⟨0⟩ ∧
      (Sample.amongNamesakes "Ns.C").Resolves (.aliased "P" "P$m") ⟨0⟩ := by
  have hdisplaced : (Sample.amongNamesakes "Ns.C").Resolves (.aliased "P" "m") ⟨2⟩ := ⟨0, rfl, rfl⟩
  refine ⟨Sample.namesakes_reachable, rfl, rfl, rfl, ⟨1, rfl, rfl⟩, ?_, hdisplaced, ?_, ⟨1, rfl, rfl⟩⟩
  · rintro ⟨name, hname, hkey⟩
    obtain rfl : name = "m" := List.mem_singleton.mp hname
    revert hkey
    decide
  · intro hsame
    have heq := hdisplaced.unique hsame
    cases heq

end Registry

end ClassComposition
