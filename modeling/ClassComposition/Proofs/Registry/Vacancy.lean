import ClassComposition.Proofs.Class.Failures
import ClassComposition.Proofs.Registry.Agreement

/-!
# Where a class may be published

A class is published at a node of a namespace tree, and the nodes on the way there are made on demand.  So
a node stands in a tree exactly where a class is published at it or below it.  A path that is new has no
class at its own node, and there is no place for it only if there is one below.

## Main definitions

* `Registry.Dense` — the trees have no nodes but those on the way to classes.

## Main results

* `Registry.Reachable.dense` — a node is vacant exactly if no class is published at it or below it.
* `Registry.Reachable.pairwise_classNames` — classes are listed before those below them.
* `Registry.Reachable.placeTaken_iff_below` — a definition is refused for the place of the class exactly
  if some class is below it.
-/

namespace ClassComposition

open ClassPath (Below)

namespace Registry

variable {config : Config} {r after : Registry} {path : String} {body : ClassBody} {w w' : World}
  {k : Constructor}

/-! ### Vacant nodes -/

/-- A class stands at some segments of a root, or below them. -/
def Covers (r : Registry) (root : String) (below : List String) : Prop :=
  ∃ path c, r.definition? path = some c ∧ root :: below <+: ClassPath.segments path

/-- In the trees of its roots, a registry has no nodes but those on the way to its classes. -/
def Dense (r : Registry) : Prop :=
  ∀ root space below, r.root? root = some space → (space.isVacant below = false ↔ r.Covers root below)

theorem covers_addRoot (name root : String) (below : List String) :
    (r.addRoot name).Covers root below ↔ r.Covers root below := by
  simp only [Covers, definition?, classes_addRoot]

theorem Reachable.exists_root (hr : r.Reachable config) {root : String} {below : List String}
    (h : r.Covers root below) : ∃ space, r.root? root = some space := by
  obtain ⟨path, c, hc, hbelow⟩ := h
  obtain ⟨k, -, -, hk⟩ := hr.agrees.of_class hc
  obtain ⟨first, space, rest, hsegments, hspace, -⟩ := published?_eq_some hk
  rw [hsegments, List.cons_prefix_cons] at hbelow
  rw [hbelow.1]
  exact ⟨space, hspace⟩

theorem Dense.addRoot (h : r.Dense) (hr : r.Reachable config) (name : String) :
    (r.addRoot name).Dense := by
  intro root space below hspace
  rw [covers_addRoot]
  rw [root?_addRoot] at hspace
  by_cases hname : name = root
  · subst hname
    rw [if_pos rfl] at hspace
    cases hspace
    rcases hbefore : r.root? name with _ | before
    · -- nothing stands under a root that is new
      rw [Option.getD_none, Namespace.isVacant_empty]
      refine ⟨fun hfalse => (Bool.noConfusion hfalse : False).elim, fun hcovers => ?_⟩
      obtain ⟨space, hspace⟩ := hr.exists_root hcovers
      rw [hbefore] at hspace
      cases hspace
    · rw [Option.getD_some]
      exact h name before below hbefore
  · rw [if_neg hname] at hspace
    exact h root space below hspace

/-- A class that is published takes its own node and those on the way to it. -/
theorem Dense.define (h : r.Dense) (hdefine : (r.define path body).run w = (.ok (k, after), w')) :
    after.Dense := by
  obtain ⟨c, root, space, below, hsegments, hroot, -, hclass, -, rfl, rfl⟩ := views_of_define hdefine
  -- a covered path is a way to some class, and the only new ways are those to the new class
  have hcovers : ∀ name other, (r.publish c k root space below).Covers name other ↔
      (name :: other <+: root :: below) ∨ r.Covers name other := by
    intro name other
    constructor
    · rintro ⟨p, d, hd, hother⟩
      rw [definition?_publish] at hd
      by_cases hp : c.path = p
      · rw [← hp, hsegments] at hother
        exact .inl hother
      · rw [if_neg hp] at hd
        exact .inr ⟨p, d, hd, hother⟩
    · rintro (hother | ⟨p, d, hd, hother⟩)
      · refine ⟨c.path, c, ?_, hsegments ▸ hother⟩
        rw [definition?_publish, if_pos rfl]
      · have hp : c.path ≠ p := by
          rintro rfl
          rw [definition?, hclass] at hd
          cases hd
        refine ⟨p, d, ?_, hother⟩
        rw [definition?_publish, if_neg hp, hd]
  intro name tree other htree
  rw [hcovers]
  rw [root?_publish] at htree
  by_cases hname : root = name
  · subst hname
    rw [if_pos rfl] at htree
    cases htree
    have hbefore := h root space other hroot
    rw [Namespace.isVacant_insert, Bool.and_eq_false_iff, hbefore, Bool.not_eq_false',
      List.isPrefixOf_iff_prefix, List.cons_prefix_cons]
    simp
  · rw [if_neg hname] at htree
    rw [h name tree other htree, List.cons_prefix_cons]
    constructor
    · exact .inr
    · rintro (⟨heq, -⟩ | hcovered)
      · exact absurd heq.symm hname
      · exact hcovered

/-- A node of a tree is vacant exactly if no class stands at it or below it. -/
theorem Reachable.dense (hr : r.Reachable config) : r.Dense := by
  refine hr.invariant (P := Dense) ?_ ?_ ?_ ?_
  · intro root space below hroot
    cases hroot
  · intro r name before ih
    exact ih.addRoot before name
  · intro r path body w k after w' _ ih h
    exact ih.define h
  · intro r path k after _ ih h
    obtain ⟨-, rfl⟩ := addConstructor_eq_ok h
    exact ih

/-! ### Places -/

/-- What is decided last about the place of a new path is whether it is vacant. -/
theorem place_eq {parts : List String} {space : Namespace} (hparts : ClassPath.split path = .ok parts)
    (hspace : r.root? (parts.headD "") = some space) (hclass : r.hasClass path = false)
    (hconstructor : r.hasConstructor path = false) :
    r.place path = if space.isVacant parts.tail then .ok (parts.headD "", space, parts.tail)
      else .error (.placeTaken path) := by
  unfold Registry.place
  have hsplit : ClassPath.split path = pure parts := hparts
  rw [hclass, hconstructor, Bool.or_false, if_neg Bool.false_ne_true, hsplit, pure_bind]
  dsimp only
  rw [hspace]
  rfl

/-- The segments of a path that can be split are a root and what is below it. -/
theorem segments_eq_cons {parts : List String} (hparts : ClassPath.split path = .ok parts) :
    parts.headD "" :: parts.tail = ClassPath.segments path := by
  obtain ⟨rfl, hlength, -⟩ := ClassPath.split_eq_ok hparts
  rcases hsegments : ClassPath.segments path with _ | ⟨first, rest⟩
  · rw [hsegments] at hlength
    cases hlength
  · rfl

/-- Where there is no class at a path itself, its segments begin those of classes below it only. -/
theorem covers_iff_below {root : String} {below : List String}
    (hsegments : root :: below = ClassPath.segments path) (hclass : r.definition? path = none) :
    r.Covers root below ↔ ∃ q c, r.definition? q = some c ∧ Below q path := by
  unfold Covers
  rw [hsegments]
  refine exists_congr fun q => exists_congr fun c => and_congr_right fun hc => ?_
  rw [ClassPath.isPrefix_segments_iff, or_iff_right]
  rintro rfl
  rw [hclass] at hc
  cases hc

/-- A new path has no place exactly if some class is below it. -/
theorem Reachable.place_eq_placeTaken_iff (hr : r.Reachable config) {parts : List String}
    {space : Namespace} (hparts : ClassPath.split path = .ok parts)
    (hspace : r.root? (parts.headD "") = some space) (hclass : r.hasClass path = false)
    (hconstructor : r.hasConstructor path = false) :
    r.place path = .error (.placeTaken path) ↔ ∃ q c, r.definition? q = some c ∧ Below q path := by
  have hnone : r.definition? path = none := by
    simpa [hasClass, definition?, Assoc.contains] using hclass
  rw [place_eq hparts hspace hclass hconstructor, ← covers_iff_below (segments_eq_cons hparts) hnone,
    ← hr.dense _ space parts.tail hspace]
  cases space.isVacant parts.tail <;> simp

theorem Reachable.not_below_of_place (hr : r.Reachable config)
    {place : String × Namespace × List String} (h : r.place path = .ok place) {q : String}
    {c : ClassDefinition} (hc : r.definition? q = some c) : ¬ Below q path := by
  intro hbelow
  obtain ⟨parts, hparts⟩ := split_of_place h
  obtain ⟨root, space, below⟩ := place
  obtain ⟨hsegments, hroot⟩ := place_eq_ok h
  obtain ⟨hclass, hconstructor⟩ := fresh_of_place h
  obtain ⟨rfl, -, -⟩ := ClassPath.split_eq_ok hparts
  rw [hsegments] at hparts
  have hfree : r.hasClass path = false := by simp [hasClass, Assoc.contains, hclass]
  have hunused : r.hasConstructor path = false := by simp [hasConstructor, Assoc.contains, hconstructor]
  have htaken := (hr.place_eq_placeTaken_iff hparts hroot hfree hunused).mpr ⟨q, c, hc, hbelow⟩
  rw [h] at htaken
  cases htaken

/-! ### Definitions without a place -/

/-- A path without a place is refused before anything is compiled. -/
theorem run_define_of_place_eq_error {e : ClassError} (h : r.place path = .error e) :
    (r.define path body).run w = (.error e, w) := by
  unfold define
  rw [Action.run_ofExcept_bind, h]

/-- A definition that fails for the place of the class found none. -/
theorem Reachable.place_eq_error (hr : r.Reachable config) {e : ClassError}
    (hplace : e.isOfPlace = true) (h : ((r.define path body).run w).1 = .error e) :
    r.place path = .error e := by
  rcases hplaced : r.place path with e' | ⟨root, space, below⟩
  · rw [run_define_of_place_eq_error hplaced] at h
    cases h
    rfl
  exfalso
  unfold define at h
  rw [Action.run_ofExcept_bind, hplaced] at h
  dsimp only at h
  -- once placed, neither the compilation nor the build reports a place
  have hcompiles : (ClassDefinition.compile r.config r.classes path body).PlaceFree :=
    ClassDefinition.placeFree_compile
  have hfree := hcompiles w
  rw [Action.run_bind] at h
  rcases hcompile : (ClassDefinition.compile r.config r.classes path body).run w with ⟨e' | c, w₁⟩
  · rw [hcompile] at h hfree
    cases h
    rw [hfree e rfl] at hplace
    cases hplace
  · rw [hcompile] at h
    dsimp only at h
    obtain ⟨stages, rfl, -⟩ := ClassDefinition.exists_composition hcompile
    have hsound := stages.referencesSound fun p c hc => hr.compiled.referencesSound hc
    have hbuilds := Constructor.placeFree_build r.config _ hsound w₁
    rw [Action.run_bind] at h
    rcases hbuild : (Constructor.build r.config stages.definition).run w₁ with ⟨e' | k, w₂⟩
    · rw [hbuild] at h hbuilds
      cases h
      rw [hbuilds e rfl] at hplace
      cases hplace
    · rw [hbuild] at h
      cases h

/-- Classes are listed before those below them. -/
theorem Reachable.pairwise_classNames (hr : r.Reachable config) :
    r.classNames.Pairwise fun earlier later => ¬ Below earlier later := by
  refine hr.invariant
    (P := fun r => r.classNames.Pairwise fun earlier later => ¬ Below earlier later) .nil ?_ ?_ ?_
  · intro r name _ ih
    rw [classNames, classes_addRoot]
    exact ih
  · intro r path body w k after w' before ih h
    obtain ⟨root, space, below, c, w₁, w₂, hplaced, -⟩ := define_eq_ok h
    obtain ⟨d, w₁, w₂, -, -, -, -, -, hclasses, -⟩ := composition_of_define h
    have hnames : after.classNames = r.classNames ++ [path] := by
      simp [classNames, hclasses, Assoc.keys]
    rw [hnames, List.pairwise_append]
    refine ⟨ih, List.pairwise_singleton _ _, ?_⟩
    intro p hp q hq
    obtain rfl := List.mem_singleton.mp hq
    obtain ⟨d, hd⟩ := Option.isSome_iff_exists.mp ((Assoc.get?_isSome_iff _ _).mpr hp)
    -- the new path is last, and it could not have been placed below a class
    exact before.not_below_of_place hplaced hd
  · intro r path k after _ ih h
    obtain ⟨-, rfl⟩ := addConstructor_eq_ok h
    exact ih

/-- A definition under a new path whose root is registered is refused for its place exactly if some class
is below that path, whatever the body; and so classes are listed before all those below them. -/
theorem Reachable.placeTaken_iff_below (hr : r.Reachable config) :
    (∀ path space, 2 ≤ (ClassPath.segments path).length → "" ∉ ClassPath.segments path →
      r.root? ((ClassPath.segments path).headD "") = some space → r.hasClass path = false →
      r.hasConstructor path = false → ∀ body w,
        ((r.define path body).run w).1 = .error (.placeTaken path) ↔
          ∃ q c, r.definition? q = some c ∧ Below q path) ∧
    r.classNames.Pairwise fun earlier later => ¬ Below earlier later := by
  refine ⟨?_, hr.pairwise_classNames⟩
  intro path space hlength hempty hspace hclass hconstructor body w
  have hparts := ClassPath.split_eq hlength hempty
  rw [← hr.place_eq_placeTaken_iff hparts hspace hclass hconstructor]
  constructor
  · exact hr.place_eq_error rfl
  · intro hplace
    rw [run_define_of_place_eq_error hplace]

end Registry

/-! ### A sample

A class is defined below another path. -/

namespace Sample

/-- The registry with a class two levels below its root. -/
def nested : Registry := before.perform world (.define "Ns.Outer.Inner" leaf)

theorem nested_reachable : nested.Reachable .standard := before_reachable.perform _ _

end Sample

namespace Registry

/-- In the sample a class is below `Ns.Outer`, so no class can be defined there; `Ns.Other` is refused for
no such reason. -/
theorem Reachable.placeTaken_iff_below_outer :
    (∀ body w, ((Sample.nested.define "Ns.Outer" body).run w).1 = .error (.placeTaken "Ns.Outer")) ∧
    ∀ body w, ((Sample.nested.define "Ns.Other" body).run w).1 ≠ .error (.placeTaken "Ns.Other") := by
  obtain ⟨hplaces, -⟩ := Sample.nested_reachable.placeTaken_iff_below
  obtain ⟨space, hspace⟩ : ∃ space, Sample.nested.root? "Ns" = some space := ⟨_, rfl⟩
  have hnames : Sample.nested.classNames = ["Ns.Base", "Ns.Mix", "Ns.Outer.Inner"] := rfl
  constructor
  · intro body w
    refine (hplaces "Ns.Outer" space (by decide) (by decide) hspace rfl rfl body w).mpr ?_
    exact ⟨"Ns.Outer.Inner", _, rfl, "Inner", rfl⟩
  · intro body w htaken
    obtain ⟨q, c, hc, hbelow⟩ :=
      (hplaces "Ns.Other" space (by decide) (by decide) hspace rfl rfl body w).mp htaken
    have hq : q ∈ Sample.nested.classNames := Assoc.mem_keys_of_mem (Assoc.mem_of_get? hc)
    have hprefix := ClassPath.isPrefix_segments_iff.mpr (.inr hbelow)
    rw [hnames] at hq
    have hnone : ∀ q ∈ ["Ns.Base", "Ns.Mix", "Ns.Outer.Inner"],
        ¬ ClassPath.segments "Ns.Other" <+: ClassPath.segments q := by decide
    exact hnone q hq hprefix

end Registry

end ClassComposition
