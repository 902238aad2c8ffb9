import ClassComposition.Proofs.Class.Construction
import ClassComposition.Proofs.Registry.Reachable

/-!
# The views of a registry

A class is known in three places: in the list of classes, in the list of constructors, and in the
namespace tree of its root.  Only a definition writes to the first and the last, and it writes to all
three; a constructor from outside is written to the second one alone, and only under a path without a
class.  So the three agree in every reachable registry, and what they say about a class never changes.

## Main definitions

* `Registry.published?` — the constructor in the namespace tree at the segments of a path.
* `Registry.Agrees` — classes, constructors and namespace trees agree.
* `Registry.Leads` — a registry is reached from another one by operations.
* `Registry.Outside` — a path that has a constructor and no class.

## Main results

* `Registry.views_of_define` — what a definition that succeeds changes in the three views.
* `Registry.Reachable.agrees` — the views of a reachable registry agree.
* `Registry.Leads.isPrefix_classNames`, `Registry.Leads.kept` — definitions are permanent.
* `Registry.Outside.of_leads` — a path with a constructor from outside never becomes a class.
* `Registry.Reachable.views_agree` — all of this for reachable registries.
-/

namespace ClassComposition.Registry

variable {r after later : Registry} {path : String} {body : ClassBody} {w w' : World}
  {k : Constructor}

/-! ### Publication -/

/-- The constructor that is published under a path: in the tree of its first segment, at the others. -/
def published? (r : Registry) (path : String) : Option Constructor :=
  match ClassPath.segments path with
  | [] => none
  | root :: below => (r.root? root).bind fun space => space.constructorAt? below

theorem published?_eq {root : String} {below : List String}
    (h : ClassPath.segments path = root :: below) :
    r.published? path = (r.root? root).bind fun space => space.constructorAt? below := by
  rw [published?, h]

/-- What is published under a path stands in a tree, at the segments of the path. -/
theorem published?_eq_some (h : r.published? path = some k) :
    ∃ root space below, ClassPath.segments path = root :: below ∧ r.root? root = some space ∧
      space.constructorAt? below = some k := by
  rcases hsegments : ClassPath.segments path with _ | ⟨root, below⟩
  · simp [published?, hsegments] at h
  · rw [published?_eq hsegments] at h
    obtain ⟨space, hspace, hat⟩ := Option.bind_eq_some_iff.mp h
    exact ⟨root, space, below, rfl, hspace, hat⟩

/-- The place of a new class is in the tree of its first segment, at the others. -/
theorem place_eq_ok {root : String} {space : Namespace} {below : List String}
    (h : r.place path = .ok (root, space, below)) :
    ClassPath.segments path = root :: below ∧ r.root? root = some space := by
  unfold Registry.place at h
  -- the guards are passed in the order in which they are tried
  by_cases htaken : (r.hasClass path || r.hasConstructor path) = true
  · rw [if_pos htaken] at h
    cases h
  rw [if_neg htaken] at h
  obtain ⟨parts, hparts, h⟩ := bind_eq_ok.mp h
  obtain ⟨rfl, hlength, -⟩ := ClassPath.split_eq_ok hparts
  dsimp only at h
  rcases hroot : r.root? ((ClassPath.segments path).headD "") with _ | found
  · rw [hroot] at h
    cases h
  rw [hroot] at h
  dsimp only at h
  by_cases hvacant : found.isVacant (ClassPath.segments path).tail = true
  · rw [if_pos hvacant] at h
    cases h
    -- a path that splits has a first segment, so taking its head and its tail loses nothing
    refine ⟨?_, hroot⟩
    cases hsegments : ClassPath.segments path with
    | nil => simp [hsegments] at hlength
    | cons first rest => rfl
  · rw [if_neg hvacant] at h
    cases h

theorem root?_addRoot (name other : String) :
    (r.addRoot name).root? other =
      if name = other then some ((r.root? name).getD Namespace.empty) else r.root? other := by
  unfold addRoot root?
  by_cases hknown : Assoc.contains r.roots name = true
  · rw [if_pos hknown]
    by_cases hname : name = other
    · subst hname
      obtain ⟨space, hspace⟩ := Option.isSome_iff_exists.mp hknown
      simp [hspace]
    · rw [if_neg hname]
  · have habsent : Assoc.get? r.roots name = none := by
      simpa [Assoc.contains] using hknown
    rw [if_neg hknown, Assoc.get?_insert, habsent]
    rfl

theorem constructorAt?_addRoot {name root : String} {space : Namespace} {below : List String}
    (hspace : (r.addRoot name).root? root = some space)
    (hat : space.constructorAt? below = some k) :
    ∃ before, r.root? root = some before ∧ before.constructorAt? below = some k := by
  rw [root?_addRoot] at hspace
  by_cases hname : name = root
  · subst hname
    rw [if_pos rfl] at hspace
    cases hspace
    rcases hbefore : r.root? name with _ | before
    · rw [hbefore, Option.getD_none, Namespace.constructorAt?_empty] at hat
      cases hat
    · rw [hbefore, Option.getD_some] at hat
      exact ⟨before, rfl, hat⟩
  · rw [if_neg hname] at hspace
    exact ⟨space, hspace, hat⟩

theorem published?_addRoot (name path : String) :
    (r.addRoot name).published? path = r.published? path := by
  rcases hsegments : ClassPath.segments path with _ | ⟨root, below⟩
  · simp [published?, hsegments]
  rw [published?_eq hsegments, published?_eq hsegments, root?_addRoot]
  by_cases hname : name = root
  · subst hname
    rw [if_pos rfl, Option.bind_some]
    cases r.root? name with
    | none => exact Namespace.constructorAt?_empty below
    | some space => rfl
  · rw [if_neg hname]

/-! ### One definition -/

/-- What a definition that succeeds writes to the three views, under its own path and nowhere else. -/
theorem views_of_define (h : (r.define path body).run w = (.ok (k, after), w')) :
    ∃ c root space below, ClassPath.segments path = root :: below ∧ r.root? root = some space ∧
      k.path = path ∧ Assoc.get? r.classes path = none ∧ Assoc.get? r.constructors path = none ∧
      after = r.publish c k root space below ∧ c.path = path := by
  obtain ⟨root, space, below, c, w₁, w₂, hplaced, hcompile, hbuild, hafter, -⟩ := define_eq_ok h
  obtain ⟨hsegments, hroot⟩ := place_eq_ok hplaced
  obtain ⟨hclass, hconstructor⟩ := fresh_of_place hplaced
  obtain ⟨stages, hc, -⟩ := ClassDefinition.exists_composition hcompile
  have hpath : c.path = path := by
    rw [hc]
    rfl
  have hbuilt : k.path = path := by
    rw [Constructor.path_of_build hbuild, hpath]
  exact ⟨c, root, space, below, hsegments, hroot, hbuilt, hclass, hconstructor, hafter, hpath⟩

section Publish

variable {c : ClassDefinition} {root : String} {space : Namespace} {below : List String}

theorem definition?_publish (p : String) :
    (r.publish c k root space below).definition? p =
      if c.path = p then some c else r.definition? p := by
  rw [definition?, publish, Assoc.get?_insert]
  rfl

theorem get?_constructors_publish (p : String) :
    Assoc.get? (r.publish c k root space below).constructors p =
      if c.path = p then some k else Assoc.get? r.constructors p := by
  rw [publish, Assoc.get?_insert]

theorem root?_publish (name : String) :
    (r.publish c k root space below).root? name =
      if root = name then some (space.insert below k) else r.root? name := by
  rw [root?, publish, Assoc.get?_insert]
  rfl

theorem published?_publish (hsegments : ClassPath.segments c.path = root :: below)
    (hroot : r.root? root = some space) (p : String) :
    (r.publish c k root space below).published? p =
      if c.path = p then some k else r.published? p := by
  by_cases hp : c.path = p
  · subst hp
    rw [if_pos rfl, published?_eq hsegments, root?_publish, if_pos rfl, Option.bind_some,
      Namespace.constructorAt?_insert, if_pos rfl]
  rw [if_neg hp]
  rcases hother : ClassPath.segments p with _ | ⟨first, rest⟩
  · simp [published?, hother]
  rw [published?_eq hother, published?_eq hother, root?_publish]
  by_cases hfirst : root = first
  · -- in the same tree another path has other segments
    subst hfirst
    have hrest : below ≠ rest := by
      intro heq
      apply hp
      apply ClassPath.segments_injective
      rw [hsegments, hother, heq]
    rw [if_pos rfl, hroot, Option.bind_some, Option.bind_some, Namespace.constructorAt?_insert,
      if_neg hrest]
  · rw [if_neg hfirst]

end Publish

/-! ### Agreement -/

/-- A class has its constructor in the list of constructors and in the namespace tree, under its own path;
and a constructor in a namespace tree is that of a class, at the segments of whose path it stands. -/
structure Agrees (r : Registry) : Prop where
  of_class : ∀ {path c}, r.definition? path = some c →
    ∃ k, k.path = path ∧ Assoc.get? r.constructors path = some k ∧ r.published? path = some k
  of_tree : ∀ {root space below k}, r.root? root = some space →
    space.constructorAt? below = some k →
    ClassPath.segments k.path = root :: below ∧ ∃ c, r.definition? k.path = some c

namespace Agrees

theorem empty (config : Config) : (Registry.empty config).Agrees where
  of_class := by
    intro path c hc
    cases hc
  of_tree := by
    intro root space below k hroot
    cases hroot

theorem addRoot (h : r.Agrees) (name : String) : (r.addRoot name).Agrees where
  of_class := by
    intro path c hc
    rw [definition?, classes_addRoot] at hc
    rw [constructors_addRoot, published?_addRoot]
    exact h.of_class hc
  of_tree := by
    intro root space below k hspace hat
    obtain ⟨before, hbefore, hat⟩ := constructorAt?_addRoot hspace hat
    rw [definition?, classes_addRoot]
    exact h.of_tree hbefore hat

theorem define (h : r.Agrees) (hdefine : (r.define path body).run w = (.ok (k, after), w')) :
    after.Agrees := by
  obtain ⟨c, root, space, below, hsegments, hroot, hk, hclass, -, rfl, rfl⟩ :=
    views_of_define hdefine
  refine ⟨?_, ?_⟩
  · intro p d hd
    rw [get?_constructors_publish, published?_publish hsegments hroot]
    rw [definition?_publish] at hd
    by_cases hp : c.path = p
    · rw [if_pos hp, if_pos hp]
      exact ⟨k, hk.trans hp, rfl, rfl⟩
    · rw [if_neg hp] at hd
      rw [if_neg hp, if_neg hp]
      exact h.of_class hd
  · intro name tree segments k' htree hat
    rw [definition?_publish]
    -- a constructor in a tree is the one just published, or it was there before
    have hbefore : ∀ before, r.root? name = some before →
        before.constructorAt? segments = some k' →
        ClassPath.segments k'.path = name :: segments ∧
          ∃ d, (if c.path = k'.path then some c else r.definition? k'.path) = some d := by
      intro before hname hat
      obtain ⟨hpath, d, hd⟩ := h.of_tree hname hat
      by_cases hp : c.path = k'.path
      · exact ⟨hpath, c, if_pos hp⟩
      · exact ⟨hpath, d, by rw [if_neg hp, hd]⟩
    rw [root?_publish] at htree
    by_cases hname : root = name
    · subst hname
      rw [if_pos rfl] at htree
      cases htree
      rw [Namespace.constructorAt?_insert] at hat
      by_cases hsame : below = segments
      · rw [if_pos hsame] at hat
        cases hat
        rw [hk, hsegments, hsame]
        exact ⟨rfl, c, if_pos rfl⟩
      · rw [if_neg hsame] at hat
        exact hbefore space hroot hat
    · rw [if_neg hname] at htree
      exact hbefore tree htree hat

theorem addConstructor (h : r.Agrees) (hadd : r.addConstructor path k = .ok after) :
    after.Agrees := by
  obtain ⟨hclass, rfl⟩ := addConstructor_eq_ok hadd
  refine ⟨?_, h.of_tree⟩
  intro p c hc
  obtain ⟨k', hpath, hget, hpublished⟩ := h.of_class hc
  have hne : path ≠ p := by
    rintro rfl
    rw [definition?, hclass] at hc
    cases hc
  refine ⟨k', hpath, ?_, hpublished⟩
  rw [Assoc.get?_insert, if_neg hne, hget]

/-- What is published under a path is the constructor of the class there. -/
theorem of_published (h : r.Agrees) (hk : r.published? path = some k) :
    k.path = path ∧ (∃ c, r.definition? path = some c) ∧ Assoc.get? r.constructors path = some k := by
  obtain ⟨root, space, below, hsegments, hroot, hat⟩ := published?_eq_some hk
  obtain ⟨hpath, c, hc⟩ := h.of_tree hroot hat
  have hsame : k.path = path := by
    apply ClassPath.segments_injective
    rw [hpath, hsegments]
  rw [hsame] at hc
  obtain ⟨k', -, hget, hpublished⟩ := h.of_class hc
  rw [hk] at hpublished
  cases hpublished
  exact ⟨hsame, ⟨c, hc⟩, hget⟩

end Agrees

/-- The views of a reachable registry agree. -/
theorem Reachable.agrees {config : Config} (hr : r.Reachable config) : r.Agrees := by
  refine hr.invariant (.empty config) ?_ ?_ ?_
  · intro r name _ ih
    exact ih.addRoot name
  · intro r path body w k after w' _ ih h
    exact ih.define h
  · intro r path k after _ ih h
    exact ih.addConstructor h

/-! ### Permanence -/

/-- A registry is reached from another one by operations, those that fail included. -/
inductive Leads (r : Registry) : Registry → Prop
  | refl : Leads r r
  | perform {after : Registry} (before : Leads r after) (w : World) (operation : Operation) :
      Leads r (after.perform w operation)

theorem Reachable.leads {config : Config} (hr : r.Reachable config) (h : r.Leads later) :
    later.Reachable config := by
  induction h with
  | refl => exact hr
  | perform _ w operation ih => exact ih.perform w operation

/-- What operations that succeed hand on is handed on by every operation. -/
theorem Leads.holds {P : Registry → Prop} (h : r.Leads later) (hr : P r)
    (addRoot : ∀ r name, P r → P (r.addRoot name))
    (define : ∀ r path body w k after w', P r →
      (r.define path body).run w = (.ok (k, after), w') → P after)
    (addConstructor : ∀ r path k after, P r → r.addConstructor path k = .ok after → P after) :
    P later := by
  induction h with
  | refl => exact hr
  | @perform reached _ w operation ih =>
    refine perform_holds operation ih ?_ ?_ ?_
    · intro name
      exact addRoot reached name ih
    · intro path body k after w' hdefine
      exact define reached path body w k after w' ih hdefine
    · intro path k after hadd
      exact addConstructor reached path k after ih hadd

/-- The list of class names only grows at its end. -/
theorem Leads.isPrefix_classNames (h : r.Leads later) : r.classNames <+: later.classNames := by
  refine h.holds (P := fun later => r.classNames <+: later.classNames) (List.prefix_refl _) ?_ ?_ ?_
  · intro s name ih
    have hsame : (s.addRoot name).classNames = s.classNames := by
      rw [classNames, classNames, classes_addRoot]
    rw [hsame]
    exact ih
  · intro s path body w k after w' ih hdefine
    obtain ⟨c, w₁, w₂, -, -, -, -, -, hclasses, -⟩ := composition_of_define hdefine
    refine ih.trans ?_
    simp [classNames, hclasses, Assoc.keys]
  · intro s path k after ih hadd
    obtain ⟨-, rfl⟩ := addConstructor_eq_ok hadd
    exact ih

/-- A class keeps its data, its constructor and its entry in the namespace tree. -/
theorem Leads.kept (h : r.Leads later) {c : ClassDefinition} (hc : r.definition? path = some c) :
    later.definition? path = some c ∧
      Assoc.get? later.constructors path = Assoc.get? r.constructors path ∧
      later.published? path = r.published? path := by
  refine h.holds (P := fun later => later.definition? path = some c ∧
    Assoc.get? later.constructors path = Assoc.get? r.constructors path ∧
    later.published? path = r.published? path) ⟨hc, rfl, rfl⟩ ?_ ?_ ?_
  · intro s name ih
    rw [definition?, classes_addRoot, constructors_addRoot, published?_addRoot]
    exact ih
  · intro s p body w k after w' ih hdefine
    obtain ⟨d, root, space, below, hsegments, hroot, -, hclass, -, rfl, rfl⟩ :=
      views_of_define hdefine
    -- the new class has another path, because there is none under its own
    have hne : d.path ≠ path := by
      intro heq
      obtain ⟨hdefined, -⟩ := ih
      rw [definition?, ← heq, hclass] at hdefined
      cases hdefined
    rw [definition?_publish, get?_constructors_publish, published?_publish hsegments hroot,
      if_neg hne, if_neg hne, if_neg hne]
    exact ih
  · intro s p k after ih hadd
    obtain ⟨hclass, rfl⟩ := addConstructor_eq_ok hadd
    obtain ⟨hdefined, hconstructor, hpublished⟩ := ih
    have hne : p ≠ path := by
      rintro rfl
      rw [definition?, hclass] at hdefined
      cases hdefined
    refine ⟨hdefined, ?_, hpublished⟩
    rw [Assoc.get?_insert, if_neg hne, hconstructor]

/-! ### Constructors from outside -/

/-- A path that has a constructor and no class. -/
structure Outside (r : Registry) (path : String) : Prop where
  constructor : Assoc.get? r.constructors path ≠ none
  no_class : r.definition? path = none

theorem outside_of_addConstructor (h : r.addConstructor path k = .ok after) :
    after.Outside path := by
  obtain ⟨hclass, rfl⟩ := addConstructor_eq_ok h
  refine ⟨?_, hclass⟩
  rw [Assoc.get?_insert_self]
  exact Option.some_ne_none k

/-- No class is ever defined under a path that has a constructor. -/
theorem Outside.of_leads (hr : r.Outside path) (h : r.Leads later) : later.Outside path := by
  refine h.holds (P := fun later => later.Outside path) hr ?_ ?_ ?_
  · intro s name ih
    refine ⟨?_, ?_⟩
    · rw [constructors_addRoot]
      exact ih.constructor
    · rw [definition?, classes_addRoot]
      exact ih.no_class
  · intro s p body w k after w' ih hdefine
    obtain ⟨d, root, space, below, -, -, -, -, hconstructor, rfl, rfl⟩ := views_of_define hdefine
    -- a definition at this path would have found its constructor in the way
    have hne : d.path ≠ path := by
      intro heq
      rw [heq] at hconstructor
      exact ih.constructor hconstructor
    refine ⟨?_, ?_⟩
    · rw [get?_constructors_publish, if_neg hne]
      exact ih.constructor
    · rw [definition?_publish, if_neg hne]
      exact ih.no_class
  · intro s p k after ih hadd
    obtain ⟨-, rfl⟩ := addConstructor_eq_ok hadd
    refine ⟨?_, ih.no_class⟩
    rw [Assoc.get?_insert]
    split
    · exact Option.some_ne_none k
    · exact ih.constructor

/-- A path without a class is in no class listing, and has nothing in its namespace tree. -/
theorem Agrees.of_no_class (h : r.Agrees) (hpath : r.definition? path = none) :
    path ∉ r.classNames ∧ r.published? path = none := by
  refine ⟨(Assoc.get?_eq_none_iff _ _).mp hpath, ?_⟩
  rcases hk : r.published? path with _ | k
  · rfl
  · obtain ⟨-, ⟨c, hc⟩, -⟩ := h.of_published hk
    rw [hpath] at hc
    cases hc

/-! ### Reachable registries -/

/-- In a reachable registry a path is that of a class exactly when a constructor stands at its segments
in the namespace tree of its root, and whatever stands in a tree stands there for the class whose path it
has.  It is what is found under the full path, with any default namespace, and what the definition
answered.  A path that has a constructor from outside has nothing in a tree and is in no list of classes,
now and later.  Once a class is defined, nothing changes its data, its constructor, its entry in the
tree, or the order of the classes. -/
theorem Reachable.views_agree {config : Config} (hr : r.Reachable config) :
    (∀ path, r.hasClass path = true ↔ ∃ k, r.published? path = some k) ∧
    (∀ root space below k, r.root? root = some space → space.constructorAt? below = some k →
      ClassPath.segments k.path = root :: below ∧ r.published? k.path = some k) ∧
    (∀ path k, r.published? path = some k →
      k.path = path ∧ ∀ namespace?, r.constructor? path namespace? = some k) ∧
    (∀ path body w k after w', (r.define path body).run w = (.ok (k, after), w') →
      k.path = path ∧ ∀ later, after.Leads later →
        later.hasClass path = true ∧ later.published? path = some k ∧
        ∀ namespace?, later.constructor? path namespace? = some k) ∧
    (∀ path k after, r.addConstructor path k = .ok after → ∀ later, after.Leads later →
      later.hasClass path = false ∧ path ∉ later.classNames ∧ later.published? path = none) ∧
    (∀ later, r.Leads later → r.classNames <+: later.classNames ∧
      ∀ path c, r.definition? path = some c → later.definition? path = some c ∧
        Assoc.get? later.constructors path = Assoc.get? r.constructors path ∧
        later.published? path = r.published? path) := by
  have hagrees := hr.agrees
  refine ⟨?_, ?_, ?_, ?_, ?_, ?_⟩
  · intro path
    constructor
    · intro hclass
      obtain ⟨c, hc⟩ := Option.isSome_iff_exists.mp hclass
      obtain ⟨k, -, -, hk⟩ := hagrees.of_class hc
      exact ⟨k, hk⟩
    · rintro ⟨k, hk⟩
      obtain ⟨-, ⟨c, hc⟩, -⟩ := hagrees.of_published hk
      exact Option.isSome_iff_exists.mpr ⟨c, hc⟩
  · intro root space below k hroot hat
    obtain ⟨hsegments, -⟩ := hagrees.of_tree hroot hat
    refine ⟨hsegments, ?_⟩
    rw [published?_eq hsegments, hroot, Option.bind_some, hat]
  · intro path k hk
    obtain ⟨hpath, -, hget⟩ := hagrees.of_published hk
    refine ⟨hpath, ?_⟩
    intro namespace?
    simp [constructor?, hget]
  · intro path body w k after w' hdefine
    obtain ⟨c, root, space, below, hsegments, hroot, hk, -, -, rfl, rfl⟩ := views_of_define hdefine
    refine ⟨hk, ?_⟩
    intro later hleads
    have hdefined : (r.publish c k root space below).definition? c.path = some c := by
      rw [definition?_publish, if_pos rfl]
    have hpublished : (r.publish c k root space below).published? c.path = some k := by
      rw [published?_publish hsegments hroot, if_pos rfl]
    have hconstructor : Assoc.get? (r.publish c k root space below).constructors c.path = some k := by
      rw [get?_constructors_publish, if_pos rfl]
    obtain ⟨hkept, hsame, htree⟩ := hleads.kept hdefined
    refine ⟨Option.isSome_iff_exists.mpr ⟨c, hkept⟩, htree.trans hpublished, ?_⟩
    intro namespace?
    simp [constructor?, hsame, hconstructor]
  · intro path k after hadd later hleads
    -- the registry with the external constructor is itself reachable, so it agrees with its tree
    have hafter : after.Reachable config := by
      have hperformed := hr.perform default (.addConstructor path k)
      rw [Registry.perform, hadd] at hperformed
      exact hperformed
    have houtside := (outside_of_addConstructor hadd).of_leads hleads
    obtain ⟨hlisted, htree⟩ := (hafter.leads hleads).agrees.of_no_class houtside.no_class
    refine ⟨?_, hlisted, htree⟩
    rw [hasClass, Assoc.contains]
    exact Option.isSome_eq_false_iff.mpr (Option.isNone_iff_eq_none.mpr houtside.no_class)
  · intro later hleads
    refine ⟨hleads.isPrefix_classNames, ?_⟩
    intro path c hc
    exact hleads.kept hc

/-- The sample's class is published under its path, and its constructor is found there from within
another namespace too.  Another path at which that constructor is registered from outside does not become
a class when one is defined there, and the class stays what it is. -/
theorem Reachable.views_agree_leaf :
    ∃ k after, Sample.registry.published? "Ns.Leaf" = some k ∧ k.path = "Ns.Leaf" ∧
      Sample.registry.constructor? "Ns.Leaf" (some "Other") = some k ∧
      Sample.registry.addConstructor "Ns.Twin" k = .ok after ∧
      (after.perform Sample.world (.define "Ns.Twin" Sample.leaf)).hasClass "Ns.Twin" = false ∧
      (Sample.registry.perform Sample.world (.define "Ns.Leaf" .empty)).published? "Ns.Leaf"
        = some k := by
  obtain ⟨hdefined, -, hfound, -, houtside, hkept⟩ := Sample.reachable.views_agree
  obtain ⟨k, hk⟩ := (hdefined "Ns.Leaf").mp rfl
  obtain ⟨hpath, hget⟩ := hfound "Ns.Leaf" k hk
  have hadd : Sample.registry.addConstructor "Ns.Twin" k = .ok
      { Sample.registry with
        constructors := Assoc.insert Sample.registry.constructors "Ns.Twin" k } := rfl
  obtain ⟨hnone, -, -⟩ := houtside "Ns.Twin" k _ hadd _
    (Leads.refl.perform Sample.world (.define "Ns.Twin" Sample.leaf))
  obtain ⟨-, hall⟩ := hkept _ (Leads.refl.perform Sample.world (.define "Ns.Leaf" .empty))
  have hleaf : Sample.registry.definition? "Ns.Leaf" = some (Sample.definition "Ns.Leaf") := rfl
  obtain ⟨-, -, htree⟩ := hall "Ns.Leaf" _ hleaf
  exact ⟨k, _, hk, hpath, hget (some "Other"), hadd, hnone, htree.trans hk⟩

end ClassComposition.Registry
