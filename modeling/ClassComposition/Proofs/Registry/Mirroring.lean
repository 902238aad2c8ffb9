import ClassComposition.Proofs.Class.Renaming
import ClassComposition.Proofs.Registry.Matching
import ClassComposition.Proofs.Registry.Replay
import ClassComposition.Proofs.Registry.Vacancy

/-!
# Registries that show the same

A registry is looked at in three ways: a path has a class, a path has a constructor, and there is a node at
some segments below a root, with or without a constructor.  In another registry all three may show the
same under a renaming.  What is published then in both shows the same, and it does not matter in which
order two classes are published, unless one path is below the other.

## Main definitions

* `Registry.node?` — the node at some segments below a root.
* `Registry.Mirrors` — a registry shows in all views what another one does, renamed.
* `Registry.SameUnder` — a registry answers all questions as another one does, renamed.

## Main results

* `Registry.place_publish` — a class that is published leaves the place of another path as it is.
* `Registry.Mirrors.publish` — publishing in both registries.
* `Registry.Mirrors.publish_comm` — publishing two classes in either order.
* `Registry.Mirrors.sameUnder` — registries that show the same answer alike.
-/

namespace ClassComposition

open ClassPath (Below)

/-! ### Nodes -/

namespace Namespace

/-- What stands at the node at some segments, if there is one. -/
def nodeAt? (n : Namespace) (segments : List String) : Option (Option Constructor) :=
  (n.find? segments).map constructor?

theorem nodeAt?_nil (n : Namespace) : n.nodeAt? [] = some n.constructor? := rfl

theorem nodeAt?_cons (n : Namespace) (segment : String) (rest : List String) :
    n.nodeAt? (segment :: rest) = (Assoc.get? n.children segment).bind fun child => child.nodeAt? rest := by
  rw [nodeAt?, find?]
  cases Assoc.get? n.children segment <;> rfl

/-- Publishing makes the nodes on the way to its own segments, and changes no others. -/
theorem nodeAt?_insert (n : Namespace) (segments other : List String) (k : Constructor) :
    (n.insert segments k).nodeAt? other =
      if segments = other then some (some k)
      else if other <+: segments then some ((n.nodeAt? other).getD none) else n.nodeAt? other := by
  induction segments generalizing n other with
  | nil =>
    cases other with
    | nil => rfl
    | cons first more => simp [insert, nodeAt?_cons, children]
  | cons segment rest ih =>
    cases other with
    | nil => simp [insert, nodeAt?_nil, constructor?]
    | cons first more =>
      rw [insert, nodeAt?_cons, nodeAt?_cons, children, Assoc.get?_insert]
      by_cases hfirst : segment = first
      · subst hfirst
        rw [if_pos rfl, Option.bind_some, ih]
        simp only [List.cons_prefix_cons, List.cons.injEq, true_and]
        cases hchild : Assoc.get? n.children segment with
        | some child => rfl
        | none =>
          -- a child that has just been made has no nodes below it
          cases more with
          | nil => simp [nodeAt?_nil, empty, constructor?]
          | cons second others => simp [nodeAt?_cons, empty, children]
      · have hne : segment :: rest ≠ first :: more := by simp [hfirst]
        have hprefix : ¬ first :: more <+: segment :: rest := by
          rw [List.cons_prefix_cons]
          exact fun h => hfirst h.1.symm
        rw [if_neg hfirst, if_neg hne, if_neg hprefix]

end Namespace

namespace Registry

variable {config : Config} {ρ : Renaming} {r r' : Registry} {path : String} {body : ClassBody}
  {c d : ClassDefinition} {k l : Constructor} {w : World} {s : Store} {root first : String}
  {space space' : Namespace} {below rest : List String}

/-- What stands at the node at some segments below a root, if there is one. -/
def node? (r : Registry) (root : String) (below : List String) : Option (Option Constructor) :=
  (r.root? root).bind fun space => space.nodeAt? below

theorem Agrees.of_node (h : r.Agrees) {name : String} {segments : List String}
    (hk : r.node? name segments = some (some k)) : Assoc.get? r.constructors k.path = some k := by
  obtain ⟨space, hspace, hat⟩ := Option.bind_eq_some_iff.mp hk
  obtain ⟨n, hn, hconstructor⟩ := Option.map_eq_some_iff.mp hat
  have hstands : space.constructorAt? segments = some k := by
    rw [Namespace.constructorAt?, hn, Option.bind_some, hconstructor]
  obtain ⟨hsegments, -⟩ := h.of_tree hspace hstands
  have hpublished : r.published? k.path = some k := by
    rw [published?_eq hsegments, hspace, Option.bind_some, hstands]
  exact (h.of_published hpublished).2.2

theorem node?_publish (hroot : r.root? root = some space) (name : String) (segments : List String) :
    (r.publish c k root space below).node? name segments =
      if root :: below = name :: segments then some (some k)
      else if name :: segments <+: root :: below then some ((r.node? name segments).getD none)
      else r.node? name segments := by
  rw [node?, root?_publish]
  by_cases hname : root = name
  · subst hname
    rw [if_pos rfl, Option.bind_some, Namespace.nodeAt?_insert]
    simp only [node?, hroot, List.cons_prefix_cons, List.cons.injEq, true_and, Option.bind_some]
  · have hne : root :: below ≠ name :: segments := by simp [hname]
    have hprefix : ¬ name :: segments <+: root :: below := by
      rw [List.cons_prefix_cons]
      exact fun h => hname h.1.symm
    rw [if_neg hname, if_neg hne, if_neg hprefix]
    rfl

/-! ### The places of other paths -/

/-- A class that is published leaves the place of another path as it is, unless it is below that path. -/
theorem place_publish (hsegments : ClassPath.segments c.path = root :: below)
    (hroot : r.root? root = some space) (hne : c.path ≠ path) (hbelow : ¬ Below c.path path) :
    Agree SamePlace (r.place path) ((r.publish c k root space below).place path) := by
  have hclass : (r.publish c k root space below).hasClass path = r.hasClass path := by
    show (definition? _ path).isSome = (definition? _ path).isSome
    rw [definition?_publish, if_neg hne]
  have hconstructor : (r.publish c k root space below).hasConstructor path = r.hasConstructor path := by
    show (Assoc.get? _ path).isSome = (Assoc.get? _ path).isSome
    rw [get?_constructors_publish, if_neg hne]
  unfold place
  rw [hclass, hconstructor]
  by_cases htaken : (r.hasClass path || r.hasConstructor path) = true
  · rw [if_pos htaken, if_pos htaken]
    exact .error _
  rw [if_neg htaken, if_neg htaken]
  rcases hparts : ClassPath.split path with e | parts
  · exact .error e
  have hjoined := segments_eq_cons hparts
  have hpure : (Except.ok parts : Except ClassError (List String)) = pure parts := rfl
  rw [hpure, pure_bind, pure_bind]
  dsimp only
  rw [root?_publish]
  -- the tree grew under one root; under any other root the search sees what it saw before
  by_cases hhead : root = parts.headD ""
  · rw [if_pos hhead, ← hhead, hroot]
    dsimp only
    -- a place on the way to the new class would make its path a prefix of that one
    have hprefix : parts.tail.isPrefixOf below = false := by
      rw [← Bool.not_eq_true, List.isPrefixOf_iff_prefix]
      intro h
      have hsegs : ClassPath.segments path <+: ClassPath.segments c.path := by
        rw [hsegments, ← hjoined, ← hhead, List.cons_prefix_cons]
        exact ⟨rfl, h⟩
      exact (ClassPath.isPrefix_segments_iff.mp hsegs).elim hne hbelow
    rw [Namespace.isVacant_insert, hprefix, Bool.not_false, Bool.true_and]
    cases space.isVacant parts.tail with
    | true => exact .ok ⟨rfl, rfl⟩
    | false => exact .error _
  · rw [if_neg hhead]
    cases r.root? (parts.headD "") with
    | none => exact .error _
    | some tree =>
      dsimp only
      cases tree.isVacant parts.tail with
      | true => exact .ok ⟨rfl, rfl⟩
      | false => exact .error _

/-! ### Views -/

/-- The second registry shows in all views what the first one does, renamed. -/
structure Mirrors (ρ : Renaming) (r r' : Registry) : Prop where
  definition?_eq : ∀ path, r'.definition? path = (r.definition? path).map ρ.definition
  get?_eq : ∀ path, Assoc.get? r'.constructors path
    = (Assoc.get? r.constructors path).map ρ.constructor
  node?_eq : ∀ name segments, r'.node? name segments
    = (r.node? name segments).map (Option.map ρ.constructor)

namespace Mirrors

theorem publish (h : r.Mirrors ρ r') (hroot : r.root? root = some space)
    (hroot' : r'.root? root = some space') :
    (r.publish c k root space below).Mirrors ρ
      (r'.publish (ρ.definition c) (ρ.constructor k) root space' below) where
  definition?_eq p := by
    rw [definition?_publish, definition?_publish, h.definition?_eq]
    show (if c.path = p then _ else _) = _
    split <;> rfl
  get?_eq p := by
    rw [get?_constructors_publish, get?_constructors_publish, h.get?_eq]
    show (if c.path = p then _ else _) = _
    split <;> rfl
  node?_eq name segments := by
    rw [node?_publish hroot, node?_publish hroot', h.node?_eq]
    split_ifs
    · rfl
    · cases r.node? name segments <;> rfl
    · rfl

/-- Two classes may be published in either order, when neither path is below the other one. -/
theorem publish_comm {tree tree' : Namespace}
    (h : r.Mirrors ρ ((r'.publish c k root space below).publish d l first tree' rest))
    (hroot : r'.root? root = some space) (hfirst : r'.root? first = some tree)
    (hroot' : (r'.publish d l first tree rest).root? root = some space')
    (hfirst' : (r'.publish c k root space below).root? first = some tree')
    (hc : ClassPath.segments c.path = root :: below) (hd : ClassPath.segments d.path = first :: rest)
    (hne : c.path ≠ d.path) (hbelow : ¬ Below c.path d.path) (hbelow' : ¬ Below d.path c.path) :
    r.Mirrors ρ ((r'.publish d l first tree rest).publish c k root space' below) where
  definition?_eq p := by
    rw [← h.definition?_eq]
    simp only [definition?_publish]
    by_cases hp : c.path = p
    · rw [if_pos hp, if_neg (hp ▸ hne.symm), if_pos hp]
    · rw [if_neg hp, if_neg hp]
  get?_eq p := by
    rw [← h.get?_eq]
    simp only [get?_constructors_publish]
    by_cases hp : c.path = p
    · rw [if_pos hp, if_neg (hp ▸ hne.symm), if_pos hp]
    · rw [if_neg hp, if_neg hp]
  node?_eq name segments := by
    rw [← h.node?_eq, node?_publish hroot', node?_publish hfirst', node?_publish hroot,
      node?_publish hfirst]
    have hprefix : ¬ root :: below <+: first :: rest := by
      rw [← hc, ← hd, ClassPath.isPrefix_segments_iff]
      exact fun h => h.elim (fun heq => hne heq.symm) hbelow'
    have hprefix' : ¬ first :: rest <+: root :: below := by
      rw [← hc, ← hd, ClassPath.isPrefix_segments_iff]
      exact fun h => h.elim hne hbelow
    by_cases hown : root :: below = name :: segments
    · have hother : first :: rest ≠ name :: segments :=
        fun heq => hprefix (hown ▸ heq ▸ List.prefix_refl _)
      rw [if_pos hown, if_neg hother, if_neg (hown ▸ hprefix), if_pos hown]
    · by_cases hother : first :: rest = name :: segments
      · rw [if_neg hown, if_neg (hother ▸ hprefix'), if_pos hother, if_pos hother]
      · -- nodes on the way to both are made by whichever class comes first
        rw [if_neg hown, if_neg hown, if_neg hother, if_neg hother]
        split_ifs <;> rfl

end Mirrors

/-! ### What registries answer -/

/-- The second registry answers all questions as the first one does, under a renaming; only the order in
which it lists its classes, and the children of a node, may be another one. -/
structure SameUnder (ρ : Renaming) (r r' : Registry) : Prop where
  definition?_eq : ∀ path, r'.definition? path = (r.definition? path).map ρ.definition
  constructor?_eq : ∀ path namespace?,
    r'.constructor? path namespace? = (r.constructor? path namespace?).map ρ.constructor
  packageConstructor?_eq : ∀ base suffix,
    r'.packageConstructor? base suffix = (r.packageConstructor? base suffix).map (Option.map ρ.constructor)
  resolve_eq : ∀ name path,
    ((r'.root? name).bind fun space => space.resolve path).map Namespace.constructor?
      = (((r.root? name).bind fun space => space.resolve path).map Namespace.constructor?).map
          (Option.map ρ.constructor)
  perm_classNames : r'.classNames.Perm r.classNames

/-- Registries that show the same answer alike. -/
theorem Mirrors.sameUnder (h : r.Mirrors ρ r') (hr : (Assoc.keys r.classes).Nodup)
    (hr' : (Assoc.keys r'.classes).Nodup) : r.SameUnder ρ r' where
  definition?_eq := h.definition?_eq
  constructor?_eq path namespace? := by
    unfold constructor?
    rw [h.get?_eq]
    cases Assoc.get? r.constructors path with
    | some k => rfl
    | none =>
      cases namespace? with
      | none => rfl
      | some space => exact h.get?_eq _
  packageConstructor?_eq base suffix := by
    unfold packageConstructor?
    rw [h.definition?_eq]
    cases r.definition? base with
    | none => rfl
    | some c =>
      have hfound : ∀ paths : List String,
          (paths.findSome? fun path => Assoc.get? r'.constructors (path ++ suffix))
            = (paths.findSome? fun path => Assoc.get? r.constructors (path ++ suffix)).map
                ρ.constructor := by
        intro paths
        -- the first registered candidate stands at the same place of the lineage
        simp only [h.get?_eq, List.map_findSome?, Function.comp_def]
      exact congrArg Except.ok (hfound c.lineage.reverse)
  resolve_eq name path := by
    have hnode : ∀ r : Registry, ((r.root? name).bind fun space => space.resolve path).map
        Namespace.constructor? = r.node? name (ClassPath.segments path) := by
      intro r
      unfold node?
      cases r.root? name <;> rfl
    rw [hnode, hnode, h.node?_eq]
  perm_classNames := by
    refine (List.perm_ext_iff_of_nodup hr' hr).mpr fun path => ?_
    rw [← Assoc.get?_isSome_iff, ← Assoc.get?_isSome_iff]
    show (r'.definition? path).isSome = true ↔ (r.definition? path).isSome = true
    rw [h.definition?_eq, Option.isSome_map]

end Registry

end ClassComposition
