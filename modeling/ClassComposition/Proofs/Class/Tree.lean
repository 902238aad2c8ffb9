import ClassComposition.Proofs.Class.References
import ClassComposition.Proofs.Member.Tree

/-!
# The resolved tree of a class

A compiled class describes its members over a table, and compiling copies, appends and moves indices.
Once every index is replaced by what it points to, none of this shows: the members of a class, aliases
apart, are those of its body with the parent's merged in and then the mixins' in order.

## Main definitions

* `Resolved`, `ReferenceTable.read` — leaves with the entries of a table in place of the indices.
* `HasTree`, `HaveTrees` — the tree that a declared value stands for, and those of the entries of a body.
* `ClassDefinition.tree`, `ClassDefinition.plainTree` — the resolved tree of a class.

## Main results

* `HasTree.unique`, `HaveTrees.unique` — a value has at most one tree.
* `Classified.hasTree`, `ClassifiedMembers.haveTrees` — a classified value has the tree of its descriptor.
* `ClassDefinition.Inherited.plain_eq`, `ClassDefinition.Mixed.plain_eq` — the stages of a compilation on
  resolved trees.
* `Registry.plainTree_of_define` — a definition merges the body, the parent and the mixins in this order.
-/

namespace ClassComposition

open MemberDescriptor

/-! ### Reading leaves -/

/-- What a leaf stands for.  A reference stands for its entry, and for none where there is none. -/
inductive Resolved
  | literal (v : Value)
  | text (x : String)
  | function (entry : Option Value)
  | pattern (entry : Option Value)
  | emptyArray
  | inlineArray (items : List Value)
  | arrayCopy (entry : Option Value)
  /-- No leaf: the members of an object stand beside it in the tree. -/
  | object
  deriving DecidableEq

namespace ReferenceTable

/-- What a leaf stands for over a table. -/
def read (t : ReferenceTable) : MemberDescriptor → Resolved
  | literal v => .literal v
  | text x => .text x
  | function i => .function (t.get? i)
  | pattern i => .pattern (t.get? i)
  | emptyArray => .emptyArray
  | inlineArray items => .inlineArray items
  | arrayCopy i => .arrayCopy (t.get? i)
  | nested _ => .object

/-- What points into a table is read there as it is over a table that has grown. -/
theorem IsPrefix.read_eq {t u : ReferenceTable} (h : t.IsPrefix u) (d : MemberDescriptor)
    (hd : d.PointsInto t) : t.read d = u.read d := by
  cases d with
  | function i =>
    obtain ⟨f, hf⟩ := hd
    rw [read, read, hf, h.get? hf]
  | pattern i =>
    obtain ⟨p, hp⟩ := hd
    rw [read, read, hp, h.get? hp]
  | arrayCopy i =>
    obtain ⟨a, ha⟩ := hd
    rw [read, read, ha, h.get? ha]
  | _ => rfl

/-- A leaf that was moved along with its table is read as before. -/
theorem read_shiftDeep (t u : ReferenceTable) (d : MemberDescriptor) (hleaf : d.members? = none) :
    (t.append u).2.read (shiftDeep t.size d) = u.read d := by
  cases d with
  | nested ms => cases hleaf
  | function i => exact congrArg Resolved.function (t.get?_append_add u i)
  | pattern i => exact congrArg Resolved.pattern (t.get?_append_add u i)
  | arrayCopy i => exact congrArg Resolved.arrayCopy (t.get?_append_add u i)
  | _ => rfl

end ReferenceTable

/-! ### Trees of declared values -/

mutual

/-- A declared value stands for a tree: data for itself, functions, patterns and arrays for their handles,
and an object for the trees of its properties under their parsed names. -/
inductive HasTree (s : Store) (inlineSimple : Bool) : Value → Tree Resolved → Prop
  | literal {v : Value} (h : v.kind = .null ∨ v.kind = .boolean ∨ v.kind = .number) :
      HasTree s inlineSimple v (.leaf (.literal v))
  | text (x : String) : HasTree s inlineSimple (.text x) (.leaf (.text x))
  | function (f : Handle .function) :
      HasTree s inlineSimple (.function f) (.leaf (.function (some (.function f))))
  | pattern (p : Handle .pattern) :
      HasTree s inlineSimple (.pattern p) (.leaf (.pattern (some (.pattern p))))
  | emptyArray {a : Handle .array} (h : s.array a = []) :
      HasTree s inlineSimple (.array a) (.leaf .emptyArray)
  | inlineArray {a : Handle .array} (h : s.array a ≠ [])
      (inlined : (inlineSimple && (s.array a).all Value.isSimple) = true) :
      HasTree s inlineSimple (.array a) (.leaf (.inlineArray (s.array a)))
  | arrayCopy {a : Handle .array} (h : s.array a ≠ [])
      (kept : (inlineSimple && (s.array a).all Value.isSimple) = false) :
      HasTree s inlineSimple (.array a) (.leaf (.arrayCopy (some (.array a))))
  | object {o : Handle .object} {trees : List (MemberKey × Tree Resolved)}
      (h : HaveTrees s inlineSimple (s.object o) trees) :
      HasTree s inlineSimple (.object o) (.object (Assoc.ofList trees))

/-- Entries stand for trees, each under the parsed name. -/
inductive HaveTrees (s : Store) (inlineSimple : Bool) :
    Assoc String Value → List (MemberKey × Tree Resolved) → Prop
  | nil : HaveTrees s inlineSimple [] []
  | cons {name : String} {v : Value} {rest : Assoc String Value} {tree : Tree Resolved}
      {trees : List (MemberKey × Tree Resolved)} (first : HasTree s inlineSimple v tree)
      (others : HaveTrees s inlineSimple rest trees) :
      HaveTrees s inlineSimple ((name, v) :: rest) ((MemberKey.parse name, tree) :: trees)

end

section DeclaredTrees

variable {s s' : Store} {inlineSimple : Bool}

mutual

/-- The tree of a value is read off the objects and the arrays. -/
theorem HasTree.of_containers (hobjects : s'.objects = s.objects) (harrays : s'.arrays = s.arrays)
    {v : Value} {tree : Tree Resolved} :
    HasTree s inlineSimple v tree → HasTree s' inlineSimple v tree
  | .literal h => .literal h
  | .text x => .text x
  | .function f => .function f
  | .pattern p => .pattern p
  | .emptyArray (a := a) h => by
    have hitems : s'.array a = s.array a := congrArg (·.get a) harrays
    exact .emptyArray (hitems ▸ h)
  | .inlineArray (a := a) h inlined => by
    have hitems : s'.array a = s.array a := congrArg (·.get a) harrays
    rw [← hitems] at h inlined ⊢
    exact .inlineArray h inlined
  | .arrayCopy (a := a) h kept => by
    have hitems : s'.array a = s.array a := congrArg (·.get a) harrays
    rw [← hitems] at h kept
    exact .arrayCopy h kept
  | .object (o := o) h => by
    have hproperties : s'.object o = s.object o := congrArg (·.get o) hobjects
    have htrees := h.of_containers hobjects harrays
    exact .object (hproperties ▸ htrees)

theorem HaveTrees.of_containers (hobjects : s'.objects = s.objects)
    (harrays : s'.arrays = s.arrays) {entries : Assoc String Value}
    {trees : List (MemberKey × Tree Resolved)} :
    HaveTrees s inlineSimple entries trees → HaveTrees s' inlineSimple entries trees
  | .nil => .nil
  | .cons first others =>
    .cons (first.of_containers hobjects harrays) (others.of_containers hobjects harrays)

end

mutual

/-- A value has at most one tree. -/
theorem HasTree.unique {v : Value} {tree other : Tree Resolved} :
    HasTree s inlineSimple v tree → HasTree s inlineSimple v other → tree = other
  | .literal hkind, hother => by
    cases hother with
    | literal => rfl
    | _ => simp [Value.kind] at hkind
  | .text x, hother => by
    cases hother with
    | literal hkind => simp [Value.kind] at hkind
    | text => rfl
  | .function f, hother => by
    cases hother with
    | literal hkind => simp [Value.kind] at hkind
    | function => rfl
  | .pattern p, hother => by
    cases hother with
    | literal hkind => simp [Value.kind] at hkind
    | pattern => rfl
  | .emptyArray hempty, hother => by
    -- the three rules for arrays exclude one another
    cases hother with
    | literal hkind => simp [Value.kind] at hkind
    | emptyArray => rfl
    | inlineArray hne => exact absurd hempty hne
    | arrayCopy hne => exact absurd hempty hne
  | .inlineArray hne hinlined, hother => by
    cases hother with
    | literal hkind => simp [Value.kind] at hkind
    | emptyArray hempty => exact absurd hempty hne
    | inlineArray => rfl
    | arrayCopy _ hkept => exact absurd (hinlined.symm.trans hkept) Bool.noConfusion
  | .arrayCopy hne hkept, hother => by
    cases hother with
    | literal hkind => simp [Value.kind] at hkind
    | emptyArray hempty => exact absurd hempty hne
    | inlineArray _ hinlined => exact absurd (hinlined.symm.trans hkept) Bool.noConfusion
    | arrayCopy => rfl
  | .object htrees, hother => by
    cases hother with
    | literal hkind => simp [Value.kind] at hkind
    | object hothers => rw [htrees.unique hothers]

theorem HaveTrees.unique {entries : Assoc String Value}
    {trees others : List (MemberKey × Tree Resolved)} :
    HaveTrees s inlineSimple entries trees → HaveTrees s inlineSimple entries others →
      trees = others
  | .nil, hothers => by
    cases hothers
    rfl
  | .cons first rest, hothers => by
    cases hothers with
    | cons first' rest' => rw [first.unique first', rest.unique rest']

end

end DeclaredTrees

/-! ### Trees of classified values -/

mutual

/-- A classified value has the tree of its descriptor over the table. -/
theorem Classified.hasTree {s : Store} {inlineSimple : Bool} {v : Value} {t u : ReferenceTable}
    {d : MemberDescriptor} :
    Classified s inlineSimple v t d u → HasTree s inlineSimple v (d.tree u.read)
  | .literal h _ => .literal h
  | .text x _ => .text x
  | .function f t => by
    have hentry : (t.push (.function f)).2.get? t.size = some (.function f) := t.get?_push_size _
    rw [tree_leaf _ rfl, ReferenceTable.read, hentry]
    exact .function f
  | .pattern p t => by
    have hentry : (t.push (.pattern p)).2.get? t.size = some (.pattern p) := t.get?_push_size _
    rw [tree_leaf _ rfl, ReferenceTable.read, hentry]
    exact .pattern p
  | .emptyArray h _ => .emptyArray h
  | .inlineArray h inlined _ => .inlineArray h inlined
  | .arrayCopy (a := a) h kept t => by
    have hentry : (t.push (.array a)).2.get? t.size = some (.array a) := t.get?_push_size _
    rw [tree_leaf _ rfl, ReferenceTable.read, hentry]
    exact .arrayCopy h kept
  | .object h => by
    obtain ⟨trees, htrees, hforest⟩ := h.haveTrees Skeleton.allLeaves_nil
    rw [Skeleton.tree_nested, hforest]
    exact .object htrees

/-- Classified members are those that there were, with the trees of their values written in turn. -/
theorem ClassifiedMembers.haveTrees {s : Store} {inlineSimple : Bool}
    {entries : Assoc String Value} {ms result : Skeleton} {t u : ReferenceTable} :
    ClassifiedMembers s inlineSimple entries ms t result u →
      Skeleton.AllLeaves (PointsInto t) ms →
      ∃ trees, HaveTrees s inlineSimple entries trees ∧
        result.forest u.read =
          trees.foldl (fun forest p => Assoc.insert forest p.1 p.2) (ms.forest t.read)
  | .nil _ _, _ => ⟨[], .nil, rfl⟩
  | .cons first others, hms => by
    -- what was classified before is read over the longer table as it was
    have hgrown := Skeleton.allLeaves_of_isPrefix first.isPrefix hms
    have hbefore := Skeleton.forest_congr first.isPrefix.read_eq hms
    obtain ⟨trees, htrees, hforest⟩ :=
      others.haveTrees (Skeleton.allLeaves_insert hgrown _ first.allLeaves)
    refine ⟨(_, _) :: trees, .cons first.hasTree htrees, ?_⟩
    rw [hforest, Skeleton.forest_insert, ← hbefore, List.foldl_cons]

end

/-! ### The stages of a compilation -/

namespace ClassDefinition

/-- The resolved tree: the skeleton with the entries of the class's own table in place of the indices. -/
def tree (c : ClassDefinition) : Forest Resolved := c.skeleton.forest c.references.read

/-- The resolved tree without the aliases at its root. -/
def plainTree (c : ClassDefinition) : Forest Resolved := c.tree.plain

variable {config : Config} {classes : Assoc String ClassDefinition} {path : String}

/-- Over a table that starts with the parent's, merging the parent in is the plain merge with the
parent's tree. -/
theorem Inherited.plain_eq {own merged : Skeleton} {parent? : Option ClassDefinition}
    {t : ReferenceTable} (h : Inherited path own parent? merged)
    (hstart : (inheritedReferences parent?).IsPrefix t)
    (hparent : ∀ parent, parent? = some parent → parent.ReferencesSound) (hown : own.Distinct) :
    (merged.forest t.read).plain =
      (parent?.toList.map plainTree).foldl Forest.merge (own.forest t.read).plain := by
  cases h with
  | root => rfl
  | @child parent merged kept extended =>
    have hsound := hparent parent rfl
    -- the parent's indices mean the same over the longer table
    have hread : parent.skeleton.forest t.read = parent.tree :=
      (Skeleton.forest_congr hstart.read_eq hsound).symm
    have hsteps := rootMerge_of_extend (R := TreeMerged t.read) hsound.distinct
      Skeleton.tree_mergeMember extended
    rw [Skeleton.plain_of_rootMerge hsteps hsound.distinct hown, hread]
    rfl

/-- Merging a mixin in is the plain merge with the mixin's tree, over the table behind which the mixin's
has been appended. -/
theorem plain_implement {a : Assembly} {mixin : ClassDefinition} {skeleton : Skeleton}
    (merged : Skeleton.implement path a.skeleton mixin.skeleton a.references.size
      = (skeleton, .ok ()))
    (hmixin : mixin.ReferencesSound) (ha : Skeleton.AllLeaves (PointsInto a.references) a.skeleton) :
    (skeleton.forest (a.references.append mixin.references).2.read).plain =
      (a.skeleton.forest a.references.read).plain.merge mixin.plainTree := by
  have hgrown := ReferenceTable.isPrefix_append a.references mixin.references
  have hupper := Skeleton.forest_congr hgrown.read_eq ha
  have hlower := Skeleton.forest_shiftMembers
    (a.references.read_shiftDeep mixin.references) mixin.skeleton
  have hshifted := Skeleton.allLeaves_shiftMembers (t := a.references) hmixin
  obtain ⟨slots, hsteps⟩ := rootMerge_of_implement
    (R := TreeMerged (a.references.append mixin.references).2.read) hmixin.distinct
    Skeleton.tree_mergeMember merged
  rw [Skeleton.plain_of_rootMerge hsteps hshifted.distinct ha.distinct, hlower, ← hupper]
  rfl

/-- Merging mixins in one after the other is the plain merge with their trees in order. -/
theorem Mixed.plain_eq {a b : Assembly} {mixins : List String}
    (h : Mixed config classes path a mixins b)
    (hclasses : ∀ p c, Assoc.get? classes p = some c → c.ReferencesSound)
    (ha : Skeleton.AllLeaves (PointsInto a.references) a.skeleton) :
    ∃ layers : List ClassDefinition, layers.map some = mixins.map (Assoc.get? classes) ∧
      (b.skeleton.forest b.references.read).plain =
        (layers.map plainTree).foldl Forest.merge (a.skeleton.forest a.references.read).plain := by
  induction h with
  | nil a => exact ⟨[], rfl, rfl⟩
  | @cons a b mixinPath rest mixin skeleton found merged others ih =>
    obtain ⟨hmixin, -⟩ := findMixin_eq_ok found
    have hsound := hclasses _ _ hmixin
    obtain ⟨layers, hlayers, htree⟩ := ih (allLeaves_implement merged hsound ha)
    refine ⟨mixin :: layers, ?_, ?_⟩
    · rw [List.map_cons, List.map_cons, hlayers, hmixin]
    · rw [htree, plain_implement merged hsound ha, List.map_cons, List.foldl_cons]

/-- The stages of a compilation merge the body, the parent and the mixins in this order. -/
theorem Composition.plainTree_eq {body : ClassBody} {w : World}
    (k : Composition config classes path body w)
    (hclasses : ∀ p c, Assoc.get? classes p = some c → c.ReferencesSound) :
    ∃ (own : List (MemberKey × Tree Resolved)) (layers : List ClassDefinition),
      HaveTrees k.world.store config.inlineSimpleArrays
        (body.memberEntries (Assoc.keys k.shared)) own ∧
      layers.map some =
        (k.directives.parent?.toList ++ k.directives.mixins).map (Assoc.get? classes) ∧
      k.definition.plainTree =
        (layers.map plainTree).foldl Forest.merge (Forest.plain (Assoc.ofList own)) := by
  have hown := classifiedMembers_of_skeleton k.own_classified
  have hparent : ∀ parent, k.parent? = some parent → parent.ReferencesSound :=
    fun parent => k.holds_of_parent hclasses
  have hleaves := hown.allLeaves Skeleton.allLeaves_nil
  have hmerged := k.inherited.allLeaves hown.isPrefix hparent hleaves
  have hinherited := k.inherited.plain_eq hown.isPrefix hparent hleaves.distinct
  obtain ⟨own, htrees, hforest⟩ := hown.haveTrees Skeleton.allLeaves_nil
  obtain ⟨mixins, hmixins, hmixed⟩ := k.mixed.plain_eq hclasses hmerged
  refine ⟨own, k.parent?.toList ++ mixins, htrees, ?_, ?_⟩
  · rw [List.map_append, List.map_append, hmixins, k.parents_eq]
  · rw [List.map_append, List.foldl_append]
    have hwhole : k.definition.plainTree = (k.whole.skeleton.forest k.whole.references.read).plain :=
      rfl
    rw [hwhole, hmixed, hinherited, hforest]
    rfl

end ClassDefinition

/-! ### Definitions -/

namespace Registry

/-- A definition that succeeds merges its body, then the parent, then the mixins in order of declaration.
The body's tree leaves out the directives and the names that are shared in the class, and aliases at the
root are left out everywhere. -/
theorem Reachable.plainTree_of_define {config : Config} {r : Registry} (hr : r.Reachable config)
    {path : String} {body : ClassBody} {w w' : World} {k : Constructor} {after : Registry}
    (h : (r.define path body).run w = (.ok (k, after), w')) :
    ∃ (c : ClassDefinition) (own : List (MemberKey × Tree Resolved)) (names : List String)
      (layers : List ClassDefinition),
      after.definition? path = some c ∧
      Directives.parse w.store path body = .ok ⟨c.parent?, c.mixins, names, c.isAbstract⟩ ∧
      HaveTrees w'.store config.inlineSimpleArrays (body.memberEntries (Assoc.keys c.shared)) own ∧
      layers.map some = (c.parent?.toList ++ c.mixins).map r.definition? ∧
      c.plainTree = (layers.map ClassDefinition.plainTree).foldl Forest.merge
        (Forest.plain (Assoc.ofList own)) := by
  obtain rfl := hr.config_eq
  obtain ⟨c, w₁, w₂, hworld, hbuild, hstore, hfresh, -, hclasses, -⟩ := composition_of_define h
  obtain ⟨hobjects, harrays⟩ := Constructor.containers_of_build hbuild
  obtain ⟨own, layers, htrees, hlayers, htree⟩ :=
    c.plainTree_eq fun p d hd => hr.compiled.referencesSound hd
  refine ⟨c.definition, own, c.directives.shared, layers, ?_, c.parsed, ?_, hlayers, htree⟩
  · rw [definition?, hclasses, Assoc.get?_append, hfresh, Option.none_or, Assoc.get?, if_pos rfl]
  · -- the trees were read when the members were classified, and building changed no container since
    refine htrees.of_containers ?_ ?_
    · rw [hstore, hobjects, hworld]
    · rw [hstore, harrays, hworld]

/-- The class of the sample with a parent and a mixin: the objects of the body, of the parent and of the
mixin are merged in this order, and the method that is overridden stays where the body has it. -/
theorem Reachable.plainTree_of_define_leaf :
    ∃ (own : List (MemberKey × Tree Resolved)) (layers : List ClassDefinition),
      layers.map some = [Sample.before.definition? "Ns.Base", Sample.before.definition? "Ns.Mix"] ∧
      (layers.map ClassDefinition.plainTree).foldl Forest.merge (Forest.plain (Assoc.ofList own)) =
        [(.plain "run", .leaf (.function (some (.function ⟨1⟩)))),
          (.plain "options", .object [(.plain "own", .leaf (.function (some (.function ⟨1⟩)))),
            (.plain "list", .leaf (.arrayCopy (some (.array ⟨0⟩)))),
            (.plain "size", .leaf (.literal .null)),
            (.plain "extra", .leaf (.function (some (.function ⟨2⟩))))]),
          (.plain "mix", .leaf (.function (some (.function ⟨2⟩))))] := by
  obtain ⟨c, own, names, layers, hc, -, -, hlayers, htree⟩ :=
    Sample.before_reachable.plainTree_of_define
      (rfl : (Sample.before.define "Ns.Leaf" Sample.leaf).run Sample.world = (.ok (_, _), _))
  have hleaf : some (Sample.definition "Ns.Leaf") = some c := hc
  obtain rfl := Option.some.inj hleaf
  refine ⟨own, layers, hlayers, ?_⟩
  rw [← htree]
  rfl

end Registry

end ClassComposition
