import ClassComposition.Proofs.Class.Conformance
import ClassComposition.Proofs.Member.Contribution
import ClassComposition.Proofs.Registry.Sharing

/-!
# Where a class comes from

A class is compiled against those that were defined before it, and none of these ever changes.  So what a
class says of its parent and its mixins stays true: its lineage, the mixins that it implements, and the
layout of its table, which is the parent's, then what the body adds, and then those of the mixins.

## Main definitions

* `Registry.parentClass?` — the class that a class extends.
* `Registry.Ancestor` — a parent, the parent of a parent, and so on.
* `Registry.tablesOf` — the tables of some classes one behind the other.

## Main results

* `Registry.Reachable.mem_above_iff` — the lineage of a class lists its ancestors.
* `Compiled.implemented_mixable` — what mixins are like.
* `Registry.Reachable.metadata` — all of this, with the layout of the table.
-/

namespace ClassComposition

namespace Registry

/-- The class that a class extends. -/
def parentClass? (r : Registry) (c : ClassDefinition) : Option ClassDefinition :=
  c.parent?.bind r.definition?

/-- The first class is above the second one: it is the parent, or above the parent. -/
inductive Ancestor (r : Registry) : String → String → Prop
  | parent {path parentPath : String} {c : ClassDefinition} (found : r.definition? path = some c)
      (extended : c.parent? = some parentPath) : Ancestor r parentPath path
  | above {path parentPath top : String} {c : ClassDefinition} (found : r.definition? path = some c)
      (extended : c.parent? = some parentPath) (higher : Ancestor r top parentPath) :
      Ancestor r top path

/-- The entries of the tables of some classes, one table behind the other. -/
def tablesOf (classes : Assoc String ClassDefinition) (paths : List String) : List Value :=
  paths.flatMap fun path => ((Assoc.get? classes path).map fun c => c.references.entries).getD []

theorem tablesOf_cons (classes : Assoc String ClassDefinition) (path : String) (rest : List String) :
    tablesOf classes (path :: rest)
      = ((Assoc.get? classes path).map fun c => c.references.entries).getD []
        ++ tablesOf classes rest := List.flatMap_cons

/-- A mixin has neither shared members nor a post-construction hook. -/
def Mixable (config : Config) (c : ClassDefinition) : Prop :=
  c.shared = [] ∧ Assoc.get? c.skeleton (MemberKey.parse config.afterInitMember) = none

end Registry

/-! ### One compilation -/

namespace ClassDefinition

open Registry (tablesOf tablesOf_cons Mixable)

variable {config : Config} {classes later : Assoc String ClassDefinition} {path : String}
  {body : ClassBody} {w : World}

/-- The tables of the mixins stand one behind the other. -/
theorem Mixed.entries_eq {a b : Assembly} {mixins : List String}
    (h : Mixed config classes path a mixins b) :
    b.references.entries = a.references.entries ++ tablesOf classes mixins := by
  induction h with
  | nil a => exact (List.append_nil _).symm
  | @cons a b mixinPath rest mixin skeleton found merged others ih =>
    obtain ⟨hmixin, -⟩ := findMixin_eq_ok found
    rw [ih, tablesOf_cons, hmixin, ← List.append_assoc]
    rfl

/-- All mixins are classes that can be one. -/
theorem Mixed.mixable {a b : Assembly} {mixins : List String}
    (h : Mixed config classes path a mixins b) :
    ∀ m ∈ mixins, ∃ d, Assoc.get? classes m = some d ∧ Mixable config d := by
  induction h with
  | nil a => exact List.forall_mem_nil _
  | cons found merged others ih =>
    obtain ⟨hmixin, hshared, -, hhook⟩ := findMixin_eq_ok found
    exact List.forall_mem_cons.mpr ⟨⟨_, hmixin, hshared, hhook⟩, ih⟩

theorem Mixed.nodup_implemented {a b : Assembly} {mixins : List String}
    (h : Mixed config classes path a mixins b) (ha : a.implemented.Nodup) : b.implemented.Nodup := by
  induction h with
  | nil a => exact ha
  | @cons a b mixinPath rest mixin skeleton found merged others ih =>
    obtain ⟨-, -, hnew, -⟩ := findMixin_eq_ok found
    refine ih ?_
    rw [List.nodup_append]
    refine ⟨ha, List.nodup_singleton _, ?_⟩
    rintro m hm other hother rfl
    obtain rfl := List.mem_singleton.mp hother
    exact hnew hm

/-- Tables are read in the same way once there are more classes. -/
theorem tablesOf_eq (hkept : ∀ p c, Assoc.get? classes p = some c → Assoc.get? later p = some c)
    {paths : List String} (hpaths : ∀ p ∈ paths, ∃ d, Assoc.get? classes p = some d) :
    tablesOf later paths = tablesOf classes paths := by
  induction paths with
  | nil => rfl
  | cons p rest ih =>
    obtain ⟨⟨d, hd⟩, hrest⟩ := List.forall_mem_cons.mp hpaths
    have ih := ih hrest
    rw [tablesOf_cons, tablesOf_cons, hd, hkept p d hd, ih]

namespace Composition

/-- The parent is the class under the path that the directives name, also once there are more classes. -/
theorem parent?_eq_bind (k : Composition config classes path body w)
    (hkept : ∀ p c, Assoc.get? classes p = some c → Assoc.get? later p = some c) :
    k.parent? = k.directives.parent?.bind (Assoc.get? later) := by
  rcases hnamed : k.directives.parent? with _ | parentPath
  · rcases hfound : k.parent? with _ | parent
    · rfl
    · obtain ⟨parentPath, hpath, -⟩ := k.findParent_eq hfound
      rw [hnamed] at hpath
      cases hpath
  · obtain ⟨parent, hfound, hget⟩ := k.exists_parent hnamed
    rw [hfound, Option.bind_some, hkept _ _ hget]

/-- The mixins that a class implements are its parent's and then its own. -/
theorem implemented_eq (k : Composition config classes path body w) :
    k.definition.implemented
      = (k.parent?.map ClassDefinition.implemented).getD [] ++ k.definition.mixins :=
  k.mixed.implemented_eq

/-- The table of a class is its parent's, then what the body adds, and then those of the mixins.  What the
body adds are the references of its contents. -/
theorem exists_entries_eq (k : Composition config classes path body w) :
    ∃ contents : List (String × Contents (Value × List Value)),
      k.world.store.ShowsAll (fun _ => True) k.world.store.exact
        (body.memberEntries (Assoc.keys k.definition.shared)) contents ∧
      k.definition.references.entries = (inheritedReferences k.parent?).entries
        ++ Contents.referencesAll config.inlineSimpleArrays contents
        ++ tablesOf classes k.definition.mixins ∧
      (Contents.referencesAll config.inlineSimpleArrays contents).length
        = k.definition.ownReferences := by
  obtain ⟨contents, hshows, hentries⟩ :=
    (classifiedMembers_of_skeleton k.own_classified).exists_entries_eq
  refine ⟨contents, hshows, ?_, ?_⟩
  · rw [← hentries]
    exact k.mixed.entries_eq
  · have hlength := congrArg List.length hentries
    rw [List.length_append] at hlength
    show _ = k.references.entries.length - (inheritedReferences k.parent?).entries.length
    omega

end Composition

end ClassDefinition

/-! ### Compiled classes -/

namespace Compiled

open Registry (Mixable)

variable {config : Config} {classes : Assoc String ClassDefinition} {path : String} {c : ClassDefinition}

theorem get?_append_of_some {path p : String} {c d : ClassDefinition}
    (h : Assoc.get? classes p = some c) : Assoc.get? (classes ++ [(path, d)]) p = some c := by
  rw [Assoc.get?_append, h, Option.some_or]

theorem nodup_ancestorNames (h : Compiled config classes) (hc : Assoc.get? classes path = some c) :
    c.ancestorNames.Nodup := by
  refine h.holds_each (P := fun c => c.ancestorNames.Nodup) ?_ hc
  intro classes path body w _ hclasses k
  rw [ClassDefinition.Composition.definition]
  dsimp only
  rcases hparent : k.parent? with _ | parent
  · exact List.nodup_singleton _
  · -- the parent was refused if its line had this name
    obtain ⟨parentPath, -, hget, hnew⟩ := k.findParent_eq hparent
    rw [Option.map_some, Option.getD_some, List.nodup_append]
    refine ⟨hclasses parentPath parent hget, List.nodup_singleton _, ?_⟩
    rintro name hname other hother rfl
    obtain rfl := List.mem_singleton.mp hother
    exact hnew hname

/-- No mixin is implemented twice along a lineage, and all of them can be mixins. -/
theorem implemented_mixable (h : Compiled config classes) (hc : Assoc.get? classes path = some c) :
    c.implemented.Nodup ∧ ∀ m ∈ c.implemented, ∃ d, Assoc.get? classes m = some d ∧ Mixable config d := by
  refine h.holds (P := fun classes c => c.implemented.Nodup ∧
    ∀ m ∈ c.implemented, ∃ d, Assoc.get? classes m = some d ∧ Mixable config d) ?_ ?_ hc
  · intro classes path body w _ _ hclasses k
    -- the list of the parent was checked when the parent was defined; only the own mixins are new
    have hinherited : ((k.parent?.map ClassDefinition.implemented).getD []).Nodup ∧
        ∀ m ∈ (k.parent?.map ClassDefinition.implemented).getD [],
          ∃ d, Assoc.get? classes m = some d ∧ Mixable config d := by
      rcases hparent : k.parent? with _ | parent
      · exact ⟨List.nodup_nil, List.forall_mem_nil _⟩
      · exact k.holds_of_parent hclasses hparent
    refine ⟨k.mixed.nodup_implemented hinherited.1, ?_⟩
    rw [k.implemented_eq]
    intro m hm
    obtain ⟨d, hd, hmixable⟩ := (List.mem_append.mp hm).elim (hinherited.2 m) (k.mixed.mixable m)
    exact ⟨d, get?_append_of_some hd, hmixable⟩
  · rintro classes path c d ⟨hnodup, hall⟩
    refine ⟨hnodup, fun m hm => ?_⟩
    obtain ⟨e, he, hmixable⟩ := hall m hm
    exact ⟨e, get?_append_of_some he, hmixable⟩

end Compiled

/-! ### Ancestors -/

namespace Registry

variable {config : Config} {r : Registry} {path : String} {c : ClassDefinition}

theorem Reachable.exists_parentClass (hr : r.Reachable config) (hc : r.definition? path = some c)
    {parentPath : String} (hextended : c.parent? = some parentPath) :
    ∃ parent, r.parentClass? c = some parent ∧ r.definition? parentPath = some parent := by
  obtain ⟨classes, body, w, k, -, rfl, -, hkept⟩ := hr.compiled.exists_composition hc
  obtain ⟨parent, -, hget⟩ := k.exists_parent hextended
  have hfound : r.definition? parentPath = some parent := hkept parentPath parent hget
  exact ⟨parent, by rw [parentClass?, hextended, Option.bind_some, hfound], hfound⟩

/-- The lineage of a class is its parent's with the class behind it. -/
theorem Reachable.lineage_eq (hr : r.Reachable config) (hc : r.definition? path = some c) :
    c.lineage = ((r.parentClass? c).map ClassDefinition.lineage).getD [] ++ [path] := by
  obtain ⟨classes, body, w, k, -, rfl, -, hkept⟩ := hr.compiled.exists_composition hc
  have hparent : r.parentClass? k.definition = k.parent? := (k.parent?_eq_bind hkept).symm
  rw [hparent]
  rfl

/-- The lineage of a class lists the paths of its ancestors, and its own path at the end. -/
theorem Reachable.mem_above_iff (hr : r.Reachable config) (hc : r.definition? path = some c)
    (top : String) :
    top ∈ ((r.parentClass? c).map ClassDefinition.lineage).getD [] ↔ r.Ancestor top path := by
  constructor
  · intro htop
    -- the lineage of the parent is shorter
    induction hn : c.lineage.length using Nat.strongRecOn generalizing path c with
    | ind n ih =>
      rcases hparent : r.parentClass? c with _ | parent
      · rw [hparent] at htop
        cases htop
      obtain ⟨parentPath, hextended, hfound⟩ := Option.bind_eq_some_iff.mp hparent
      have hline := hr.lineage_eq hc
      rw [hparent, Option.map_some, Option.getD_some] at htop hline
      rw [hr.lineage_eq hfound, List.mem_append] at htop
      rcases htop with habove | hlast
      · refine .above hc hextended (ih parent.lineage.length ?_ hfound habove rfl)
        rw [← hn, hline, List.length_append]
        exact Nat.lt_succ_self _
      · obtain rfl := List.mem_singleton.mp hlast
        exact .parent hc hextended
  · intro h
    induction h generalizing c with
    | parent found extended =>
      obtain rfl := Option.some.inj (found.symm.trans hc)
      obtain ⟨parent, hparent, hfound⟩ := hr.exists_parentClass hc extended
      rw [hparent, Option.map_some, Option.getD_some, hr.lineage_eq hfound]
      exact List.mem_append_right _ (List.mem_singleton_self _)
    | above found extended higher ih =>
      obtain rfl := Option.some.inj (found.symm.trans hc)
      obtain ⟨parent, hparent, hfound⟩ := hr.exists_parentClass hc extended
      rw [hparent, Option.map_some, Option.getD_some, hr.lineage_eq hfound]
      exact List.mem_append_left _ (ih hfound)

/-! ### The data of a class -/

/-- A class comes from the stages of a compilation against the classes listed before it, in a definition
that left the objects and the arrays as these stages did. -/
theorem Reachable.exists_stages (hr : r.Reachable config) (hc : r.definition? path = some c) :
    ∃ (before : Registry) (w : World) (k : Constructor) (after : Registry) (w' : World)
      (body : ClassBody) (stages : ClassDefinition.Composition config before.classes path body w),
      before.Reachable config ∧ (before.define path body).run w = (.ok (k, after), w') ∧
      after.Leads r ∧ c = stages.definition ∧
      w'.store.objects = stages.world.store.objects ∧ w'.store.arrays = stages.world.store.arrays ∧
      (∀ p d, before.definition? p = some d → r.definition? p = some d) ∧
      ∃ later, r.classNames = before.classNames ++ path :: later := by
  obtain ⟨before, w, k, after, w', hreached, hrun, hdefined, hthen, hleads⟩ := hr.exists_define hc
  generalize c.body = body at hrun
  obtain ⟨stages, w₁, w₂, hw₁, hbuild, hw₂, hfresh, -, hclasses, -⟩ := composition_of_define hrun
  obtain rfl := hreached.config_eq
  obtain ⟨hobjects, harrays⟩ := Constructor.containers_of_build hbuild
  -- the class found at the end is the last one listed by its own definition, and nothing replaces it
  have hsame : c = stages.definition := by
    rw [definition?, hclasses, Assoc.get?_append, hfresh, Option.none_or, Assoc.get?, if_pos rfl]
      at hdefined
    exact (Option.some.inj hdefined).symm
  have hnames : after.classNames = before.classNames ++ [path] := by
    simp [classNames, hclasses, Assoc.keys]
  obtain ⟨later, hlater⟩ := hleads.isPrefix_classNames
  refine ⟨before, w, k, after, w', body, stages, hreached, hrun, hleads, hsame, ?_, ?_, ?_, later, ?_⟩
  · rw [hw₂, hobjects, hw₁]
  · rw [hw₂, harrays, hw₁]
  · exact fun p d hd => ((hthen.trans hleads).kept hd).1
  · rw [← hlater, hnames, List.append_assoc]
    rfl

/-- Contents are read from objects and arrays only. -/
theorem showsAll_of_containers {s t : Store} {entries : Assoc String Value}
    {contents : List (String × Contents (Value × List Value))} (hobjects : t.objects = s.objects)
    (harrays : t.arrays = s.arrays) (h : s.ShowsAll (fun _ => True) s.exact entries contents) :
    t.ShowsAll (fun _ => True) t.exact entries contents := by
  have hexact : t.exact = s.exact := by
    funext v
    cases v with
    | array a => exact congrArg (fun arrays => (Value.array a, Pool.get arrays a)) harrays
    | _ => rfl
  rw [hexact]
  exact h.congr fun o _ => ⟨trivial, congrArg (·.get o) hobjects⟩

/-- What a class says of the classes it comes from.  Its parent and its mixins are classes listed before
it.  Its lineage is its parent's followed by its own path; what comes before that are its ancestors, each
once, and its depth is their number, and along the whole lineage the short names are different.  It
implements what its parent implements and then its own mixins, none twice, and each of them is a class
without shared members and without a post-construction hook.  Its table is the parent's, followed by what
its body added when the class was defined, depth first and in order, followed by those of its mixins. -/
theorem Reachable.metadata (hr : r.Reachable config) (hc : r.definition? path = some c) :
    (∃ earlier later, r.classNames = earlier ++ path :: later ∧
      ∀ p ∈ c.parent?.toList ++ c.mixins, p ∈ earlier ∧ ∃ d, r.definition? p = some d) ∧
    (∃ above, above = ((r.parentClass? c).map ClassDefinition.lineage).getD [] ∧
      c.lineage = above ++ [path] ∧ above.Nodup ∧ (∀ p, p ∈ above ↔ r.Ancestor p path) ∧
      c.depth = above.length) ∧
    c.ancestorNames = c.lineage.map ClassPath.shortName ∧ c.ancestorNames.Nodup ∧
    c.implemented = ((r.parentClass? c).map ClassDefinition.implemented).getD [] ++ c.mixins ∧
    c.implemented.Nodup ∧
    (∀ m ∈ c.implemented, ∃ d, r.definition? m = some d ∧ d.shared = [] ∧
      Assoc.get? d.skeleton (MemberKey.parse config.afterInitMember) = none) ∧
    ∃ contents : List (String × Contents (Value × List Value)),
      c.references.entries = ((r.parentClass? c).map fun parent => parent.references.entries).getD []
        ++ Contents.referencesAll config.inlineSimpleArrays contents ++ tablesOf r.classes c.mixins ∧
      (Contents.referencesAll config.inlineSimpleArrays contents).length = c.ownReferences ∧
      ∃ (before : Registry) (w : World) (k : Constructor) (after : Registry) (w' : World),
        before.Reachable config ∧ (before.define path c.body).run w = (.ok (k, after), w') ∧
        after.Leads r ∧
        w'.store.ShowsAll (fun _ => True) w'.store.exact
          (c.body.memberEntries (Assoc.keys c.shared)) contents := by
  obtain ⟨before, w, k, after, w', body, stages, hreached, hrun, hleads, rfl, hobjects, harrays,
    hkept, later, hnames⟩ := hr.exists_stages hc
  have hparent : r.parentClass? stages.definition = stages.parent? :=
    (stages.parent?_eq_bind hkept).symm
  obtain ⟨himplemented, hmixable⟩ := hr.compiled.implemented_mixable hc
  have hunique := hr.compiled.nodup_ancestorNames hc
  have hline := hr.lineage_eq hc
  refine ⟨⟨before.classNames, later, hnames, ?_⟩, ⟨_, rfl, hline, ?_, hr.mem_above_iff hc, ?_⟩,
    hr.compiled.ancestorNames_eq hc, hunique, ?_, himplemented, ?_, ?_⟩
  · -- parent and mixins were found when the class was defined, hence among the names listed by then
    have hlisted : ∀ p d, before.definition? p = some d →
        p ∈ before.classNames ∧ ∃ d, r.definition? p = some d :=
      fun p d hd => ⟨Assoc.mem_keys_of_mem (Assoc.mem_of_get? hd), d, hkept p d hd⟩
    intro p hp
    rcases List.mem_append.mp hp with hnamed | hmixin
    · obtain ⟨parent, -, hget⟩ := stages.exists_parent (Option.mem_toList.mp hnamed)
      exact hlisted p parent hget
    · obtain ⟨d, hd, -⟩ := stages.mixed.mixable p hmixin
      exact hlisted p d hd
  · rw [hr.compiled.ancestorNames_eq hc, hline, List.map_append] at hunique
    exact (List.nodup_append.mp hunique).1.of_map _
  · rw [ClassDefinition.depth, hline, List.length_append]
    exact Nat.add_sub_cancel _ 1
  · rw [hparent]
    exact stages.implemented_eq
  · intro m hm
    obtain ⟨d, hd, hshared, hhook⟩ := hmixable m hm
    exact ⟨d, hd, hshared, hhook⟩
  · obtain ⟨contents, hshows, hentries, hlength⟩ := stages.exists_entries_eq
    have htables := ClassDefinition.tablesOf_eq hkept fun p hp =>
      (stages.mixed.mixable p hp).imp fun d hd => hd.1
    have hinherited : (ClassDefinition.inheritedReferences stages.parent?).entries
        = (stages.parent?.map fun parent => parent.references.entries).getD [] := by
      cases stages.parent? <;> rfl
    refine ⟨contents, ?_, hlength, before, w, k, after, w', hreached, hrun, hleads, ?_⟩
    · rw [hparent, ← hinherited, hentries]
      exact congrArg (_ ++ ·) htables.symm
    · exact showsAll_of_containers hobjects harrays hshows

/-- The class of the sample has its parent and its mixin before it.  Its body added the method that
overrides the parent's and the one inside the object; the parent's two references stand before them, and
the mixin's two behind. -/
theorem Reachable.metadata_leaf :
    (Sample.definition "Ns.Leaf").lineage = ["Ns.Base", "Ns.Leaf"] ∧
      (Sample.definition "Ns.Leaf").implemented = ["Ns.Mix"] ∧
      (Sample.definition "Ns.Leaf").ownReferences = 2 ∧
      (∀ p, Sample.registry.Ancestor p "Ns.Leaf" ↔ p = "Ns.Base") ∧
      ∃ own : List Value, (Sample.definition "Ns.Leaf").references.entries
        = [.function ⟨0⟩, .array ⟨0⟩] ++ own ++ [.function ⟨2⟩, .function ⟨2⟩] ∧ own.length = 2 := by
  have hc : Sample.registry.definition? "Ns.Leaf" = some (Sample.definition "Ns.Leaf") := rfl
  obtain ⟨-, ⟨above, habove, hline, -, hancestors, -⟩, -, -, himplemented, -, -, contents, hentries,
    hlength, -⟩ := Sample.reachable.metadata hc
  obtain rfl : above = ["Ns.Base"] := habove
  refine ⟨hline, himplemented, rfl, ?_, _, hentries, hlength⟩
  intro p
  rw [← hancestors, List.mem_singleton]

end Registry

end ClassComposition
