import ClassComposition.Proofs.Class.Methods
import ClassComposition.Proofs.Member.Data
import Mathlib.Data.List.Nodup

/-!
# Inheritance chains

A class with its parent, the parent of that one and so on up to a class without one.  The classes of such
a chain have different short names, as a class is not compiled below one of its own name.  So where none of
the names and no declared member has a separator in it, an alias that a class has of one of the classes
above its parent is no alias that the merge of the parent writes, and the classes below inherit it as it
is.

## Main definitions

* `ClassDefinition.Plain` — a class without separators in its name and in those of its members.
* `Registry.Chain` — a class with its ancestors.

## Main results

* `Registry.Chain.nodup_names` — the short names of a chain are different.
* `Registry.Chain.resolves_inherited` — a method that a class does not declare is its parent's.
* `Registry.Chain.resolves_alias` — the aliases of classes above a class reach all classes below it.
* `Registry.Chain.get?_eq_none_of_undeclared` — without mixins, what no class declares no class has.
-/

namespace ClassComposition

/-! ### Plain classes -/

/-- Neither the short name of the class nor the name of a member that it declares has a separator in it.
A body has one entry of each name. -/
structure ClassDefinition.Plain (c : ClassDefinition) : Prop where
  name_free : MemberKey.separator ∉ c.name.toList
  members_free : ∀ name ∈ Assoc.keys c.body.entries, MemberKey.separator ∉ name.toList
  members_nodup : (Assoc.keys c.body.entries).Nodup

namespace ClassDefinition

variable {c parent : ClassDefinition} {key : MemberKey} {owner member : String}

theorem Declares.exists_entry (h : c.Declares key) :
    ∃ name ∈ Assoc.keys c.body.entries, MemberKey.parse name = key := by
  obtain ⟨name, hname, hkey⟩ := h
  have hentry : name ∈ Assoc.keys c.body.entries := (List.filter_sublist.map Prod.fst).subset hname
  exact ⟨name, hentry, hkey⟩

/-- What the class declares under the key that a name is read as, it declares under this name. -/
theorem Declares.mem_keys (h : c.Declares (.parse member)) : member ∈ Assoc.keys c.body.entries := by
  obtain ⟨name, hname, hkey⟩ := h.exists_entry
  obtain rfl := MemberKey.parse_injective hkey
  exact hname

theorem Plain.not_declares_aliased (hc : c.Plain) : ¬ c.Declares (.aliased owner member) := by
  intro h
  obtain ⟨name, hname, hkey⟩ := h.exists_entry
  rw [MemberKey.parse_of_notMem (hc.members_free name hname)] at hkey
  cases hkey

/-- In a plain class, the merge of the parent's members takes the aliases of the parent only. -/
theorem Plain.not_findsTaken_aliased (hc : c.Plain) (howner : owner ≠ parent.name) :
    ¬ c.FindsTaken parent (.aliased owner member) := by
  intro htaken
  cases htaken with
  | own hdeclared => exact hc.not_declares_aliased hdeclared
  | kept => exact howner rfl

/-- The name of no alias is taken only by an entry of this name. -/
theorem not_findsTaken_plain (hfree : MemberKey.separator ∉ member.toList)
    (habsent : member ∉ Assoc.keys c.body.entries) : ¬ c.FindsTaken parent (.parse member) := by
  have hkey := MemberKey.parse_of_notMem hfree
  rw [hkey]
  intro htaken
  cases htaken with
  | own hdeclared =>
    rw [← hkey] at hdeclared
    exact habsent hdeclared.mem_keys

theorem Inherited.eq_of_root {path : String} {own merged : Skeleton}
    (h : Inherited path own none merged) : merged = own := by
  cases h
  rfl

theorem Mixed.eq_of_nil {config : Config} {classes : Assoc String ClassDefinition} {path : String}
    {a b : Assembly} (h : Mixed config classes path a [] b) : b = a := by
  cases h
  rfl

namespace Composition

variable {config : Config} {classes : Assoc String ClassDefinition} {path : String}
  {body : ClassBody} {w : World} {name : String}

/-- A class without mixins has a member under its own name only if it declares one or its parent has one:
all that a merge adds is aliases. -/
theorem notMem_of_undeclared (hcompiled : Compiled config classes)
    (k : Composition config classes path body w)
    (hmixins : k.directives.mixins = []) (hundeclared : ¬ k.definition.Declares (.plain name))
    (hparent : ∀ parent, k.parent? = some parent → .plain name ∉ Assoc.keys parent.skeleton) :
    .plain name ∉ Assoc.keys k.definition.skeleton := by
  have hown : .plain name ∉ Assoc.keys k.own := fun hmem => hundeclared (k.mem_keys_own_iff.mp hmem)
  have hmerged : .plain name ∉ Assoc.keys k.merged := by
    rcases hfound : k.parent? with _ | parent
    · have hinherited := k.inherited
      rw [hfound] at hinherited
      rw [hinherited.eq_of_root]
      exact hown
    · obtain ⟨slots, hsteps⟩ := k.exists_rootMerge hcompiled hfound
      exact Skeleton.plain_notMem_rootMerge hsteps (hparent parent hfound) hown
  have hmixed := k.mixed
  rw [hmixins] at hmixed
  have hwhole := congrArg Assembly.skeleton hmixed.eq_of_nil
  rw [definition, hwhole]
  exact hmerged

end Composition

end ClassDefinition

/-! ### Compiled classes -/

namespace Compiled

variable {config : Config} {classes : Assoc String ClassDefinition} {path : String} {c p : ClassDefinition}

/-- The lineage of a class without parent is the class alone. -/
theorem ancestorNames_of_root (h : Compiled config classes) (hc : Assoc.get? classes path = some c)
    (hparent : c.parent? = none) : c.ancestorNames = [c.name] := by
  obtain ⟨before, body, w, k, -, rfl, -⟩ := h.exists_composition hc
  have hnone : k.parent? = none := by
    rcases hfound : k.parent? with _ | parent
    · rfl
    · obtain ⟨parentPath, hnamed, -⟩ := k.findParent_eq hfound
      rw [show k.directives.parent? = none from hparent] at hnamed
      cases hnamed
  rw [ClassDefinition.Composition.definition, hnone]
  rfl

/-- The lineage of another class is its parent's with the class behind it, whose name is new there. -/
theorem ancestorNames_of_child (h : Compiled config classes) (hc : Assoc.get? classes path = some c)
    {parentPath : String} (hparent : c.parent? = some parentPath)
    (hp : Assoc.get? classes parentPath = some p) :
    c.ancestorNames = p.ancestorNames ++ [c.name] ∧ c.name ∉ p.ancestorNames := by
  obtain ⟨before, body, w, k, -, rfl, -, hkept⟩ := h.exists_composition hc
  have hfound := k.parent_eq hkept hparent hp
  obtain ⟨-, -, -, hnew⟩ := k.findParent_eq hfound
  refine ⟨?_, hnew⟩
  rw [ClassDefinition.Composition.definition, hfound]
  rfl

/-- A class without mixins has no member of a name without separators if it declares none and its parent
has none. -/
theorem get?_eq_none_of_undeclared (h : Compiled config classes)
    (hc : Assoc.get? classes path = some c) (hmixins : c.mixins = []) {name : String}
    (hfree : MemberKey.separator ∉ name.toList) (habsent : name ∉ Assoc.keys c.body.entries)
    (hparent : ∀ parentPath p, c.parent? = some parentPath → Assoc.get? classes parentPath = some p →
      Assoc.get? p.skeleton (.parse name) = none) : Assoc.get? c.skeleton (.parse name) = none := by
  have hkey := MemberKey.parse_of_notMem hfree
  simp only [hkey, Assoc.get?_eq_none_iff] at hparent ⊢
  obtain ⟨before, body, w, k, hbefore, rfl, -, hkept⟩ := h.exists_composition hc
  refine k.notMem_of_undeclared hbefore hmixins ?_ ?_
  · intro hdeclared
    rw [← hkey] at hdeclared
    exact habsent hdeclared.mem_keys
  · intro parent hfound
    obtain ⟨parentPath, hnamed, hget, -⟩ := k.findParent_eq hfound
    exact hparent parentPath parent hnamed (hkept parentPath parent hget)

end Compiled

/-! ### Chains -/

namespace Registry

/-- A plain class of the registry, its parent, and so on up to a class without parent; the class stands
first and the root last. -/
inductive Chain (r : Registry) : List ClassDefinition → Prop
  | root {c : ClassDefinition} (found : r.definition? c.path = some c) (plain : c.Plain)
      (parent : c.parent? = none) : Chain r [c]
  | child {c p : ClassDefinition} {rest : List ClassDefinition}
      (found : r.definition? c.path = some c) (plain : c.Plain) (parent : c.parent? = some p.path)
      (above : Chain r (p :: rest)) : Chain r (c :: p :: rest)

namespace Chain

variable {config : Config} {r : Registry} {c d p : ClassDefinition}
  {above rest below chain : List ClassDefinition} {f g : Handle .function} {name owner member : String}

theorem found (h : r.Chain (c :: above)) : r.definition? c.path = some c := by
  cases h with
  | root found => exact found
  | child found => exact found

theorem plain (h : r.Chain (c :: above)) : c.Plain := by
  cases h with
  | root _ plain => exact plain
  | child _ plain => exact plain

theorem of_cons (h : r.Chain (c :: p :: rest)) : r.Chain (p :: rest) := by
  cases h with
  | child _ _ _ above => exact above

theorem parent?_eq (h : r.Chain (c :: p :: rest)) : c.parent? = some p.path := by
  cases h with
  | child _ _ parent => exact parent

/-- A class of a chain is the first one of a chain. -/
theorem of_suffix (h : r.Chain chain) (hsuffix : c :: above <:+ chain) : r.Chain (c :: above) := by
  induction h with
  | root found plain parent =>
    rcases List.suffix_cons_iff.mp hsuffix with heq | hnil
    · rw [heq]
      exact .root found plain parent
    · cases List.suffix_nil.mp hnil
  | child found plain parent above ih =>
    rcases List.suffix_cons_iff.mp hsuffix with heq | hlater
    · rw [heq]
      exact .child found plain parent above
    · exact ih hlater

theorem found_of_mem (h : r.Chain chain) (hc : c ∈ chain) : r.definition? c.path = some c := by
  obtain ⟨before, above, rfl⟩ := List.append_of_mem hc
  exact (h.of_suffix (List.suffix_append before (c :: above))).found

theorem plain_of_mem (h : r.Chain chain) (hc : c ∈ chain) : c.Plain := by
  obtain ⟨before, above, rfl⟩ := List.append_of_mem hc
  exact (h.of_suffix (List.suffix_append before (c :: above))).plain

/-! #### Names -/

theorem ancestorNames_eq (hr : r.Reachable config) (h : r.Chain (c :: above)) :
    c.ancestorNames = ((c :: above).map ClassDefinition.name).reverse := by
  generalize hchain : c :: above = chain at h
  induction h generalizing c above with
  | root found _ parent =>
    cases hchain
    exact hr.compiled.ancestorNames_of_root found parent
  | @child c p rest found _ parent higher ih =>
    cases hchain
    obtain ⟨hnames, -⟩ := hr.compiled.ancestorNames_of_child found parent higher.found
    have hcons : (c :: p :: rest).map ClassDefinition.name
        = c.name :: (p :: rest).map ClassDefinition.name := List.map_cons
    rw [hnames, ih rfl, hcons, List.reverse_cons]

/-- The short names of a chain are different. -/
theorem nodup_names (hr : r.Reachable config) (h : r.Chain chain) :
    (chain.map ClassDefinition.name).Nodup := by
  induction h with
  | root => exact List.nodup_singleton _
  | child found _ parent higher ih =>
    obtain ⟨-, hnew⟩ := hr.compiled.ancestorNames_of_child found parent higher.found
    rw [ancestorNames_eq hr higher, List.mem_reverse] at hnew
    exact List.nodup_cons.mpr ⟨hnew, ih⟩

theorem nodup_paths (hr : r.Reachable config) (h : r.Chain chain) :
    (chain.map ClassDefinition.path).Nodup := by
  have hnames := nodup_names hr h
  have hsame : chain.map ClassDefinition.name
      = (chain.map ClassDefinition.path).map ClassPath.shortName := by
    rw [List.map_map]
    exact List.map_congr_left fun c hc => hr.compiled.name_eq (h.found_of_mem hc)
  rw [hsame] at hnames
  exact List.Nodup.of_map _ hnames

/-! #### Methods -/

/-- What the parent has under a name without separators, a class that does not declare it has too. -/
theorem resolves_inherited (hr : r.Reachable config) (h : r.Chain (c :: p :: rest))
    (hfree : MemberKey.separator ∉ name.toList) (habsent : name ∉ Assoc.keys c.body.entries)
    (hresolves : p.Resolves (.parse name) f) : c.Resolves (.parse name) f := by
  have hmethod := hr.compiled.resolves_method h.found h.parent?_eq h.of_cons.found hresolves
  exact hmethod.2 (ClassDefinition.not_findsTaken_plain hfree habsent)

/-- The aliases that a class has of the classes above it are inherited by all classes below it. -/
theorem resolves_alias (hr : r.Reachable config) (h : r.Chain (d :: below))
    (hsuffix : c :: above <:+ d :: below) (howner : owner ∈ above.map ClassDefinition.name)
    (hresolves : c.Resolves (.aliased owner member) g) : d.Resolves (.aliased owner member) g := by
  generalize hwhole : d :: below = whole at h hsuffix
  induction h generalizing d below with
  | root =>
    cases hwhole
    have hlength := hsuffix.length_le
    have hnone : above = [] := by
      rw [List.length_cons, List.length_singleton] at hlength
      exact List.length_eq_zero_iff.mp (by omega)
    rw [hnone] at howner
    cases howner
  | @child d p rest found plain parent higher ih =>
    cases hwhole
    rcases List.suffix_cons_iff.mp hsuffix with heq | hlater
    · cases heq
      exact hresolves
    · have hparent : p.Resolves (.aliased owner member) g := ih rfl hlater
      -- the owner stands above the class, and so above the parent, which has another name
      have habove : owner ∈ rest.map ClassDefinition.name := by
        rcases List.suffix_cons_iff.mp hlater with heq | hhigher
        · cases heq
          exact howner
        · have hsub := (List.suffix_cons c above).trans hhigher
          exact (hsub.map ClassDefinition.name).subset howner
      have hne : owner ≠ p.name := by
        rintro rfl
        exact (List.nodup_cons.mp (nodup_names hr higher)).1 habove
      have hmethod := hr.compiled.resolves_method found parent higher.found hparent
      exact hmethod.2 (plain.not_findsTaken_aliased hne)

/-- Without mixins, a chain has no member of a name that none of its classes declares. -/
theorem get?_eq_none_of_undeclared (hr : r.Reachable config) (h : r.Chain chain)
    (hmixins : ∀ c ∈ chain, c.mixins = []) (hfree : MemberKey.separator ∉ name.toList)
    (habsent : ∀ c ∈ chain, name ∉ Assoc.keys c.body.entries) :
    ∀ c ∈ chain, Assoc.get? c.skeleton (.parse name) = none := by
  induction h with
  | @root c found _ parent =>
    intro d hd
    obtain rfl : d = c := List.mem_singleton.mp hd
    refine hr.compiled.get?_eq_none_of_undeclared found (hmixins d hd) hfree (habsent d hd) ?_
    intro parentPath p hnamed
    rw [parent] at hnamed
    cases hnamed
  | @child c p rest found _ parent higher ih =>
    rw [List.forall_mem_cons] at hmixins habsent
    have habove := ih hmixins.2 habsent.2
    refine List.forall_mem_cons.mpr ⟨?_, habove⟩
    refine hr.compiled.get?_eq_none_of_undeclared found hmixins.1 hfree habsent.1 ?_
    intro parentPath p' hnamed hp'
    rw [parent] at hnamed
    cases hnamed
    have hsame : some p' = some p := hp'.symm.trans higher.found
    cases hsame
    exact habove p List.mem_cons_self

end Chain

end Registry

end ClassComposition
