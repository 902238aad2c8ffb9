import ClassComposition.Proofs.Class.Prototype
import ClassComposition.Proofs.Member.Kept

/-!
# Where the methods of a class come from

A class has the functions that its body declares.  A method of its parent is found in the class too: under
an alias made of the parent's name and the method's, if the merge of the parent's members finds the key
of the method taken, and under its own key otherwise.  The mixins are merged in last and change nothing of
this.

## Main definitions

* `ClassDefinition.Declares` — the keys of a class's own members.
* `ClassDefinition.FindsTaken` — the keys of the parent that are taken when they are merged in.

## Main results

* `Compiled.resolves_declared` — a declared function is a method of the class.
* `Compiled.resolves_method` — what becomes of a method of the parent.
* `Compiled.resolves_kept` — the class has an overridden method under its alias.
-/

namespace ClassComposition

open MemberDescriptor

namespace ClassDefinition

/-- The class has an own member under the key: its body has an entry that is read so, and that is neither
a directive nor a shared member. -/
def Declares (c : ClassDefinition) (key : MemberKey) : Prop :=
  ∃ name ∈ Assoc.keys (c.body.memberEntries (Assoc.keys c.shared)), MemberKey.parse name = key

/-- The merge of the parent's members finds the key taken when it comes to it: the class declares it, or
it is the alias of a method whose key is taken. -/
def FindsTaken (c parent : ClassDefinition) : MemberKey → Prop :=
  Skeleton.Taken parent.name parent.skeleton c.Declares

variable {config : Config} {classes : Assoc String ClassDefinition} {path : String}
  {body : ClassBody} {w : World} {key : MemberKey} {d : MemberDescriptor} {f : Handle .function}

/-! ### Merging the others in -/

/-- Merging the parent in leaves the members that are no objects. -/
theorem Inherited.get?_of_leaf {own merged : Skeleton} {parent? : Option ClassDefinition}
    (h : Inherited path own parent? merged)
    (hparent : ∀ parent, parent? = some parent → parent.skeleton.Distinct) (hleaf : d.members? = none)
    (hd : Assoc.get? own key = some d) : Assoc.get? merged key = some d := by
  cases h with
  | root => exact hd
  | child extended =>
    have hsteps := rootMerge_of_extend (hparent _ rfl) Skeleton.staysLeaf_mergeMember extended
    exact Skeleton.get?_rootMerge_of_leaf hsteps hleaf hd

theorem Mixed.get?_of_leaf (hcompiled : Compiled config classes) {a b : Assembly}
    {mixins : List String} (h : Mixed config classes path a mixins b) (hleaf : d.members? = none)
    (hd : Assoc.get? a.skeleton key = some d) : Assoc.get? b.skeleton key = some d := by
  induction h with
  | nil a => exact hd
  | cons found merged others ih =>
    obtain ⟨hmixin, -⟩ := findMixin_eq_ok found
    obtain ⟨slots, hsteps⟩ := rootMerge_of_implement (hcompiled.distinct hmixin)
      Skeleton.staysLeaf_mergeMember merged
    exact ih (Skeleton.get?_rootMerge_of_leaf hsteps hleaf hd)

theorem Mixed.isPrefix {a b : Assembly} {mixins : List String}
    (h : Mixed config classes path a mixins b) : a.references.IsPrefix b.references := by
  induction h with
  | nil a => exact .refl a.references
  | @cons a b mixinPath rest mixin skeleton found merged others ih =>
    exact (ReferenceTable.isPrefix_append a.references mixin.references).trans ih

/-! ### Stages of a compilation -/

namespace Composition

/-- The table of a class starts with its parent's. -/
theorem isPrefix_parent (k : Composition config classes path body w) {parent : ClassDefinition}
    (hparent : k.parent? = some parent) :
    parent.references.IsPrefix k.definition.references := by
  have hgrown := (classifiedMembers_of_skeleton k.own_classified).isPrefix
  rw [hparent] at hgrown
  exact ReferenceTable.IsPrefix.trans hgrown k.mixed.isPrefix

theorem mem_keys_own_iff (k : Composition config classes path body w) :
    key ∈ Assoc.keys k.own ↔ k.definition.Declares key := by
  have hown := classifiedMembers_of_skeleton k.own_classified
  rw [hown.mem_keys_iff]
  constructor
  · rintro (hnone | hdeclared)
    · cases hnone
    · exact hdeclared
  · exact .inr

/-- The parent's members are merged into the own ones, keeping implementations under its name. -/
theorem exists_rootMerge (hcompiled : Compiled config classes)
    (k : Composition config classes path body w) {parent : ClassDefinition}
    (hparent : k.parent? = some parent) :
    ∃ slots, RootMerge StaysLeaf (some parent.name) parent.skeleton k.own k.merged slots := by
  have hdistinct := k.distinct_parent hcompiled hparent
  have hinherited := k.inherited
  rw [hparent] at hinherited
  cases hinherited with
  | child extended => exact ⟨_, rootMerge_of_extend hdistinct Skeleton.staysLeaf_mergeMember extended⟩

/-- A method of the parent is found in the class: under its alias if its key was taken, and under its own
key otherwise. -/
theorem resolves_method (hcompiled : Compiled config classes)
    (k : Composition config classes path body w) {parent : ClassDefinition}
    (hparent : k.parent? = some parent) (hresolves : parent.Resolves key f) :
    (k.definition.FindsTaken parent key →
      k.definition.Resolves (.aliased parent.name key.display) f) ∧
    (¬ k.definition.FindsTaken parent key → k.definition.Resolves key f) := by
  obtain ⟨i, hi, hf⟩ := hresolves
  have hmem := Assoc.mem_of_get? hi
  obtain ⟨slots, hsteps⟩ := k.exists_rootMerge hcompiled hparent
  have hfound := Skeleton.get?_rootMerge_method hsteps (k.distinct_parent hcompiled hparent).1 hmem rfl
  -- what the merge of the parent answers stays when the mixins are merged in
  have hresolved : ∀ {slot}, Assoc.get? k.merged slot = some (.function i) →
      k.definition.Resolves slot f := by
    intro slot hslot
    have hwhole := k.mixed.get?_of_leaf hcompiled rfl hslot
    exact ⟨i, hwhole, (k.isPrefix_parent hparent).get? hf⟩
  constructor
  · intro htaken
    have hown := htaken.congr fun key => k.mem_keys_own_iff.symm
    exact hresolved (hfound.taken hown).1
  · intro hfree
    refine hresolved (hfound.untaken fun htaken => hfree ?_)
    exact htaken.congr fun key => k.mem_keys_own_iff

/-- A function that the body declares is a method of the class. -/
theorem resolves_declared (hcompiled : Compiled config classes)
    (k : Composition config classes path body w) (hnames : (Assoc.keys body.entries).Nodup) {name : String} {f : Handle .function}
    (hdeclared : body.get? name = some (.function f)) :
    k.definition.Resolves (.parse name) f := by
  have hmember := k.mem_memberEntries (fun q d hd => hcompiled.shared_isContainer hd) hdeclared
  have hmembers : (Assoc.keys (body.memberEntries (Assoc.keys k.shared))).Nodup :=
    hnames.sublist (List.filter_sublist.map Prod.fst)
  obtain ⟨i, hown, hentry⟩ :=
    (classifiedMembers_of_skeleton k.own_classified).get?_function hmembers hmember
  -- own members stay, and so do the entries that they point to
  have hmerged := k.inherited.get?_of_leaf (fun _ => k.distinct_parent hcompiled) rfl hown
  have hwhole := k.mixed.get?_of_leaf hcompiled rfl hmerged
  exact ⟨i, hwhole, k.mixed.isPrefix.get? hentry⟩

end Composition

end ClassDefinition

/-! ### Compiled classes -/

namespace Compiled

variable {config : Config} {classes : Assoc String ClassDefinition} {path parentPath : String}
  {c p : ClassDefinition}

/-- A function that the body of a class declares is a method of the class. -/
theorem resolves_declared (h : Compiled config classes) (hc : Assoc.get? classes path = some c)
    (hnames : (Assoc.keys c.body.entries).Nodup) {name : String} {f : Handle .function}
    (hdeclared : c.body.get? name = some (.function f)) : c.Resolves (.parse name) f := by
  obtain ⟨before, body, w, k, hbefore, rfl, -⟩ := h.exists_composition hc
  exact k.resolves_declared hbefore hnames hdeclared

theorem declares_of_function (h : Compiled config classes) (hc : Assoc.get? classes path = some c)
    {name : String} {f : Handle .function} (hdeclared : c.body.get? name = some (.function f)) :
    c.Declares (.parse name) := by
  obtain ⟨before, body, w, k, hbefore, rfl, -⟩ := h.exists_composition hc
  have hmember := k.mem_memberEntries (fun q d hd => hbefore.shared_isContainer hd) hdeclared
  exact ⟨name, Assoc.mem_keys_of_mem hmember, rfl⟩

/-- A method of the parent is found in the class: under its alias if its key was taken, and under its own
key otherwise. -/
theorem resolves_method (h : Compiled config classes) (hc : Assoc.get? classes path = some c)
    (hparent : c.parent? = some parentPath) (hp : Assoc.get? classes parentPath = some p)
    {key : MemberKey} {f : Handle .function} (hresolves : p.Resolves key f) :
    (c.FindsTaken p key → c.Resolves (.aliased p.name key.display) f) ∧
      (¬ c.FindsTaken p key → c.Resolves key f) := by
  obtain ⟨before, body, w, k, hbefore, rfl, -, hkept⟩ := h.exists_composition hc
  have hfound := k.parent_eq hkept hparent hp
  exact k.resolves_method hbefore hfound hresolves

/-- Where the body declares a function under the name of a method of the parent, the class has under the
alias what the parent has under the name. -/
theorem resolves_kept (h : Compiled config classes) (hc : Assoc.get? classes path = some c)
    (hparent : c.parent? = some parentPath) (hp : Assoc.get? classes parentPath = some p)
    {name : String} {f g : Handle .function} (hdeclared : c.body.get? name = some (.function g))
    (hresolves : p.Resolves (.parse name) f) : c.Resolves (.aliased p.name name) f := by
  have htaken : c.FindsTaken p (.parse name) := .own (h.declares_of_function hc hdeclared)
  have hkept := (h.resolves_method hc hparent hp hresolves).1 htaken
  rw [MemberKey.display_parse] at hkept
  exact hkept

end Compiled

end ClassComposition
