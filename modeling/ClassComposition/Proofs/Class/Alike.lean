import ClassComposition.Proofs.Class.Making
import ClassComposition.Proofs.Class.References
import ClassComposition.Proofs.Class.SharedAlike

/-!
# Classes in two runs

Two registries differ only in whether arrays of simple values are kept as literals.  So the tables of their
classes differ, and all indices, but what the descriptors stand for is the same once the arrays of the
tables are read out.  Every stage of a compilation hands this on: it comes to the same outcome in both, and
where both succeed, the classes are alike again.

## Main definitions

* `ReferenceTable.HeldIn` — a store has all entries of a table.
* `Skeleton.Alike` — skeletons over tables that stand for the same.
* `ClassDefinition.Alike`, `ClassesAlike` — classes that differ in tables, indices and copies only.

## Main results

* `Skeleton.Alike.extend`, `Skeleton.Alike.implement` — merging parents and mixins in.
* `ClassDefinition.compile_alike` — a whole compilation.
-/

namespace ClassComposition

open MemberDescriptor

/-! ### Entries of tables -/

/-- The store has all entries of a table. -/
def ReferenceTable.HeldIn (t : ReferenceTable) (s : Store) : Prop := ∀ v ∈ t.entries, s.Has v

namespace ReferenceTable

variable {s u : Store} {t other : ReferenceTable} {v : Value}

theorem HeldIn.arraysIn (h : t.HeldIn s) : t.ArraysIn s :=
  fun _ _ hget => h _ (List.mem_of_getElem? hget)

theorem HeldIn.push (h : t.HeldIn s) (hv : s.Has v) : (t.push v).2.HeldIn s := by
  intro x hx
  rcases List.mem_append.mp hx with hmem | hlast
  · exact h x hmem
  · obtain rfl := List.mem_singleton.mp hlast
    exact hv

theorem HeldIn.append (h : t.HeldIn s) (hother : other.HeldIn s) : (t.append other).2.HeldIn s := by
  intro x hx
  rcases List.mem_append.mp hx with hmem | hlast
  · exact h x hmem
  · exact hother x hlast

/-- The arrays of a table have the same elements in a store that has grown. -/
theorem HeldIn.keepsArrays (h : t.HeldIn s) (hs : s.Within u) : t.KeepsArrays s u :=
  fun i a hget => hs.array_eq (h.arraysIn i a hget)

end ReferenceTable

section Classification

variable {s : Store} {inlineSimple : Bool}

mutual

/-- What a value adds to a table is of the store that has the value. -/
theorem Classified.heldIn (hs : s.WellFormed) {v : Value} (hv : s.Has v) {t u : ReferenceTable}
    {d : MemberDescriptor} (ht : t.HeldIn s) : Classified s inlineSimple v t d u → u.HeldIn s
  | .literal _ _ | .text _ _ | .emptyArray _ _ | .inlineArray _ _ _ => ht
  | .function _ _ | .pattern _ _ | .arrayCopy _ _ _ => ht.push hv
  | .object h => h.heldIn hs (hs.has_property _) ht

theorem ClassifiedMembers.heldIn (hs : s.WellFormed) {entries : Assoc String Value}
    (hentries : ∀ p ∈ entries, s.Has p.2) {ms result : Skeleton} {t u : ReferenceTable}
    (ht : t.HeldIn s) : ClassifiedMembers s inlineSimple entries ms t result u → u.HeldIn s
  | .nil _ _ => ht
  | .cons first others => by
    obtain ⟨hv, hrest⟩ := List.forall_mem_cons.mp hentries
    exact others.heldIn hs hrest (first.heldIn hs hv ht)

end

end Classification

/-! ### Skeletons that stand for the same -/

namespace Skeleton

variable {s s' u u' : Store} {t t' r r' : ReferenceTable} {ms ms' lower lower' : Skeleton}

/-- Two skeletons over tables of their own stand for the same once arrays are read out. -/
structure Alike (s s' : Store) (t t' : ReferenceTable) (ms ms' : Skeleton) : Prop where
  forest_eq : ms.forest (t.settled s) = ms'.forest (t'.settled s')
  sound : Skeleton.AllLeaves (PointsInto t) ms
  sound' : Skeleton.AllLeaves (PointsInto t') ms'
  held : t.HeldIn s
  held' : t'.HeldIn s'

namespace Alike

/-- They do so as long as the arrays of the tables keep their elements. -/
theorem kept (h : Alike s s' t t' ms ms') (hhas : ∀ v, s.Has v → u.Has v)
    (hhas' : ∀ v, s'.Has v → u'.Has v) (hkept : t.KeepsArrays s u) (hkept' : t'.KeepsArrays s' u') :
    Alike u u' t t' ms ms' where
  forest_eq := by
    rw [forest_congr hkept.settled_eq h.sound, forest_congr hkept'.settled_eq h.sound', h.forest_eq]
  sound := h.sound
  sound' := h.sound'
  held := fun v hv => hhas v (h.held v hv)
  held' := fun v hv => hhas' v (h.held' v hv)

theorem within (h : Alike s s' t t' ms ms') (hs : s.Within u) (hs' : s'.Within u') :
    Alike u u' t t' ms ms' :=
  h.kept (fun _ hv => hs.has hv) (fun _ hv => hs'.has hv) (h.held.keepsArrays hs)
    (h.held'.keepsArrays hs')

/-- They stand for the same over longer tables, too. -/
theorem forest_grown (h : Alike s s' t t' ms ms') (hgrown : t.IsPrefix r) (hgrown' : t'.IsPrefix r') :
    ms.forest (r.settled s) = ms'.forest (r'.settled s') := by
  rw [← forest_congr (hgrown.settled_eq s) h.sound, ← forest_congr (hgrown'.settled_eq s') h.sound',
    h.forest_eq]

/-- Merging a parent into own members over tables that start with the parent's. -/
theorem extend (path owner : String) (h : Alike s s' r r' ms ms') (hlower : Alike s s' t t' lower lower')
    (hgrown : t.IsPrefix r) (hgrown' : t'.IsPrefix r') :
    SameOutcome (fun _ _ => Alike s s' r r' (Skeleton.extend path ms owner lower).1
        (Skeleton.extend path ms' owner lower').1)
      (Skeleton.extend path ms owner lower).2 (Skeleton.extend path ms' owner lower').2 := by
  have hdistinct := AllLeaves.distinct hlower.sound
  have hdistinct' := AllLeaves.distinct hlower.sound'
  obtain ⟨hforest, hsame⟩ := extend_alike path (ReferenceTable.telling_settled r r' s s') owner
    hdistinct hdistinct' (hlower.forest_grown hgrown hgrown') h.forest_eq
  rcases hrun : Skeleton.extend path ms owner lower with ⟨merged, outcome⟩
  rcases hrun' : Skeleton.extend path ms' owner lower' with ⟨merged', outcome'⟩
  rw [hrun, hrun'] at hforest hsame
  cases hsame with
  | error hkind => exact .error hkind
  | ok =>
    have hleaves := allLeaves_of_isPrefix hgrown hlower.sound
    have hleaves' := allLeaves_of_isPrefix hgrown' hlower.sound'
    have hsound := allLeaves_rootMerge (rootMerge_of_extend hdistinct allLeaves_mergeMember hrun)
      hleaves.2 h.sound
    have hsound' := allLeaves_rootMerge (rootMerge_of_extend hdistinct' allLeaves_mergeMember hrun')
      hleaves'.2 h.sound'
    exact .ok ⟨hforest, hsound, hsound', h.held, h.held'⟩

/-- Merging a mixin in, whose table is put behind the one that there is. -/
theorem implement (path : String) (h : Alike s s' t t' ms ms') (hlower : Alike s s' r r' lower lower') :
    SameOutcome (fun _ _ => Alike s s' (t.append r).2 (t'.append r').2
        (Skeleton.implement path ms lower t.size).1 (Skeleton.implement path ms' lower' t'.size).1)
      (Skeleton.implement path ms lower t.size).2 (Skeleton.implement path ms' lower' t'.size).2 := by
  have hgrown := ReferenceTable.isPrefix_append t r
  have hgrown' := ReferenceTable.isPrefix_append t' r'
  -- behind the tables that there are, the moved indices stand for what they stood for
  have hmoved : forest ((t.append r).2.settled s) (shiftMembers t.size lower)
      = forest ((t'.append r').2.settled s') (shiftMembers t'.size lower') := by
    rw [forest_shiftMembers (ReferenceTable.settled_shiftDeep t r s),
      forest_shiftMembers (ReferenceTable.settled_shiftDeep t' r' s'), hlower.forest_eq]
  have hdistinct := AllLeaves.distinct hlower.sound
  have hdistinct' := AllLeaves.distinct hlower.sound'
  obtain ⟨hforest, hsame⟩ := implement_alike path
    (ReferenceTable.telling_settled (t.append r).2 (t'.append r').2 s s') hdistinct hdistinct' hmoved
    (h.forest_grown hgrown hgrown')
  rcases hrun : Skeleton.implement path ms lower t.size with ⟨merged, outcome⟩
  rcases hrun' : Skeleton.implement path ms' lower' t'.size with ⟨merged', outcome'⟩
  rw [hrun, hrun'] at hforest hsame
  cases hsame with
  | error hkind => exact .error hkind
  | ok =>
    obtain ⟨slots, hsteps⟩ := rootMerge_of_implement hdistinct allLeaves_mergeMember hrun
    obtain ⟨slots', hsteps'⟩ := rootMerge_of_implement hdistinct' allLeaves_mergeMember hrun'
    have hsound := allLeaves_rootMerge hsteps (allLeaves_shiftMembers (t := t) hlower.sound).2
      (allLeaves_of_isPrefix hgrown h.sound)
    have hsound' := allLeaves_rootMerge hsteps' (allLeaves_shiftMembers (t := t') hlower.sound').2
      (allLeaves_of_isPrefix hgrown' h.sound')
    exact .ok ⟨hforest, hsound, hsound', h.held.append hlower.held, h.held'.append hlower.held'⟩

end Alike

end Skeleton

/-! ### Classes -/

namespace ClassDefinition

variable {s s' u u' : Store} {copies above : String → Prop} {c c' : ClassDefinition}

/-- A class of two runs: it differs in tables and indices, and in the copies that its shared members are. -/
structure Alike (copies : String → Prop) (s s' : Store) (c c' : ClassDefinition) : Prop where
  rest_eq : c' = { c with skeleton := c'.skeleton, references := c'.references, shared := c'.shared,
                          ownReferences := c'.ownReferences }
  members : Skeleton.Alike s s' c.references c'.references c.skeleton c'.skeleton
  shared : SharedMembers.Alike copies s s' c.shared c'.shared

namespace Alike

theorem path_eq (h : Alike copies s s' c c') : c'.path = c.path := by rw [h.rest_eq]

theorem name_eq (h : Alike copies s s' c c') : c'.name = c.name := by rw [h.rest_eq]

theorem ancestorNames_eq (h : Alike copies s s' c c') : c'.ancestorNames = c.ancestorNames := by
  rw [h.rest_eq]

theorem lineage_eq (h : Alike copies s s' c c') : c'.lineage = c.lineage := by rw [h.rest_eq]

theorem implemented_eq (h : Alike copies s s' c c') : c'.implemented = c.implemented := by
  rw [h.rest_eq]

theorem isAbstract_eq (h : Alike copies s s' c c') : c'.isAbstract = c.isAbstract := by
  rw [h.rest_eq]

theorem contains_eq (h : Alike copies s s' c c') (key : MemberKey) :
    Assoc.contains c.skeleton key = Assoc.contains c'.skeleton key :=
  Skeleton.contains_eq_of_forest h.members.forest_eq key

theorem mono {more : String → Prop} (h : Alike copies s s' c c') (hmore : ∀ n, copies n → more n) :
    Alike more s s' c c' := ⟨h.rest_eq, h.members, h.shared.mono hmore⟩

theorem within (h : Alike copies s s' c c') (hs : s.Within u) (hs' : s'.Within u') :
    Alike copies u u' c c' := ⟨h.rest_eq, h.members.within hs hs', h.shared.within hs hs'⟩

/-- A class stays alike as long as the arrays of the tables keep their elements and the shared members have
the same contents as one another. -/
theorem kept (h : Alike copies s s' c c') (hhas : ∀ v, s.Has v → u.Has v)
    (hhas' : ∀ v, s'.Has v → u'.Has v) (harrays : c.references.KeepsArrays s u)
    (harrays' : c'.references.KeepsArrays s' u')
    (hshared : ∀ name v v', (name, v) ∈ c.shared → (name, v') ∈ c'.shared → u.SameContents u' v v') :
    Alike copies u u' c c' :=
  ⟨h.rest_eq, h.members.kept hhas hhas' harrays harrays', Assoc.Beside.mono h.shared
    fun name v v' hv hv' hsame => ⟨hshared name v v' hv hv', hsame.2⟩⟩

end Alike

end ClassDefinition

/-- The classes of two runs, in order.  Under each path there are names under which they have copies. -/
def ClassesAlike (copies : String → String → Prop) (s s' : Store)
    (classes classes' : Assoc String ClassDefinition) : Prop :=
  Assoc.Beside (fun path c c' => ClassDefinition.Alike (copies path) s s' c c') classes classes'

namespace ClassDefinition

variable {s s' : Store} {copies : String → String → Prop} {classes classes' : Assoc String ClassDefinition}
  {config config' : Config} {w w' : World} {body : ClassBody} {parent? parent?' : Option ClassDefinition}
  (path : String)

/-! ### The stages of a compilation -/

/-- The parent is found in both runs, or in neither. -/
theorem findParent_alike (h : ClassesAlike copies s s' classes classes') (parentPath? : Option String) :
    SameOutcome
      (Option.Rel fun c c' => Alike (fun name => ∃ p, parentPath? = some p ∧ copies p name) s s' c c')
      (findParent classes path parentPath?) (findParent classes' path parentPath?) := by
  rcases parentPath? with _ | parentPath
  · exact .ok .none
  unfold findParent
  dsimp only
  rcases h.get? parentPath with ⟨parent, parent', hget, hget', hparent⟩ | ⟨hget, hget'⟩
  · rw [hget, hget']
    dsimp only
    rw [hparent.ancestorNames_eq]
    split
    · exact .error rfl
    · exact .ok (.some (hparent.mono fun name hcopy => ⟨parentPath, rfl, hcopy⟩))
  · rw [hget, hget']
    exact .error rfl

/-- The parent that is found is the class under the path that the directives name. -/
theorem eq_bind_of_findParent {parentPath? : Option String}
    (h : findParent classes path parentPath? = .ok parent?) :
    parentPath?.bind (Assoc.get? classes) = parent? := by
  rcases parent? with _ | parent
  · rw [eq_none_of_findParent h]
    rfl
  · obtain ⟨parentPath, rfl, hget, -⟩ := findParent_eq_ok h
    exact hget

/-- The own members stand for the same, whether arrays of simple values are kept as literals or not. -/
theorem classifyOwn_alike (hs : w.store.WellFormed) (hs' : w'.store.WellFormed)
    (hbody : body.SameIn w.store w'.store) {shared shared' : SharedMembers}
    (hkeys : Assoc.keys shared = Assoc.keys shared') {t t' : ReferenceTable} (ht : t.HeldIn w.store)
    (ht' : t'.HeldIn w'.store) :
    Action.Alike
      (fun own u own' u' => (u = w.store ∧ u' = w'.store) ∧ t.IsPrefix own.2 ∧ t'.IsPrefix own'.2 ∧
        Skeleton.Alike w.store w'.store own.2 own'.2 own.1 own'.1)
      (classifyOwn config path body shared t) w (classifyOwn config' path body shared' t') w' := by
  have hsub : body.memberEntries (Assoc.keys shared) ⊆ body.entries :=
    fun _ hp => (List.mem_filter.mp hp).1
  have hentries : ∀ p ∈ body.memberEntries (Assoc.keys shared), w.store.Has p.2 :=
    fun p hp => hbody.has p (hsub hp)
  have hentries' : ∀ p ∈ body.memberEntries (Assoc.keys shared), w'.store.Has p.2 :=
    fun p hp => hbody.has' p (hsub hp)
  obtain ⟨cs, hcs, hcs'⟩ := hbody.exists_showsAll hsub
  have hsame := Classifying.skeleton_alike config.inlineSimpleArrays path config'.inlineSimpleArrays
    hcs hcs' hcs.depthAll_le_nesting hcs'.depthAll_le_nesting t t'
  unfold classifyOwn
  rw [← hkeys]
  refine Action.alike_store_bind ?_
  rcases hrun : Classifying.run (Classifying.skeleton w.store config.inlineSimpleArrays path body
    (Assoc.keys shared)) t with ⟨outcome, r⟩
  rcases hrun' : Classifying.run (Classifying.skeleton w'.store config'.inlineSimpleArrays path body
    (Assoc.keys shared)) t' with ⟨outcome', r'⟩
  rw [hrun, hrun'] at hsame
  -- where both runs classify, each has a derivation, from which all that is said of its table follows
  cases hsame with
  | error hkind => exact Action.alike_throw hkind
  | @ok own own' hforest =>
    have hown := classifiedMembers_of_skeleton hrun
    have hown' := classifiedMembers_of_skeleton hrun'
    exact Action.alike_pure ⟨⟨rfl, rfl⟩, hown.isPrefix, hown'.isPrefix, hforest,
      hown.allLeaves Skeleton.allLeaves_nil, hown'.allLeaves Skeleton.allLeaves_nil,
      hown.heldIn hs hentries ht, hown'.heldIn hs' hentries' ht'⟩

/-- The parent's members are merged in. -/
theorem mergeParent_alike (hw : w.store = s ∧ w'.store = s') {above : String → Prop}
    {t t' : ReferenceTable} {own own' : Skeleton} (h : Skeleton.Alike s s' t t' own own')
    (hparent : Option.Rel (Alike above s s') parent? parent?')
    (hgrown : (inheritedReferences parent?).IsPrefix t)
    (hgrown' : (inheritedReferences parent?').IsPrefix t') :
    Action.Alike
      (fun ms u ms' u' => (u = s ∧ u' = s') ∧ Skeleton.Alike s s' t t' ms ms')
      (mergeParent path own parent?) w (mergeParent path own' parent?') w' := by
  cases hparent with
  | none => exact Action.alike_pure ⟨hw, h⟩
  | @some parent parent' hparent =>
    have hmerged := h.extend path parent.name hparent.members hgrown hgrown'
    unfold mergeParent
    dsimp only
    rw [hparent.name_eq]
    rcases hrun : Skeleton.extend path own parent.name parent.skeleton with ⟨ms, outcome⟩
    rcases hrun' : Skeleton.extend path own' parent.name parent'.skeleton with ⟨ms', outcome'⟩
    rw [hrun, hrun'] at hmerged
    cases hmerged with
    | error hkind => exact Action.alike_throw hkind
    | @ok kept kept' hmembers =>
      refine Action.alike_forM_record_bind kept kept' fun u u' hu hu' => Action.alike_pure ?_
      exact ⟨⟨hu.trans hw.1, hu'.trans hw.2⟩, hmembers⟩

theorem findMixin_alike (h : ClassesAlike copies s s' classes classes')
    (hconfig : config'.afterInitMember = config.afterInitMember) (implemented : List String)
    (mixinPath : String) :
    SameOutcome (fun c c' => Skeleton.Alike s s' c.references c'.references c.skeleton c'.skeleton)
      (findMixin config classes path implemented mixinPath)
      (findMixin config' classes' path implemented mixinPath) := by
  unfold findMixin
  rcases h.get? mixinPath with ⟨mixin, mixin', hget, hget', hmixin⟩ | ⟨hget, hget'⟩
  · have hshared : mixin'.shared.isEmpty = mixin.shared.isEmpty := hmixin.shared.isEmpty_eq.symm
    rw [hget, hget']
    dsimp only
    rw [hshared, hconfig, ← hmixin.contains_eq]
    split
    · exact .error rfl
    · split
      · exact .error rfl
      · split
        · exact .error rfl
        · exact .ok hmixin.members
  · rw [hget, hget']
    exact .error rfl

/-- What mixins are merged into stands for the same in both runs. -/
def Assembly.Alike (s s' : Store) (a a' : Assembly) : Prop :=
  a.implemented = a'.implemented ∧ Skeleton.Alike s s' a.references a'.references a.skeleton a'.skeleton

theorem mergeMixin_alike (hw : w.store = s ∧ w'.store = s')
    (h : ClassesAlike copies s s' classes classes')
    (hconfig : config'.afterInitMember = config.afterInitMember) {a a' : Assembly}
    (ha : Assembly.Alike s s' a a') (mixinPath : String) :
    Action.Alike (fun a u a' u' => (u = s ∧ u' = s') ∧ Assembly.Alike s s' a a')
      (mergeMixin config classes path a mixinPath) w (mergeMixin config' classes' path a' mixinPath)
      w' := by
  obtain ⟨himplemented, hmembers⟩ := ha
  unfold mergeMixin
  rw [← himplemented]
  refine Action.alike_ofExcept_bind (findMixin_alike path h hconfig a.implemented mixinPath) ?_
  intro mixin mixin' _ _ hmixin
  refine Action.alike_record_bind fun u u' hu hu' => ?_
  have hmerged := hmembers.implement path hmixin
  dsimp only [ReferenceTable.append] at hmerged ⊢
  rcases hrun : Skeleton.implement path a.skeleton mixin.skeleton a.references.size with ⟨ms, outcome⟩
  rcases hrun' : Skeleton.implement path a'.skeleton mixin'.skeleton a'.references.size
    with ⟨ms', outcome'⟩
  rw [hrun, hrun'] at hmerged
  cases hmerged with
  | error hkind => exact Action.alike_throw hkind
  | ok hmembers =>
    exact Action.alike_pure ⟨⟨hu.trans hw.1, hu'.trans hw.2⟩, rfl, hmembers⟩

end ClassDefinition

theorem SharedMembers.checkVisible_alike {path : String} {copies : String → Prop} {s s' : Store}
    {shared shared' : SharedMembers} {ms ms' : Skeleton}
    (h : SharedMembers.Alike copies s s' shared shared')
    (hskeleton : ∀ key, Assoc.contains ms key = Assoc.contains ms' key) :
    checkVisible path ms shared = checkVisible path ms' shared' := by
  induction h with
  | nil => rfl
  | @cons p q rest rest' first below ih =>
    obtain ⟨name, v⟩ := p
    obtain ⟨name', v'⟩ := q
    obtain ⟨rfl, -⟩ := first
    rw [checkVisible, checkVisible, hskeleton, ih]

/-! ### Whole compilations -/

namespace ClassDefinition

variable {copies : String → String → Prop} {classes classes' : Assoc String ClassDefinition} {w w' : World}
  {body : ClassBody}

/-- The shared members of the parent, seen from the classes that there are; none where there is no
parent. -/
def parentShared (classes : Assoc String ClassDefinition) (c : ClassDefinition) : SharedMembers :=
  ((c.parent?.bind (Assoc.get? classes)).map shared).getD []

/-- Both stores have the entries of the table that a class starts from. -/
theorem heldIn_inherited {s s' : Store} {above : String → Prop}
    {parent? parent?' : Option ClassDefinition} (h : Option.Rel (Alike above s s') parent? parent?') :
    (inheritedReferences parent?).HeldIn s ∧ (inheritedReferences parent?').HeldIn s' := by
  cases h with
  | none => exact ⟨fun _ hv => absurd hv List.not_mem_nil, fun _ hv => absurd hv List.not_mem_nil⟩
  | some hc => exact ⟨hc.members.held, hc.members.held'⟩

/-- Compiling a body against classes that are alike gives classes that are alike, or fails in both runs for
reasons of one kind. -/
theorem compile_alike (config : Config) (inlineSimple : Bool) (path : String)
    (hs : w.store.WellFormed) (hs' : w'.store.WellFormed) (hbody : body.SameIn w.store w'.store)
    (h : ClassesAlike copies w.store w'.store classes classes') :
    Action.Alike
      (fun c u c' u' => w.store.Continues u ∧ w'.store.Continues u' ∧ c.path = path ∧ c.body = body ∧
        c.Alike (body.Copies (c.parentShared classes) fun name =>
          ∃ p, c.parent? = some p ∧ copies p name) u u' c')
      (compile config classes path body) w
      (compile { config with inlineSimpleArrays := inlineSimple } classes' path body) w' := by
  unfold compile
  refine Action.alike_store_bind ?_
  rw [← hbody.parse_eq]
  refine Action.alike_ofExcept_bind (SameOutcome.of_eq rfl) ?_
  rintro directives _ _ _ rfl
  refine Action.alike_ofExcept_bind (findParent_alike path h directives.parent?) ?_
  intro parent? parent?' hfound _ hparent
  have hparents := eq_bind_of_findParent path hfound
  have hshared := composeShared_alike path hs hs' hbody directives.shared
    (optionRel_mono hparent fun _ _ hc => ⟨hc.shared, hc.contains_eq⟩)
  refine Action.alike_bind hshared ?_
  intro shared shared' u u' hcomposed
  obtain ⟨hcomposed, hu, hu'⟩ := hcomposed
  -- from here on the stores stay as they are
  have hparent := optionRel_mono hparent fun _ _ hc => hc.within hu.within hu'.within
  have hclasses : ClassesAlike copies u.store u'.store classes classes' :=
    Assoc.Beside.mono h fun _ _ _ _ _ hc => hc.within hu.within hu'.within
  have hbody := hbody.within hs hs' hu.within hu'.within
  obtain ⟨hheld, hheld'⟩ := heldIn_inherited hparent
  dsimp only
  refine Action.alike_bind
    (classifyOwn_alike path hu.wellFormed hu'.wellFormed hbody hcomposed.keys_eq hheld hheld') ?_
  rintro ⟨own, references⟩ ⟨own', references'⟩ v v' ⟨hv, hgrown, hgrown', hown⟩
  dsimp only
  refine Action.alike_bind (mergeParent_alike path hv hown hparent hgrown hgrown') ?_
  rintro merged merged' x x' ⟨hx, hmerged⟩
  have himplemented : (parent?.map implemented).getD [] = (parent?'.map implemented).getD [] := by
    cases hparent with
    | none => rfl
    | some hc => exact hc.implemented_eq.symm
  have hlineage : (parent?'.map lineage).getD [] = (parent?.map lineage).getD [] := by
    cases hparent with
    | none => rfl
    | some hc => exact hc.lineage_eq
  have hnames : (parent?'.map ancestorNames).getD [] = (parent?.map ancestorNames).getD [] := by
    cases hparent with
    | none => rfl
    | some hc => exact hc.ancestorNames_eq
  refine Action.alike_bind
    (Action.alike_foldlM (S := fun a s a' s' => (s = u.store ∧ s' = u'.store) ∧
        Assembly.Alike u.store u'.store a a')
      (fun mixinPath a a' y y' ha => mergeMixin_alike path ha.1 hclasses rfl ha.2 mixinPath)
      directives.mixins ⟨hx, himplemented, hmerged⟩) ?_
  rintro whole whole' y y' ⟨hy, hwhole⟩
  refine Action.alike_ofExcept_bind (SameOutcome.of_eq
    (SharedMembers.checkVisible_alike hcomposed
      (Skeleton.contains_eq_of_forest hwhole.2.forest_eq))) ?_
  intro _ _ _ _ _
  refine Action.alike_pure ?_
  subst hparents
  rw [hy.1, hy.2]
  refine ⟨hu, hu', rfl, rfl, ?_, hwhole.2, hcomposed⟩
  -- the keys are the same in both runs, and with them the chains
  have hkeys := Skeleton.keys_eq_of_forest hwhole.2.forest_eq
  dsimp only
  rw [hwhole.1, hlineage, hnames, overrideChains_congr _ hkeys]

end ClassDefinition

end ClassComposition
