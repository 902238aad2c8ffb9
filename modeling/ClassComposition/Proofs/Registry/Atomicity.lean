import ClassComposition.Proofs.Class.Overlay
import ClassComposition.Proofs.Registry.Reachable

/-!
# Definitions are atomic

A definition either fails and leaves the registry as it is, or publishes one class.  In the store it only
makes new things: the objects that an overlay writes to are copies made by the same definition.  So
whatever was there before keeps its contents at any depth, also when the definition fails after shared
members have been composed.

## Main definitions

* `Registry.parentOf?` — the class that a body extends.

## Main results

* `ClassDefinition.preserves_compile`, `Constructor.preserves_build` — what a compilation and the building
  of a constructor preserve.
* `Registry.define_atomic` — all of this for definitions.
-/

namespace ClassComposition

variable {s₀ : Store} {path : String} {body : ClassBody}

/-! ### Shared members -/

namespace SharedMembers

/-- Handing a member down changes the store only where the body has an object for one of the parent's: it is
laid over a copy. -/
theorem preserves_inheritOne_of {P : Store → Prop} {name : String} {inherited : Value}
    {declared? : Option Value}
    (hlaid : ∀ target source s, inherited = .object target → declared? = some (.object source) → P s →
      P (overlay (s.deepCopy (.object target)).1 (.object source) (s.deepCopy (.object target)).2)) :
    (inheritOne path name inherited declared?).Preserves P := by
  cases declared? with
  | none => exact Action.preserves_pure inherited
  | some declared =>
    cases inherited with
    | object target =>
      cases declared with
      | object source =>
        -- the copy and the overlay on it are one change of the store
        intro w hw
        have hthen := hlaid target source w.store rfl rfl hw
        exact hthen
      | _ => exact Action.preserves_throw _
    | array a =>
      cases declared with
      | array b => exact Action.preserves_pure _
      | _ => exact Action.preserves_throw _
    | _ => exact Action.preserves_throw _

/-- What is handed down leaves the store as it was.  Only a member that is redeclared is copied. -/
theorem preserves_inheritOne (hs₀ : s₀.WellFormed) {name : String} {inherited : Value}
    {declared? : Option Value}
    (hinherited : declared?.isSome = true → s₀.Has inherited ∧ s₀.Shallow inherited)
    (hdeclared : ∀ v, declared? = some v → s₀.Has v) :
    (inheritOne path name inherited declared?).Preserves s₀.Continues := by
  refine preserves_inheritOne_of ?_
  rintro target source s rfl rfl hs
  obtain ⟨htarget, hshallow⟩ := hinherited rfl
  exact continues_overlay hs₀ (hdeclared _ rfl) htarget hshallow hs

/-- What is preserved by handing down each of the parent's shared members is so by handing them all down. -/
theorem preserves_inherit {P : Store → Prop} {parent : SharedMembers}
    (hone : ∀ p ∈ parent, (inheritOne path p.1 p.2 (body.get? p.1)).Preserves P) :
    (inherit path body parent).Preserves P := by
  induction parent with
  | nil => exact Action.preserves_pure []
  | cons p rest ih =>
    rw [List.forall_mem_cons] at hone
    obtain ⟨hfirst, hrest⟩ := hone
    rw [inherit]
    refine Action.preserves_bind hfirst fun v => ?_
    refine Action.preserves_bind (Action.preserves_record _) fun _ => ?_
    refine Action.preserves_bind (ih hrest) fun others => ?_
    exact Action.preserves_pure _

end SharedMembers

/-! ### Compiling and building -/

namespace ClassDefinition

variable {config : Config} {classes : Assoc String ClassDefinition} {P : Store → Prop}

theorem preserves_composeShared {parent? : Option ClassDefinition} {names : List String}
    (hone : ∀ parent, parent? = some parent → ∀ p ∈ parent.shared,
      (SharedMembers.inheritOne path p.1 p.2 (body.get? p.1)).Preserves P) :
    (composeShared path body parent? names).Preserves P := by
  rw [composeShared_eq]
  refine Action.preserves_bind ?_ fun inherited => ?_
  · cases parent? with
    | none => exact Action.preserves_pure []
    | some parent => exact SharedMembers.preserves_inherit (hone parent rfl)
  · unfold declareOver
    split
    · exact Action.preserves_pure _
    · exact Action.preserves_throw _

theorem preserves_classifyOwn {shared : SharedMembers} {table : ReferenceTable} :
    (classifyOwn config path body shared table).Preserves P := by
  unfold classifyOwn
  refine Action.preserves_store_bind fun s _ => ?_
  split
  · exact Action.preserves_pure _
  · exact Action.preserves_throw _

theorem preserves_mergeParent {own : Skeleton} {parent? : Option ClassDefinition} :
    (mergeParent path own parent?).Preserves P := by
  cases parent? with
  | none => exact Action.preserves_pure own
  | some parent =>
    unfold mergeParent
    dsimp only
    split
    · refine Action.preserves_bind (Action.preserves_forM ?_ _) fun _ => Action.preserves_pure _
      exact fun key => Action.preserves_record _
    · exact Action.preserves_throw _

theorem preserves_mergeMixin (a : Assembly) (mixinPath : String) :
    (mergeMixin config classes path a mixinPath).Preserves P := by
  unfold mergeMixin
  refine Action.preserves_ofExcept_bind fun mixin _ => ?_
  refine Action.preserves_bind (Action.preserves_record _) fun _ => ?_
  split
  · exact Action.preserves_pure _
  · exact Action.preserves_throw _

theorem get?_of_findParent {s : Store} {directives : Directives} {parent : ClassDefinition}
    (hparsed : Directives.parse s path body = .ok directives)
    (hfound : findParent classes path directives.parent? = .ok (some parent)) :
    ∃ parentPath, body.get? Directive.parent.name = some (.text parentPath) ∧
      Assoc.get? classes parentPath = some parent := by
  obtain ⟨parentPath, hnamed, hget, -⟩ := findParent_eq_ok hfound
  obtain ⟨-, hparent, -⟩ := Directives.parse_eq_ok hparsed
  rw [hnamed] at hparent
  exact ⟨parentPath, Directives.get?_parent hparent, hget⟩

/-- What is preserved by handing down the parent's shared members is preserved by the compilation, whatever
comes of it. -/
theorem preserves_compile
    (hone : ∀ parentPath parent, body.get? Directive.parent.name = some (.text parentPath) →
      Assoc.get? classes parentPath = some parent → ∀ p ∈ parent.shared,
        (SharedMembers.inheritOne path p.1 p.2 (body.get? p.1)).Preserves P) :
    (compile config classes path body).Preserves P := by
  unfold compile
  refine Action.preserves_store_bind fun s _ => ?_
  refine Action.preserves_ofExcept_bind fun directives hparsed => ?_
  refine Action.preserves_ofExcept_bind fun parent? hfound => ?_
  refine Action.preserves_bind (preserves_composeShared ?_) fun shared => ?_
  · rintro parent rfl
    obtain ⟨parentPath, hnamed, hget⟩ := get?_of_findParent hparsed hfound
    exact hone parentPath parent hnamed hget
  refine Action.preserves_bind preserves_classifyOwn fun own => ?_
  refine Action.preserves_bind preserves_mergeParent fun skeleton => ?_
  refine Action.preserves_bind (Action.preserves_foldlM preserves_mergeMixin _ _) fun whole => ?_
  refine Action.preserves_ofExcept_bind fun _ _ => ?_
  exact Action.preserves_pure _

end ClassDefinition

/-- What is preserved by making a prototype and by giving out an identity is so by building a constructor. -/
theorem Constructor.preserves_build {P : Store → Prop} {config : Config} {c : ClassDefinition}
    (hprototype : ∀ ps s, parts c.path c.references c.skeleton = .ok ps → P s →
      P (s.newPrototype (prototypeOf c ps.slots)).2)
    (hroutine : ∀ s, P s → P s.newRoutine.2) : (build config c).Preserves P := by
  have hidentity : (Action.onStore Store.newRoutine).Preserves P := Action.preserves_onStore hroutine
  unfold build
  split
  · exact Action.preserves_bind hidentity fun id => Action.preserves_pure _
  · refine Action.preserves_ofExcept_bind fun ps hps => ?_
    refine Action.preserves_ofExcept_bind fun init? _ => ?_
    refine Action.preserves_ofExcept_bind fun hook? _ => ?_
    refine Action.preserves_bind (Action.preserves_onStore fun s => hprototype ps s hps) fun h => ?_
    exact Action.preserves_bind hidentity fun id => Action.preserves_pure _

theorem Constructor.continues_build (config : Config) (c : ClassDefinition) :
    (build config c).Preserves s₀.Continues :=
  preserves_build
    (fun _ s _ hs => hs.trans ⟨s.within_newPrototype _, hs.wellFormed.newPrototype _⟩)
    fun s hs => hs.trans ⟨s.within_newRoutine, hs.wellFormed.newRoutine⟩

/-! ### Definitions -/

namespace Registry

/-- The class that a body extends, if it names one that is defined. -/
def parentOf? (r : Registry) (body : ClassBody) : Option ClassDefinition :=
  match body.get? Directive.parent.name with
  | some (.text parentPath) => r.definition? parentPath
  | _ => none

theorem parentOf?_eq {r : Registry} {parentPath : String}
    (h : body.get? Directive.parent.name = some (.text parentPath)) :
    r.parentOf? body = r.definition? parentPath := by
  rw [parentOf?, h]

/-- A definition leaves what was there as it was, whatever comes of it. -/
theorem preserves_define {r : Registry} (hs₀ : s₀.WellFormed) (hbody : ∀ p ∈ body.entries, s₀.Has p.2)
    (hparent : ∀ parent, r.parentOf? body = some parent →
      ∀ p ∈ parent.shared, s₀.Has p.2 ∧ s₀.Shallow p.2) :
    (r.define path body).Preserves s₀.Continues := by
  unfold define
  refine Action.preserves_ofExcept_bind fun place _ => ?_
  refine Action.preserves_bind (ClassDefinition.preserves_compile ?_) fun c => ?_
  · intro parentPath parent hnamed hget p hp
    have hfound : r.parentOf? body = some parent := (parentOf?_eq hnamed).trans hget
    exact SharedMembers.preserves_inheritOne hs₀ (fun _ => hparent parent hfound p hp)
      fun v hv => hbody _ (Assoc.mem_of_get? hv)
  refine Action.preserves_bind (Constructor.continues_build _ c) fun k => ?_
  refine Action.preserves_bind (Action.preserves_record _) fun _ => ?_
  exact Action.preserves_pure _

/-- A definition fails and leaves the registry as it is, or it publishes one class at the place of its path
and nothing else.  In both cases everything that the store had keeps its contents, at any depth: objects
and arrays, and likewise functions, patterns, prototypes and instances. -/
theorem define_atomic {r : Registry} {w w' : World} {outcome : Except ClassError (Constructor × Registry)}
    (hstore : w.store.WellFormed) (hbody : ∀ p ∈ body.entries, w.store.Has p.2)
    (hparent : ∀ parent, r.parentOf? body = some parent →
      ∀ p ∈ parent.shared, w.store.Has p.2 ∧ w.store.Acyclic p.2)
    (hrun : (r.define path body).run w = (outcome, w')) :
    ((∃ e, outcome = .error e ∧ r.perform w (.define path body) = r) ∨
      ∃ c k root space below, c.path = path ∧ r.place path = .ok (root, space, below) ∧
        outcome = .ok (k, r.publish c k root space below) ∧
        r.perform w (.define path body) = r.publish c k root space below) ∧
    w.store.Continues w'.store ∧
    ∀ v, w.store.Has v → ∀ steps, w'.store.reach? v steps = w.store.reach? v steps := by
  have hdefine : (r.define path body).Preserves w.store.Continues :=
    preserves_define hstore hbody fun parent hfound p hp =>
      ⟨(hparent parent hfound p hp).1, (hparent parent hfound p hp).2.shallow hstore
        (hparent parent hfound p hp).1⟩
  have hkept := hdefine w hstore.continues
  rw [hrun] at hkept
  refine ⟨?_, hkept, fun v hv steps => hkept.within.reach?_eq hstore hv steps⟩
  rw [perform, hrun]
  rcases outcome with e | ⟨k, after⟩
  · exact .inl ⟨e, rfl, rfl⟩
  · obtain ⟨root, space, below, c, w₁, w₂, hplaced, hcompile, -, rfl, -⟩ := define_eq_ok hrun
    obtain ⟨composition, rfl, -⟩ := ClassDefinition.exists_composition hcompile
    exact .inr ⟨_, k, root, space, below, rfl, hplaced, rfl, rfl⟩

end Registry

/-! ### A definition that fails late

The parent of the sample shares an object.  The class below redeclares it, and has a member that is
refused after the shared members have been composed. -/

namespace Sample

/-- The registry with the class that shares an object. -/
def sharing : Registry :=
  ((Registry.empty .standard).perform world (.addRoot "Ns")).perform world
    (.define "Ns.Store" ⟨[("Shared", .text "options"), ("options", .object ⟨0⟩)]⟩)

/-- A body that redeclares the object and has a member that is refused. -/
def refused : ClassBody :=
  ⟨[("Extends", .text "Ns.Store"), ("options", .object ⟨2⟩), ("bad", .undefined)]⟩

theorem world_wellFormed : world.store.WellFormed := by
  refine ⟨?_, ?_, ?_⟩
  · -- the objects hold the array, two of the functions and a null, all of them there
    rintro ⟨index⟩ p hp
    match index with
    | 0 =>
      rcases List.mem_cons.mp hp with rfl | hrest
      · exact Nat.zero_lt_one
      · obtain rfl := List.mem_singleton.mp hrest
        trivial
    | 1 =>
      obtain rfl := List.mem_singleton.mp hp
      exact Nat.lt_succ_self 2
    | 2 =>
      obtain rfl := List.mem_singleton.mp hp
      exact Nat.lt_succ_of_lt (Nat.lt_succ_self 1)
    | index + 3 => cases hp
  · rintro ⟨index⟩ v hv
    match index with
    | 0 =>
      obtain rfl := List.mem_singleton.mp hv
      exact Nat.zero_lt_succ 2
    | index + 1 => cases hv
  · rintro ⟨index⟩
    match index with
    | 0 => decide
    | 1 => decide
    | 2 => decide
    | index + 3 => exact List.nodup_nil

theorem world_acyclic : world.store.Acyclic (.object ⟨0⟩) := by
  intro path hpath
  cases hpath with
  | last => exact List.nodup_singleton _
  | down hp below =>
    rcases List.mem_cons.mp hp with rfl | hrest
    · cases below
    · obtain rfl := List.mem_singleton.mp hrest
      cases below

end Sample

namespace Registry

/-- The definition has made a copy of the shared object before it fails.  The registry is as it was, and so
is the object, together with what it holds. -/
theorem define_atomic_refused :
    ∃ w', (Sample.sharing.define "Ns.Sub" Sample.refused).run Sample.world
        = (.error (.undefinedMember "Ns.Sub" "bad"), w') ∧
      w'.store.objects.size = 4 ∧
      Sample.sharing.perform Sample.world (.define "Ns.Sub" Sample.refused) = Sample.sharing ∧
      w'.store.object ⟨0⟩ = [("list", .array ⟨0⟩), ("size", .null)] ∧
      w'.store.reach? (.object ⟨0⟩) [.property "list", .element 0] = some (.function ⟨0⟩) := by
  have hbody : ∀ p ∈ Sample.refused.entries, Sample.world.store.Has p.2 := by
    intro p hp
    rcases List.mem_cons.mp hp with rfl | hp
    · trivial
    rcases List.mem_cons.mp hp with rfl | hp
    · exact Nat.lt_succ_self 2
    · obtain rfl := List.mem_singleton.mp hp
      trivial
  have hgood : Sample.world.store.Has (.object ⟨0⟩) := Nat.zero_lt_succ 2
  have hparent : ∀ parent, Sample.sharing.parentOf? Sample.refused = some parent →
      ∀ p ∈ parent.shared, Sample.world.store.Has p.2 ∧ Sample.world.store.Acyclic p.2 := by
    intro parent hparent p hp
    have hshared : parent.shared = [("options", .object ⟨0⟩)] := by
      cases hparent
      rfl
    rw [hshared] at hp
    obtain rfl := List.mem_singleton.mp hp
    exact ⟨hgood, Sample.world_acyclic⟩
  -- the run leaves a fourth object, the copy of the options made before the bad member was met
  have hrun : (Sample.sharing.define "Ns.Sub" Sample.refused).run Sample.world
      = (.error (.undefinedMember "Ns.Sub" "bad"),
        ((Sample.sharing.define "Ns.Sub" Sample.refused).run Sample.world).2) := rfl
  obtain ⟨houtcome, hkept, hreach⟩ :=
    define_atomic Sample.world_wellFormed hbody hparent hrun
  refine ⟨_, hrun, rfl, ?_, ?_, ?_⟩
  · rcases houtcome with ⟨e, -, hsame⟩ | ⟨c, k, root, space, below, -, -, hok, -⟩
    · exact hsame
    · cases hok
  · exact hkept.within.object_eq hgood
  · rw [hreach (.object ⟨0⟩) hgood]
    rfl

end Registry

end ClassComposition
