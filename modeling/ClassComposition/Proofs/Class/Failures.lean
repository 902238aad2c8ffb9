import ClassComposition.Proofs.Class.Composition
import ClassComposition.Proofs.Class.Construction
import ClassComposition.Proofs.Member.Settled

/-!
# Why classes cannot be composed

Compiling a body and building its constructor fail because of the body and the classes it names.  That
there is no place for a class under its path is found out before, and neither of the two ever says so.

## Main definitions

* `ClassError.isOfPlace` — the errors that say that there is no place for a class.
* `PlaceFree`, `Action.PlaceFree` — computations that fail for other reasons only.

## Main results

* `ClassDefinition.placeFree_compile`, `Constructor.placeFree_build` — compiling and building do.
-/

namespace ClassComposition

variable {α β : Type}

/-- Whether an error says that there is no place for a class under its path. -/
def ClassError.isOfPlace : ClassError → Bool
  | .alreadyDefined _ | .malformedPath _ | .missingNamespace _ | .unknownRoot _ _ | .placeTaken _ => true
  | _ => false

theorem ClassError.isOfPlace_of_invalidMember {e : ClassError} (h : e.kind = .invalidMember) :
    e.isOfPlace = false := by
  cases e <;> first | rfl | cases h

/-! ### Computations -/

/-- An outcome that is no error of place. -/
def PlaceFree (x : Except ClassError α) : Prop := ∀ e, x = .error e → e.isOfPlace = false

theorem placeFree_ok (a : α) : PlaceFree (.ok a) := by
  intro e h
  cases h

theorem placeFree_error {e : ClassError} (h : e.isOfPlace = false) :
    PlaceFree (.error e : Except ClassError α) := by
  intro e' he
  cases he
  exact h

theorem placeFree_bind {x : Except ClassError α} {f : α → Except ClassError β} (h : PlaceFree x)
    (hf : ∀ a, PlaceFree (f a)) : PlaceFree (x >>= f) := by
  cases x with
  | ok a => exact hf a
  | error e => exact placeFree_error (h e rfl)

namespace Action

/-- An action that fails for other reasons than the place of a class only. -/
def PlaceFree (action : Action α) : Prop := ∀ w, ClassComposition.PlaceFree (action.run w).1

variable {action : Action α} {f : α → Action β}

theorem placeFree_pure (a : α) : (pure a : Action α).PlaceFree := fun _ => placeFree_ok a

theorem placeFree_throw {e : ClassError} (h : e.isOfPlace = false) :
    (throw e : Action α).PlaceFree := fun _ => placeFree_error h

theorem placeFree_record (e : Event) : (record e).PlaceFree := fun _ => placeFree_ok ()

theorem placeFree_onStore (f : Store → α × Store) : (onStore f).PlaceFree := fun _ => placeFree_ok _

theorem placeFree_modifyStore (f : Store → Store) : (modifyStore f).PlaceFree := fun _ => placeFree_ok ()

theorem placeFree_store : store.PlaceFree := fun w => placeFree_ok w.store

theorem placeFree_bind (h : action.PlaceFree) (hf : ∀ a, (f a).PlaceFree) :
    (action >>= f).PlaceFree := by
  intro w
  have hfirst := h w
  rw [run_bind]
  rcases hrun : action.run w with ⟨e | a, w'⟩
  · rw [hrun] at hfirst
    exact placeFree_error (hfirst e rfl)
  · exact hf a w'

theorem placeFree_ofExcept {r : Except ClassError α} (h : ClassComposition.PlaceFree r) :
    (ofExcept r).PlaceFree := by
  cases r with
  | ok a => exact placeFree_pure a
  | error e => exact placeFree_throw (h e rfl)

theorem placeFree_foldlM {step : β → α → Action β} (hstep : ∀ b a, (step b a).PlaceFree)
    (items : List α) (start : β) : (items.foldlM step start).PlaceFree := by
  induction items generalizing start with
  | nil => exact placeFree_pure start
  | cons item rest ih =>
    rw [List.foldlM_cons]
    exact placeFree_bind (hstep start item) ih

theorem placeFree_forM {f : α → Action PUnit} (hf : ∀ a, (f a).PlaceFree) (items : List α) :
    (items.forM f).PlaceFree := by
  induction items with
  | nil => exact placeFree_pure _
  | cons item rest ih =>
    rw [List.forM_eq_forM, List.forM_cons]
    exact placeFree_bind (hf item) fun _ => ih

end Action

variable {path : String} {body : ClassBody}

/-! ### Directives and shared members -/

theorem Directives.placeFree_names (s : Store) (directive : Directive) :
    PlaceFree (names s path body directive) := by
  unfold names
  split
  · exact placeFree_ok _
  · exact placeFree_ok _
  · split
    · exact placeFree_ok _
    · exact placeFree_error rfl
  · exact placeFree_error rfl

theorem Directives.placeFree_parse (s : Store) : PlaceFree (parse s path body) := by
  unfold parse
  refine placeFree_bind ?_ fun isAbstract => placeFree_bind ?_ fun parent? =>
    placeFree_bind (placeFree_names s .mixins) fun mixins =>
    placeFree_bind (placeFree_names s .shared) fun shared => placeFree_ok _
  · unfold abstractness
    split
    · exact placeFree_ok _
    · split <;> exact placeFree_ok _
    · exact placeFree_error rfl
  · unfold parentPath?
    split
    · exact placeFree_ok _
    · exact placeFree_ok _
    · exact placeFree_error rfl

namespace SharedMembers

theorem placeFree_inheritOne (name : String) (inherited : Value) (declared? : Option Value) :
    (inheritOne path name inherited declared?).PlaceFree := by
  unfold inheritOne
  split
  · exact Action.placeFree_pure _
  · split
    · exact Action.placeFree_pure _
    · exact Action.placeFree_bind (Action.placeFree_onStore _) fun merged =>
        Action.placeFree_bind (Action.placeFree_modifyStore _) fun _ => Action.placeFree_pure _
    · exact Action.placeFree_throw rfl

theorem placeFree_inherit (parent : SharedMembers) : (inherit path body parent).PlaceFree := by
  induction parent with
  | nil => exact Action.placeFree_pure []
  | cons p rest ih =>
    rw [inherit]
    refine Action.placeFree_bind (placeFree_inheritOne p.1 p.2 _) fun v => ?_
    refine Action.placeFree_bind (Action.placeFree_record _) fun _ => ?_
    exact Action.placeFree_bind ih fun others => Action.placeFree_pure _

theorem placeFree_declarable (parentSkeleton? : Option Skeleton) (shared : SharedMembers)
    (name : String) : PlaceFree (declarable path body parentSkeleton? shared name) := by
  unfold declarable
  split
  · exact placeFree_error rfl
  · split
    · exact placeFree_error rfl
    · split
      · exact placeFree_error rfl
      · split
        · exact placeFree_error rfl
        · exact placeFree_ok _

theorem placeFree_declare (parentSkeleton? : Option Skeleton) (names : List String)
    (shared : SharedMembers) : PlaceFree (declare path body parentSkeleton? shared names).2 := by
  induction names generalizing shared with
  | nil => exact placeFree_ok ()
  | cons name rest ih =>
    have hfirst : PlaceFree (declarable path body parentSkeleton? shared name) :=
      placeFree_declarable parentSkeleton? shared name
    rw [declare]
    split
    · next e he => exact placeFree_error (hfirst e he)
    · exact ih _

theorem placeFree_checkVisible (skeleton : Skeleton) (shared : SharedMembers) :
    PlaceFree (checkVisible path skeleton shared) := by
  induction shared with
  | nil => exact placeFree_ok ()
  | cons p rest ih =>
    obtain ⟨name, v⟩ := p
    rw [checkVisible]
    split
    · exact placeFree_error rfl
    · exact ih

end SharedMembers

/-! ### Merges -/

namespace Skeleton

theorem placeFree_keepImplementation (mode : MergeMode) (isRoot : Bool) (key : MemberKey)
    (method : MemberDescriptor) (child : Skeleton) (kept : List MemberKey) :
    PlaceFree (keepImplementation path mode isRoot key method child kept).2 := by
  unfold keepImplementation
  split
  · dsimp only
    split
    · exact placeFree_error rfl
    · exact placeFree_ok _
  · exact placeFree_ok kept

mutual

theorem placeFree_copyMember (mode : MergeMode) (kept : List MemberKey) :
    ∀ d : MemberDescriptor, PlaceFree (copyMember path mode kept d)
  | .nested members => by
    have hmerged := placeFree_merge mode false members [] kept
    rw [copyMember]
    rcases hrun : merge path mode false members [] kept with ⟨fresh, e | kept⟩
    · rw [hrun] at hmerged
      exact placeFree_error (hmerged e rfl)
    · exact placeFree_ok _
  | .literal _ | .text _ | .emptyArray | .inlineArray _ | .arrayCopy _ | .function _ | .pattern _ =>
    placeFree_ok _

theorem placeFree_overrideMember (mode : MergeMode) (isRoot : Bool) (key : MemberKey) :
    ∀ (d own : MemberDescriptor) (child : Skeleton) (kept : List MemberKey),
      PlaceFree (overrideMember path mode isRoot key d own child kept).2
  | .function index, _, child, kept =>
    placeFree_keepImplementation mode isRoot key (.function index) child kept
  | .nested members, .nested inner, _, kept => placeFree_merge mode false members inner kept
  | .nested _, .literal _, _, _ | .nested _, .text _, _, _ | .nested _, .emptyArray, _, _
  | .nested _, .inlineArray _, _, _ | .nested _, .arrayCopy _, _, _
  | .nested _, .function _, _, _ | .nested _, .pattern _, _, _ => placeFree_error rfl
  | .literal _, _, _, kept | .text _, _, _, kept | .emptyArray, _, _, kept
  | .inlineArray _, _, _, kept | .arrayCopy _, _, _, kept | .pattern _, _, _, kept => placeFree_ok kept

theorem placeFree_merge (mode : MergeMode) (isRoot : Bool) :
    ∀ (ms : List (MemberKey × MemberDescriptor)) (child : Skeleton) (kept : List MemberKey),
      PlaceFree (merge path mode isRoot ms child kept).2
  | [], _, kept => placeFree_ok kept
  | (key, d) :: rest, child, kept => by
    rw [merge]
    split
    · have hcopied := placeFree_copyMember mode kept d
      rcases hrun : copyMember path mode kept d with e | ⟨copied, kept⟩
      · exact placeFree_error (hcopied e hrun)
      · exact placeFree_merge mode isRoot rest _ kept
    next own _ =>
    split
    · exact placeFree_error rfl
    · have hmerged := placeFree_overrideMember mode isRoot key d own child kept
      rcases hrun : overrideMember path mode isRoot key d own child kept with ⟨child, e | kept⟩
      · rw [hrun] at hmerged
        exact placeFree_error (hmerged e rfl)
      · exact placeFree_merge mode isRoot rest child kept

end

theorem placeFree_implement (child mixin : Skeleton) (offset : Nat) :
    PlaceFree (implement path child mixin offset).2 := by
  have hfree : PlaceFree (merge path (.implement offset) true mixin child []).2 :=
    placeFree_merge (.implement offset) true mixin child []
  unfold implement
  rcases hrun : merge path (.implement offset) true mixin child [] with ⟨merged, e | kept⟩
  · rw [hrun] at hfree
    exact placeFree_error (hfree e rfl)
  · exact placeFree_ok ()

end Skeleton

/-! ### Compiling and building -/

namespace ClassDefinition

variable {config : Config} {classes : Assoc String ClassDefinition}

theorem placeFree_findParent (parent? : Option String) : PlaceFree (findParent classes path parent?) := by
  cases parent? with
  | none => exact placeFree_ok _
  | some parentPath =>
    rw [findParent]
    split
    · exact placeFree_error rfl
    · split
      · exact placeFree_error rfl
      · exact placeFree_ok _

theorem placeFree_findMixin (implemented : List String) (mixinPath : String) :
    PlaceFree (findMixin config classes path implemented mixinPath) := by
  unfold findMixin
  split
  · exact placeFree_error rfl
  · split
    · exact placeFree_error rfl
    · split
      · exact placeFree_error rfl
      · split
        · exact placeFree_error rfl
        · exact placeFree_ok _

theorem placeFree_composeShared (parent? : Option ClassDefinition) (names : List String) :
    (composeShared path body parent? names).PlaceFree := by
  rw [composeShared_eq]
  refine Action.placeFree_bind ?_ fun inherited => ?_
  · cases parent? with
    | none => exact Action.placeFree_pure []
    | some parent => exact SharedMembers.placeFree_inherit parent.shared
  · have hfree : PlaceFree (SharedMembers.declare path body (parent?.map ClassDefinition.skeleton)
        inherited names).2 := SharedMembers.placeFree_declare _ names inherited
    unfold declareOver
    split
    · exact Action.placeFree_pure _
    · next e he =>
      rw [he] at hfree
      exact Action.placeFree_throw (hfree e rfl)

theorem placeFree_classifyOwn (shared : SharedMembers) (table : ReferenceTable) :
    (classifyOwn config path body shared table).PlaceFree := by
  unfold classifyOwn
  refine Action.placeFree_bind Action.placeFree_store fun s => ?_
  split
  · exact Action.placeFree_pure _
  · next e u he =>
    have hkind : e.kind = .invalidMember :=
      Classifying.kind_of_members Classifying.kind_of_memberAt he
    exact Action.placeFree_throw (ClassError.isOfPlace_of_invalidMember hkind)

theorem placeFree_mergeParent (own : Skeleton) (parent? : Option ClassDefinition) :
    (mergeParent path own parent?).PlaceFree := by
  cases parent? with
  | none => exact Action.placeFree_pure own
  | some parent =>
    have hfree : PlaceFree (Skeleton.extend path own parent.name parent.skeleton).2 :=
      Skeleton.placeFree_merge (.extend parent.name) true parent.skeleton own []
    unfold mergeParent
    dsimp only
    split
    · refine Action.placeFree_bind (Action.placeFree_forM ?_ _) fun _ => Action.placeFree_pure _
      exact fun key => Action.placeFree_record _
    · next e he =>
      rw [he] at hfree
      exact Action.placeFree_throw (hfree e rfl)

theorem placeFree_mergeMixin (a : Assembly) (mixinPath : String) :
    (mergeMixin config classes path a mixinPath).PlaceFree := by
  unfold mergeMixin
  refine Action.placeFree_bind (Action.placeFree_ofExcept (placeFree_findMixin _ _)) fun mixin => ?_
  refine Action.placeFree_bind (Action.placeFree_record _) fun _ => ?_
  have hfree : PlaceFree
      (Skeleton.implement path a.skeleton mixin.skeleton a.references.size).2 :=
    Skeleton.placeFree_implement a.skeleton mixin.skeleton a.references.size
  split
  · exact Action.placeFree_pure _
  · next e he =>
    rw [he] at hfree
    exact Action.placeFree_throw (hfree e rfl)

/-- Compiling a body never fails because there is no place for its class. -/
theorem placeFree_compile : (compile config classes path body).PlaceFree := by
  unfold compile
  refine Action.placeFree_bind Action.placeFree_store fun s => ?_
  refine Action.placeFree_bind (Action.placeFree_ofExcept (Directives.placeFree_parse s)) fun ds => ?_
  refine Action.placeFree_bind (Action.placeFree_ofExcept (placeFree_findParent _)) fun parent? => ?_
  refine Action.placeFree_bind (placeFree_composeShared _ _) fun shared => ?_
  refine Action.placeFree_bind (placeFree_classifyOwn _ _) fun own => ?_
  refine Action.placeFree_bind (placeFree_mergeParent _ _) fun skeleton => ?_
  refine Action.placeFree_bind (Action.placeFree_foldlM placeFree_mergeMixin _ _) fun whole => ?_
  refine Action.placeFree_bind
    (Action.placeFree_ofExcept (SharedMembers.placeFree_checkVisible _ _)) fun _ => ?_
  exact Action.placeFree_pure _

end ClassDefinition

namespace Constructor

theorem placeFree_build (config : Config) (c : ClassDefinition)
    (hc : Skeleton.AllLeaves (MemberDescriptor.PointsInto c.references) c.skeleton) :
    (build config c).PlaceFree := by
  intro w e he
  have hrun : (build config c).run w = (.error e, ((build config c).run w).2) := Prod.ext he rfl
  rcases build_eq_error hc hrun with ⟨kind, rfl⟩ | rfl
  · rfl
  · rfl

end Constructor

end ClassComposition
