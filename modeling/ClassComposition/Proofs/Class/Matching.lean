import ClassComposition.Proofs.Beside
import ClassComposition.Proofs.Class.SharedState
import ClassComposition.Proofs.Matching
import ClassComposition.Proofs.Registry.Atomicity

/-!
# Compiling a body twice

One body is compiled under one path against the same classes, in two worlds.  What a compilation takes
from the store is read where the directives are parsed, where shared members are composed and where the
members of the body are classified; all its other stages depend on the classes only.  So a second
compilation follows a first one as soon as it does so at these three places.

## Main results

* `SharedMembers.matches_inherit`, `ClassDefinition.matches_composeShared` — shared members.
* `ClassDefinition.matches_compile` — a whole compilation.
* `ClassDefinition.compile_congr` — which of the classes a compilation depends on.
-/

namespace ClassComposition

open ClassComposition.Action

variable {admitted : ClassError → Prop} {T : Store → Store → Prop} {V : Value → Value → Prop}
  {path : String} {body : ClassBody} {w w' : World}

/-! ### Shared members -/

namespace SharedMembers

theorem matches_inherit {parent : SharedMembers} (hT : T w.store w'.store)
    (hone : ∀ p ∈ parent, ∀ u u', T u.store u'.store →
      Matches admitted T V (inheritOne path p.1 p.2 (body.get? p.1)) u
        (inheritOne path p.1 p.2 (body.get? p.1)) u') :
    Matches admitted T (Assoc.Beside fun _ => V) (inherit path body parent) w
      (inherit path body parent) w' := by
  induction parent generalizing w w' with
  | nil => exact matches_pure hT .nil
  | cons p rest ih =>
    rw [List.forall_mem_cons] at hone
    rw [inherit]
    refine matches_bind (hone.1 w w' hT) fun v v' u u' hu hv => ?_
    refine matches_bind (matches_record hu _ _) fun _ _ u u' hu _ => ?_
    refine matches_bind (ih hu hone.2) fun others others' u u' hu hothers => ?_
    exact matches_pure hu (.cons ⟨rfl, hv⟩ hothers)

theorem declarable_congr {skeleton? : Option Skeleton} {m m' : SharedMembers}
    (hkeys : Assoc.keys m = Assoc.keys m') (name : String) :
    declarable path body skeleton? m' name = declarable path body skeleton? m name := by
  have hshared : Assoc.contains m' name = Assoc.contains m name := by
    rw [Bool.eq_iff_iff, Assoc.contains_iff, Assoc.contains_iff, hkeys]
  unfold declarable
  rw [hshared]

variable (path) in
/-- The same names are added on both sides, with values that are the body's. -/
theorem beside_declare (skeleton? : Option Skeleton)
    (hbody : ∀ name v, body.get? name = some v → V v v) {m m' : SharedMembers}
    (h : Assoc.Beside (fun _ => V) m m') (names : List String) :
    Assoc.Beside (fun _ => V) (declare path body skeleton? m names).1
        (declare path body skeleton? m' names).1 ∧
      (declare path body skeleton? m' names).2 = (declare path body skeleton? m names).2 := by
  induction names generalizing m m' with
  | nil => exact ⟨h, rfl⟩
  | cons name rest ih =>
    rw [declare, declare, declarable_congr h.keys_eq]
    rcases hname : declarable path body skeleton? m name with e | v
    · exact ⟨h, rfl⟩
    · exact ih (h.write (hbody name v (get?_of_declarable hname)))

end SharedMembers

namespace ClassDefinition

variable {config : Config} {classes : Assoc String ClassDefinition}

/-- What is shared is composed in step when what is handed down is. -/
theorem matches_composeShared {parent? : Option ClassDefinition} (names : List String)
    (hT : T w.store w'.store) (hbody : ∀ name v, body.get? name = some v → V v v)
    (hone : ∀ parent, parent? = some parent → ∀ p ∈ parent.shared, ∀ u u', T u.store u'.store →
      Matches admitted T V (SharedMembers.inheritOne path p.1 p.2 (body.get? p.1)) u
        (SharedMembers.inheritOne path p.1 p.2 (body.get? p.1)) u') :
    Matches admitted T (Assoc.Beside fun _ => V) (composeShared path body parent? names) w
      (composeShared path body parent? names) w' := by
  have hdown : Matches admitted T (Assoc.Beside fun _ => V) (handDown path body parent?) w
      (handDown path body parent?) w' := by
    cases parent? with
    | none => exact matches_pure hT .nil
    | some parent => exact SharedMembers.matches_inherit hT (hone parent rfl)
  rw [composeShared_eq]
  refine matches_bind hdown fun m m' u u' hu hm => ?_
  obtain ⟨hdeclared, hsame⟩ := SharedMembers.beside_declare path
    (parent?.map ClassDefinition.skeleton) hbody hm names
  rcases hrun : SharedMembers.declare path body (parent?.map ClassDefinition.skeleton) m names
    with ⟨result, outcome⟩
  rcases hrun' : SharedMembers.declare path body (parent?.map ClassDefinition.skeleton) m' names
    with ⟨result', outcome'⟩
  -- both runs stop at the same name, or at none
  rw [hrun, hrun'] at hdeclared hsame
  dsimp only at hsame
  obtain rfl := hsame
  cases outcome' with
  | ok =>
    rw [declareOver_of_ok hrun, declareOver_of_ok hrun']
    exact matches_pure hu hdeclared
  | error e =>
    rw [declareOver_of_error hrun, declareOver_of_error hrun']
    exact matches_throw hu e

/-! ### The other stages -/

/-- Whether the body's members are classified is seen in the store, and how they are so. -/
theorem matches_classifyOwn {shared shared' : SharedMembers} {table : ReferenceTable}
    (hT : T w.store w'.store) (hkeys : Assoc.keys shared' = Assoc.keys shared)
    (hclassify : ∀ outcome t,
      Classifying.run (Classifying.skeleton w.store config.inlineSimpleArrays path body
        (Assoc.keys shared)) table = (outcome, t) →
      (∀ e, outcome = .error e → admitted e) →
      Classifying.run (Classifying.skeleton w'.store config.inlineSimpleArrays path body
        (Assoc.keys shared)) table = (outcome, t)) :
    Matches admitted T (fun a b => a = b) (classifyOwn config path body shared table) w
      (classifyOwn config path body shared' table) w' := by
  unfold classifyOwn
  refine matches_store_bind ?_
  rw [hkeys]
  rcases hrun : Classifying.run (Classifying.skeleton w.store config.inlineSimpleArrays path body
    (Assoc.keys shared)) table with ⟨e | skeleton, t⟩
  · intro hadmitted
    have hended := hadmitted e rfl
    rw [hclassify _ _ hrun fun e' he => by cases he; exact hended]
    exact ⟨hT, .error e⟩
  · rw [hclassify _ _ hrun fun e he => nomatch he]
    exact matches_pure hT rfl

theorem detached_mergeParent (own : Skeleton) (parent? : Option ClassDefinition) :
    (mergeParent path own parent?).Detached := by
  cases parent? with
  | none => exact detached_pure own
  | some parent =>
    unfold mergeParent
    dsimp only
    split
    · exact detached_bind (detached_forM (fun key => detached_record _) _) fun _ => detached_pure _
    · exact detached_throw _

theorem detached_mergeMixin (a : Assembly) (mixinPath : String) :
    (mergeMixin config classes path a mixinPath).Detached := by
  unfold mergeMixin
  refine detached_bind (detached_ofExcept _) fun mixin => ?_
  refine detached_bind (detached_record _) fun _ => ?_
  split
  · exact detached_pure _
  · exact detached_throw _

theorem checkVisible_congr {skeleton : Skeleton} {m m' : SharedMembers}
    (h : Assoc.Beside (fun _ => V) m m') :
    SharedMembers.checkVisible path skeleton m' = SharedMembers.checkVisible path skeleton m := by
  induction h with
  | nil => rfl
  | @cons p q rest others first below ih =>
    rw [SharedMembers.checkVisible, SharedMembers.checkVisible, first.1, ih]

/-! ### Both together -/

/-- The second class is the first one but for the values that it shares. -/
def SameButShared (V : Value → Value → Prop) (c c' : ClassDefinition) : Prop :=
  c' = { c with shared := c'.shared } ∧ Assoc.Beside (fun _ => V) c.shared c'.shared

/-- A compilation is followed when the directives are read the same, shared members are composed in step,
and the members of the body are classified in the same way. -/
theorem matches_compile (hT : T w.store w'.store)
    (hparse : Directives.parse w'.store path body = Directives.parse w.store path body)
    (hbody : ∀ name v, body.get? name = some v → V v v)
    (hone : ∀ parentPath parent, body.get? Directive.parent.name = some (.text parentPath) →
      Assoc.get? classes parentPath = some parent → ∀ p ∈ parent.shared, ∀ u u',
      T u.store u'.store →
      Matches admitted T V (SharedMembers.inheritOne path p.1 p.2 (body.get? p.1)) u
        (SharedMembers.inheritOne path p.1 p.2 (body.get? p.1)) u')
    (hclassify : ∀ s s' names table outcome t, T s s' →
      Classifying.run (Classifying.skeleton s config.inlineSimpleArrays path body names) table
        = (outcome, t) →
      (∀ e, outcome = .error e → admitted e) →
      Classifying.run (Classifying.skeleton s' config.inlineSimpleArrays path body names) table
        = (outcome, t)) :
    Matches admitted T (fun c c' => c.path = path ∧ SameButShared V c c')
      (compile config classes path body) w (compile config classes path body) w' := by
  -- stage by stage: what reads no values is detached, and what reads them is followed
  unfold compile
  refine matches_store_bind ?_
  rw [hparse]
  refine matches_ofExcept_bind hT fun directives hparsed => ?_
  refine matches_ofExcept_bind hT fun parent? hfound => ?_
  refine matches_bind (matches_composeShared directives.shared hT hbody ?_)
    fun shared shared' u u' hu hshared => ?_
  · rintro parent rfl
    obtain ⟨parentPath, hnamed, hget⟩ := get?_of_findParent hparsed hfound
    exact hone parentPath parent hnamed hget
  refine matches_bind (matches_classifyOwn hu hshared.keys_eq.symm fun outcome t =>
    hclassify _ _ _ _ outcome t hu) ?_
  rintro ⟨own, references⟩ _ u u' hu rfl
  refine matches_bind (matches_of_detached (detached_mergeParent own parent?) hu) ?_
  rintro skeleton _ u u' hu rfl
  refine matches_bind (matches_of_detached (detached_foldlM detached_mergeMixin _ _) hu) ?_
  rintro whole _ u u' hu rfl
  rw [checkVisible_congr hshared]
  refine matches_ofExcept_bind hu fun _ _ => matches_pure hu ⟨rfl, rfl, hshared⟩

/-- The mixins that are merged in are the classes under the paths given. -/
theorem foldlM_mergeMixin_congr {others : Assoc String ClassDefinition} {mixins : List String}
    (h : ∀ p ∈ mixins, Assoc.get? others p = Assoc.get? classes p) (a : Assembly) :
    mixins.foldlM (mergeMixin config others path) a
      = mixins.foldlM (mergeMixin config classes path) a := by
  induction mixins generalizing a with
  | nil => rfl
  | cons mixinPath rest ih =>
    obtain ⟨hfirst, hrest⟩ := List.forall_mem_cons.mp h
    have hstep : mergeMixin config others path a mixinPath
        = mergeMixin config classes path a mixinPath := by
      unfold mergeMixin findMixin
      rw [hfirst]
    rw [List.foldlM_cons, List.foldlM_cons, hstep]
    congr 1
    funext b
    exact ih hrest b

/-- A compilation depends on the classes that the body names, and on no others. -/
theorem compile_congr {others : Assoc String ClassDefinition}
    (hparent : ∀ directives, Directives.parse w.store path body = .ok directives →
      ∀ p, directives.parent? = some p → Assoc.get? others p = Assoc.get? classes p)
    (hmixins : ∀ directives, Directives.parse w.store path body = .ok directives →
      ∀ p ∈ directives.mixins, Assoc.get? others p = Assoc.get? classes p) :
    (compile config others path body).run w = (compile config classes path body).run w := by
  unfold compile
  rw [run_bind, run_bind, run_store]
  dsimp only
  rw [run_ofExcept_bind, run_ofExcept_bind]
  rcases hparsed : Directives.parse w.store path body with e | directives
  · rfl
  have hfind : findParent others path directives.parent? = findParent classes path directives.parent? := by
    rcases hnamed : directives.parent? with _ | p
    · rfl
    · rw [findParent, findParent, hparent directives hparsed p hnamed]
  dsimp only
  rw [hfind]
  simp only [foldlM_mergeMixin_congr (hmixins directives hparsed)]

end ClassDefinition

/-! ### Building a constructor -/

namespace Constructor

/-- The second constructor is the first one but for its identity and its prototype. -/
inductive Corresponds (I : Nat → Nat → Prop) (P : Handle .prototype → Handle .prototype → Prop) :
    Constructor → Constructor → Prop
  | compiled {id id' : Nat} {h h' : Handle .prototype} (hid : I id id') (hh : P h h') (path : String)
      (fields : List (String × Initializer)) (init? hook? : Option String) :
      Corresponds I P ⟨path, id, .compiled h fields init? hook?⟩ ⟨path, id', .compiled h' fields init? hook?⟩
  | abstract {id id' : Nat} (hid : I id id') (path : String) :
      Corresponds I P ⟨path, id, .abstract⟩ ⟨path, id', .abstract⟩

/-- A constructor is built in step when prototypes and routines are made in step. -/
theorem matches_build {config : Config} {c c' : ClassDefinition} {I : Nat → Nat → Prop}
    {P : Handle .prototype → Handle .prototype → Prop} (hT : T w.store w'.store)
    (hc : ClassDefinition.SameButShared V c c')
    (hprototype : ∀ ps s s', parts c.path c.references c.skeleton = .ok ps → T s s' →
      T (s.newPrototype (prototypeOf c ps.slots)).2 (s'.newPrototype (prototypeOf c' ps.slots)).2 ∧
        P (s.newPrototype (prototypeOf c ps.slots)).1 (s'.newPrototype (prototypeOf c' ps.slots)).1)
    (hroutine : ∀ s s', T s s' →
      T s.newRoutine.2 s'.newRoutine.2 ∧ I s.newRoutine.1 s'.newRoutine.1) :
    Matches admitted T (Corresponds I P) (build config c) w (build config c') w' := by
  have hid : ∀ u u' : World, T u.store u'.store →
      Matches admitted T I (onStore Store.newRoutine) u (onStore Store.newRoutine) u' :=
    fun u u' hu => matches_onStore (hroutine _ _ hu).1 (hroutine _ _ hu).2
  have habstract : c'.isAbstract = c.isAbstract := by rw [hc.1]
  have hparts : parts c'.path c'.references c'.skeleton = parts c.path c.references c.skeleton := by
    rw [hc.1]
  have hinit : initOf config c' = initOf config c := by
    rw [hc.1]
    rfl
  have hhook : hookOf config c' = hookOf config c := by
    rw [hc.1]
    rfl
  have hpath : c'.path = c.path := by rw [hc.1]
  -- all that decides what is built is read from what the classes have in common
  unfold build
  rw [habstract, hparts, hinit, hhook, hpath]
  cases c.isAbstract with
  | true =>
    rw [if_pos rfl, if_pos rfl]
    exact matches_bind (hid w w' hT) fun id id' u u' hu hI => matches_pure hu (.abstract hI _)
  | false =>
    rw [if_neg Bool.false_ne_true, if_neg Bool.false_ne_true]
    refine matches_ofExcept_bind hT fun ps hps => ?_
    refine matches_ofExcept_bind hT fun init? _ => ?_
    refine matches_ofExcept_bind hT fun hook? _ => ?_
    have hboth := hprototype ps w.store w'.store hps hT
    refine matches_bind (matches_onStore hboth.1 hboth.2) fun h h' u u' hu hh => ?_
    refine matches_bind (hid u u' hu) fun id id' u u' hu hI => ?_
    exact matches_pure hu (.compiled hI hh _ _ _ _)

end Constructor

end ClassComposition
