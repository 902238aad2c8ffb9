import ClassComposition.Proofs.Registry.Alike

/-!
# Replaying definitions

A program defines classes, and the same calls are made once more on a registry that is configured
otherwise: arrays of simple values are kept as literals in one of them and in the reference tables in the
other.  Each call comes to the same outcome, and as long as nothing is written to the arrays that were
declared, the classes and their instances cannot be told apart by what they hold.

## Main definitions

* `Registry.Kept` — what a program leaves alone between two calls.
* `Registry.Replay` — the same calls on two registries.

## Main results

* `Registry.Replay.inStep` — what each call keeps, and so what a whole replay has.
* `Registry.Replay.same_instances` — the same outcomes, classes and instances.
-/

namespace ClassComposition

theorem Compiled.nodup_keys {config : Config} {classes : Assoc String ClassDefinition}
    (h : Compiled config classes) : (Assoc.keys classes).Nodup := by
  induction h with
  | nil => exact List.nodup_nil
  | @snoc classes path body w earlier fresh k ih =>
    have hkeys : Assoc.keys (classes ++ [(path, k.definition)]) = Assoc.keys classes ++ [path] := by
      simp [Assoc.keys]
    rw [hkeys, List.nodup_append]
    refine ⟨ih, List.nodup_singleton path, ?_⟩
    rintro p hp q hq rfl
    obtain rfl := List.mem_singleton.mp hq
    exact (Assoc.get?_eq_none_iff _ _).mp fresh hp

namespace Registry

open Constructor

variable {config : Config} {r r' : Registry} {s s' t t' : Store} {path : String} {body : ClassBody}
  {w w' : World} {k : Constructor} {c : ClassDefinition}

/-! ### Prototypes as they were built -/

/-- The store has the prototypes of all classes as they were built. -/
def Intact (r : Registry) (s : Store) : Prop :=
  ∀ path c k, r.definition? path = some c → c.isAbstract = false → r.constructor? path none = some k →
    (∀ h, k.prototype? = some h → s.prototypes.Has h) ∧ k.Unpatched c s

theorem constructor?_none (r : Registry) (path : String) :
    r.constructor? path none = Assoc.get? r.constructors path := by
  unfold constructor?
  cases Assoc.get? r.constructors path <;> rfl

theorem has_prototype_of_build {w w' : World} (hc : c.isAbstract = false)
    (h : (Constructor.build config c).run w = (.ok k, w')) {handle : Handle .prototype}
    (hk : k.prototype? = some handle) : w'.store.prototypes.Has handle := by
  obtain ⟨ps, init?, hook?, -, -, -, rfl, hstore⟩ := build_eq_ok hc h
  cases hk
  rw [hstore]
  exact Pool.has_alloc_self w.store.prototypes (prototypeOf c ps.slots)

theorem Intact.within (h : r.Intact s) (hst : s.Within t) : r.Intact t := by
  intro path c k hc hconcrete hk
  obtain ⟨hhas, hunpatched⟩ := h path c k hc hconcrete hk
  refine ⟨fun handle hhandle => hst.prototypes.has (hhas handle hhandle), ?_⟩
  intro handle ps hhandle hps
  rw [← hunpatched handle ps hhandle hps]
  exact hst.prototypes.get_eq handle (hhas handle hhandle)

theorem Intact.addRoot (h : r.Intact s) (name : String) : (r.addRoot name).Intact s := by
  intro path c k hc hconcrete hk
  rw [definition?, classes_addRoot] at hc
  rw [constructor?_none, constructors_addRoot, ← constructor?_none] at hk
  exact h path c k hc hconcrete hk

/-- A definition builds one prototype more, or none, and leaves the others as they were. -/
theorem Intact.define (h : r.Intact w.store)
    (hw : w.store.Within ((r.define path body).run w).2.store) :
    (r.perform w (.define path body)).Intact ((r.define path body).run w).2.store := by
  rw [perform]
  rcases hrun : (r.define path body).run w with ⟨e | ⟨built, after⟩, w'⟩
  · rw [hrun] at hw
    exact h.within hw
  · rw [hrun] at hw
    obtain ⟨d, w₁, w₂, -, hbuild, hstore, hfresh, -, hclasses, hconstructors⟩ :=
      composition_of_define hrun
    intro p c k hc hconcrete hk
    rw [constructor?_none, hconstructors, Assoc.get?_insert] at hk
    have hfound := hc
    rw [definition?, hclasses] at hfound
    -- an earlier class keeps its prototype; the new one has the prototype that was just built
    rcases Compiled.get?_snoc hfound with hbefore | ⟨rfl, rfl⟩
    · have hne : path ≠ p := by
        rintro rfl
        rw [hfresh] at hbefore
        cases hbefore
      rw [if_neg hne, ← constructor?_none] at hk
      exact h.within hw p c k hbefore hconcrete hk
    · rw [if_pos rfl] at hk
      cases hk
      refine ⟨fun handle hhandle => ?_, unpatched_of_define hrun hc hconcrete⟩
      rw [hstore]
      exact has_prototype_of_build hconcrete hbuild hhandle

/-! ### Between two calls -/

/-- What a program leaves alone between two calls: it loses nothing, writes to no array of a table, and to
no prototype of a class. -/
structure Kept (r : Registry) (s t : Store) : Prop where
  wellFormed : t.WellFormed
  has : ∀ v, s.Has v → t.Has v
  arrays : ∀ path c, r.definition? path = some c → c.references.KeepsArrays s t
  prototypes : ∀ path k h, r.constructor? path none = some k → k.prototype? = some h →
    s.prototypes.Has h → t.prototypes.Has h ∧ t.prototype h = s.prototype h

/-- What only adds to a store leaves all of it alone. -/
theorem Kept.of_continues (hst : s.Continues t)
    (hheld : ∀ path c, r.definition? path = some c → c.references.HeldIn s) : r.Kept s t where
  wellFormed := hst.wellFormed
  has := fun _ hv => hst.within.has hv
  arrays := fun path c hc => (hheld path c hc).keepsArrays hst.within
  prototypes := fun _ _ h _ _ hhas => ⟨hst.within.prototypes.has hhas, hst.within.prototypes.get_eq h hhas⟩

theorem Intact.kept (h : r.Intact s) (hkept : r.Kept s t) : r.Intact t := by
  intro path c k hc hconcrete hk
  obtain ⟨hhas, hunpatched⟩ := h path c k hc hconcrete hk
  refine ⟨fun handle hhandle => (hkept.prototypes path k handle hk hhandle (hhas handle hhandle)).1, ?_⟩
  intro handle ps hhandle hps
  rw [(hkept.prototypes path k handle hk hhandle (hhas handle hhandle)).2]
  exact hunpatched handle ps hhandle hps

/-- Registries stay alike between two calls as long as what their classes share has the same contents. -/
theorem Alike.kept (h : r.Alike r' s s') (hr : (Assoc.keys r.classes).Nodup)
    (hkept : r.Kept s t) (hkept' : r'.Kept s' t')
    (hshared : ∀ path c c', r.definition? path = some c → r'.definition? path = some c' →
      ∀ name v v', (name, v) ∈ c.shared → (name, v') ∈ c'.shared → t.SameContents t' v v') :
    r.Alike r' t t' := by
  refine ⟨Assoc.Beside.mono h.classes fun p c c' hmem hmem' hc => ?_, h.constructors, h.roots⟩
  have hr' : (Assoc.keys r'.classes).Nodup := h.classes.keys_eq ▸ hr
  have hget := Assoc.get?_of_mem hr hmem
  have hget' := Assoc.get?_of_mem hr' hmem'
  exact hc.kept hkept.has hkept'.has (hkept.arrays p c hget) (hkept'.arrays p c' hget')
    (hshared p c c' hget hget')

/-! ### Replays -/

/-- The same calls are made on two registries, arrays of simple values being kept as literals in each as
its own configuration says.  Both stores have the bodies, with the same contents.  Between two calls a
program may do whatever leaves arrays and prototypes alone, if what is shared has the same contents in both
afterwards. -/
inductive Replay (config : Config) (inlined inlined' : Bool) :
    Registry → Store → Registry → Store → Prop
  | start {s s' : Store} (wellFormed : s.WellFormed) (wellFormed' : s'.WellFormed) :
      Replay config inlined inlined' (.empty { config with inlineSimpleArrays := inlined }) s
        (.empty { config with inlineSimpleArrays := inlined' }) s'
  | pause {r r' : Registry} {s s' t t' : Store} (before : Replay config inlined inlined' r s r' s')
      (kept : r.Kept s t) (kept' : r'.Kept s' t')
      (shared : ∀ path c c', r.definition? path = some c → r'.definition? path = some c' →
        ∀ name v v', (name, v) ∈ c.shared → (name, v') ∈ c'.shared → t.SameContents t' v v') :
      Replay config inlined inlined' r t r' t'
  | addRoot {r r' : Registry} {s s' : Store} (before : Replay config inlined inlined' r s r' s')
      (name : String) : Replay config inlined inlined' (r.addRoot name) s (r'.addRoot name) s'
  | define {r r' : Registry} {w w' : World}
      (before : Replay config inlined inlined' r w.store r' w'.store) (path : String) {body : ClassBody}
      (same : body.SameIn w.store w'.store) :
      Replay config inlined inlined'
        (r.perform w (.define path body)) ((r.define path body).run w).2.store
        (r'.perform w' (.define path body)) ((r'.define path body).run w').2.store

/-- What holds at every point of a replay. -/
structure InStep (config : Config) (inlined inlined' : Bool) (r : Registry) (s : Store) (r' : Registry)
    (s' : Store) : Prop where
  reachable : r.Reachable { config with inlineSimpleArrays := inlined }
  reachable' : r'.Reachable { config with inlineSimpleArrays := inlined' }
  wellFormed : s.WellFormed
  wellFormed' : s'.WellFormed
  alike : r.Alike r' s s'
  intact : r.Intact s
  intact' : r'.Intact s'

namespace InStep

variable {inlined inlined' : Bool}

theorem config_eq (h : InStep config inlined inlined' r s r' s') :
    r'.config = { r.config with inlineSimpleArrays := inlined' } := by
  rw [h.reachable.config_eq, h.reachable'.config_eq]

/-- A definition keeps both in step, whatever comes of it. -/
theorem define (h : InStep config inlined inlined' r w.store r' w'.store)
    (hbody : body.SameIn w.store w'.store) (path : String) :
    InStep config inlined inlined'
      (r.perform w (.define path body)) ((r.define path body).run w).2.store
      (r'.perform w' (.define path body)) ((r'.define path body).run w').2.store := by
  obtain ⟨halike, hthen, hthen'⟩ :=
    h.alike.perform_define h.config_eq h.wellFormed h.wellFormed' hbody path
  exact ⟨h.reachable.perform w _, h.reachable'.perform w' _, hthen.wellFormed, hthen'.wellFormed, halike,
    h.intact.define hthen.within, h.intact'.define hthen'.within⟩

end InStep

/-- Every point of a replay is reached in step. -/
theorem Replay.inStep {inlined inlined' : Bool} (h : Replay config inlined inlined' r s r' s') :
    InStep config inlined inlined' r s r' s' := by
  induction h with
  | start wellFormed wellFormed' =>
    refine ⟨.empty, .empty, wellFormed, wellFormed', .empty, ?_, ?_⟩
    · intro path c k hc
      cases hc
    · intro path c k hc
      cases hc
  | pause before kept kept' shared ih =>
    have hkeys := ih.reachable.compiled.nodup_keys
    exact ⟨ih.reachable, ih.reachable', kept.wellFormed, kept'.wellFormed,
      ih.alike.kept hkeys kept kept' shared, ih.intact.kept kept, ih.intact'.kept kept'⟩
  | addRoot before name ih =>
    -- no store is read or written
    have hreached := ih.reachable.perform default (.addRoot name)
    have hreached' := ih.reachable'.perform default (.addRoot name)
    exact ⟨hreached, hreached', ih.wellFormed, ih.wellFormed', ih.alike.addRoot name,
      ih.intact.addRoot name, ih.intact'.addRoot name⟩
  | define before path same ih => exact ih.define same path

/-! ### One store -/

/-- A program may go on in both stores, as long as it only adds to them. -/
theorem Replay.later {inlined inlined' : Bool} (h : Replay config inlined inlined' r s r' s')
    (hs : s.Continues t) (hs' : s'.Continues t') : Replay config inlined inlined' r t r' t' := by
  have hstep := h.inStep
  refine h.pause ?_ ?_ ?_
  · refine .of_continues hs fun path c hc => ?_
    obtain ⟨c', -, hsame⟩ := hstep.alike.exists_definition hc
    exact hsame.members.held
  · refine .of_continues hs' fun path c' hc' => ?_
    obtain ⟨c, -, hsame⟩ := hstep.alike.exists_definition' hc'
    exact hsame.members.held'
  · intro path c c' hc hc' name v v' hv hv'
    obtain ⟨d', hd', hsame⟩ := hstep.alike.exists_definition hc
    obtain rfl : c' = d' := Option.some.inj (hc'.symm.trans hd')
    have hnodup := hstep.reachable.compiled.nodup_shared hc
    exact (hsame.shared.of_mem hnodup hv hv').1.within hs.within hs'.within

/-- Both registries may live in one store, in which the one defines the class first and then the other. -/
theorem Replay.define_both {inlined inlined' : Bool}
    (h : Replay config inlined inlined' r w.store r' w.store) (path : String)
    (hbody : body.SameIn w.store w.store) :
    Replay config inlined inlined' (r.perform w (.define path body))
      ((r'.define path body).run ((r.define path body).run w).2).2.store
      (r'.perform ((r.define path body).run w).2 (.define path body))
      ((r'.define path body).run ((r.define path body).run w).2).2.store := by
  have hstep := h.inStep
  have hfirst := (hstep.alike.preserves_define hstep.wellFormed hstep.wellFormed hbody path).1 w
    hstep.wellFormed.continues
  have hmoved := h.later hstep.wellFormed.continues hfirst
  have hsame := hbody.within hstep.wellFormed hstep.wellFormed (.refl _) hfirst.within
  have hsecond := (hmoved.inStep.alike.preserves_define hstep.wellFormed hfirst.wellFormed hsame path).2 _
    hfirst.wellFormed.continues
  exact (hmoved.define path hsame).later hsecond hsecond.wellFormed.continues

/-! ### What is the same -/

theorem Reachable.materialize?_of_abstract (hr : r.Reachable config) (hc : r.definition? path = some c)
    (habstract : c.isAbstract = true) :
    ∃ k, r.constructor? path none = some k ∧ ∀ s, k.materialize? s = none := by
  obtain ⟨k, w, w', hk, hbuild⟩ := hr.constructor_built hc
  rw [build_of_abstract habstract] at hbuild
  cases hbuild
  exact ⟨_, (constructor?_none r path).trans hk, fun _ => rfl⟩

/-- Keeping arrays of simple values as literals makes no difference.  At every point of a replay, the next
definition comes to the same outcome in both registries: it succeeds, or fails for reasons of the same
kind.  Both have the same root namespaces and the same classes in order, with the same keys at every level
of their skeletons, and under them descriptors of the same sort, but that an array may be a literal in one
and copied in the other.  A class is abstract in both, with a constructor that makes no instances, or it
has new instances in both, which hold the same before anything is called on them: fields with the same
names and contents, and slots with the same values, or with copies of the same contents where the class
shares an object that was redeclared. -/
theorem Replay.same_instances {inlined inlined' : Bool}
    (h : Replay config inlined inlined' r s r' s') :
    (∀ (w w' : World) path body, w.store = s → w'.store = s' → body.SameIn s s' →
      SameOutcome (fun _ _ => True) ((r.define path body).run w).1 ((r'.define path body).run w').1) ∧
    Assoc.keys r.roots = Assoc.keys r'.roots ∧ r.classNames = r'.classNames ∧
    ∀ path c, r.definition? path = some c →
      ∃ c' k k', r'.definition? path = some c' ∧ r.constructor? path none = some k ∧
        r'.constructor? path none = some k' ∧
        c.skeleton.forest MemberDescriptor.storedKind = c'.skeleton.forest MemberDescriptor.storedKind ∧
        c.isAbstract = c'.isAbstract ∧
        (c.isAbstract = true → k.materialize? s = none ∧ k'.materialize? s' = none) ∧
        (c.isAbstract = false → ∃ i t i' t', k.materialize? s = some (i, t) ∧
          k'.materialize? s' = some (i', t') ∧ s.Within t ∧ s'.Within t' ∧
          Store.SameInstance (fun name => r.SharesCopy name path) t t' i i') := by
  have hstep := h.inStep
  refine ⟨?_, hstep.alike.roots.keys_eq, hstep.alike.classes.keys_eq, ?_⟩
  · rintro w w' path body rfl rfl hbody
    have hdefined := define_alike hstep.config_eq hstep.wellFormed hstep.wellFormed' hbody hstep.alike path
    exact SameOutcome.mono hdefined fun _ _ _ => trivial
  · intro path c hc
    obtain ⟨c', hc', halike⟩ := hstep.alike.exists_definition hc
    have hkinds := halike.storedKinds_eq
    have habstract_eq := halike.isAbstract_eq.symm
    rcases habstract : c.isAbstract with _ | _
    · have habstract' : c'.isAbstract = false := habstract_eq ▸ habstract
      obtain ⟨k, -, -, hk, -⟩ := hstep.reachable.constructor_built hc
      obtain ⟨k', -, -, hk', -⟩ := hstep.reachable'.constructor_built hc'
      rw [← constructor?_none] at hk hk'
      -- each registry makes its instance on its own; what they hold is compared through the classes
      obtain ⟨i, t, hmade, hnew⟩ :=
        hstep.reachable.exists_newInstance hc habstract hk halike.members.held.arraysIn
      obtain ⟨i', t', hmade', hnew'⟩ :=
        hstep.reachable'.exists_newInstance hc' habstract' hk' halike.members.held'.arraysIn
      have hsame := halike.sameInstance (hstep.reachable.compiled.nodup_shared hc)
        (hstep.reachable.compiled.shared_visible hc) hnew hnew'
        (hstep.intact path c k hc habstract hk).2 (hstep.intact' path c' k' hc' habstract' hk').2
      exact ⟨c', k, k', hc', hk, hk', hkinds, habstract'.symm,
        fun htrue => absurd htrue Bool.false_ne_true,
        fun _ => ⟨i, t, i', t', hmade, hmade', hnew.within, hnew'.within, hsame⟩⟩
    · have habstract' : c'.isAbstract = true := habstract_eq ▸ habstract
      obtain ⟨k, hk, hnone⟩ := hstep.reachable.materialize?_of_abstract hc habstract
      obtain ⟨k', hk', hnone'⟩ := hstep.reachable'.materialize?_of_abstract hc' habstract'
      exact ⟨c', k, k', hc', hk, hk', hkinds, habstract'.symm, fun _ => ⟨hnone s, hnone' s'⟩,
        fun hfalse => absurd hfalse.symm Bool.false_ne_true⟩

end Registry

/-! ### A sample

The class has an array of texts, and another member in which the array stands once more. -/

namespace Sample

/-- An array of texts, an object that holds it, and a function. -/
def texts : World where
  store := { Store.empty with
    functions := ⟨#[⟨some "run", []⟩]⟩
    arrays := ⟨#[[.text "a", .text "b"]]⟩
    objects := ⟨#[[("list", .array ⟨0⟩)]]⟩ }
  journal := []

/-- The body of the class. -/
def tagged : ClassBody :=
  ⟨[("tags", .array ⟨0⟩), ("run", .function ⟨0⟩), ("options", .object ⟨0⟩)]⟩

/-- The registry in which the class is to be defined. -/
def namespaced (inlined : Bool) : Registry :=
  (Registry.empty { Config.standard with inlineSimpleArrays := inlined }).addRoot "Ns"

/-- The first registry with the class, and the world after it has been defined there. -/
def literalTags : Registry := (namespaced true).perform texts (.define "Ns.Tagged" tagged)

def once : World := (((namespaced true).define "Ns.Tagged" tagged).run texts).2

/-- The second registry with the class, and the world after it has been defined there, too. -/
def copiedTags : Registry := (namespaced false).perform once (.define "Ns.Tagged" tagged)

def twice : World := (((namespaced false).define "Ns.Tagged" tagged).run once).2

theorem texts_wellFormed : texts.store.WellFormed := by
  refine ⟨?_, ?_, ?_⟩
  · rintro ⟨index⟩ p hp
    match index with
    | 0 =>
      obtain rfl := List.mem_singleton.mp hp
      exact Nat.zero_lt_one
    | index + 1 => cases hp
  · rintro ⟨index⟩ v hv
    match index with
    | 0 =>
      rcases List.mem_cons.mp hv with rfl | hrest
      · trivial
      · obtain rfl := List.mem_singleton.mp hrest
        trivial
    | index + 1 => cases hv
  · rintro ⟨index⟩
    match index with
    | 0 => decide
    | index + 1 => exact List.nodup_nil

theorem tagged_sameIn : tagged.SameIn texts.store texts.store := by
  have hhas : ∀ p ∈ tagged.entries, texts.store.Has p.2 := by
    intro p hp
    rcases List.mem_cons.mp hp with rfl | hp
    · exact Nat.zero_lt_one
    rcases List.mem_cons.mp hp with rfl | hp
    · exact Nat.zero_lt_one
    · obtain rfl := List.mem_singleton.mp hp
      exact Nat.zero_lt_one
  refine ClassBody.sameIn_self texts_wellFormed hhas fun p hp => ?_
  rcases List.mem_cons.mp hp with rfl | hp
  · intro path hpath
    cases hpath
  rcases List.mem_cons.mp hp with rfl | hp
  · intro path hpath
    cases hpath
  · obtain rfl := List.mem_singleton.mp hp
    intro path hpath
    cases hpath with
    | last => exact List.nodup_singleton _
    | down hp below =>
      obtain rfl := List.mem_singleton.mp hp
      cases below

/-- The class is defined in both registries, one after the other in one store. -/
theorem tags_replay :
    Registry.Replay .standard true false literalTags twice.store copiedTags twice.store :=
  (Registry.Replay.addRoot (.start texts_wellFormed texts_wellFormed) "Ns").define_both "Ns.Tagged"
    tagged_sameIn

end Sample

namespace Registry

/-- The array is a literal in one registry and copied in the other, and the instances hold the same. -/
theorem Replay.same_instances_tagged :
    ∃ c c' k k' i t i' t', Sample.literalTags.definition? "Ns.Tagged" = some c ∧
      Sample.copiedTags.definition? "Ns.Tagged" = some c' ∧
      Assoc.get? c.skeleton (.plain "tags") = some (.inlineArray [.text "a", .text "b"]) ∧
      Assoc.get? c'.skeleton (.plain "tags") = some (.arrayCopy 0) ∧
      Sample.literalTags.constructor? "Ns.Tagged" none = some k ∧
      Sample.copiedTags.constructor? "Ns.Tagged" none = some k' ∧
      k.materialize? Sample.twice.store = some (i, t) ∧
      k'.materialize? Sample.twice.store = some (i', t') ∧ t.fieldNames i = ["tags", "options"] ∧
      Store.SameInstance (fun name => Sample.literalTags.SharesCopy name "Ns.Tagged") t t' i i' := by
  obtain ⟨-, -, -, hclasses⟩ := Sample.tags_replay.same_instances
  obtain ⟨c, hc⟩ : ∃ c, Sample.literalTags.definition? "Ns.Tagged" = some c := ⟨_, rfl⟩
  obtain ⟨c', k, k', hc', hk, hk', -, -, -, hmakes⟩ := hclasses "Ns.Tagged" c hc
  have hliteral : Assoc.get? c.skeleton (.plain "tags") = some (.inlineArray [.text "a", .text "b"]) ∧
      c.isAbstract = false := by
    cases hc
    exact ⟨rfl, rfl⟩
  have hcopied : Assoc.get? c'.skeleton (.plain "tags") = some (.arrayCopy 0) := by
    cases hc'
    rfl
  obtain ⟨i, t, i', t', hmade, hmade', -, -, hsame⟩ := hmakes hliteral.2
  have hnames : t.fieldNames i = ["tags", "options"] := by
    cases hk
    cases hmade
    rfl
  exact ⟨c, c', k, k', i, t, i', t', hc, hc', hliteral.1, hcopied, hk, hk', hmade, hmade', hnames, hsame⟩

end Registry

end ClassComposition
