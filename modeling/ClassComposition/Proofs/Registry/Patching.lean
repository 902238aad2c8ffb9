import ClassComposition.Proofs.Class.Patch
import ClassComposition.Proofs.Registry.Lineage
import ClassComposition.Proofs.Registry.Prototypes

/-!
# Programs that patch

A program defines classes, makes instances, runs methods and patches.  At every point of it the prototype
of a class has the data of that class, whatever has been written to its slots.  So a patch replaces the
slot that a scan of the inheritance chain finds, and it changes the slots of this one prototype only: what
is defined later is what it would have been without the patch.

## Main definitions

* `Store.KeepsClasses` — prototypes keep the data of their classes.
* `Registry.Course` — the points that a program comes to.
* `Registry.Housed` — the prototype of every class is there, with the data of the class.
* `Registry.Patched` — what a patch changes, and what it leaves alone.

## Main results

* `Store.keepsClasses_construct`, `Store.keepsClasses_patch` — instances and patches.
* `Registry.Course.housed` — the prototypes of the classes.
* `Registry.Course.patch_result` — what a patch does.
-/

namespace ClassComposition

open ClassComposition.Action

namespace Store

variable {s t u : Store}

/-! ### The data of classes -/

/-- Every prototype that is there stays there, with the data of its class. -/
def KeepsClasses (s t : Store) : Prop :=
  ∀ h, s.prototypes.Has h → t.prototypes.Has h ∧
    ∀ c, (s.prototype h).BuiltFor c → (t.prototype h).BuiltFor c

theorem KeepsClasses.trans (hst : s.KeepsClasses t) (htu : t.KeepsClasses u) : s.KeepsClasses u := by
  intro h hh
  obtain ⟨ht, hkept⟩ := hst h hh
  obtain ⟨hu, hkept'⟩ := htu h ht
  exact ⟨hu, fun c hc => hkept' c (hkept c hc)⟩

theorem keepsClasses_of_within (h : s.prototypes.Within t.prototypes) : s.KeepsClasses t := by
  intro handle hhas
  have hsame : t.prototype handle = s.prototype handle := h.get_eq handle hhas
  refine ⟨h.has hhas, fun c hc => ?_⟩
  rw [hsame]
  exact hc

theorem keepsClasses_of_eq (h : t.prototypes = s.prototypes) : s.KeepsClasses t :=
  keepsClasses_of_within (h ▸ .refl _)

theorem methodFrame_prototypes : MethodFrame fun s t => t.prototypes = s.prototypes where
  refl := fun _ => rfl
  trans := fun hst htu => htu.trans hst
  newArray := fun s items => (methodFrame_samePrototypes.newArray s items).prototypes
  setField := fun s i name v => (methodFrame_samePrototypes.setField s i name v).prototypes
  push := fun s target v => (methodFrame_samePrototypes.push s target v).prototypes
  setProperty := fun s target key v => (methodFrame_samePrototypes.setProperty s target key v).prototypes

/-- Making an instance keeps the data of classes. -/
theorem keepsClasses_construct (depth : Nat) (k : Constructor) (args : List Value) (w : World) :
    w.store.KeepsClasses ((k.construct depth args).run w).2.store := by
  refine keepsClasses_of_eq ?_
  exact Constructor.keeps_construct methodFrame_prototypes
    (fun _ fields s => Constructor.prototypes_runAll fields s) depth k args w

/-- So does a patch, which writes slots only. -/
theorem keepsClasses_patch (i : Handle .inst) (owner method replacement : String) (w : World) :
    w.store.KeepsClasses ((patch i owner method replacement).run w).2.store := by
  by_cases howner : owner ∈ (w.store.prototypeOf i).ancestorNames
  · rw [run_patch howner]
    intro h hh
    refine ⟨?_, fun c hc => ?_⟩
    · exact Nat.lt_of_lt_of_eq hh (Pool.size_set _ _ _).symm
    · by_cases heq : (w.store.instanceAt i).prototype = h
      · -- the patched prototype has its slots moved and its class left alone
        subst heq
        have hwritten := Pool.get_set_self w.store.prototypes (w.store.instanceAt i).prototype
        rw [prototype]
        dsimp only
        rw [hwritten _ hh]
        exact hc.moveSlot _ _
      · rw [prototype]
        dsimp only
        rw [Pool.get_set_of_ne _ _ heq]
        exact hc
  · rw [run_patch_of_notMem howner]
    exact keepsClasses_of_eq rfl

end Store

/-! ### Programs -/

namespace Registry

/-- The points that a program comes to, with the registry and the world there.  Whatever is done besides
registering, defining and patching, such as making instances and running methods, leaves the data of
classes in their prototypes. -/
inductive Course (config : Config) : Registry → World → Prop
  | start (w : World) : Course config (.empty config) w
  | addRoot {r : Registry} {w : World} (before : Course config r w) (name : String) :
      Course config (r.addRoot name) w
  | addConstructor {r after : Registry} {w : World} {path : String} {k : Constructor}
      (before : Course config r w) (added : r.addConstructor path k = .ok after) : Course config after w
  | define {r : Registry} {w : World} (before : Course config r w) (path : String) (body : ClassBody) :
      Course config (r.perform w (.define path body)) ((r.define path body).run w).2
  | patch {r : Registry} {w : World} (before : Course config r w) (i : Handle .inst)
      (owner method replacement : String) :
      Course config r ((ClassComposition.patch i owner method replacement).run w).2
  | act {r : Registry} {w w' : World} (before : Course config r w)
      (kept : w.store.KeepsClasses w'.store) : Course config r w'

/-- The prototype of every class that has instances is there, with the data of the class. -/
def Housed (r : Registry) (s : Store) : Prop :=
  ∀ path c k h, r.definition? path = some c → Assoc.get? r.constructors path = some k →
    k.prototype? = some h → s.prototypes.Has h ∧ (s.prototype h).BuiltFor c

variable {config : Config} {r after : Registry} {s t : Store} {w w' : World} {path : String}
  {body : ClassBody} {c : ClassDefinition} {k : Constructor} {h : Handle .prototype} {i : Handle .inst}

theorem Housed.mono (hr : r.Housed s) (hkept : s.KeepsClasses t) : r.Housed t := by
  intro path c k h hc hk hh
  obtain ⟨hhas, hbuilt⟩ := hr path c k h hc hk hh
  exact ⟨(hkept h hhas).1, (hkept h hhas).2 c hbuilt⟩

/-- A constructor that has just been built has its prototype, with the data of the class. -/
theorem housed_of_build (hbuild : (Constructor.build config c).run w = (.ok k, w'))
    (hh : k.prototype? = some h) : w'.store.prototypes.Has h ∧ (w'.store.prototype h).BuiltFor c := by
  rcases hconcrete : c.isAbstract with _ | _
  · obtain ⟨ps, init?, hook?, -, -, -, rfl, hstore⟩ := Constructor.build_eq_ok hconcrete hbuild
    cases hh
    rw [hstore]
    refine ⟨?_, ?_⟩
    · exact Pool.has_alloc_self w.store.prototypes (Constructor.prototypeOf c ps.slots)
    · have hnew := Pool.get_alloc_self w.store.prototypes (Constructor.prototypeOf c ps.slots)
      have hbuilt := builtFor_prototypeOf c ps.slots
      rw [← hnew] at hbuilt
      exact hbuilt
  · rw [Constructor.build_of_abstract hconcrete] at hbuild
    cases hbuild
    cases hh

/-- A definition that succeeds adds the prototype of one class to those that are there. -/
theorem Housed.define (hr : r.Housed w.store)
    (hrun : (r.define path body).run w = (.ok (k, after), w')) : after.Housed w'.store := by
  have hkept := Store.keepsClasses_of_within (prototypes_define r path body w)
  rw [hrun] at hkept
  obtain ⟨d, w₁, w₂, -, hbuild, hstore, hfresh, -, hclasses, hconstructors⟩ := composition_of_define hrun
  intro p c k' h hc hk hh
  rw [definition?, hclasses] at hc
  rw [hconstructors] at hk
  -- a class from before has its constructor still, and the new one the constructor just built
  rcases Compiled.get?_snoc hc with hbefore | ⟨rfl, rfl⟩
  · have hne : path ≠ p := by
      rintro rfl
      rw [hfresh] at hbefore
      cases hbefore
    rw [Assoc.get?_insert_of_ne _ _ hne] at hk
    exact hr.mono hkept p c k' h hbefore hk hh
  · rw [Assoc.get?_insert_self] at hk
    cases hk
    rw [hstore]
    exact housed_of_build hbuild hh

namespace Course

theorem reachable (hw : Course config r w) : r.Reachable config := by
  induction hw with
  | start w => exact .empty
  | @addRoot r w before name ih => exact ih.perform w (.addRoot name)
  | @addConstructor r after w path k before added ih =>
    have hperform := ih.perform w (.addConstructor path k)
    rw [perform, added] at hperform
    exact hperform
  | @define r w before path body ih => exact ih.perform w (.define path body)
  | patch _ i owner method replacement ih => exact ih
  | act _ kept ih => exact ih

/-- At every point the prototypes have the data of their classes. -/
theorem housed (hw : Course config r w) : r.Housed w.store := by
  induction hw with
  | start w =>
    intro path c k h hc
    cases hc
  | addRoot before name ih =>
    intro path c k h hc hk
    rw [definition?, classes_addRoot] at hc
    rw [constructors_addRoot] at hk
    exact ih path c k h hc hk
  | @addConstructor r after w path k before added ih =>
    -- a constructor is added at paths only that have no class
    obtain ⟨hfresh, rfl⟩ := addConstructor_eq_ok added
    intro p c k' h hc hk
    have hne : path ≠ p := by
      rintro rfl
      rw [definition?, hfresh] at hc
      cases hc
    rw [Assoc.get?_insert_of_ne _ _ hne] at hk
    exact ih p c k' h hc hk
  | @define r w before path body ih =>
    have hkept := Store.keepsClasses_of_within (prototypes_define r path body w)
    rw [perform]
    rcases hrun : (r.define path body).run w with ⟨e | ⟨k, after⟩, w'⟩
    · rw [hrun] at hkept
      exact ih.mono hkept
    · exact ih.define hrun
  | @patch r w before i owner method replacement ih =>
    exact ih.mono (Store.keepsClasses_patch i owner method replacement w)
  | act _ kept ih => exact ih.mono kept

end Course

/-- What a patch of a class changes: the slot that is replaced holds what the other one held, which now
holds null, and that is all.  The other slots, the data of the class, all other prototypes, those of other
classes among them, and everything else in the store are as they were, instances with their fields
included; and definitions that follow have the answers that they would have had. -/
structure Patched (r : Registry) (path : String) (h : Handle .prototype) (target source : MemberKey)
    (w w' : World) : Prop where
  slots : ∀ key, (w'.store.prototype h).slot? key =
    if key = source then some .null
    else if key = target then some (((w.store.prototype h).slot? source).getD .null)
    else (w.store.prototype h).slot? key
  data : w'.store.prototype h = { w.store.prototype h with slots := (w'.store.prototype h).slots }
  other_prototypes : ∀ other, other ≠ h → w'.store.prototype other = w.store.prototype other
  other_classes : ∀ otherPath c k other, otherPath ≠ path → r.definition? otherPath = some c →
    Assoc.get? r.constructors otherPath = some k → k.prototype? = some other →
    w'.store.prototype other = w.store.prototype other
  rest : w.store.SameButPrototypes w'.store
  instances : ∀ j, w'.store.instanceAt j = w.store.instanceAt j
  later : ∀ bodies, (r.defineAll w' bodies).1 = (r.defineAll w bodies).1 ∧
    (r.defineAll w' bodies).2.1 = (r.defineAll w bodies).2.1

/-- Writing one prototype that a class has changes as much as a patch does. -/
theorem Housed.patched (hr : r.Housed w.store) (hclasses : Compiled config r.classes)
    (hc : r.definition? path = some c) (hk : Assoc.get? r.constructors path = some k)
    (hh : k.prototype? = some h) (target source : MemberKey) (journal : List Event) :
    Patched r path h target source w
      ⟨{ w.store with
          prototypes := w.store.prototypes.set h ((w.store.prototype h).moveSlot target source) },
        journal⟩ := by
  obtain ⟨hhas, hbuilt⟩ := hr path c k h hc hk hh
  have hwritten := Pool.get_set_self w.store.prototypes h
    ((w.store.prototype h).moveSlot target source) hhas
  have hothers : ∀ other, other ≠ h →
      (w.store.prototypes.set h ((w.store.prototype h).moveSlot target source)).get other =
        w.store.prototypes.get other := fun other hne => Pool.get_set_of_ne _ _ hne.symm
  have hrest : w.store.SameButPrototypes { w.store with
      prototypes := w.store.prototypes.set h ((w.store.prototype h).moveSlot target source) } :=
    ⟨_, rfl, Pool.size_set _ _ _⟩
  refine ⟨fun key => ?_, ?_, hothers, ?_, hrest, fun _ => rfl, fun bodies => defineAll_eq bodies hrest r⟩
  · rw [Store.prototype]
    dsimp only
    rw [hwritten]
    exact Prototype.slot?_moveSlot _ target source key
  · rw [Store.prototype]
    dsimp only
    rw [hwritten]
    rfl
  · -- prototypes of two classes name different paths
    intro otherPath c' k' other hne hc' hk' hother
    obtain ⟨-, hbuilt'⟩ := hr otherPath c' k' other hc' hk' hother
    refine hothers other ?_
    rintro rfl
    have hpath := hbuilt'.classPath_eq.symm.trans hbuilt.classPath_eq
    rw [hclasses.path_eq hc', hclasses.path_eq hc] at hpath
    exact hne hpath

/-- What a patch of an instance of a class does, at any point of a program: it fails and changes nothing if
the class that declares it is no ancestor; otherwise it replaces the slot that a scan of the inheritance
chain finds. -/
theorem Course.patch_result (hw : Course config r w) (hc : r.definition? path = some c)
    (hk : Assoc.get? r.constructors path = some k) (hh : k.prototype? = some h)
    (hi : (w.store.instanceAt i).prototype = h) (owner method replacement : String) :
    (owner ∉ c.ancestorNames →
      (ClassComposition.patch i owner method replacement).run w =
        (.error (.notAnAncestor owner c.path), w) ∧
      (ClassError.notAnAncestor owner c.path).kind = .missingDependency) ∧
    (owner ∈ c.ancestorNames → ∃ w',
      (ClassComposition.patch i owner method replacement).run w =
        (.ok (c.patchSlot (w.store.prototype h) owner method), w') ∧
      Patched r path h (c.patchSlot (w.store.prototype h) owner method) (MemberKey.parse replacement)
        w w') := by
  subst hi
  obtain ⟨-, hbuilt⟩ := hw.housed path c k _ hc hk hh
  have hclasses := hw.reachable.compiled
  refine ⟨fun howner => ⟨?_, rfl⟩, fun howner => ?_⟩
  · rw [← hbuilt.ancestorNames_eq] at howner
    rw [← hbuilt.classPath_eq]
    exact run_patch_of_notMem howner
  · rw [← hbuilt.ancestorNames_eq] at howner
    rw [← hbuilt.patchTarget_eq (hclasses.overrideChains_eq hc) (hclasses.nodup_ancestorNames hc)
      (hclasses.distinct hc).1]
    exact ⟨_, run_patch howner, hw.housed.patched hclasses hc hk hh _ _ _⟩

end Registry

/-! ### A class that is patched twice

The class overrides a method of its parent, whose implementation is kept.  A first patch takes the kept
implementation away for another method, so that its alias is no longer live.  A second one, declared by the
parent, then replaces the class's own implementation. -/

namespace Sample

/-- The body of a class with a method. -/
def ancestral : ClassBody := ⟨[("run", .function ⟨0⟩)]⟩

/-- The body of a class that overrides it and has another method. -/
def inheriting : ClassBody :=
  ⟨[("Extends", .text "Ns.Base"), ("run", .function ⟨1⟩), ("next", .function ⟨2⟩)]⟩

/-- The registry and the world with the first class. -/
def atBase : Registry × World :=
  let r := (Registry.empty .standard).addRoot "Ns"
  (r.perform world (.define "Ns.Base" ancestral), ((r.define "Ns.Base" ancestral).run world).2)

/-- The registry and the world with both classes. -/
def atHeir : Registry × World :=
  (atBase.1.perform atBase.2 (.define "Ns.Heir" inheriting),
    ((atBase.1.define "Ns.Heir" inheriting).run atBase.2).2)

/-- The second class. -/
def heirClass : ClassDefinition := (atHeir.1.definition? "Ns.Heir").getD default

/-- Its constructor. -/
def heirConstructor : Constructor := (Assoc.get? atHeir.1.constructors "Ns.Heir").getD default

/-- The world with an instance of the second class. -/
def withInstance : World := ((heirConstructor.construct 8 []).run atHeir.2).2

/-- The world after the first patch. -/
def patchedOnce : World := ((patch ⟨0⟩ "Heir" "other" "Base$run").run withInstance).2

theorem course_atBase : Registry.Course .standard atBase.1 atBase.2 :=
  ((Registry.Course.start world).addRoot "Ns").define "Ns.Base" ancestral

theorem course_atHeir : Registry.Course .standard atHeir.1 atHeir.2 :=
  course_atBase.define "Ns.Heir" inheriting

theorem course_withInstance : Registry.Course .standard atHeir.1 withInstance :=
  course_atHeir.act (Store.keepsClasses_construct 8 heirConstructor [] atHeir.2)

theorem course_patchedOnce : Registry.Course .standard atHeir.1 patchedOnce :=
  course_withInstance.patch ⟨0⟩ "Heir" "other" "Base$run"

end Sample

namespace Registry

/-- The alias of the parent is no longer live, so the parent replaces the class's own implementation; a
class that is no ancestor may not patch. -/
theorem Course.patch_result_twice :
    (ClassComposition.patch ⟨0⟩ "Other" "run" "next").run Sample.patchedOnce =
        (.error (.notAnAncestor "Other" "Ns.Heir"), Sample.patchedOnce) ∧
      ∃ w', (ClassComposition.patch ⟨0⟩ "Base" "run" "next").run Sample.patchedOnce =
          (.ok (.plain "run"), w') ∧
        Patched Sample.atHeir.1 "Ns.Heir" ⟨1⟩ (.plain "run") (.plain "next") Sample.patchedOnce w' ∧
        (w'.store.prototype ⟨1⟩).slot? (.plain "run") = some (.function ⟨2⟩) := by
  have hc : Sample.atHeir.1.definition? "Ns.Heir" = some Sample.heirClass := rfl
  have hk : Assoc.get? Sample.atHeir.1.constructors "Ns.Heir" = some Sample.heirConstructor := rfl
  have hh : Sample.heirConstructor.prototype? = some ⟨1⟩ := rfl
  have hi : (Sample.patchedOnce.store.instanceAt ⟨0⟩).prototype = ⟨1⟩ := rfl
  have hpatch := fun owner => Sample.course_patchedOnce.patch_result hc hk hh hi owner "run" "next"
  have hnames : Sample.heirClass.ancestorNames = ["Base", "Heir"] := rfl
  refine ⟨((hpatch "Other").1 (by rw [hnames]; decide)).1, ?_⟩
  obtain ⟨w', hrun, hpatched⟩ := (hpatch "Base").2 (by rw [hnames]; decide)
  have hslot : Sample.heirClass.patchSlot (Sample.patchedOnce.store.prototype ⟨1⟩) "Base" "run" =
      .plain "run" := rfl
  have hsource : MemberKey.parse "next" = .plain "next" := rfl
  have hheld : (Sample.patchedOnce.store.prototype ⟨1⟩).slot? (.plain "next") = some (.function ⟨2⟩) :=
    rfl
  rw [hslot, hsource] at hpatched
  rw [hslot] at hrun
  refine ⟨w', hrun, hpatched, ?_⟩
  -- the slot moved by the first patch is the one the second one reads
  rw [hpatched.slots, if_neg (by decide), if_pos rfl, hheld]
  rfl

end Registry

end ClassComposition
