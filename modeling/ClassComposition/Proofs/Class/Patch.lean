import ClassComposition.Class.Constructor
import ClassComposition.Class.Patch
import ClassComposition.Proofs.Effect
import Mathlib.Data.List.Nodup

/-!
# Patching a prototype

A patch finds the implementation that it replaces in a table that was made with the class: for each
method the classes whose implementation is kept, sorted along the inheritance chain.  The table also has
the classes that came in with mixins.  Here it is shown that what is found there is what a scan of the
chain finds, from the class that declares the patch down, among the aliases that the class has; and what
a patch does to the slots of the prototype.

## Main definitions

* `Skeleton.owners` — the classes whose implementation of a method is kept.
* `Prototype.BuiltFor` — a prototype has the data of a class.
* `ClassDefinition.patchSlot` — the slot that a scan of the inheritance chain finds.

## Main results

* `overrideChain_eq` — the table, method by method.
* `filter_overrideChain` — restricted to a part of the chain it follows that part.
* `Prototype.BuiltFor.patchTarget_eq` — the slot that a patch replaces is the one that the scan finds.
* `Prototype.slot?_moveSlot` — what the slots hold afterwards.
* `run_patch`, `run_patch_of_notMem` — a patch by any class.
-/

namespace ClassComposition

/-! ### The table of kept implementations -/

/-- The class that an alias of a method names. -/
def MemberKey.ownerOf? (method : String) : MemberKey → Option String
  | .aliased owner member => if member = method then some owner else none
  | .plain _ => none

theorem MemberKey.ownerOf?_eq_some {method owner : String} {key : MemberKey} :
    key.ownerOf? method = some owner ↔ key = .aliased owner method := by
  cases key with
  | plain name => simp [MemberKey.ownerOf?]
  | aliased c member =>
    simp only [MemberKey.ownerOf?, Option.ite_none_right_eq_some, Option.some.injEq,
      MemberKey.aliased.injEq]
    exact and_comm

/-- The classes whose implementation of a method is kept, in the order of the skeleton. -/
def Skeleton.owners (ms : Skeleton) (method : String) : List String :=
  (Assoc.keys ms).filterMap (MemberKey.ownerOf? method)

variable {ms : Skeleton} {names below : List String} {method owner : String}

theorem Skeleton.mem_owners : owner ∈ ms.owners method ↔ .aliased owner method ∈ Assoc.keys ms := by
  rw [Skeleton.owners, List.mem_filterMap]
  constructor
  · rintro ⟨key, hkey, howner⟩
    rw [← MemberKey.ownerOf?_eq_some.mp howner]
    exact hkey
  · intro h
    exact ⟨_, h, MemberKey.ownerOf?_eq_some.mpr rfl⟩

theorem Skeleton.nodup_owners (h : (Assoc.keys ms).Nodup) (method : String) :
    (ms.owners method).Nodup := by
  refine h.filterMap fun key key' owner hkey hkey' => ?_
  rw [MemberKey.ownerOf?_eq_some.mp hkey, MemberKey.ownerOf?_eq_some.mp hkey']

/-- Going through the members collects the classes behind those collected before. -/
theorem get?_foldl_update (ms : Skeleton) (method : String) (chains : Assoc String (List String)) :
    (Assoc.get? (ms.foldl (fun chains m =>
      match m.1 with
      | .aliased owner member => Assoc.update chains member [] (· ++ [owner])
      | .plain _ => chains) chains) method).getD [] =
      (Assoc.get? chains method).getD [] ++ ms.owners method := by
  -- on the members, for whatever has been collected before
  induction ms generalizing chains with
  | nil => simp [Skeleton.owners, Assoc.keys]
  | cons p rest ih =>
    obtain ⟨key, d⟩ := p
    rw [List.foldl_cons, ih]
    cases key with
    | plain name => rfl
    | aliased owner member =>
      dsimp only
      rw [Assoc.update, Assoc.get?_insert]
      by_cases hmember : member = method
      · subst hmember
        rw [if_pos rfl, Option.getD_some, List.append_assoc]
        simp [Skeleton.owners, Assoc.keys, MemberKey.ownerOf?]
      · rw [if_neg hmember]
        simp [Skeleton.owners, Assoc.keys, MemberKey.ownerOf?, hmember]

/-- The chain of a method: the classes whose implementation is kept, sorted along the inheritance
chain. -/
theorem overrideChain_eq (names : List String) (ms : Skeleton) (method : String) :
    (Assoc.get? (overrideChains names ms) method).getD [] =
      (ms.owners method).mergeSort fun a b => decide (names.idxOf a ≤ names.idxOf b) := by
  have hcollected := get?_foldl_update ms method []
  rw [Assoc.get?_nil, Option.getD_none, List.nil_append] at hcollected
  have hsorted := fun chains : Assoc String (List String) => Assoc.get?_map
    (fun owners => owners.mergeSort fun a b => decide (names.idxOf a ≤ names.idxOf b)) chains method
  rw [← hcollected]
  refine (congrArg (Option.getD · []) (hsorted _)).trans ?_
  generalize Assoc.get? (ms.foldl _ _) method = found
  cases found with
  | none => simp
  | some owners => rfl

theorem pairwise_idxOf (h : names.Nodup) :
    names.Pairwise fun a b => names.idxOf a ≤ names.idxOf b := by
  rw [List.pairwise_iff_getElem]
  intro i j hi hj hij
  rw [h.idxOf_getElem i hi, h.idxOf_getElem j hj]
  omega

theorem pairwise_mergeSort_idxOf (names owners : List String) :
    (owners.mergeSort fun a b => decide (names.idxOf a ≤ names.idxOf b)).Pairwise
      fun a b => names.idxOf a ≤ names.idxOf b := by
  refine (List.pairwise_mergeSort (fun a b c hab hbc => ?_) (fun a b => ?_) _).imp of_decide_eq_true
  · simp only [decide_eq_true_eq] at *
    omega
  · simp only [Bool.or_eq_true, decide_eq_true_eq]
    omega

/-- Restricted to a part of the inheritance chain, the chain of a method follows that part.  Both have the
same classes, each once, and both are sorted by position. -/
theorem filter_overrideChain (hnames : names.Nodup) (hbelow : below.Sublist names)
    (hms : (Assoc.keys ms).Nodup) (method : String) :
    (((Assoc.get? (overrideChains names ms) method).getD []).filter below.contains) =
      below.filter fun owner => Assoc.contains ms (.aliased owner method) := by
  rw [overrideChain_eq]
  have hperm := List.mergeSort_perm (ms.owners method) fun a b =>
    decide (names.idxOf a ≤ names.idxOf b)
  have hsorted := pairwise_mergeSort_idxOf names (ms.owners method)
  have hnodup := hperm.nodup_iff.mpr (Skeleton.nodup_owners hms method)
  refine List.Perm.eq_of_pairwise ?_ (hsorted.filter _)
    (((pairwise_idxOf hnames).sublist hbelow).filter _) ?_
  · intro a b ha hb hab hba
    -- positions tell the classes of the chain apart, and only those pass the filter
    have hmem : a ∈ names := hbelow.subset (by simpa using (List.mem_filter.mp ha).2)
    exact (List.idxOf_inj hmem).mp (Nat.le_antisymm hab hba)
  · refine (List.perm_ext_iff_of_nodup (hnodup.filter _) ((hnames.sublist hbelow).filter _)).mpr ?_
    intro a
    rw [List.mem_filter, List.mem_filter, hperm.mem_iff, Skeleton.mem_owners, ← Assoc.contains_iff,
      List.contains_iff_mem]
    exact and_comm

/-! ### The slot that is replaced -/

/-- A prototype has the data of a class, whatever its slots hold. -/
structure Prototype.BuiltFor (p : Prototype) (c : ClassDefinition) : Prop where
  classPath_eq : p.classPath = c.path
  className_eq : p.className = c.name
  ancestorNames_eq : p.ancestorNames = c.ancestorNames
  overrideChains_eq : p.overrideChains = c.overrideChains

theorem builtFor_prototypeOf (c : ClassDefinition) (slots : List (MemberKey × Value)) :
    (Constructor.prototypeOf c slots).BuiltFor c := ⟨rfl, rfl, rfl, rfl⟩

/-- The slot that a patch has to replace: that of the first alias, on the way from the class that declares
the patch down, which is a key of the class and whose slot is live, or else that of the method itself. -/
def ClassDefinition.patchSlot (c : ClassDefinition) (p : Prototype) (owner method : String) : MemberKey :=
  (((c.ancestorNames.dropWhile (· != owner)).map fun name => MemberKey.aliased name method).find?
    fun key => Assoc.contains c.skeleton key && p.isLive key).getD (.plain method)

namespace Prototype

variable {p : Prototype} {c : ClassDefinition}

/-- The slot that a patch replaces is the one that a scan of the inheritance chain finds. -/
theorem BuiltFor.patchTarget_eq (h : p.BuiltFor c)
    (hchains : c.overrideChains = ClassComposition.overrideChains c.ancestorNames c.skeleton)
    (hnames : c.ancestorNames.Nodup) (hkeys : (Assoc.keys c.skeleton).Nodup) (owner method : String) :
    p.patchTarget (p.ancestorNames.dropWhile (· != owner)) method = c.patchSlot p owner method := by
  have hbelow : (c.ancestorNames.dropWhile (· != owner)).Sublist c.ancestorNames :=
    (List.dropWhile_suffix _).sublist
  have hchain := filter_overrideChain hnames hbelow hkeys method
  rw [patchTarget, overrideChain, h.overrideChains_eq, h.ancestorNames_eq]
  rw [hchains, hchain, ClassDefinition.patchSlot, List.find?_map,
    List.find?_map, List.find?_filter]
  simp only [Bool.decide_and, Bool.decide_eq_true]
  rfl

/-- What the slots hold when one of them has been given what another one held. -/
theorem slot?_moveSlot (p : Prototype) (target source key : MemberKey) :
    (p.moveSlot target source).slot? key =
      if key = source then some .null
      else if key = target then some ((p.slot? source).getD .null)
      else p.slot? key := by
  rw [moveSlot, setSlot, slot?, Assoc.get?_insert]
  by_cases hsource : key = source
  · rw [if_pos hsource.symm, if_pos hsource]
  · rw [if_neg (Ne.symm hsource), if_neg hsource, setSlot, Assoc.get?_insert]
    by_cases htarget : key = target
    · rw [if_pos htarget.symm, if_pos htarget]
    · rw [if_neg (Ne.symm htarget), if_neg htarget]
      rfl

/-- A patch leaves the data of the class as they are. -/
theorem BuiltFor.moveSlot (h : p.BuiltFor c) (target source : MemberKey) :
    (p.moveSlot target source).BuiltFor c :=
  ⟨h.classPath_eq, h.className_eq, h.ancestorNames_eq, h.overrideChains_eq⟩

end Prototype

/-! ### A patch as an action -/

variable {i : Handle .inst} {replacement : String} {w : World}

/-- A class that is no ancestor may not patch, and nothing changes. -/
theorem run_patch_of_notMem (h : owner ∉ (w.store.prototypeOf i).ancestorNames) :
    (patch i owner method replacement).run w =
      (.error (.notAnAncestor owner (w.store.prototypeOf i).classPath), w) := by
  have hcontains : ¬ (w.store.prototypeOf i).ancestorNames.contains owner = true := by simpa using h
  unfold patch
  rw [Action.run_bind, Action.run_store]
  dsimp only
  rw [← Store.prototypeOf, if_neg hcontains]
  rfl

/-- A class that is an ancestor, or the class itself, moves the replacement to the slot that is found. -/
theorem run_patch (h : owner ∈ (w.store.prototypeOf i).ancestorNames) :
    (patch i owner method replacement).run w =
      (let p := w.store.prototypeOf i
       let target := p.patchTarget (p.ancestorNames.dropWhile (· != owner)) method
       (.ok target,
        { store := { w.store with
            prototypes := w.store.prototypes.set (w.store.instanceAt i).prototype
              (p.moveSlot target (MemberKey.parse replacement)) }
          journal := .slotPatched p.classPath target replacement owner :: w.journal })) := by
  have hcontains : (w.store.prototypeOf i).ancestorNames.contains owner = true := by simpa using h
  unfold patch
  rw [Action.run_bind, Action.run_store]
  dsimp only
  rw [← Store.prototypeOf, if_pos hcontains]
  rfl

end ClassComposition
