import ClassComposition.Proofs.Class.NewInstance
import ClassComposition.Proofs.Registry.Atomicity

/-!
# What a new instance answers

A name is read as a key.  What a new instance answers under it is decided by the member of its class that
has this key: the entry of the table for a method or a pattern, and the value made for any other member,
which is the only case in which the instance owns the name.  Without such a member it answers the shared
member of that name, if there is one.

## Main results

* `Constructor.NewInstance.prototypeOf_eq`, `Constructor.NewInstance.slot?_eq` — a new instance reads the
  prototype that was built.
* `Constructor.NewInstance.field?_eq` — the own fields of a new instance.
* `Constructor.NewInstance.member?_shared` — how it reads a shared member.
* `Registry.Reachable.answers_of_materialize` — what it answers for every name.
-/

namespace ClassComposition

open MemberDescriptor

namespace Constructor.NewInstance

variable {k : Constructor} {c : ClassDefinition} {s t : Store} {i : Handle .inst}

theorem prototypeOf_eq (h : k.NewInstance c s t i) (hunpatched : k.Unpatched c s) {ps : Parts}
    (hps : parts c.path c.references c.skeleton = .ok ps) :
    t.prototypeOf i = prototypeOf c ps.slots := by
  rw [Store.prototypeOf, Store.prototype, h.prototypes]
  exact hunpatched _ ps h.prototype hps

/-- A slot that nothing was written to is read as it was built. -/
theorem slot?_eq (h : k.NewInstance c s t i) {key : MemberKey} (hslot : k.SlotUnpatched c s key)
    {ps : Parts} (hps : parts c.path c.references c.skeleton = .ok ps) :
    (t.prototypeOf i).slot? key = (prototypeOf c ps.slots).slot? key := by
  rw [Store.prototypeOf, Store.prototype, h.prototypes]
  exact hslot _ ps h.prototype hps

/-- A new instance has a field exactly where its class has a member that is data, and there the value made
from it. -/
theorem field?_eq (h : k.NewInstance c s t i) (hc : c.ReferencesSound)
    (hread : ∀ p ∈ c.skeleton.data, MemberKey.parse p.1.display = p.1) (name : String) :
    match (Assoc.get? c.skeleton (MemberKey.parse name)).filter fun d => d.slotIndex?.isNone with
    | some d => ∃ v, Assoc.get? (t.instanceAt i).fields name = some v ∧ Made c.references s t d v
    | none => Assoc.get? (t.instanceAt i).fields name = none := by
  rw [← Skeleton.get?_data hc.1]
  exact h.made.get?_eq hread name

theorem ownsField_of_some {name : String} {v : Value}
    (h : Assoc.get? (t.instanceAt i).fields name = some v) : t.ownsField i name = true := by
  simp [Store.ownsField, Assoc.contains, h]

theorem ownsField_of_none {name : String} (h : Assoc.get? (t.instanceAt i).fields name = none) :
    t.ownsField i name = false := by
  simp [Store.ownsField, Assoc.contains, h]

/-- What stands under a name that no member that is data has is read from the prototype. -/
theorem member?_of_none {name : String} (h : Assoc.get? (t.instanceAt i).fields name = none) :
    t.member? i name = (t.prototypeOf i).slot? (MemberKey.parse name) := by
  simp [Store.member?, h]

end Constructor.NewInstance

namespace Registry

open Constructor

variable {config : Config} {r : Registry} {path : String} {c : ClassDefinition} {k : Constructor}

theorem exists_entry_of_slotIndex? {t : ReferenceTable} {d : MemberDescriptor} {n : Nat}
    (hd : d.AllLeaves (PointsInto t)) (hn : d.slotIndex? = some n) : ∃ v, t.get? n = some v := by
  cases d with
  | function j =>
    cases hn
    obtain ⟨f, hf⟩ := hd
    exact ⟨_, hf⟩
  | pattern j =>
    cases hn
    obtain ⟨p, hp⟩ := hd
    exact ⟨_, hp⟩
  | _ => cases hn

/-- What a new instance has in its prototype under a name whose slot is not patched. -/
theorem Reachable.slot?_of_newInstance (hr : r.Reachable config) (hc : r.definition? path = some c)
    (hconcrete : c.isAbstract = false) (hk : r.constructor? path none = some k) {s t : Store}
    {i : Handle .inst} (hnew : k.NewInstance c s t i) {name : String}
    (hslot : k.SlotUnpatched c s (MemberKey.parse name)) :
    (t.prototypeOf i).slot? (MemberKey.parse name) =
      ((Assoc.get? c.skeleton (MemberKey.parse name)).bind fun d =>
        d.slotIndex?.bind c.references.get?).or (Assoc.get? c.shared name) := by
  obtain ⟨h, ps, init?, hook?, hparts, -⟩ := hr.exists_routine hc hconcrete hk
  have hsound := hr.compiled.referencesSound hc
  rw [hnew.slot?_eq hslot hparts]
  exact slot?_prototypeOf_eq hsound.1 (hr.compiled.nodup_shared hc) (hr.compiled.shared_visible hc)
    hparts name

/-- A new instance reads a shared member of its class as it is, and does not own it. -/
theorem Reachable.member?_shared (hr : r.Reachable config) (hc : r.definition? path = some c)
    (hconcrete : c.isAbstract = false) (hk : r.constructor? path none = some k) {s t : Store}
    {i : Handle .inst} (hnew : k.NewInstance c s t i) {name : String}
    (hunpatched : k.SlotUnpatched c s (MemberKey.parse name))
    (habsent : Assoc.get? c.skeleton (MemberKey.parse name) = none) :
    t.member? i name = Assoc.get? c.shared name ∧ t.ownsField i name = false := by
  have hfield := hnew.field?_eq (hr.compiled.referencesSound hc) (hr.compiled.data_readBack hc) name
  have hslot := hr.slot?_of_newInstance hc hconcrete hk hnew hunpatched
  rw [habsent] at hfield hslot
  have hnone : Assoc.get? (t.instanceAt i).fields name = none := hfield
  refine ⟨?_, NewInstance.ownsField_of_none hnone⟩
  rw [NewInstance.member?_of_none hnone, hslot, Option.bind_none, Option.none_or]

/-- What a new instance answers for every name.  The descriptor of the key that the name is read as
decides: under that of a method or a pattern stands the entry of the table, which the instance does not
own, and under any other stands the value made from it, which the instance owns.  Without a descriptor
the instance owns nothing and answers the shared member of that name, if there is one.  Its field names
are the texts of the keys of the data, in order, and each stands there once. -/
theorem Reachable.answers_of_materialize (hr : r.Reachable config)
    (hc : r.definition? path = some c) (hconcrete : c.isAbstract = false)
    (hk : r.constructor? path none = some k) {s : Store} (hs : c.references.ArraysIn s)
    (hunpatched : k.Unpatched c s) :
    ∃ i t, k.materialize? s = some (i, t) ∧
      (∀ name d n, Assoc.get? c.skeleton (MemberKey.parse name) = some d → d.slotIndex? = some n →
        ∃ v, c.references.get? n = some v ∧ t.member? i name = some v ∧
          t.ownsField i name = false) ∧
      (∀ name d, Assoc.get? c.skeleton (MemberKey.parse name) = some d → d.slotIndex? = none →
        ∃ v, Made c.references s t d v ∧ t.member? i name = some v ∧ t.ownsField i name = true) ∧
      (∀ name, Assoc.get? c.skeleton (MemberKey.parse name) = none →
        t.member? i name = Assoc.get? c.shared name ∧ t.ownsField i name = false) ∧
      t.fieldNames i = c.skeleton.data.map (fun p => p.1.display) ∧ (t.fieldNames i).Nodup := by
  obtain ⟨i, t, hmaterialize, hnew⟩ := hr.exists_newInstance hc hconcrete hk hs
  have hsound := hr.compiled.referencesSound hc
  have hread := hr.compiled.data_readBack hc
  have hkeys : (Assoc.keys c.skeleton.data).Nodup :=
    hsound.1.sublist ((List.filter_sublist).map Prod.fst)
  refine ⟨i, t, hmaterialize, ?_, ?_, ?_, hnew.made.keys_eq, hnew.made.nodup_keys hkeys hread⟩
  · intro name d n hd hn
    have hfield := hnew.field?_eq hsound hread name
    have hslot := hr.slot?_of_newInstance hc hconcrete hk hnew (hunpatched.slot (.parse name))
    rw [hd] at hfield hslot
    -- a slotted member gives no own field, so the lookup falls through to the prototype
    have hnone : Assoc.get? (t.instanceAt i).fields name = none := by
      simpa [Option.filter, hn] using hfield
    obtain ⟨v, hv⟩ := exists_entry_of_slotIndex? (Skeleton.allLeaves_of_get? hsound hd) hn
    refine ⟨v, hv, ?_, NewInstance.ownsField_of_none hnone⟩
    rw [NewInstance.member?_of_none hnone, hslot, Option.bind_some, hn, Option.bind_some, hv]
    rfl
  · intro name d hd hn
    have hfield := hnew.field?_eq hsound hread name
    rw [hd] at hfield
    simp only [Option.filter, hn, Option.isNone_none, if_true] at hfield
    obtain ⟨v, hv, hmade⟩ := hfield
    refine ⟨v, hmade, ?_, NewInstance.ownsField_of_some hv⟩
    simp [Store.member?, hv]
  · intro name hd
    exact hr.member?_shared hc hconcrete hk hnew (hunpatched.slot _) hd

end Registry

/-! ### A sample

The class below the one that shares an object has a method and a field of its own. -/

namespace Sample

/-- A body with a method and a field, under the class that shares an object. -/
def heir : ClassBody := ⟨[("Extends", .text "Ns.Store"), ("run", .function ⟨1⟩), ("size", .null)]⟩

/-- The registry with that class too. -/
def heirs : Registry := sharing.perform world (.define "Ns.Heir" heir)

end Sample

namespace Registry

/-- An instance made right after its class was defined answers the method and the shared object without
owning them, owns the field, and answers nothing for any other name. -/
theorem Reachable.answers_of_materialize_heir :
    ∃ k w' i t, (Sample.sharing.define "Ns.Heir" Sample.heir).run Sample.world
        = (.ok (k, Sample.heirs), w') ∧
      k.materialize? w'.store = some (i, t) ∧
      t.member? i "run" = some (.function ⟨1⟩) ∧ t.ownsField i "run" = false ∧
      t.member? i "size" = some .null ∧ t.fieldNames i = ["size"] ∧
      t.member? i "options" = some (.object ⟨0⟩) ∧ t.ownsField i "options" = false ∧
      t.member? i "Store$run" = none := by
  have hreachable : Sample.heirs.Reachable .standard :=
    ((Reachable.empty.perform _ _).perform _ _).perform _ _
  obtain ⟨k, w', hdefine⟩ : ∃ k w', (Sample.sharing.define "Ns.Heir" Sample.heir).run Sample.world
      = (.ok (k, Sample.heirs), w') := ⟨_, _, rfl⟩
  obtain ⟨c, hc⟩ : ∃ c, Sample.heirs.definition? "Ns.Heir" = some c := ⟨_, rfl⟩
  have hskeleton : c.skeleton = [(.plain "run", .function 0), (.plain "size", .literal .null)] := by
    cases hc
    rfl
  have hreferences : c.references = ⟨[.function ⟨1⟩]⟩ := by
    cases hc
    rfl
  have hshared : c.shared = [("options", .object ⟨0⟩)] := by
    cases hc
    rfl
  have hconcrete : c.isAbstract = false := by
    cases hc
    rfl
  have hk : Sample.heirs.constructor? "Ns.Heir" none = some k := by
    cases hdefine
    rfl
  -- the single entry is a function, so no array has to be there
  have harrays : c.references.ArraysIn w'.store := by
    intro index a h
    rw [hreferences] at h
    match index with
    | 0 => cases h
    | index + 1 => cases h
  obtain ⟨i, t, hmade, hslots, hdata, hothers, hnames, -⟩ :=
    hreachable.answers_of_materialize hc hconcrete hk harrays
      (unpatched_of_define hdefine hc hconcrete)
  rw [hskeleton, hreferences] at hslots
  rw [hskeleton] at hdata hothers hnames
  rw [hshared] at hothers
  obtain ⟨f, hf, hrun, hrunOwned⟩ := hslots "run" (.function 0) 0 rfl rfl
  obtain ⟨v, hv, hsize, -⟩ := hdata "size" (.literal .null) rfl rfl
  obtain ⟨hoptions, hoptionsOwned⟩ := hothers "options" rfl
  obtain ⟨halias, -⟩ := hothers "Store$run" rfl
  cases hf
  cases hv
  exact ⟨k, w', i, t, hdefine, hmade, hrun, hrunOwned, hsize, hnames, hoptions, hoptionsOwned, halias⟩

end Registry

end ClassComposition
