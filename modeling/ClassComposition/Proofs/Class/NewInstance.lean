import ClassComposition.Proofs.Class.Making
import ClassComposition.Proofs.Class.SharedState

/-!
# New instances

Making an instance begins with its fields, and before anything is called on it the instance is fully
described by its class: each member that is data has become a field under the text of its key, and all
other members and the shared ones stand in the prototype.

## Main definitions

* `Skeleton.data` — the members that become fields.
* `Constructor.materialize?` — what making an instance begins with.
* `Constructor.NewInstance` — what a new instance of a class is.

## Main results

* `Compiled.regular` — the descriptors of compiled classes are regular.
* `Constructor.slot?_prototypeOf_eq` — what the prototype of a class holds.
* `Registry.Reachable.exists_newInstance` — every class that is not abstract has new instances.
-/

namespace ClassComposition

open MemberDescriptor

/-! ### Regular classes -/

theorem regular_mergeInvariant :
    MergeInvariant (fun d own merged => d.Regular → own.Regular → merged.Regular)
      fun ms => ∀ p ∈ ms, p.2.Regular where
  member := Skeleton.regular_mergeMember
  merge := Skeleton.regular_rootMerge
  shift := Skeleton.regular_shiftMembers
  classified := Skeleton.regular_of_classified

theorem Compiled.regular {config : Config} {classes : Assoc String ClassDefinition}
    (h : Compiled config classes) {path : String} {c : ClassDefinition}
    (hc : Assoc.get? classes path = some c) : ∀ p ∈ c.skeleton, p.2.Regular :=
  regular_mergeInvariant.of_compiled h hc

/-! ### Fields -/

/-- The members that become fields: all but methods and patterns. -/
def Skeleton.data (ms : Skeleton) : Skeleton := ms.filter fun p => p.2.slotIndex?.isNone

theorem Skeleton.data_cons_field {key : MemberKey} {d : MemberDescriptor} {rest : Skeleton}
    (h : d.slotIndex? = none) : Skeleton.data ((key, d) :: rest) = (key, d) :: rest.data := by
  simp [Skeleton.data, h]

theorem Skeleton.data_cons_slot {key : MemberKey} {d : MemberDescriptor} {rest : Skeleton} {i : Nat}
    (h : d.slotIndex? = some i) : Skeleton.data ((key, d) :: rest) = rest.data := by
  simp [Skeleton.data, h]

theorem Skeleton.get?_data {ms : Skeleton} (hms : (Assoc.keys ms).Nodup) (key : MemberKey) :
    Assoc.get? ms.data key = (Assoc.get? ms key).filter fun d => d.slotIndex?.isNone := by
  induction ms with
  | nil => rfl
  | cons p rest ih =>
    obtain ⟨k, d⟩ := p
    obtain ⟨hfresh, hrest⟩ := List.nodup_cons.mp hms
    have ih := ih hrest
    by_cases hk : k = key
    · subst hk
      have habsent : Assoc.get? rest k = none := (Assoc.get?_eq_none_iff _ _).mpr hfresh
      rw [habsent] at ih
      rcases hslot : d.slotIndex? with _ | i
      · simp [Skeleton.data_cons_field hslot, Assoc.get?, hslot, Option.filter]
      · simp [Skeleton.data_cons_slot hslot, Assoc.get?, hslot, ih, Option.filter]
    · rcases hslot : d.slotIndex? with _ | i
      · simp [Skeleton.data_cons_field hslot, Assoc.get?, hk, ih]
      · simp [Skeleton.data_cons_slot hslot, Assoc.get?, hk, ih]

/-- The members of a compiled class that are data are read under the texts of their keys. -/
theorem Compiled.data_readBack {config : Config} {classes : Assoc String ClassDefinition}
    (h : Compiled config classes) {path : String} {c : ClassDefinition}
    (hc : Assoc.get? classes path = some c) :
    ∀ p ∈ c.skeleton.data, MemberKey.parse p.1.display = p.1 := by
  intro p hp
  obtain ⟨hmem, hslot⟩ := List.mem_filter.mp hp
  refine h.dataReadBack hc p hmem ?_
  rcases hd : p.2 with _ | _ | _ | _ | _ | _ | _ | _ <;> simp_all [slotIndex?, isCallable]

/-- What holds of all entries under a name is found: a made value stands under the text of its key, and
nothing under any other name. -/
theorem MadeAll.get?_eq {t : ReferenceTable} {s u : Store} {ms : Skeleton}
    {entries : Assoc String Value} (h : MadeAll t s u ms entries)
    (hread : ∀ p ∈ ms, MemberKey.parse p.1.display = p.1) (name : String) :
    match Assoc.get? ms (MemberKey.parse name) with
    | some d => ∃ v, Assoc.get? entries name = some v ∧ Made t s u d v
    | none => Assoc.get? entries name = none := by
  induction ms generalizing entries with
  | nil =>
    cases h
    rfl
  | cons p rest ih =>
    cases h with
    | @cons key d rest v others first below =>
      rw [List.forall_mem_cons] at hread
      have ih := ih below hread.2
      -- the key is read from exactly one name, its own text
      have hname : key = MemberKey.parse name ↔ key.display = name := by
        constructor
        · rintro rfl
          exact MemberKey.display_parse name
        · rintro rfl
          exact hread.1.symm
      by_cases hkey : key.display = name
      · rw [Assoc.get?, if_pos (hname.mpr hkey), Assoc.get?, if_pos hkey]
        exact ⟨v, rfl, first⟩
      · rw [Assoc.get?, if_neg (fun heq => hkey (hname.mp heq)), Assoc.get?, if_neg hkey]
        exact ih

namespace Constructor

/-- The fields of a constructor are the initializers of the members that are data. -/
theorem ofMembers_of_parts {path : String} {t : ReferenceTable} {ms : Skeleton} {ps : Parts}
    (h : parts path t ms = .ok ps) : Initializer.ofMembers path t ms.data = .ok ps.fields := by
  induction ms generalizing ps with
  | nil =>
    cases h
    rfl
  | cons p rest ih =>
    obtain ⟨key, d⟩ := p
    obtain ⟨others, hothers, ⟨hslot, field, hfield, rfl⟩ | ⟨i, v, hslot, -, rfl⟩⟩ := parts_cons_cases h
    · rw [Skeleton.data_cons_field hslot, Initializer.ofMembers, hfield, ih hothers]
      rfl
    · rw [Skeleton.data_cons_slot hslot, ih hothers]

/-! ### Slots -/

/-- No key is written twice: the slots come from different members, and no shared member has the key of
one. -/
theorem nodup_slots_append {c : ClassDefinition} (hkeys : (Assoc.keys c.skeleton).Nodup)
    (hnames : (Assoc.keys c.shared).Nodup)
    (hvisible : ∀ q ∈ c.shared, MemberKey.parse q.1 ∉ Assoc.keys c.skeleton) {ps : Parts}
    (hps : parts c.path c.references c.skeleton = .ok ps) :
    (Assoc.keys (ps.slots ++ c.shared.map fun p => (MemberKey.parse p.1, p.2))).Nodup := by
  have hslots := keys_slots_sublist hps
  have hextra : Assoc.keys (c.shared.map fun p => (MemberKey.parse p.1, p.2))
      = (Assoc.keys c.shared).map MemberKey.parse := by
    simp [Assoc.keys]
  have hparsed : Function.Injective MemberKey.parse := fun _ _ => MemberKey.parse_injective
  have hkeys_append : Assoc.keys (ps.slots ++ c.shared.map fun p => (MemberKey.parse p.1, p.2))
      = Assoc.keys ps.slots ++ (Assoc.keys c.shared).map MemberKey.parse := by
    rw [← hextra, Assoc.keys, Assoc.keys, List.map_append, Assoc.keys]
  rw [hkeys_append, List.nodup_append]
  refine ⟨hkeys.sublist hslots, hnames.map hparsed, ?_⟩
  rintro key hslot other hshared rfl
  obtain ⟨n, hn, rfl⟩ := List.mem_map.mp hshared
  obtain ⟨q, hq, rfl⟩ := List.mem_map.mp hn
  exact hvisible q hq (hslots.subset hslot)

/-- The prototype of a class holds the entries of its methods and patterns, and under names that no member
has, the shared members. -/
theorem slot?_prototypeOf_eq {c : ClassDefinition} (hkeys : (Assoc.keys c.skeleton).Nodup)
    (hnames : (Assoc.keys c.shared).Nodup)
    (hvisible : ∀ q ∈ c.shared, MemberKey.parse q.1 ∉ Assoc.keys c.skeleton) {ps : Parts}
    (hps : parts c.path c.references c.skeleton = .ok ps) (name : String) :
    (prototypeOf c ps.slots).slot? (MemberKey.parse name) =
      ((Assoc.get? c.skeleton (MemberKey.parse name)).bind fun d =>
        d.slotIndex?.bind c.references.get?).or (Assoc.get? c.shared name) := by
  have hshared : Assoc.get? (c.shared.map fun p => (MemberKey.parse p.1, p.2)) (MemberKey.parse name)
      = Assoc.get? c.shared name := by
    have hparsed : Function.Injective MemberKey.parse := fun _ _ => MemberKey.parse_injective
    generalize c.shared = shared
    induction shared with
    | nil => rfl
    | cons q rest ih =>
      obtain ⟨n, v⟩ := q
      rw [List.map_cons, Assoc.get?, Assoc.get?, ih]
      simp only [hparsed.eq_iff]
  rw [Prototype.slot?, prototypeOf]
  dsimp only
  rw [Assoc.ofList_of_nodup (nodup_slots_append hkeys hnames hvisible hps), Assoc.get?_append,
    get?_slots hkeys hps, hshared]

/-! ### The beginning of an instance -/

/-- What making an instance begins with: the instance with its fields, and the store with both.  An
abstract class has none, and neither has a routine from outside. -/
def materialize? (k : Constructor) (s : Store) : Option (Handle .inst × Store) :=
  match k.routine with
  | .compiled prototype fields _ _ => some (materialize prototype fields s)
  | _ => none

/-- What a new instance of a class is: its fields are made from the members that are data, with different
containers at different positions, and its prototype is that of the class. -/
structure NewInstance (k : Constructor) (c : ClassDefinition) (s t : Store) (i : Handle .inst) :
    Prop where
  isNew : s.IsNew t (.inst i)
  within : s.Within t
  made : MadeAll c.references s t c.skeleton.data (t.instanceAt i).fields
  apart : t.Apart (t.instanceAt i).fields
  prototype : k.prototype? = some (t.instanceAt i).prototype
  prototypes : t.prototypes = s.prototypes

theorem isNew_newInstance (s : Store) (p : Handle .prototype) (fields : Assoc String Value) :
    s.IsNew (s.newInstance p fields).2 (.inst (s.newInstance p fields).1) :=
  ⟨Nat.lt_irrefl s.instances.size, Pool.has_alloc_self s.instances ⟨p, fields⟩⟩

theorem within_newInstance (s : Store) (p : Handle .prototype) (fields : Assoc String Value) :
    s.Within (s.newInstance p fields).2 :=
  ⟨.refl _, .refl _, .refl _, .refl _, .refl _, Pool.within_alloc _ _⟩

/-- The values of an instance are the same once the instance itself has been made. -/
theorem propertyAt?_newInstance (s : Store) (p : Handle .prototype) (fields : Assoc String Value)
    (v : Value) (keys : List String) :
    (s.newInstance p fields).2.propertyAt? v keys = s.propertyAt? v keys := by
  induction keys generalizing v with
  | nil => rfl
  | cons key rest ih =>
    rw [Store.propertyAt?_cons, Store.propertyAt?_cons]
    have hproperty : (s.newInstance p fields).2.property? v key = s.property? v key := by
      cases v <;> rfl
    rw [hproperty]
    rcases s.property? v key with _ | below
    · rfl
    · exact ih below

end Constructor

namespace Registry

open Constructor

/-- Every class that is not abstract has new instances, in every store that has the arrays of its table. -/
theorem Reachable.exists_newInstance {config : Config} {r : Registry} (hr : r.Reachable config)
    {path : String} {c : ClassDefinition} {k : Constructor} (hc : r.definition? path = some c)
    (hconcrete : c.isAbstract = false) (hk : r.constructor? path none = some k) {s : Store}
    (hs : c.references.ArraysIn s) :
    ∃ i t, k.materialize? s = some (i, t) ∧ k.NewInstance c s t i := by
  obtain ⟨h, ps, init?, hook?, hparts, -, -, hroutine⟩ := hr.exists_routine hc hconcrete hk
  have hsound := hr.compiled.referencesSound hc
  have hregular := hr.compiled.regular hc
  have hdata : ∀ p ∈ c.skeleton.data, p ∈ c.skeleton := fun p hp => (List.mem_filter.mp hp).1
  obtain ⟨hmade, hapart⟩ := Initializer.made_runAll (fun p hp => hsound.2 p (hdata p hp))
    (fun p hp => hregular p (hdata p hp)) hs (ofMembers_of_parts hparts)
  have hread := hr.compiled.data_readBack hc
  have hkeys : (Assoc.keys c.skeleton.data).Nodup :=
    hsound.1.sublist ((List.filter_sublist).map Prod.fst)
  have hnames := hmade.nodup_keys hkeys hread
  -- the fields are made first, in a store of their own, and the instance is put on top of it
  rcases hrun : Initializer.runAll ps.fields s with ⟨entries, u⟩
  rw [hrun] at hmade hapart hnames
  have hadds : s.AddsContainers u := by
    have hadds := Initializer.addsContainers_runAll ps.fields s
    rwa [hrun] at hadds
  rcases hnew : u.newInstance h entries with ⟨i, t⟩
  have hlater : u.Within t := by
    have hwithin := within_newInstance u h entries
    rwa [hnew] at hwithin
  have hisNew : u.IsNew t (.inst i) := by
    have hisNew := isNew_newInstance u h entries
    rwa [hnew] at hisNew
  have hvalues : ∀ v keys, t.propertyAt? v keys = u.propertyAt? v keys := by
    have hvalues := propertyAt?_newInstance u h entries
    rwa [hnew] at hvalues
  have hinstance : t.instanceAt i = ⟨h, entries⟩ := by
    have hself : (u.newInstance h entries).2.instanceAt (u.newInstance h entries).1 = ⟨h, entries⟩ :=
      Pool.get_alloc_self _ _
    rwa [hnew] at hself
  have hprototypes : t.prototypes = s.prototypes := by
    have hkept : u.prototypes = s.prototypes := by
      rw [hadds.rest_eq]
    have hsame : (u.newInstance h entries).2.prototypes = u.prototypes := rfl
    rw [hnew] at hsame
    exact hsame.trans hkept
  have hmaterialize : k.materialize? s = some (i, t) := by
    rw [materialize?, hroutine]
    dsimp only
    rw [materialize, hrun]
    dsimp only
    rw [Assoc.ofList_of_nodup hnames, hnew]
  -- what was said of the fields holds after the instance was made, as it is no container
  refine ⟨i, t, hmaterialize, ?_⟩
  constructor
  · exact hisNew.mono hadds.within (.refl t)
  · exact hadds.within.trans hlater
  · rw [hinstance]
    exact hmade.mono hs (.refl s) hlater
  · rw [hinstance]
    constructor
    · intro p hp keys keys' x hx hx'
      rw [hvalues] at hx hx'
      exact hapart.separated p hp keys keys' x hx hx'
    · refine hapart.pairwise.imp fun hpq keys keys' x hx hx' => ?_
      rw [hvalues] at hx hx'
      exact hpq keys keys' x hx hx'
  · rw [hinstance, prototype?, hroutine]
  · exact hprototypes

end Registry

end ClassComposition
