import ClassComposition.Class.Constructor
import ClassComposition.Proofs.Effect
import ClassComposition.Proofs.Member.Leaves

/-!
# What building a constructor gives

The members of a skeleton are sorted into slots of the prototype and initializers of fields.  This needs
all indices to point into the table, and then it always succeeds.

## Main definitions

* `MemberDescriptor.slotIndex?` — the index of a member that becomes a slot.

## Main results

* `Constructor.parts_cons_cases` — one member, sorted: what can come of it.
* `Constructor.exists_parts` — members whose indices are good can be sorted.
* `Constructor.get?_slots` — a slot holds the entry that its member points to.
* `Constructor.build_eq_ok` — what is built, and the store afterwards.
* `Constructor.path_of_build` — a constructor has the path of its class.
* `Constructor.build_eq_error` — with good indices, only the initializer and the hook can be at fault.
-/

namespace ClassComposition

open MemberDescriptor

/-- The index of a member that becomes a slot of the prototype: a method or a pattern. -/
def MemberDescriptor.slotIndex? : MemberDescriptor → Option Nat
  | function i | pattern i => some i
  | _ => none

/-! ### Initializers -/

namespace Initializer

variable {path : String} {t : ReferenceTable}

theorem resolve_eq_ok {i : Nat} {v : Value} : resolve path t i = .ok v ↔ t.get? i = some v := by
  unfold resolve
  cases t.get? i <;> simp

/-- A descriptor whose indices are good has an initializer. -/
theorem exists_ofDescriptor (path : String) {d : MemberDescriptor} (hd : d.AllLeaves (PointsInto t)) :
    ∃ i, ofDescriptor path t d = .ok i := by
  induction d using MemberDescriptor.induction with
  | leaf d hleaf =>
    rw [allLeaves_leaf hleaf] at hd
    cases d with
    | nested ms => cases hleaf
    | function i =>
      obtain ⟨f, hf⟩ := hd
      exact ⟨.keep (.function f), by rw [ofDescriptor, resolve_eq_ok.mpr hf]; rfl⟩
    | pattern i =>
      obtain ⟨p, hp⟩ := hd
      exact ⟨.keep (.pattern p), by rw [ofDescriptor, resolve_eq_ok.mpr hp]; rfl⟩
    | arrayCopy i =>
      obtain ⟨a, ha⟩ := hd
      exact ⟨.copy (.array a), by rw [ofDescriptor, resolve_eq_ok.mpr ha]; rfl⟩
    | _ => exact ⟨_, rfl⟩
  | nested ms ih =>
    rw [Skeleton.allLeaves_nested] at hd
    -- the members from any point on have initializers
    have hmembers : ∀ ns : Skeleton, ns ⊆ ms → ∃ is, ofMembers path t ns = .ok is := by
      intro ns
      induction ns with
      | nil => exact fun _ => ⟨[], rfl⟩
      | cons p rest ihrest =>
        intro hsub
        obtain ⟨key, d⟩ := p
        have hp : (key, d) ∈ ms := hsub List.mem_cons_self
        obtain ⟨first, hfirst⟩ := ih (key, d) hp (hd.2 _ hp)
        obtain ⟨others, hothers⟩ := ihrest (List.subset_of_cons_subset hsub)
        exact ⟨(key.display, first) :: others, by rw [ofMembers, hfirst, hothers]; rfl⟩
    obtain ⟨is, his⟩ := hmembers ms (List.Subset.refl ms)
    exact ⟨.object is, by rw [ofDescriptor, his]; rfl⟩

end Initializer

/-! ### Slots and fields -/

namespace Constructor

variable {path : String} {t : ReferenceTable} {key : MemberKey} {d : MemberDescriptor}
  {rest ms : Skeleton}

/-- A method or a pattern becomes a slot. -/
theorem parts_cons_slot {i : Nat} (h : d.slotIndex? = some i) :
    parts path t ((key, d) :: rest) = (do
      let v ← Initializer.resolve path t i
      let others ← parts path t rest
      return { others with slots := (key, v) :: others.slots }) := by
  cases d with
  | function j =>
    cases h
    rfl
  | pattern j =>
    cases h
    rfl
  | _ => cases h

/-- All else becomes a field. -/
theorem parts_cons_field (h : d.slotIndex? = none) :
    parts path t ((key, d) :: rest) = (do
      let i ← Initializer.ofDescriptor path t d
      let others ← parts path t rest
      return { others with fields := (key.display, i) :: others.fields }) := by
  cases d with
  | function j => cases h
  | pattern j => cases h
  | _ => rfl

/-- A member that has been sorted is a field or a slot, and the members after it are sorted, too. -/
theorem parts_cons_cases {ps : Parts} (h : parts path t ((key, d) :: rest) = .ok ps) :
    ∃ others, parts path t rest = .ok others ∧
      ((d.slotIndex? = none ∧ ∃ i, Initializer.ofDescriptor path t d = .ok i ∧
          ps = { others with fields := (key.display, i) :: others.fields }) ∨
        ∃ i v, d.slotIndex? = some i ∧ t.get? i = some v ∧
          ps = { others with slots := (key, v) :: others.slots }) := by
  rcases hslot : d.slotIndex? with _ | i
  · rw [parts_cons_field hslot] at h
    obtain ⟨field, hfield, h⟩ := bind_eq_ok.mp h
    obtain ⟨others, hothers, h⟩ := bind_eq_ok.mp h
    cases h
    exact ⟨others, hothers, .inl ⟨rfl, field, hfield, rfl⟩⟩
  · rw [parts_cons_slot hslot] at h
    obtain ⟨v, hv, h⟩ := bind_eq_ok.mp h
    obtain ⟨others, hothers, h⟩ := bind_eq_ok.mp h
    cases h
    exact ⟨others, hothers, .inr ⟨i, v, rfl, Initializer.resolve_eq_ok.mp hv, rfl⟩⟩

/-- The slots are the entries that the members point to, in order. -/
theorem slots_of_parts_cons {ps : Parts} (h : parts path t ((key, d) :: rest) = .ok ps) :
    ∃ others, parts path t rest = .ok others ∧
      ps.slots = ((d.slotIndex?.bind t.get?).map fun v => (key, v)).toList ++ others.slots := by
  obtain ⟨others, hothers, ⟨hslot, i, -, rfl⟩ | ⟨i, v, hslot, hv, rfl⟩⟩ := parts_cons_cases h
  · rw [hslot]
    exact ⟨others, hothers, rfl⟩
  · rw [hslot, Option.bind_some, hv]
    exact ⟨others, hothers, rfl⟩

/-- The index of a slot points to an entry. -/
theorem exists_get?_of_slotIndex? {i : Nat} (hd : d.AllLeaves (PointsInto t))
    (h : d.slotIndex? = some i) : ∃ v, t.get? i = some v := by
  cases d with
  | function j =>
    cases h
    obtain ⟨f, hf⟩ := hd
    exact ⟨_, hf⟩
  | pattern j =>
    cases h
    obtain ⟨p, hp⟩ := hd
    exact ⟨_, hp⟩
  | _ => cases h

/-- Members whose indices are good can be sorted into slots and fields. -/
theorem exists_parts (path : String) (hms : ∀ p ∈ ms, p.2.AllLeaves (PointsInto t)) :
    ∃ ps, parts path t ms = .ok ps := by
  induction ms with
  | nil => exact ⟨⟨[], []⟩, rfl⟩
  | cons p rest ih =>
    obtain ⟨key, d⟩ := p
    obtain ⟨hd, hrest⟩ := List.forall_mem_cons.mp hms
    obtain ⟨others, hothers⟩ := ih hrest
    rcases hslot : d.slotIndex? with _ | i
    · obtain ⟨i, hi⟩ := Initializer.exists_ofDescriptor path hd
      rw [parts_cons_field hslot, hi, hothers]
      exact ⟨_, rfl⟩
    · obtain ⟨v, hv⟩ := exists_get?_of_slotIndex? hd hslot
      rw [parts_cons_slot hslot, Initializer.resolve_eq_ok.mpr hv, hothers]
      exact ⟨_, rfl⟩

/-- The slots stand in the order of the members that they come from. -/
theorem keys_slots_sublist {ps : Parts} (h : parts path t ms = .ok ps) :
    (Assoc.keys ps.slots).Sublist (Assoc.keys ms) := by
  induction ms generalizing ps with
  | nil =>
    cases h
    exact List.Sublist.slnil
  | cons p rest ih =>
    obtain ⟨key, d⟩ := p
    obtain ⟨others, hothers, ⟨-, field, -, rfl⟩ | ⟨i, v, -, -, rfl⟩⟩ := parts_cons_cases h
    · exact (ih hothers).cons key
    · exact (ih hothers).cons_cons key

theorem get?_slots {ps : Parts} (hms : (Assoc.keys ms).Nodup) (h : parts path t ms = .ok ps)
    (k : MemberKey) :
    Assoc.get? ps.slots k = (Assoc.get? ms k).bind fun d => d.slotIndex?.bind t.get? := by
  induction ms generalizing ps with
  | nil =>
    cases h
    rfl
  | cons p rest ih =>
    obtain ⟨key, d⟩ := p
    obtain ⟨hfresh, hrest⟩ := List.nodup_cons.mp hms
    obtain ⟨others, hothers, ⟨hslot, field, -, rfl⟩ | ⟨i, v, hslot, hv, rfl⟩⟩ := parts_cons_cases h
    · by_cases hk : key = k
      · -- a field leaves no slot under its key, and no other member has this key
        subst hk
        have habsent : key ∉ Assoc.keys others.slots :=
          fun hmem => hfresh ((keys_slots_sublist hothers).subset hmem)
        rw [Assoc.get?, if_pos rfl, Option.bind_some, hslot, Option.bind_none]
        exact (Assoc.get?_eq_none_iff _ _).mpr habsent
      · have hget := ih hrest hothers
        rw [Assoc.get?, if_neg hk]
        exact hget
    · by_cases hk : key = k
      · rw [Assoc.get?, if_pos hk, Assoc.get?, if_pos hk, Option.bind_some, hslot, Option.bind_some]
        exact hv.symm
      · rw [Assoc.get?, if_neg hk, Assoc.get?, if_neg hk]
        exact ih hrest hothers

/-! ### Building -/

theorem build_of_abstract {config : Config} {c : ClassDefinition} {w : World}
    (h : c.isAbstract = true) :
    (build config c).run w = (.ok ⟨c.path, w.store.routines, .abstract⟩,
      { w with store := w.store.newRoutine.2 }) := by
  unfold build
  rw [if_pos h]
  rfl

/-- Building the constructor of a class that is not abstract sorts its members, finds its initializer and
its hook, and makes a prototype. -/
theorem build_eq_ok {config : Config} {c : ClassDefinition} {w w' : World} {k : Constructor}
    (hc : c.isAbstract = false) (h : (build config c).run w = (.ok k, w')) :
    ∃ ps init? hook?, parts c.path c.references c.skeleton = .ok ps ∧
      initOf config c = .ok init? ∧ hookOf config c = .ok hook? ∧
      k = ⟨c.path, w.store.routines,
        .compiled (w.store.newPrototype (prototypeOf c ps.slots)).1 ps.fields init? hook?⟩ ∧
      w'.store = (w.store.newPrototype (prototypeOf c ps.slots)).2.newRoutine.2 := by
  have hconcrete : ¬ c.isAbstract = true := by
    rw [hc]
    exact Bool.false_ne_true
  -- three checks that may fail, then the prototype and the identity of the routine are made
  unfold build at h
  rw [if_neg hconcrete, Action.run_ofExcept_bind] at h
  rcases hparts : parts c.path c.references c.skeleton with e | ps
  · rw [hparts] at h
    cases h
  rw [hparts] at h
  dsimp only at h
  rw [Action.run_ofExcept_bind] at h
  rcases hinit : initOf config c with e | init?
  · rw [hinit] at h
    cases h
  rw [hinit] at h
  dsimp only at h
  rw [Action.run_ofExcept_bind] at h
  rcases hhook : hookOf config c with e | hook?
  · rw [hhook] at h
    cases h
  rw [hhook] at h
  cases h
  exact ⟨ps, init?, hook?, rfl, rfl, rfl, rfl, rfl⟩

theorem path_of_build {config : Config} {c : ClassDefinition} {w w' : World} {k : Constructor}
    (h : (build config c).run w = (.ok k, w')) : k.path = c.path := by
  rcases hc : c.isAbstract with _ | _
  · obtain ⟨ps, init?, hook?, -, -, -, hk, -⟩ := build_eq_ok hc h
    rw [hk]
  · rw [build_of_abstract hc] at h
    cases h
    rfl

theorem containers_of_build {config : Config} {c : ClassDefinition} {w w' : World} {k : Constructor}
    (h : (build config c).run w = (.ok k, w')) :
    w'.store.objects = w.store.objects ∧ w'.store.arrays = w.store.arrays := by
  rcases hc : c.isAbstract with _ | _
  · obtain ⟨ps, init?, hook?, -, -, -, -, hstore⟩ := build_eq_ok hc h
    rw [hstore]
    exact ⟨rfl, rfl⟩
  · rw [build_of_abstract hc] at h
    cases h
    exact ⟨rfl, rfl⟩

/-! ### Errors -/

theorem initOf_eq_error {config : Config} {c : ClassDefinition} {e : ClassError}
    (h : initOf config c = .error e) :
    ∃ kind, e = .initNotFunction config.initMember kind c.path := by
  unfold initOf at h
  rcases hget : Assoc.get? c.skeleton (MemberKey.parse config.initMember) with _ | d
  · rw [hget] at h
    cases h
  · rw [hget] at h
    dsimp only at h
    split at h
    · cases h
    · split at h
      · cases h
      · cases h
        exact ⟨_, rfl⟩

theorem hookOf_eq_error {config : Config} {c : ClassDefinition} {e : ClassError}
    (h : hookOf config c = .error e) : e = .hookNotFunction config.afterInitMember c.path := by
  unfold hookOf at h
  rcases hget : Assoc.get? c.skeleton (MemberKey.parse config.afterInitMember) with _ | d
  · rw [hget] at h
    cases h
  · rw [hget] at h
    dsimp only at h
    split at h
    · cases h
    · cases h
      rfl

/-- Where all indices are good, a constructor fails to be built only because of the initializer or the
post-construction hook. -/
theorem build_eq_error {config : Config} {c : ClassDefinition} {w w' : World} {e : ClassError}
    (hc : Skeleton.AllLeaves (PointsInto c.references) c.skeleton)
    (h : (build config c).run w = (.error e, w')) :
    (∃ kind, e = .initNotFunction config.initMember kind c.path) ∨
      e = .hookNotFunction config.afterInitMember c.path := by
  -- sorting the members cannot fail, which leaves the initializer and the hook
  obtain ⟨ps, hparts⟩ := exists_parts c.path hc.2
  unfold build at h
  by_cases habstract : c.isAbstract = true
  · rw [if_pos habstract] at h
    cases h
  rw [if_neg habstract, Action.run_ofExcept_bind, hparts] at h
  dsimp only at h
  rw [Action.run_ofExcept_bind] at h
  rcases hinit : initOf config c with e' | init?
  · rw [hinit] at h
    cases h
    exact .inl (initOf_eq_error hinit)
  rw [hinit] at h
  dsimp only at h
  rw [Action.run_ofExcept_bind] at h
  rcases hhook : hookOf config c with e' | hook?
  · rw [hhook] at h
    cases h
    exact .inr (hookOf_eq_error hhook)
  · rw [hhook] at h
    cases h

end Constructor

end ClassComposition
