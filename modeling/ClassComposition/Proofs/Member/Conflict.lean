import ClassComposition.Proofs.Member.Composed

/-!
# Conflicts

Composing a class fails exactly on a conflict between its skeleton and the one that is merged in, and it
fails with the first one.  A conflict is looked for at the members of the root and at the nested objects
of any depth, in the order in which a walk through the skeleton that is merged in meets them, and always
in the class as it was before the merge: what the merge has written by then makes no difference.

## Main definitions

* `Skeleton.memberAt?` — the descriptor under a key at a path of keys.
* `Check`, `Skeleton.walk` — what is looked at, in order.
* `Skeleton.conflict?` — the error that one check gives.
* `Skeleton.ChangesSides`, `Skeleton.AliasTaken`, `Skeleton.LosesObject` — the three sorts of conflict.
* `Skeleton.FailsOnConflict` — failing exactly on a conflict, with the first one.

## Main results

* `Skeleton.failure?_mergeMember`, `Skeleton.failure?_mergeRoot` — a merge reports the first conflict.
* `Skeleton.composition_failsOnConflict` — so do extending and implementing.
-/

namespace ClassComposition

open MemberDescriptor

/-- The error of an outcome. -/
def failure? {α : Type} : Except ClassError α → Option ClassError
  | .ok _ => none
  | .error e => some e

theorem failure?_eq_some {α : Type} {outcome : Except ClassError α} {e : ClassError} :
    failure? outcome = some e ↔ outcome = .error e := by
  cases outcome <;> simp [failure?]

/-! ### Places -/

mutual

/-- The places of the nested objects of a descriptor that stands under a key: a path of keys and the key
there.  An object comes before those inside it. -/
def MemberDescriptor.objectsUnder (key : MemberKey) :
    MemberDescriptor → List (List MemberKey × MemberKey)
  | .nested ms => ([], key) :: (objectsIn ms).map fun place => (key :: place.1, place.2)
  | _ => []
termination_by structural d => d

/-- The places of the nested objects of members, in order. -/
def MemberDescriptor.objectsIn :
    List (MemberKey × MemberDescriptor) → List (List MemberKey × MemberKey)
  | [] => []
  | (key, d) :: rest => d.objectsUnder key ++ objectsIn rest
termination_by structural ms => ms

end

namespace MemberDescriptor

variable {key : MemberKey} {d : MemberDescriptor} {place : List MemberKey × MemberKey}

theorem objectsUnder_of_leaf (key : MemberKey) (h : d.members? = none) : d.objectsUnder key = [] := by
  cases d with
  | nested ms => cases h
  | _ => rfl

theorem mem_objectsUnder : place ∈ d.objectsUnder key ↔
    ∃ ms, d = nested ms ∧
      (place = ([], key) ∨ ∃ inner ∈ objectsIn ms, (key :: inner.1, inner.2) = place) := by
  rcases hms : d.members? with _ | ms
  · rw [objectsUnder_of_leaf key hms]
    constructor
    · intro h
      cases h
    · rintro ⟨ms, rfl, -⟩
      cases hms
  · obtain rfl := eq_nested_of_members? hms
    rw [objectsUnder, List.mem_cons, List.mem_map]
    constructor
    · exact fun h => ⟨ms, rfl, h⟩
    · rintro ⟨_, ⟨⟩, h⟩
      exact h

theorem mem_objectsIn {ms : Skeleton} :
    place ∈ objectsIn ms ↔ ∃ p ∈ ms, place ∈ p.2.objectsUnder p.1 := by
  induction ms with
  | nil => simp [objectsIn]
  | cons p rest ih =>
    obtain ⟨key, d⟩ := p
    simp [objectsIn, ih, or_and_right, exists_or]

theorem objectsUnder_shiftDeep (offset : Nat) (d : MemberDescriptor) (key : MemberKey) :
    (shiftDeep offset d).objectsUnder key = d.objectsUnder key := by
  induction d using MemberDescriptor.induction generalizing key with
  | leaf d hleaf =>
    rw [objectsUnder_of_leaf key hleaf, objectsUnder_of_leaf]
    rw [members?_shiftDeep, hleaf, Option.map_none]
  | nested ms ih =>
    have hmembers : objectsIn (shiftMembers offset ms) = objectsIn ms := by
      induction ms with
      | nil => rfl
      | cons p rest ihrest =>
        obtain ⟨k, d⟩ := p
        rw [shiftMembers, objectsIn, objectsIn, ih (k, d) List.mem_cons_self k,
          ihrest fun p hp => ih p (List.mem_cons_of_mem _ hp)]
    rw [shiftDeep, objectsUnder, objectsUnder, hmembers]

end MemberDescriptor

/-! ### Checks -/

/-- What a merge looks at, in the skeleton that is merged in. -/
inductive Check
  /-- Whether a member at the root changes between method and data. -/
  | sides (key : MemberKey) (d : MemberDescriptor)
  /-- Whether a nested object stays one. -/
  | object (trail : List MemberKey) (key : MemberKey)
  /-- Whether the alias of an overridden method is free. -/
  | slot (key : MemberKey) (d : MemberDescriptor)

/-- The kind of the error that a check gives. -/
def Check.kind : Check → ErrorKind
  | .sides _ _ | .object _ _ => .invalidOverride
  | .slot _ _ => .duplicateDefinition

namespace Skeleton

variable {path : String} {owner? : Option String} {lower upper written : Skeleton} {key : MemberKey}
  {d own : MemberDescriptor} {trail : List MemberKey} {place : List MemberKey × MemberKey}

/-- The checks at one member of the root. -/
def checks (key : MemberKey) (d : MemberDescriptor) : List Check :=
  .sides key d :: ((d.objectsUnder key).map fun place => .object place.1 place.2) ++ [.slot key d]

/-- All checks, in the order of the members and depth-first. -/
def walk : Skeleton → List Check
  | [] => []
  | (key, d) :: rest => checks key d ++ walk rest

/-- The descriptor under a key at a path of keys. -/
def memberAt? (ms : Skeleton) (trail : List MemberKey) (key : MemberKey) : Option MemberDescriptor :=
  (ms.objectAt? trail).bind fun inner => Assoc.get? inner key

/-- The error where an object has become something else in the class. -/
def lost? (path : String) (child : Skeleton) (place : List MemberKey × MemberKey) : Option ClassError :=
  (child.memberAt? place.1 place.2).bind fun own =>
    if own.members? = none then some (.nestedReplaced path place.2 own.kind) else none

/-- The error that a check gives for a class, if there is a conflict.  An alias is made where an owner is
given. -/
def conflict? (path : String) (owner? : Option String) (child : Skeleton) : Check → Option ClassError
  | .sides key d =>
    (Assoc.get? child key).bind fun own =>
      if own.isCallable ≠ d.isCallable ∧ ¬(own.isCallable = true ∧ d.isPlaceholder = true) then
        some (.callableChanged path key)
      else none
  | .object trail key => lost? path child (trail, key)
  | .slot key d =>
    owner?.bind fun owner => (Assoc.get? child key).bind fun own =>
      if own.isCallable = true ∧ d.isCallable = true ∧
          Assoc.contains child (.aliased owner key.display) = true then
        some (.aliasTaken path (.aliased owner key.display))
      else none

theorem lost?_eq_some {e : ClassError} : lost? path upper place = some e ↔
    ∃ own, upper.memberAt? place.1 place.2 = some own ∧ own.members? = none ∧
      .nestedReplaced path place.2 own.kind = e := by
  simp [lost?, Option.bind_eq_some_iff]

theorem conflict?_sides_eq_some {e : ClassError} : conflict? path owner? upper (.sides key d) = some e ↔
    ∃ own, Assoc.get? upper key = some own ∧ (own.isCallable ≠ d.isCallable ∧
      ¬(own.isCallable = true ∧ d.isPlaceholder = true)) ∧ .callableChanged path key = e := by
  simp [conflict?, Option.bind_eq_some_iff]

theorem conflict?_slot_eq_some {e : ClassError} : conflict? path owner? upper (.slot key d) = some e ↔
    ∃ owner, owner? = some owner ∧ ∃ own, Assoc.get? upper key = some own ∧ (own.isCallable = true ∧
      d.isCallable = true ∧ Assoc.contains upper (.aliased owner key.display) = true) ∧
      .aliasTaken path (.aliased owner key.display) = e := by
  simp [conflict?, Option.bind_eq_some_iff]

theorem kind_of_conflict? {check : Check} {e : ClassError}
    (h : conflict? path owner? upper check = some e) : e.kind = check.kind := by
  cases check with
  | sides key d =>
    obtain ⟨own, -, -, rfl⟩ := conflict?_sides_eq_some.mp h
    rfl
  | object trail key =>
    obtain ⟨own, -, -, rfl⟩ := lost?_eq_some.mp h
    rfl
  | slot key d =>
    obtain ⟨owner, -, own, -, -, rfl⟩ := conflict?_slot_eq_some.mp h
    rfl

/-! ### What a check depends on -/

theorem memberAt?_nil (ms : Skeleton) (key : MemberKey) : ms.memberAt? [] key = Assoc.get? ms key := rfl

theorem memberAt?_cons (ms : Skeleton) (key k : MemberKey) (trail : List MemberKey) :
    ms.memberAt? (k :: trail) key =
      ((Assoc.get? ms k).bind members?).bind fun inner => memberAt? inner trail key := by
  rw [memberAt?, objectAt?_cons, Option.bind_assoc]
  rfl

/-- The objects under a key are looked up under that key. -/
theorem lost?_congr (h : Assoc.get? written key = Assoc.get? upper key)
    (hplace : place ∈ d.objectsUnder key) : lost? path written place = lost? path upper place := by
  obtain ⟨ms, -, rfl | ⟨inner, -, rfl⟩⟩ := mem_objectsUnder.mp hplace
  · rw [lost?, lost?, memberAt?_nil, memberAt?_nil, h]
  · rw [lost?, lost?, memberAt?_cons, memberAt?_cons, h]

theorem lost?_of_absent (h : Assoc.get? upper key = none) (hplace : place ∈ d.objectsUnder key) :
    lost? path upper place = none := by
  obtain ⟨ms, -, rfl | ⟨inner, -, rfl⟩⟩ := mem_objectsUnder.mp hplace
  · rw [lost?, memberAt?_nil, h]
    rfl
  · rw [lost?, memberAt?_cons, h]
    rfl

/-- Inside an object that the class has, places are looked up in the class's object. -/
theorem lost?_cons {us : Skeleton} (h : Assoc.get? upper key = some (.nested us))
    (place : List MemberKey × MemberKey) :
    lost? path upper (key :: place.1, place.2) = lost? path us place := by
  rw [lost?, lost?, memberAt?_cons, h]
  rfl

theorem findSome?_congr {α β : Type} {f g : α → Option β} {l : List α} (h : ∀ a ∈ l, f a = g a) :
    l.findSome? f = l.findSome? g := by
  induction l with
  | nil => rfl
  | cons a rest ih =>
    rw [List.findSome?_cons, List.findSome?_cons, h a List.mem_cons_self,
      ih fun b hb => h b (List.mem_cons_of_mem _ hb)]

/-! ### Below the root -/

/-- A merge below the root reports the first object that the class has lost, if it does so member by
member.  Writing one member leaves what the others meet, so all of them are looked up in the class as it
was. -/
theorem failure?_mergeMembers_of (hlower : (Assoc.keys lower).Nodup)
    (member : ∀ p ∈ lower, ∀ upper own, Assoc.get? upper p.1 = some own →
      failure? (mergeMember path p.1 p.2 (some own)).2 =
        (p.2.objectsUnder p.1).findSome? (lost? path upper)) :
    ∀ upper, failure? (mergeMembers path lower upper).2 = (objectsIn lower).findSome? (lost? path upper) := by
  induction lower with
  | nil => exact fun _ => rfl
  | cons p rest ih =>
    obtain ⟨key, d⟩ := p
    intro upper
    obtain ⟨hfresh, hrest⟩ := List.nodup_cons.mp hlower
    have ih := ih hrest fun p hp => member p (List.mem_cons_of_mem _ hp)
    -- the places of the others start with other keys
    have hothers : ∀ m, (objectsIn rest).findSome? (lost? path (Assoc.insert upper key m)) =
        (objectsIn rest).findSome? (lost? path upper) := by
      refine fun m => findSome?_congr fun place hplace => ?_
      obtain ⟨p, hp, hplace⟩ := mem_objectsIn.mp hplace
      exact lost?_congr (get?_insert_of_fresh hfresh p hp) hplace
    rw [mergeMembers, objectsIn, List.findSome?_append]
    rcases hown : Assoc.get? upper key with _ | own
    · have hnone : (d.objectsUnder key).findSome? (lost? path upper) = none :=
        List.findSome?_eq_none_iff.mpr fun place hplace => lost?_of_absent hown hplace
      rw [mergeMember_none, hnone, Option.none_or]
      exact (ih _).trans (hothers _)
    · have hmember := member (key, d) List.mem_cons_self upper own hown
      rcases hm : mergeMember path key d (some own) with ⟨merged, e | u⟩
      · rw [hm] at hmember
        rw [← hmember]
        rfl
      · rw [hm] at hmember
        rw [← hmember]
        exact (ih _).trans (hothers _)

/-- Merging a member reports the first object under its key that the class has lost. -/
theorem failure?_mergeMember (hd : d.Distinct) (hown : Assoc.get? upper key = some own) :
    failure? (mergeMember path key d (some own)).2 =
      (d.objectsUnder key).findSome? (lost? path upper) := by
  induction d using MemberDescriptor.induction generalizing key upper own with
  | leaf d hleaf =>
    rw [mergeMember_of_leaf hleaf, objectsUnder_of_leaf key hleaf]
    rfl
  | nested ms ih =>
    rw [MemberDescriptor.Distinct, allLeaves_nested] at hd
    -- for the members inside, in whatever object the class has, by the induction on the descriptor
    have hlevel : ∀ us, failure? (mergeMembers path ms us).2 =
        (objectsIn ms).findSome? (lost? path us) :=
      failure?_mergeMembers_of hd.1 fun p hp _ _ => ih p hp (hd.2 p hp)
    rw [objectsUnder, List.findSome?_cons, List.findSome?_map]
    rcases hus : own.members? with _ | us
    · have hhead : lost? path upper ([], key) = some (.nestedReplaced path key own.kind) := by
        rw [lost?, memberAt?_nil, hown, Option.bind_some, if_pos hus]
      rw [mergeMember_nested_leaf ms hus, hhead]
      rfl
    · obtain rfl := eq_nested_of_members? hus
      have hhead : lost? path upper ([], key) = none := by
        rw [lost?, memberAt?_nil, hown]
        rfl
      rw [mergeMember_nested_nested, hhead]
      exact (hlevel us).trans (findSome?_congr fun place _ => (lost?_cons hown place).symm)

/-! ### The root -/

/-- What the checks at a member look at in the class: the member, and the alias that it may be given. -/
structure SameFor (owner? : Option String) (key : MemberKey) (written upper : Skeleton) : Prop where
  member : Assoc.get? written key = Assoc.get? upper key
  slot : ∀ owner, owner? = some owner →
    Assoc.contains written (.aliased owner key.display) =
      Assoc.contains upper (.aliased owner key.display)

theorem conflict?_congr (h : SameFor owner? key written upper) {check : Check}
    (hcheck : check ∈ checks key d) :
    conflict? path owner? written check = conflict? path owner? upper check := by
  rcases List.mem_append.mp hcheck with hcheck | hcheck
  · rcases List.mem_cons.mp hcheck with rfl | hcheck
    · rw [conflict?, conflict?, h.member]
    · obtain ⟨place, hplace, rfl⟩ := List.mem_map.mp hcheck
      exact lost?_congr h.member hplace
  · obtain rfl := List.mem_singleton.mp hcheck
    rw [conflict?, conflict?, h.member]
    rcases howner : owner? with _ | owner
    · rfl
    · rw [Option.bind_some, Option.bind_some, h.slot owner howner]

theorem mem_walk {ms : Skeleton} {check : Check} :
    check ∈ walk ms ↔ ∃ p ∈ ms, check ∈ checks p.1 p.2 := by
  induction ms with
  | nil => simp [walk]
  | cons p rest ih =>
    obtain ⟨key, d⟩ := p
    simp [walk, ih, or_and_right, exists_or]

/-- What the checks at one member of the root give together. -/
theorem findSome?_checks (key : MemberKey) (d : MemberDescriptor) :
    (checks key d).findSome? (conflict? path owner? upper) =
      (conflict? path owner? upper (.sides key d)).or
        (((d.objectsUnder key).findSome? (lost? path upper)).or
          (conflict? path owner? upper (.slot key d))) := by
  have hobjects : ((d.objectsUnder key).map fun place => Check.object place.1 place.2).findSome?
      (conflict? path owner? upper) = (d.objectsUnder key).findSome? (lost? path upper) := by
    rw [List.findSome?_map]
    rfl
  rw [checks, List.cons_append, List.findSome?_cons, List.findSome?_append, hobjects,
    List.findSome?_cons]
  cases conflict? path owner? upper (.sides key d) <;>
    cases conflict? path owner? upper (.slot key d) <;> rfl

theorem conflict?_sides (hown : Assoc.get? upper key = some own) (d : MemberDescriptor) :
    conflict? path owner? upper (.sides key d) =
      if mayOverride own d then none else some (.callableChanged path key) := by
  rw [conflict?, hown, Option.bind_some, mayOverride]
  cases own.isCallable <;> cases d.isCallable <;> cases d.isPlaceholder <;> rfl

/-- The aliases that a merge makes are different from one another and from the keys of what is merged
in. -/
def Clear (owner? : Option String) (ms : Skeleton) : Prop :=
  ∀ owner, owner? = some owner → Foreign owner ms ∧ (ms.map fun p => p.1.display).Nodup

theorem Clear.tail {p : MemberKey × MemberDescriptor} (h : Clear owner? (p :: lower)) :
    Clear owner? lower :=
  fun owner howner => ⟨(h owner howner).1.tail, (List.nodup_cons.mp (h owner howner).2).2⟩

theorem SameFor.trans {k : MemberKey} {last : Skeleton} (h : SameFor owner? k last written)
    (h' : SameFor owner? k written upper) : SameFor owner? k last upper :=
  ⟨h.member.trans h'.member, fun owner howner => (h.slot owner howner).trans (h'.slot owner howner)⟩

/-- Writing a member makes no difference to the checks at the others. -/
theorem sameFor_insert (hfresh : key ∉ Assoc.keys lower) (hclear : Clear owner? ((key, d) :: lower))
    (m : MemberDescriptor) : ∀ p ∈ lower, SameFor owner? p.1 (Assoc.insert upper key m) upper := by
  intro p hp
  refine ⟨get?_insert_of_fresh hfresh p hp, fun owner howner => ?_⟩
  have hne : key ≠ .aliased owner p.1.display := by
    rintro rfl
    exact (hclear owner howner).1 p.1.display List.mem_cons_self
  rw [Assoc.contains, Assoc.get?_insert_of_ne upper m hne, Assoc.contains]

theorem sameFor_insert_slot {owner : String} (howner : owner? = some owner)
    (hclear : Clear owner? ((key, d) :: lower)) :
    ∀ p ∈ lower,
      SameFor owner? p.1 (Assoc.insert upper (.aliased owner key.display) d) upper := by
  intro p hp
  obtain ⟨hforeign, hdisplays⟩ := hclear owner howner
  have hdisplay : key.display ≠ p.1.display := by
    intro heq
    exact (List.nodup_cons.mp hdisplays).1 (List.mem_map.mpr ⟨p, hp, heq.symm⟩)
  refine ⟨Assoc.get?_insert_of_ne upper d ?_, fun other hother => ?_⟩
  · intro heq
    exact hforeign.tail key.display (heq ▸ Assoc.mem_keys_of_mem hp)
  · rw [howner] at hother
    cases hother
    rw [Assoc.contains, Assoc.get?_insert_of_ne upper d (by simp [hdisplay]), Assoc.contains]

/-- Where members have the same checks in two skeletons, the same conflict comes first. -/
theorem findSome?_walk_congr (h : ∀ p ∈ lower, SameFor owner? p.1 written upper) :
    (walk lower).findSome? (conflict? path owner? written) =
      (walk lower).findSome? (conflict? path owner? upper) := by
  refine findSome?_congr fun check hcheck => ?_
  obtain ⟨p, hp, hcheck⟩ := mem_walk.mp hcheck
  exact conflict?_congr (h p hp) hcheck

/-- No check at a member that the class lacks gives an error. -/
theorem findSome?_checks_of_absent (h : Assoc.get? upper key = none) (d : MemberDescriptor) :
    (checks key d).findSome? (conflict? path owner? upper) = none := by
  have hsides : conflict? path owner? upper (.sides key d) = none := by
    rw [conflict?, h, Option.bind_none]
  have hobjects : (d.objectsUnder key).findSome? (lost? path upper) = none :=
    List.findSome?_eq_none_iff.mpr fun place hplace => lost?_of_absent h hplace
  have hslot : conflict? path owner? upper (.slot key d) = none := by
    rw [conflict?, h]
    cases owner? <;> rfl
  rw [findSome?_checks, hsides, hobjects, hslot]
  rfl

/-- An alias is looked for where both sides are methods, as they are where a method may be overridden. -/
theorem conflict?_slot (hown : Assoc.get? upper key = some own) (hallowed : mayOverride own d = true) :
    conflict? path owner? upper (.slot key d) =
      (keptKey? owner? key d).bind fun slot =>
        if Assoc.contains upper slot = true then some (.aliasTaken path slot) else none := by
  rw [conflict?, keptKey?, hown]
  rw [mayOverride] at hallowed
  rcases owner? with _ | owner
  · cases d.isCallable <;> rfl
  · cases hd : d.isCallable <;> cases hc : own.isCallable <;> simp_all

/-- A merge at the root reports the first conflict. -/
theorem failure?_mergeRoot (hlower : lower.Distinct) (hclear : Clear owner? lower) :
    ∀ upper before, failure? (mergeRoot path owner? lower upper before).2 =
      (walk lower).findSome? (conflict? path owner? upper) := by
  induction lower with
  | nil => exact fun _ _ => rfl
  | cons p rest ih =>
    obtain ⟨key, d⟩ := p
    intro upper before
    obtain ⟨hfresh, hd, hrest⟩ := allLeaves_cons.mp hlower
    have ih := ih hrest hclear.tail
    -- whatever is written under this key, the later checks are those of the class as it was
    have hsame : ∀ m, ∀ p ∈ rest, SameFor owner? p.1 (Assoc.insert upper key m) upper :=
      sameFor_insert hfresh hclear
    rw [mergeRoot, walk, List.findSome?_append]
    rcases hown : Assoc.get? upper key with _ | own
    · rw [findSome?_checks_of_absent hown, Option.none_or]
      exact (ih _ _).trans (findSome?_walk_congr (hsame d))
    rw [findSome?_checks, conflict?_sides hown, ← failure?_mergeMember hd hown]
    dsimp only
    by_cases hallowed : mayOverride own d = true
    · rw [if_pos hallowed, if_pos hallowed, Option.none_or, conflict?_slot hown hallowed]
      rcases hm : mergeMember path key d (some own) with ⟨merged, e | u⟩
      · rfl
      dsimp only
      rcases hslot : keptKey? owner? key d with _ | slot
      · exact (ih _ _).trans (findSome?_walk_congr (hsame merged))
      obtain ⟨-, owner, howner, rfl⟩ := keptKey?_eq_some.mp hslot
      -- the alias is not the member that has just been written
      have hne : key ≠ .aliased owner key.display := by
        intro heq
        exact (hclear owner howner).1 key.display (heq ▸ List.mem_cons_self)
      have hcontains : Assoc.contains (Assoc.insert upper key merged) (.aliased owner key.display) =
          Assoc.contains upper (.aliased owner key.display) := by
        rw [Assoc.contains, Assoc.get?_insert_of_ne upper merged hne, Assoc.contains]
      dsimp only
      rw [hcontains, Option.bind_some]
      by_cases htaken : Assoc.contains upper (.aliased owner key.display) = true
      · rw [if_pos htaken, if_pos htaken]
        rfl
      · rw [if_neg htaken, if_neg htaken]
        refine (ih _ _).trans (findSome?_walk_congr fun p hp => ?_)
        exact (sameFor_insert_slot howner hclear p hp).trans (hsame merged p hp)
    · rw [if_neg hallowed, if_neg hallowed]
      rfl

/-! ### Conflicts of two skeletons -/

/-- A member of both is a method on one side only, and it is not the null placeholder that has become a
method. -/
def ChangesSides (child parent : Skeleton) : Prop :=
  ∃ key own d, Assoc.get? child key = some own ∧ Assoc.get? parent key = some d ∧
    own.isCallable ≠ d.isCallable ∧ ¬(own.isCallable = true ∧ d.isPlaceholder = true)

/-- A member is a method on both sides, and the alias for the parent's is a key of the class. -/
def AliasTaken (parentName : String) (child parent : Skeleton) : Prop :=
  ∃ key own d, Assoc.get? child key = some own ∧ Assoc.get? parent key = some d ∧
    own.isCallable = true ∧ d.isCallable = true ∧ .aliased parentName key.display ∈ Assoc.keys child

/-- At the root, or at a path of keys along which both have nested objects, the parent has a nested object
where the class has something else. -/
def LosesObject (child parent : Skeleton) : Prop :=
  ∃ trail key inner below own ms, child.objectAt? trail = some inner ∧
    parent.objectAt? trail = some below ∧ Assoc.get? inner key = some own ∧
    Assoc.get? below key = some (.nested ms) ∧ own.members? = none

/-- A composition fails exactly where there is a conflict, and with the error of the first one that a walk
through the parent meets. -/
structure FailsOnConflict {α : Type} (path : String) (owner? : Option String) (child parent : Skeleton)
    (outcome : Except ClassError α) : Prop where
  fails_iff : (∃ e, outcome = .error e) ↔ ChangesSides child parent ∨
    (∃ owner, owner? = some owner ∧ AliasTaken owner child parent) ∨ LosesObject child parent
  first : ∀ e, outcome = .error e → ∃ before check after, walk parent = before ++ check :: after ∧
    conflict? path owner? child check = some e ∧ e.kind = check.kind ∧
    ∀ other ∈ before, conflict? path owner? child other = none

theorem mem_objectsIn_iff {ms : Skeleton} (hms : ms.Distinct) :
    (trail, key) ∈ objectsIn ms ↔
      ∃ below inner, ms.objectAt? trail = some below ∧ Assoc.get? below key = some (.nested inner) := by
  induction trail generalizing ms with
  | nil =>
    rw [mem_objectsIn]
    constructor
    · rintro ⟨⟨k, d⟩, hp, hplace⟩
      obtain ⟨inner, hinner, hplace | ⟨place, -, hplace⟩⟩ := mem_objectsUnder.mp hplace
      · cases hplace
        exact ⟨ms, inner, rfl, Assoc.get?_of_mem hms.1 (hinner ▸ hp)⟩
      · cases hplace
    · rintro ⟨_, inner, ⟨⟩, hinner⟩
      exact ⟨(key, .nested inner), Assoc.mem_of_get? hinner, mem_objectsUnder.mpr ⟨inner, rfl, .inl rfl⟩⟩
  | cons k trail ih =>
    rw [mem_objectsIn]
    constructor
    · rintro ⟨⟨k', d⟩, hp, hplace⟩
      -- a place with a longer trail is below an object of this level, and trails are followed by look-up
      obtain ⟨us, hus, hplace | ⟨place, hmem, hplace⟩⟩ := mem_objectsUnder.mp hplace
      · cases hplace
      · cases hplace
        have hget : Assoc.get? ms k' = some (.nested us) := Assoc.get?_of_mem hms.1 (hus ▸ hp)
        have hdistinct : Distinct us := (allLeaves_nested us).mp (allLeaves_of_get? hms hget)
        obtain ⟨below, inner, hbelow, hinner⟩ := (ih hdistinct).mp hmem
        exact ⟨below, inner, objectAt?_cons_eq_some.mpr ⟨us, hget, hbelow⟩, hinner⟩
    · rintro ⟨below, inner, hbelow, hinner⟩
      obtain ⟨us, hget, hbelow⟩ := objectAt?_cons_eq_some.mp hbelow
      have hdistinct : Distinct us := (allLeaves_nested us).mp (allLeaves_of_get? hms hget)
      refine ⟨(k, .nested us), Assoc.mem_of_get? hget, mem_objectsUnder.mpr ⟨us, rfl, .inr ?_⟩⟩
      exact ⟨(trail, key), (ih hdistinct).mpr ⟨below, inner, hbelow, hinner⟩, rfl⟩

/-- A check is made for each member of the root, and one for each nested object at any depth. -/
theorem mem_walk_iff {ms : Skeleton} {check : Check} : check ∈ walk ms ↔
    (∃ p ∈ ms, check = .sides p.1 p.2) ∨ (∃ place ∈ objectsIn ms, check = .object place.1 place.2) ∨
      ∃ p ∈ ms, check = .slot p.1 p.2 := by
  rw [mem_walk]
  constructor
  · rintro ⟨p, hp, hcheck⟩
    rcases List.mem_append.mp hcheck with hcheck | hcheck
    · rcases List.mem_cons.mp hcheck with rfl | hcheck
      · exact .inl ⟨p, hp, rfl⟩
      · obtain ⟨place, hplace, rfl⟩ := List.mem_map.mp hcheck
        exact .inr (.inl ⟨place, mem_objectsIn.mpr ⟨p, hp, hplace⟩, rfl⟩)
    · exact .inr (.inr ⟨p, hp, List.mem_singleton.mp hcheck⟩)
  · rintro (⟨p, hp, rfl⟩ | ⟨place, hplace, rfl⟩ | ⟨p, hp, rfl⟩)
    · exact ⟨p, hp, List.mem_append_left _ List.mem_cons_self⟩
    · obtain ⟨p, hp, hplace⟩ := mem_objectsIn.mp hplace
      refine ⟨p, hp, List.mem_append_left _ (List.mem_cons_of_mem _ ?_)⟩
      exact List.mem_map.mpr ⟨place, hplace, rfl⟩
    · exact ⟨p, hp, List.mem_append_right _ (List.mem_singleton.mpr rfl)⟩

variable {child parent : Skeleton}

/-- Some check finds a conflict exactly where there is one. -/
theorem exists_conflict_iff (path : String) (hparent : parent.Distinct) :
    (∃ check ∈ walk parent, ∃ e, conflict? path owner? child check = some e) ↔
      ChangesSides child parent ∨ (∃ owner, owner? = some owner ∧ AliasTaken owner child parent) ∨
        LosesObject child parent := by
  constructor
  · rintro ⟨check, hcheck, e, he⟩
    -- each of the three sorts of check finds one of the three sorts of conflict, and the other way round
    rcases mem_walk_iff.mp hcheck with ⟨p, hp, rfl⟩ | ⟨place, hplace, rfl⟩ | ⟨p, hp, rfl⟩
    · obtain ⟨own, hown, ⟨hsides, hplaceholder⟩, -⟩ := conflict?_sides_eq_some.mp he
      exact .inl ⟨p.1, own, p.2, hown, Assoc.get?_of_mem hparent.1 hp, hsides, hplaceholder⟩
    · obtain ⟨own, hmember, hleaf, -⟩ := lost?_eq_some.mp he
      obtain ⟨inner, hinner, hown⟩ := Option.bind_eq_some_iff.mp hmember
      obtain ⟨below, ms, hbelow, hms⟩ := (mem_objectsIn_iff hparent).mp hplace
      exact .inr (.inr ⟨place.1, place.2, inner, below, own, ms, hinner, hbelow, hown, hms, hleaf⟩)
    · obtain ⟨owner, howner, own, hown, ⟨hcallable, hd, htaken⟩, -⟩ := conflict?_slot_eq_some.mp he
      exact .inr (.inl ⟨owner, howner, p.1, own, p.2, hown, Assoc.get?_of_mem hparent.1 hp, hcallable,
        hd, (Assoc.contains_iff _ _).mp htaken⟩)
  · rintro (⟨key, own, d, hown, hd, hsides⟩ | ⟨owner, howner, key, own, d, hown, hd, hc, hdc, htaken⟩ |
      ⟨trail, key, inner, below, own, ms, hinner, hbelow, hown, hms, hleaf⟩)
    · exact ⟨.sides key d, mem_walk_iff.mpr (.inl ⟨(key, d), Assoc.mem_of_get? hd, rfl⟩), _,
        conflict?_sides_eq_some.mpr ⟨own, hown, hsides, rfl⟩⟩
    · refine ⟨.slot key d, mem_walk_iff.mpr (.inr (.inr ⟨(key, d), Assoc.mem_of_get? hd, rfl⟩)), _,
        conflict?_slot_eq_some.mpr ⟨owner, howner, own, hown, ⟨hc, hdc, ?_⟩, rfl⟩⟩
      exact (Assoc.contains_iff _ _).mpr htaken
    · have hplace : (trail, key) ∈ objectsIn parent :=
        (mem_objectsIn_iff hparent).mpr ⟨below, ms, hbelow, hms⟩
      have hmember : child.memberAt? trail key = some own := by
        rw [memberAt?, hinner, Option.bind_some, hown]
      exact ⟨.object trail key, mem_walk_iff.mpr (.inr (.inl ⟨_, hplace, rfl⟩)), _,
        lost?_eq_some.mpr ⟨own, hmember, hleaf, rfl⟩⟩

/-- An outcome that reports the first conflict of the walk is a failure on a conflict. -/
theorem failsOnConflict_of {α : Type} {outcome : Except ClassError α} (hparent : parent.Distinct)
    (h : failure? outcome = (walk parent).findSome? (conflict? path owner? child)) :
    FailsOnConflict path owner? child parent outcome := by
  refine ⟨?_, fun e he => ?_⟩
  · rw [← exists_conflict_iff path hparent]
    constructor
    · rintro ⟨e, he⟩
      rw [failure?_eq_some.mpr he] at h
      obtain ⟨check, hcheck, herror⟩ := List.exists_of_findSome?_eq_some h.symm
      exact ⟨check, hcheck, e, herror⟩
    · rintro ⟨check, hcheck, e, he⟩
      have hsome : ((walk parent).findSome? (conflict? path owner? child)).isSome = true :=
        List.findSome?_isSome_iff.mpr ⟨check, hcheck, by rw [he]; rfl⟩
      rw [← h, Option.isSome_iff_exists] at hsome
      obtain ⟨e', he'⟩ := hsome
      exact ⟨e', failure?_eq_some.mp he'⟩
  · rw [failure?_eq_some.mpr he] at h
    obtain ⟨before, check, after, hwalk, herror, hbefore⟩ := List.findSome?_eq_some_iff.mp h.symm
    exact ⟨before, check, after, hwalk, herror, kind_of_conflict? herror, hbefore⟩

theorem findSome?_walk_shiftMembers (offset : Nat) (ms : Skeleton) :
    (walk (shiftMembers offset ms)).findSome? (conflict? path owner? child) =
      (walk ms).findSome? (conflict? path owner? child) := by
  induction ms with
  | nil => rfl
  | cons p rest ih =>
    obtain ⟨key, d⟩ := p
    have hsides : conflict? path owner? child (.sides key (shiftDeep offset d)) =
        conflict? path owner? child (.sides key d) := by
      rw [conflict?, conflict?, isCallable_shiftDeep, isPlaceholder_shiftDeep]
    have hslot : conflict? path owner? child (.slot key (shiftDeep offset d)) =
        conflict? path owner? child (.slot key d) := by
      rw [conflict?, conflict?, isCallable_shiftDeep]
    rw [shiftMembers, walk, walk, List.findSome?_append, List.findSome?_append, ih, findSome?_checks,
      findSome?_checks, hsides, hslot, objectsUnder_shiftDeep]

/-- Composing fails exactly on conflicts: extending on all three sorts, for a parent whose root keys are
written differently and are no aliases that name it, and implementing on two of them. -/
theorem composition_failsOnConflict (path : String) (child : Skeleton) (hparent : parent.Distinct) :
    (∀ parentName, (parent.map fun p => p.1.display).Nodup → Foreign parentName parent →
      FailsOnConflict path (some parentName) child parent (extend path child parentName parent).2) ∧
    ∀ offset, FailsOnConflict path none child parent (implement path child parent offset).2 := by
  refine ⟨fun parentName hdisplays hforeign => ?_, fun offset => ?_⟩
  · rw [extend_eq_mergeRoot hparent]
    refine failsOnConflict_of hparent (failure?_mergeRoot hparent ?_ child [])
    intro owner howner
    cases howner
    exact ⟨hforeign, hdisplays⟩
  · refine failsOnConflict_of hparent ?_
    have hclear : Clear none (shiftMembers offset parent) := by
      intro owner howner
      cases howner
    have hmerge : failure? (mergeRoot path none (shiftMembers offset parent) child []).2 =
        (walk (shiftMembers offset parent)).findSome? (conflict? path none child) :=
      failure?_mergeRoot (distinct_shiftMembers hparent offset) hclear child []
    rw [findSome?_walk_shiftMembers] at hmerge
    rw [← hmerge, implement_eq_mergeRoot hparent]
    rcases mergeRoot path none (shiftMembers offset parent) child [] with ⟨_, _ | _⟩ <;> rfl

end Skeleton

namespace Sample

/-- A class that is in conflict with the sample three times: over an alias, an object and a method. -/
def disputed : Skeleton :=
  [(.plain "run", .function 2), (.aliased "Basic" "run", .function 5),
    (.plain "options", .nested [(.plain "inner", .emptyArray)]), (.plain "items", .function 1)]

end Sample

namespace Skeleton

/-- A parent meets the alias first, and a mixin, for which none is made, the object. -/
theorem composition_failsOnConflict_disputed :
    (extend "Ns.Derived" Sample.disputed "Basic" Sample.basic).2 =
        .error (.aliasTaken "Ns.Derived" (.aliased "Basic" "run")) ∧
      (implement "Ns.Derived" Sample.disputed Sample.basic 4).2 =
        .error (.nestedReplaced "Ns.Derived" (.plain "inner") .emptyArray) ∧
      FailsOnConflict "Ns.Derived" (some "Basic") Sample.disputed Sample.basic
        (extend "Ns.Derived" Sample.disputed "Basic" Sample.basic).2 ∧
      FailsOnConflict "Ns.Derived" none Sample.disputed Sample.basic
        (implement "Ns.Derived" Sample.disputed Sample.basic 4).2 := by
  have hboth := composition_failsOnConflict "Ns.Derived" Sample.disputed Sample.basic_distinct
  have hdisplays : (Sample.basic.map fun p => p.1.display).Nodup := by decide
  exact ⟨rfl, rfl, hboth.1 "Basic" hdisplays Sample.basic_foreign, hboth.2 4⟩

end Skeleton

end ClassComposition
