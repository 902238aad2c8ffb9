import ClassComposition.Proofs.Class.Alike
import ClassComposition.Proofs.Registry.Lookup

/-!
# Instances in two runs

A class that is alike in two runs has constructors in both, or in neither, and its new instances hold the
same: what is made from a descriptor shows nothing of the sort in which an array was kept.

## Main definitions

* `Store.seen` — a value as it is, and an array by its elements.
* `Tree.contents` — what a value shows that is made from a tree.
* `MemberDescriptor.storedKind` — the sort of a descriptor, literal arrays counted with copied ones.
* `Store.SameInstance` — instances of both runs that hold the same.

## Main results

* `Constructor.build_alike` — building constructors.
* `Made.shows` — a made value shows the contents of its tree.
* `ClassDefinition.Alike.sameInstance` — new instances hold the same.
-/

namespace ClassComposition

open MemberDescriptor

/-! ### What a leaf tells -/

namespace Resolved

/-- What a leaf stands for: a value, or the elements of a new array. -/
def seen : Resolved → Value ⊕ List Value
  | literal v => .inl v
  | text x => .inl (.text x)
  | function entry | pattern entry => .inl (entry.getD .undefined)
  | inlineArray items => .inr items
  | emptyArray | arrayCopy _ | object => .inr []

/-- The entry of a leaf that becomes a slot. -/
def slotValue? : Resolved → Option (Option Value)
  | function entry | pattern entry => some entry
  | _ => none

/-- The sort of a descriptor that stands for this. -/
def storedKind : Resolved → DescriptorKind
  | literal _ => .literal
  | text _ => .text
  | function _ => .function
  | pattern _ => .pattern
  | emptyArray => .emptyArray
  | inlineArray _ | arrayCopy _ => .arrayCopy
  | object => .nested

end Resolved

/-- The sort of a descriptor, arrays that are kept as literals being counted with those that are copied. -/
def MemberDescriptor.storedKind (d : MemberDescriptor) : DescriptorKind :=
  match d.kind with
  | .inlineArray => .arrayCopy
  | kind => kind

namespace ReferenceTable

theorem slotValue?_settled (t : ReferenceTable) (s : Store) (d : MemberDescriptor) :
    (t.settled s d).slotValue? = d.slotIndex?.map t.get? := by
  cases d <;> rfl

theorem storedKind_settled (t : ReferenceTable) (s : Store) (d : MemberDescriptor) :
    (t.settled s d).storedKind = d.storedKind := by
  cases d <;> rfl

end ReferenceTable

/-- A value as it is, and an array by its elements. -/
def Store.seen (s : Store) : Value → Value ⊕ List Value
  | .array a => .inr (s.array a)
  | v => .inl v

/-! ### What made values show -/

mutual

/-- What a value shows that is made from a tree. -/
def Tree.contents : Tree Resolved → Contents (Value ⊕ List Value)
  | leaf r => .leaf r.seen
  | object members => .object (Tree.contentsAll members)
termination_by structural tree => tree

/-- What values show that are made from the trees of members, under the texts of their keys. -/
def Tree.contentsAll : List (MemberKey × Tree Resolved) → List (String × Contents (Value ⊕ List Value))
  | [] => []
  | (key, tree) :: rest => (key.display, Tree.contents tree) :: Tree.contentsAll rest
termination_by structural members => members

end

section Made

variable {t : ReferenceTable} {s u : Store}

mutual

/-- A made value shows the contents of its tree, the arrays of the table having the elements that they had
when it was made. -/
theorem Made.shows {d : MemberDescriptor} {v : Value} :
    Made t s u d v → u.Shows u.objects.Has u.seen v (d.tree (t.settled s)).contents
  | .literal (v := v) h => by
    cases v with
    | null | boolean b | number x => exact .leaf (by simp [Value.kind])
    | _ => simp [Value.kind] at h
  | .text x => .leaf (by simp [Value.kind])
  | .function (i := i) (f := f) h => by
    have hread : (t.settled s (.function i)).seen = .inl (.function f) := by
      rw [ReferenceTable.settled, ReferenceTable.read, h]
      rfl
    rw [tree_leaf _ rfl, Tree.contents, hread]
    exact .leaf (by simp [Value.kind])
  | .pattern (i := i) (p := p) h => by
    have hread : (t.settled s (.pattern i)).seen = .inl (.pattern p) := by
      rw [ReferenceTable.settled, ReferenceTable.read, h]
      rfl
    rw [tree_leaf _ rfl, Tree.contents, hread]
    exact .leaf (by simp [Value.kind])
  | .emptyArray (a := a) _ items => by
    have hread : u.seen (.array a) = .inr [] := congrArg Sum.inr items
    rw [tree_leaf _ rfl, Tree.contents, show (t.settled s .emptyArray).seen = .inr [] from rfl, ← hread]
    exact .leaf (by simp [Value.kind])
  | .inlineArray (a := a) _ _ => by
    rw [tree_leaf _ rfl, Tree.contents]
    exact .leaf (by simp [Value.kind])
  | .arrayCopy (i := i) (a := a) h _ items => by
    have hread : (t.settled s (.arrayCopy i)).seen = u.seen (.array a) := by
      rw [ReferenceTable.settled, ReferenceTable.read, h]
      exact congrArg Sum.inr items.symm
    rw [tree_leaf _ rfl, Tree.contents, hread]
    exact .leaf (by simp [Value.kind])
  | .nested isNew h => by
    rw [Skeleton.tree_nested, Tree.contents]
    exact .object isNew.2 h.showsAll

theorem MadeAll.showsAll {ms : Skeleton} {entries : Assoc String Value} :
    MadeAll t s u ms entries →
      u.ShowsAll u.objects.Has u.seen entries (Tree.contentsAll (ms.forest (t.settled s)))
  | .nil => .nil
  | .cons first others => .cons first.shows others.showsAll

end

end Made

/-! ### Slots and fields -/

namespace Skeleton

variable {s s' : Store} {t t' : ReferenceTable} {ms ms' : Skeleton} {d d' : MemberDescriptor}

/-- Members that stand for the same become fields, or slots with the same values. -/
theorem slot_cases_of_tree (h : d.tree (t.settled s) = d'.tree (t'.settled s')) :
    (d.slotIndex? = none ∧ d'.slotIndex? = none) ∨
      ∃ i i', d.slotIndex? = some i ∧ d'.slotIndex? = some i' ∧ t.get? i = t'.get? i' := by
  have hvalues : d.slotIndex?.map t.get? = d'.slotIndex?.map t'.get? := by
    rcases tree_eq_cases h with ⟨-, -, hread⟩ | ⟨ns, ns', rfl, rfl, -⟩
    · rw [← ReferenceTable.slotValue?_settled t s, hread, ReferenceTable.slotValue?_settled]
    · rfl
  rcases hslot : d.slotIndex? with _ | i
  · rw [hslot, Option.map_none, eq_comm, Option.map_eq_none_iff] at hvalues
    exact .inl ⟨rfl, hvalues⟩
  · rw [hslot, Option.map_some, eq_comm, Option.map_eq_some_iff] at hvalues
    obtain ⟨i', hslot', hget⟩ := hvalues
    exact .inr ⟨i, i', rfl, hslot', hget.symm⟩

theorem forest_data_eq (h : ms.forest (t.settled s) = ms'.forest (t'.settled s')) :
    ms.data.forest (t.settled s) = ms'.data.forest (t'.settled s') := by
  induction ms generalizing ms' with
  | nil =>
    cases ms' with
    | nil => rfl
    | cons q rest' => cases h
  | cons p rest ih =>
    obtain ⟨key, d⟩ := p
    obtain ⟨d', rest', rfl, htree, hrest⟩ := forest_cons_eq h
    rcases slot_cases_of_tree htree with ⟨hslot, hslot'⟩ | ⟨i, i', hslot, hslot', -⟩
    · rw [data_cons_field hslot, data_cons_field hslot']
      show (key, d.tree _) :: forest _ (Skeleton.data rest)
        = (key, d'.tree _) :: forest _ (Skeleton.data rest')
      rw [htree, ih hrest]
    · rw [data_cons_slot hslot, data_cons_slot hslot', ih hrest]

end Skeleton

namespace Constructor

variable {s s' : Store} {t t' : ReferenceTable} {ms ms' : Skeleton}

theorem slots_eq_of_forest {path path' : String} {ps ps' : Parts}
    (h : ms.forest (t.settled s) = ms'.forest (t'.settled s')) (hps : parts path t ms = .ok ps)
    (hps' : parts path' t' ms' = .ok ps') : ps.slots = ps'.slots := by
  induction ms generalizing ms' ps ps' with
  | nil =>
    cases ms' with
    | nil =>
      cases hps
      cases hps'
      rfl
    | cons q rest' => cases h
  | cons p rest ih =>
    obtain ⟨key, d⟩ := p
    obtain ⟨d', rest', rfl, htree, hrest⟩ := Skeleton.forest_cons_eq h
    obtain ⟨others, hothers, hslots⟩ := slots_of_parts_cons hps
    obtain ⟨others', hothers', hslots'⟩ := slots_of_parts_cons hps'
    -- only the entry that a slot points to matters, not the table or the index
    have hentry : d.slotIndex?.bind t.get? = d'.slotIndex?.bind t'.get? := by
      rcases Skeleton.slot_cases_of_tree htree with ⟨hslot, hslot'⟩ | ⟨i, i', hslot, hslot', hget⟩
      · rw [hslot, hslot']
        rfl
      · rw [hslot, hslot']
        exact hget
    rw [hslots, hslots', hentry, ih hrest hothers hothers']

/-! ### Building -/

variable {copies : String → Prop} {c c' : ClassDefinition} {config config' : Config} {w w' : World}

theorem initOf_alike (hconfig : config'.initMember = config.initMember)
    (h : c.Alike copies s s' c') :
    SameOutcome (fun a b => a = b) (initOf config c) (initOf config' c') := by
  unfold initOf
  rw [hconfig]
  rcases Skeleton.get?_of_forest h.members.forest_eq (MemberKey.parse config.initMember)
    with ⟨hd, hd'⟩ | ⟨d, d', hd, hd', htree⟩
  · rw [hd, hd']
    exact .ok rfl
  · obtain ⟨hcallable, hplaceholder⟩ :=
      (ReferenceTable.telling_settled c.references c'.references s s').of_tree htree
    rw [hd, hd']
    dsimp only
    rw [hcallable, hplaceholder]
    split
    · exact .ok rfl
    · split
      · exact .ok rfl
      · exact .error rfl

theorem hookOf_alike (hconfig : config'.afterInitMember = config.afterInitMember)
    (h : c.Alike copies s s' c') :
    SameOutcome (fun a b => a = b) (hookOf config c) (hookOf config' c') := by
  unfold hookOf
  rw [hconfig]
  rcases Skeleton.get?_of_forest h.members.forest_eq (MemberKey.parse config.afterInitMember)
    with ⟨hd, hd'⟩ | ⟨d, d', hd, hd', htree⟩
  · rw [hd, hd']
    exact .ok rfl
  · obtain ⟨hcallable, -⟩ :=
      (ReferenceTable.telling_settled c.references c'.references s s').of_tree htree
    rw [hd, hd']
    dsimp only
    rw [hcallable]
    split
    · exact .ok rfl
    · exact .error rfl

variable (config config') in
/-- The constructor of a class is built in both runs, or it fails to be built for reasons of one kind. -/
theorem build_alike (hinit : config'.initMember = config.initMember)
    (hhook : config'.afterInitMember = config.afterInitMember) (h : c.Alike copies s s' c') :
    Action.Alike (fun _ _ _ _ => True) (build config c) w (build config' c') w' := by
  obtain ⟨ps, hps⟩ := exists_parts c.path h.members.sound.2
  obtain ⟨ps', hps'⟩ := exists_parts c'.path h.members.sound'.2
  unfold build
  rw [h.isAbstract_eq]
  by_cases habstract : c.isAbstract = true
  · rw [if_pos habstract, if_pos habstract]
    exact .ok trivial
  · rw [if_neg habstract, if_neg habstract, hps, hps']
    refine Action.alike_ofExcept_bind (T := fun _ _ => True) (.ok trivial) fun _ _ _ _ _ => ?_
    refine Action.alike_ofExcept_bind (initOf_alike hinit h) fun _ _ _ _ _ => ?_
    refine Action.alike_ofExcept_bind (hookOf_alike hhook h) fun _ _ _ _ _ => ?_
    exact .ok trivial

end Constructor

/-! ### New instances -/

namespace ClassDefinition.Alike

variable {copies : String → Prop} {c c' : ClassDefinition} {s s' t t' : Store} {k k' : Constructor}
  {i i' : Handle .inst}

/-- Skeletons of both runs have the same keys at every level, and under them descriptors of the same sort
but for arrays. -/
theorem storedKinds_eq (h : c.Alike copies s s' c') :
    c.skeleton.forest storedKind = c'.skeleton.forest storedKind := by
  refine Skeleton.forest_transfer (fun d d' hread => ?_) h.members.forest_eq
  rw [← ReferenceTable.storedKind_settled c.references s d, hread, ReferenceTable.storedKind_settled]

/-- The fields of new instances show the same contents under the same names. -/
theorem exists_fields (h : c.Alike copies s s' c') (hnew : k.NewInstance c s t i)
    (hnew' : k'.NewInstance c' s' t' i') :
    ∃ contents, t.ShowsAll t.objects.Has t.seen (t.instanceAt i).fields contents ∧
      t'.ShowsAll t'.objects.Has t'.seen (t'.instanceAt i').fields contents := by
  refine ⟨_, hnew.made.showsAll, ?_⟩
  rw [Skeleton.forest_data_eq h.members.forest_eq]
  exact hnew'.made.showsAll

/-- The prototypes of both runs have the same slots with the same values, but for the copies among the
shared members, which have the same contents. -/
theorem slots_beside (h : c.Alike copies s s' c') (hnames : (Assoc.keys c.shared).Nodup)
    (hvisible : ∀ q ∈ c.shared, MemberKey.parse q.1 ∉ Assoc.keys c.skeleton)
    {ps ps' : Constructor.Parts} (hps : Constructor.parts c.path c.references c.skeleton = .ok ps)
    (hps' : Constructor.parts c'.path c'.references c'.skeleton = .ok ps') :
    Assoc.Beside
      (fun key v v' => v = v' ∨ ∃ name, key = MemberKey.parse name ∧ copies name ∧ s.SameContents s' v v')
      (Constructor.prototypeOf c ps.slots).slots (Constructor.prototypeOf c' ps'.slots).slots := by
  -- both skeletons have the same keys, so what hides no shared member here hides none there
  have hkeys := Skeleton.keys_eq_of_forest h.members.forest_eq
  have hshared := h.shared.keys_eq
  have hnames' : (Assoc.keys c'.shared).Nodup := hshared ▸ hnames
  have hvisible' : ∀ q ∈ c'.shared, MemberKey.parse q.1 ∉ Assoc.keys c'.skeleton := by
    intro q hq
    have hmem : q.1 ∈ Assoc.keys c.shared := by
      rw [hshared]
      exact Assoc.mem_keys_of_mem hq
    obtain ⟨p, hp, hname⟩ := List.mem_map.mp hmem
    rw [← hkeys, ← hname]
    exact hvisible p hp
  have hdistinct := Constructor.nodup_slots_append h.members.sound.1 hnames hvisible hps
  have hdistinct' := Constructor.nodup_slots_append h.members.sound'.1 hnames' hvisible' hps'
  rw [Constructor.prototypeOf, Constructor.prototypeOf]
  dsimp only
  rw [Assoc.ofList_of_nodup hdistinct, Assoc.ofList_of_nodup hdistinct',
    Constructor.slots_eq_of_forest h.members.forest_eq hps hps']
  -- the slots of members are the same, and those of shared members stand behind them
  refine (Assoc.beside_self (fun _ _ => .inl rfl) _).append (h.shared.map ?_)
  rintro name v v' ⟨hcontents, hsame⟩
  exact hsame.imp_right fun hcopy => ⟨name, rfl, hcopy, hcontents⟩

end ClassDefinition.Alike

/-- Two instances, one in each store, that hold the same: fields with the same names in order and the same
contents at any depth, arrays having the same elements, and prototypes with the same slots, each with the
same value, or with objects of the same contents where there are copies of shared objects. -/
structure Store.SameInstance (copies : String → Prop) (t t' : Store) (i i' : Handle .inst) : Prop where
  fieldNames_eq : t.fieldNames i = t'.fieldNames i'
  fields : ∃ contents, t.ShowsAll t.objects.Has t.seen (t.instanceAt i).fields contents ∧
    t'.ShowsAll t'.objects.Has t'.seen (t'.instanceAt i').fields contents
  slots : Assoc.Beside
    (fun key v v' => v = v' ∨ ∃ name, key = MemberKey.parse name ∧ copies name ∧ t.SameContents t' v v')
    (t.prototypeOf i).slots (t'.prototypeOf i').slots

/-- New instances of a class of both runs hold the same. -/
theorem ClassDefinition.Alike.sameInstance {copies : String → Prop} {c c' : ClassDefinition}
    {s s' t t' : Store} {k k' : Constructor} {i i' : Handle .inst} (h : c.Alike copies s s' c')
    (hnames : (Assoc.keys c.shared).Nodup)
    (hvisible : ∀ q ∈ c.shared, MemberKey.parse q.1 ∉ Assoc.keys c.skeleton)
    (hnew : k.NewInstance c s t i) (hnew' : k'.NewInstance c' s' t' i') (hunpatched : k.Unpatched c s)
    (hunpatched' : k'.Unpatched c' s') : Store.SameInstance copies t t' i i' := by
  obtain ⟨ps, hps⟩ := Constructor.exists_parts c.path h.members.sound.2
  obtain ⟨ps', hps'⟩ := Constructor.exists_parts c'.path h.members.sound'.2
  obtain ⟨contents, hfields, hfields'⟩ := h.exists_fields hnew hnew'
  refine ⟨?_, ⟨contents, hfields, hfields'⟩, ?_⟩
  · rw [Store.fieldNames, ← hfields.keys_eq, hfields'.keys_eq, Store.fieldNames]
  · rw [hnew.prototypeOf_eq hunpatched hps, hnew'.prototypeOf_eq hunpatched' hps']
    refine (h.slots_beside hnames hvisible hps hps').mono fun key v v' _ _ hsame => ?_
    refine hsame.imp_right ?_
    rintro ⟨name, hkey, hcopy, hcontents⟩
    exact ⟨name, hkey, hcopy, hcontents.within hnew.within hnew'.within⟩

end ClassComposition
