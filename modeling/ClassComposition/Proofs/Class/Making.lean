import ClassComposition.Proofs.Class.Reading
import ClassComposition.Proofs.Member.Regular
import ClassComposition.Proofs.Store.Extension
import Mathlib.Data.List.Nodup
import Mathlib.Data.List.Pairwise

/-!
# Values that are made from descriptors

An initializer makes the value that its descriptor describes: data as it is, functions and patterns by
their handles, and for every array and every nested object a new one.  Each container comes into being
while the value is made, and those at different positions one after the other, so they are new and
pairwise different.

## Main definitions

* `Made`, `MadeAll` — a value is what a descriptor describes over a table.
* `Store.Separated`, `Store.Apart` — containers at different positions are different.

## Main results

* `Made.isNew`, `Made.propertyAt?_eq` — the containers of a made value are new, and what stands in it
  stays.
* `Initializer.made_run`, `Initializer.made_runAll` — what initializers make.
-/

namespace ClassComposition

open MemberDescriptor

/-! ### Made values -/

mutual

/-- A value is what a descriptor describes over a table: data, functions and patterns as they are, and new
arrays and objects with the elements and the properties described.  The elements of a copied array are
those that it had in the first store. -/
inductive Made (t : ReferenceTable) (s u : Store) : MemberDescriptor → Value → Prop
  | literal {v : Value} (h : v.kind = .null ∨ v.kind = .boolean ∨ v.kind = .number) :
      Made t s u (.literal v) v
  | text (x : String) : Made t s u (.text x) (.text x)
  | function {i : Nat} {f : Handle .function} (h : t.get? i = some (.function f)) :
      Made t s u (.function i) (.function f)
  | pattern {i : Nat} {p : Handle .pattern} (h : t.get? i = some (.pattern p)) :
      Made t s u (.pattern i) (.pattern p)
  | emptyArray {a : Handle .array} (isNew : s.IsNew u (.array a)) (items : u.array a = []) :
      Made t s u .emptyArray (.array a)
  | inlineArray {a : Handle .array} (isNew : s.IsNew u (.array a))
      (simple : ∀ v ∈ u.array a, v.isSimple = true) : Made t s u (.inlineArray (u.array a)) (.array a)
  | arrayCopy {i : Nat} {source a : Handle .array} (h : t.get? i = some (.array source))
      (isNew : s.IsNew u (.array a)) (items : u.array a = s.array source) :
      Made t s u (.arrayCopy i) (.array a)
  | nested {ms : Skeleton} {o : Handle .object} (isNew : s.IsNew u (.object o))
      (h : MadeAll t s u ms (u.object o)) : Made t s u (.nested ms) (.object o)

/-- Values are what members describe, each under the text of its key. -/
inductive MadeAll (t : ReferenceTable) (s u : Store) : Skeleton → Assoc String Value → Prop
  | nil : MadeAll t s u [] []
  | cons {key : MemberKey} {d : MemberDescriptor} {rest : Skeleton} {v : Value}
      {entries : Assoc String Value} (first : Made t s u d v) (others : MadeAll t s u rest entries) :
      MadeAll t s u ((key, d) :: rest) ((key.display, v) :: entries)

end

section Made

variable {t : ReferenceTable} {s s₁ u u₁ : Store} {d : MemberDescriptor} {v x : Value}
  {ms : Skeleton} {entries : Assoc String Value}

/-- The store has the arrays of a table. -/
def ReferenceTable.ArraysIn (t : ReferenceTable) (s : Store) : Prop :=
  ∀ i a, t.get? i = some (.array a) → s.arrays.Has a

theorem ReferenceTable.ArraysIn.of_within (ht : t.ArraysIn s) (hs : s.Within s₁) : t.ArraysIn s₁ :=
  fun i a h => hs.arrays.has (ht i a h)

theorem MadeAll.keys_eq (h : MadeAll t s u ms entries) :
    Assoc.keys entries = ms.map fun p => p.1.display := by
  induction ms generalizing entries with
  | nil =>
    cases h
    rfl
  | cons p rest ih =>
    cases h with
    | cons first others => exact congrArg (_ :: ·) (ih others)

mutual

/-- A made value stays what it is when the store grows, and also seen from an earlier store. -/
theorem Made.mono (ht : t.ArraysIn s) (hs : s.Within s₁) (hu : u₁.Within u) {d : MemberDescriptor}
    {v : Value} : Made t s₁ u₁ d v → Made t s u d v
  | .literal h => .literal h
  | .text x => .text x
  | .function h => .function h
  | .pattern h => .pattern h
  | .emptyArray isNew items => .emptyArray (isNew.mono hs hu) ((hu.array_eq isNew.2).trans items)
  | .inlineArray (a := a) isNew simple => by
    have hitems : u.array a = u₁.array a := hu.array_eq isNew.2
    rw [← hitems] at simple ⊢
    exact .inlineArray (isNew.mono hs hu) simple
  | @Made.arrayCopy _ _ _ _ source _ h isNew items => by
    have hsource : s₁.array source = s.array source := hs.array_eq (ht _ _ h)
    exact .arrayCopy h (isNew.mono hs hu) (((hu.array_eq isNew.2).trans items).trans hsource)
  | .nested (o := o) isNew h => by
    have hproperties : u.object o = u₁.object o := hu.object_eq isNew.2
    refine .nested (isNew.mono hs hu) ?_
    rw [hproperties]
    exact h.mono ht hs hu

theorem MadeAll.mono (ht : t.ArraysIn s) (hs : s.Within s₁) (hu : u₁.Within u) {ms : Skeleton}
    {entries : Assoc String Value} : MadeAll t s₁ u₁ ms entries → MadeAll t s u ms entries
  | .nil => .nil
  | .cons first others => .cons (first.mono ht hs hu) (others.mono ht hs hu)

end

mutual

theorem Made.isNew {d : MemberDescriptor} {v : Value} (keys : List String)
    (hx : u.propertyAt? v keys = some x) (hcontainer : x.IsContainer) :
    Made t s u d v → s.IsNew u x
  | .literal h => by
    have hleaf : v.kind ≠ .object := by
      intro heq
      simp [heq] at h
    obtain ⟨-, rfl⟩ := Store.propertyAt?_of_leaf hleaf hx
    rcases hcontainer with hkind | hkind <;> simp [hkind] at h
  | .text _ | .function _ | .pattern _ => by
    obtain ⟨-, rfl⟩ := Store.propertyAt?_of_leaf (by simp [Value.kind]) hx
    simp [Value.IsContainer, Value.kind] at hcontainer
  | .emptyArray isNew _ | .inlineArray isNew _ | .arrayCopy _ isNew _ => by
    obtain ⟨-, rfl⟩ := Store.propertyAt?_of_leaf (by simp [Value.kind]) hx
    exact isNew
  | .nested isNew h => by
    cases keys with
    | nil =>
      cases hx
      exact isNew
    | cons key rest =>
      -- below the object the container stands in one of its properties
      obtain ⟨w, hw, hx⟩ := Store.exists_property_of_propertyAt? hx
      exact h.isNew (Assoc.mem_of_get? hw) rest hx hcontainer

theorem MadeAll.isNew {ms : Skeleton} {entries : Assoc String Value} {p : String × Value}
    (hp : p ∈ entries) (keys : List String) (hx : u.propertyAt? p.2 keys = some x)
    (hcontainer : x.IsContainer) : MadeAll t s u ms entries → s.IsNew u x
  | .nil => absurd hp List.not_mem_nil
  | .cons first others => by
    rcases List.mem_cons.mp hp with rfl | hmem
    · exact first.isNew keys hx hcontainer
    · exact others.isNew hmem keys hx hcontainer

end

mutual

theorem Made.propertyAt?_eq (hu : u.Within u₁) {d : MemberDescriptor} {v : Value}
    (keys : List String) : Made t s u d v → u₁.propertyAt? v keys = u.propertyAt? v keys
  | .nested (o := o) isNew h => by
    cases keys with
    | nil => rfl
    | cons key rest =>
      have hproperties : u₁.object o = u.object o := hu.object_eq isNew.2
      have hproperty : u₁.property? (.object o) key = u.property? (.object o) key :=
        congrArg (Assoc.get? · key) hproperties
      rw [Store.propertyAt?_cons, Store.propertyAt?_cons, hproperty]
      rcases hw : u.property? (.object o) key with _ | w
      · rfl
      · exact h.propertyAt?_eq hu (Assoc.mem_of_get? hw) rest
  | .literal (v := v) hkind => by
    cases keys with
    | nil => rfl
    | cons key rest =>
      cases v with
      | object o => simp [Value.kind] at hkind
      | _ => rfl
  | .text _ | .function _ | .pattern _ | .emptyArray _ _ | .inlineArray _ _ | .arrayCopy _ _ _ => by
    cases keys <;> rfl

theorem MadeAll.propertyAt?_eq (hu : u.Within u₁) {ms : Skeleton} {entries : Assoc String Value}
    {p : String × Value} (hp : p ∈ entries) (keys : List String) :
    MadeAll t s u ms entries → u₁.propertyAt? p.2 keys = u.propertyAt? p.2 keys
  | .nil => absurd hp List.not_mem_nil
  | .cons first others => by
    rcases List.mem_cons.mp hp with rfl | hmem
    · exact first.propertyAt?_eq hu keys
    · exact others.propertyAt?_eq hu hmem keys

end

end Made

/-! ### Different positions -/

namespace Store

variable {s u u₁ : Store} {v : Value} {entries : Assoc String Value}

/-- Containers at different positions in a value are different. -/
def Separated (u : Store) (v : Value) : Prop :=
  ∀ keys keys' x, u.propertyAt? v keys = some x → u.propertyAt? v keys' = some x → x.IsContainer →
    keys = keys'

/-- Containers at different positions in several values are different. -/
structure Apart (u : Store) (entries : Assoc String Value) : Prop where
  separated : ∀ p ∈ entries, u.Separated p.2
  pairwise : entries.Pairwise fun p q => ∀ keys keys' x, u.propertyAt? p.2 keys = some x →
    u.propertyAt? q.2 keys' = some x → ¬ x.IsContainer

theorem separated_of_leaf (hv : v.kind ≠ .object) : u.Separated v := by
  intro keys keys' x hx hx' _
  rw [(propertyAt?_of_leaf hv hx).1, (propertyAt?_of_leaf hv hx').1]

/-- A container is found under one name, and there at one position. -/
theorem Apart.eq_of_propertyAt? (h : u.Apart entries) {name name' : String} {w w' x : Value}
    {keys keys' : List String} (hw : Assoc.get? entries name = some w)
    (hw' : Assoc.get? entries name' = some w') (hx : u.propertyAt? w keys = some x)
    (hx' : u.propertyAt? w' keys' = some x) (hcontainer : x.IsContainer) :
    name = name' ∧ keys = keys' := by
  have hmem := Assoc.mem_of_get? hw
  have hmem' := Assoc.mem_of_get? hw'
  by_cases hname : name = name'
  · subst hname
    obtain rfl : w = w' := by simpa [hw] using hw'
    exact ⟨rfl, h.separated _ hmem keys keys' x hx hx' hcontainer⟩
  · have hsymm : Std.Symm fun p q : String × Value => ∀ keys keys' x,
        u.propertyAt? p.2 keys = some x → u.propertyAt? q.2 keys' = some x → ¬ x.IsContainer :=
      ⟨fun p q hpq keys keys' x hx hx' => hpq keys' keys x hx' hx⟩
    have hne : (name, w) ≠ (name', w') := fun heq => hname (congrArg Prod.fst heq)
    exact absurd hcontainer (h.pairwise.forall hmem hmem' hne keys keys' x hx hx')

/-- The containers in an object made last are different when those in its properties are. -/
theorem Apart.separated_newObject {t : ReferenceTable} {ms : Skeleton} (h : u.Apart entries)
    (hall : MadeAll t s u ms entries) : (u.newObject entries).2.Separated (u.newObject entries).1 := by
  have hproperties : (u.newObject entries).2.object ⟨u.objects.size⟩ = entries :=
    Pool.get_alloc_self _ _
  have hlater : u.Within (u.newObject entries).2 := u.within_newObject entries
  have hbelow : ∀ {key rest x}, (u.newObject entries).2.propertyAt? (.object ⟨u.objects.size⟩)
      (key :: rest) = some x → ∃ w, Assoc.get? entries key = some w ∧ u.propertyAt? w rest = some x := by
    intro key rest x hx
    obtain ⟨w, hw, hx⟩ := exists_property_of_propertyAt? hx
    rw [hproperties] at hw
    rw [hall.propertyAt?_eq hlater (Assoc.mem_of_get? hw)] at hx
    exact ⟨w, hw, hx⟩
  -- the object itself is newer than what stands in its properties
  have htop : ∀ {key rest}, (u.newObject entries).2.propertyAt? (.object ⟨u.objects.size⟩)
      (key :: rest) ≠ some (.object ⟨u.objects.size⟩) := by
    intro key rest hx
    obtain ⟨w, hw, hx⟩ := hbelow hx
    have hold := hall.isNew (Assoc.mem_of_get? hw) rest hx (.inl rfl)
    exact (u.isNew_newObject entries).1 hold.2
  intro keys keys' x hx hx' hcontainer
  cases keys with
  | nil =>
    cases keys' with
    | nil => rfl
    | cons key' rest' =>
      cases hx
      exact absurd hx' htop
  | cons key rest =>
    cases keys' with
    | nil =>
      cases hx'
      exact absurd hx htop
    | cons key' rest' =>
      obtain ⟨w, hw, hx⟩ := hbelow hx
      obtain ⟨w', hw', hx'⟩ := hbelow hx'
      obtain ⟨rfl, rfl⟩ := h.eq_of_propertyAt? hw hw' hx hx' hcontainer
      rfl

end Store

theorem MadeAll.nodup_keys {t : ReferenceTable} {s u : Store} {ms : Skeleton}
    {entries : Assoc String Value} (h : MadeAll t s u ms entries) (hkeys : (Assoc.keys ms).Nodup)
    (hread : ∀ p ∈ ms, MemberKey.parse p.1.display = p.1) : (Assoc.keys entries).Nodup := by
  rw [h.keys_eq]
  refine List.Nodup.of_map MemberKey.parse ?_
  have hparsed : (ms.map fun p => p.1.display).map MemberKey.parse = Assoc.keys ms := by
    rw [List.map_map]
    exact List.map_congr_left hread
  rw [hparsed]
  exact hkeys

/-- A new object with made properties is what a nested object describes. -/
theorem MadeAll.made_newObject {t : ReferenceTable} {s u : Store} {ms : Skeleton}
    {entries : Assoc String Value} (h : MadeAll t s u ms entries) (hs : t.ArraysIn s)
    (hgrown : s.Within u) : Made t s (u.newObject entries).2 (.nested ms) (u.newObject entries).1 := by
  have hproperties : (u.newObject entries).2.object ⟨u.objects.size⟩ = entries :=
    Pool.get_alloc_self _ _
  have hall : MadeAll t s (u.newObject entries).2 ms
      ((u.newObject entries).2.object ⟨u.objects.size⟩) := by
    rw [hproperties]
    exact h.mono hs (.refl s) (u.within_newObject entries)
  have hnew := (u.isNew_newObject entries).mono hgrown (.refl _)
  exact .nested hnew hall

/-! ### Running initializers -/

namespace Initializer

variable {path : String} {t : ReferenceTable} {ms : Skeleton}

/-- What initializers of members make, one after the other, when each one makes what its descriptor
describes. -/
theorem made_runAll_of
    (member : ∀ p ∈ ms, ∀ {i : Initializer} {s : Store}, t.ArraysIn s →
      ofDescriptor path t p.2 = .ok i →
      Made t s (i.run s).2 p.2 (i.run s).1 ∧ (i.run s).2.Separated (i.run s).1)
    {fields : List (String × Initializer)} {s : Store} (hs : t.ArraysIn s)
    (h : ofMembers path t ms = .ok fields) :
    MadeAll t s (runAll fields s).2 ms (runAll fields s).1 ∧
      (runAll fields s).2.Apart (runAll fields s).1 := by
  induction ms generalizing fields s with
  | nil =>
    cases h
    exact ⟨.nil, by simp [runAll], .nil⟩
  | cons p rest ih =>
    obtain ⟨key, d⟩ := p
    rw [ofMembers] at h
    obtain ⟨i, hi, h⟩ := bind_eq_ok.mp h
    obtain ⟨others, hothers, h⟩ := bind_eq_ok.mp h
    cases h
    rw [List.forall_mem_cons] at member
    have hfirst : s.Within (i.run s).2 := (addsContainers_run i s).within
    have hlater : (i.run s).2.Within (runAll others (i.run s).2).2 :=
      (addsContainers_runAll others _).within
    obtain ⟨hmade, hseparated⟩ := member.1 hs hi
    obtain ⟨hall, hapart⟩ := ih member.2 (hs.of_within hfirst) hothers
    refine ⟨.cons (hmade.mono hs (.refl s) hlater) (hall.mono hs hfirst (.refl _)), ?_, ?_⟩
    · refine List.forall_mem_cons.mpr ⟨?_, hapart.separated⟩
      intro keys keys' x hx hx'
      have hsame : ∀ keys, (runAll others (i.run s).2).2.propertyAt? (i.run s).1 keys
          = (i.run s).2.propertyAt? (i.run s).1 keys := fun keys => hmade.propertyAt?_eq hlater keys
      exact hseparated keys keys' x ((hsame keys).symm.trans hx) ((hsame keys').symm.trans hx')
    · refine List.pairwise_cons.mpr ⟨?_, hapart.pairwise⟩
      -- the containers of the first value were there before those of the others
      intro q hq keys keys' x hx hx' hcontainer
      have hbefore := hmade.isNew keys ((hmade.propertyAt?_eq hlater keys).symm.trans hx) hcontainer
      have hafter := hall.isNew hq keys' hx' hcontainer
      exact hafter.1 hbefore.2

/-- An initializer makes what its descriptor describes, with different containers at different
positions. -/
theorem made_run {d : MemberDescriptor} (hd : d.AllLeaves (PointsInto t)) (hregular : d.Regular)
    {i : Initializer} {s : Store} (hs : t.ArraysIn s) (h : ofDescriptor path t d = .ok i) :
    Made t s (i.run s).2 d (i.run s).1 ∧ (i.run s).2.Separated (i.run s).1 := by
  induction d using MemberDescriptor.induction generalizing i s with
  | leaf d hleaf =>
    rw [allLeaves_leaf hleaf] at hd
    cases d with
    | nested ms => cases hleaf
    | literal v =>
      cases h
      refine ⟨.literal hregular, Store.separated_of_leaf ?_⟩
      intro heq
      simp [Regular, Initializer.run] at hregular heq
      simp [heq] at hregular
    | text x =>
      cases h
      exact ⟨.text x, Store.separated_of_leaf (by simp [Initializer.run, Value.kind])⟩
    | function j =>
      obtain ⟨f, hf⟩ := hd
      rw [ofDescriptor, resolve_eq_ok.mpr hf] at h
      cases h
      exact ⟨.function hf, Store.separated_of_leaf (by simp [Initializer.run, Value.kind])⟩
    | pattern j =>
      obtain ⟨p, hp⟩ := hd
      rw [ofDescriptor, resolve_eq_ok.mpr hp] at h
      cases h
      exact ⟨.pattern hp, Store.separated_of_leaf (by simp [Initializer.run, Value.kind])⟩
    | emptyArray =>
      cases h
      have hitems : (s.newArray []).2.array ⟨s.arrays.size⟩ = [] := Pool.get_alloc_self _ _
      refine ⟨.emptyArray (s.isNew_newArray []) hitems, Store.separated_of_leaf ?_⟩
      simp [Initializer.run, Store.newArray, Value.kind]
    | inlineArray items =>
      cases h
      have hitems : (s.newArray items).2.array ⟨s.arrays.size⟩ = items := Pool.get_alloc_self _ _
      have hmade : Made t s (s.newArray items).2
          (.inlineArray ((s.newArray items).2.array ⟨s.arrays.size⟩)) (.array ⟨s.arrays.size⟩) := by
        refine .inlineArray (s.isNew_newArray items) ?_
        rw [hitems]
        exact hregular.2
      rw [hitems] at hmade
      refine ⟨hmade, Store.separated_of_leaf ?_⟩
      simp [Initializer.run, Store.newArray, Value.kind]
    | arrayCopy j =>
      obtain ⟨source, hsource⟩ := hd
      rw [ofDescriptor, resolve_eq_ok.mpr hsource] at h
      cases h
      have hitems : (s.newArray (s.array source)).2.array ⟨s.arrays.size⟩ = s.array source :=
        Pool.get_alloc_self _ _
      refine ⟨.arrayCopy hsource (s.isNew_newArray _) hitems, Store.separated_of_leaf ?_⟩
      simp [Initializer.run, Store.newArray, Value.kind]
  | nested ms ih =>
    rw [Skeleton.allLeaves_nested] at hd
    rw [regular_nested] at hregular
    rw [ofDescriptor] at h
    rcases hmembers : ofMembers path t ms with e | fields
    · rw [hmembers] at h
      cases h
    rw [hmembers] at h
    cases h
    obtain ⟨hall, hapart⟩ := made_runAll_of
      (fun p hp _ _ hs hi => ih p hp (hd.2 p hp) (hregular p hp).2 hs hi) hs hmembers
    have hgrown : s.Within (runAll fields s).2 := (addsContainers_runAll fields s).within
    have hnames := hall.nodup_keys hd.1 fun p hp => (hregular p hp).1
    have hrun : (Initializer.object fields).run s
        = (runAll fields s).2.newObject (runAll fields s).1 := by
      rw [Initializer.run]
      dsimp only
      rw [Assoc.ofList_of_nodup hnames]
    rw [hrun]
    exact ⟨hall.made_newObject hs hgrown, hapart.separated_newObject hall⟩

/-- The initializers of members make what these describe, with different containers at different
positions. -/
theorem made_runAll (hms : ∀ p ∈ ms, p.2.AllLeaves (PointsInto t)) (hregular : ∀ p ∈ ms, p.2.Regular)
    {fields : List (String × Initializer)} {s : Store} (hs : t.ArraysIn s)
    (h : ofMembers path t ms = .ok fields) :
    MadeAll t s (runAll fields s).2 ms (runAll fields s).1 ∧
      (runAll fields s).2.Apart (runAll fields s).1 :=
  made_runAll_of (fun p hp _ _ hs hi => made_run (hms p hp) (hregular p hp) hs hi) hs h

end Initializer

end ClassComposition
