import ClassComposition.Store.Walk

/-!
# Stores that have grown

A store is within another one when everything it has stands there as it was: the other one has new things
beside the old ones, and may have changed the new ones.  Where a store is well formed, so that it has
whatever its objects and arrays hold, this carries over to what is reached from a value at any depth.

## Main definitions

* `Pool.Within`, `Store.Within` — what is there stays as it was.
* `Store.Has`, `Store.WellFormed` — values without dangling handles, and stores of such values.
* `Store.Continues` — a well-formed store that has grown from another one.
* `Store.reach?` — what stands at the end of a path of keys and positions.
* `Store.propertyAt?` — what stands at the end of keys that lead down through objects.
* `Store.IsNew` — a value that came into being between two stores.

## Main results

* `Store.WellFormed.newObject`, `Store.WellFormed.setProperty` — stores stay well formed.
* `Store.reach?_congr` — the same is reached where all that is reached is the same.
* `Store.Within.reach?_eq` — what was there has the same contents at any depth.
-/

namespace ClassComposition

/-! ### Pools -/

namespace Pool

variable {kind : CellKind} {α : Type} [Inhabited α] {p q r : Pool kind α} {h : Handle kind}

/-- Every cell of the first pool is in the second, with the same content. -/
structure Within (p q : Pool kind α) : Prop where
  size_le : p.size ≤ q.size
  get_eq : ∀ h, p.Has h → q.get h = p.get h

theorem Within.refl (p : Pool kind α) : p.Within p := ⟨Nat.le_refl _, fun _ _ => rfl⟩

theorem Within.has (hpq : p.Within q) (hp : p.Has h) : q.Has h := Nat.lt_of_lt_of_le hp hpq.size_le

theorem Within.trans (hpq : p.Within q) (hqr : q.Within r) : p.Within r := by
  refine ⟨Nat.le_trans hpq.size_le hqr.size_le, ?_⟩
  intro h hp
  rw [hqr.get_eq h (hpq.has hp), hpq.get_eq h hp]

theorem within_alloc (p : Pool kind α) (value : α) : p.Within (p.alloc value).2 := by
  refine ⟨?_, fun h hp => get_alloc_of_has p value hp⟩
  rw [size_alloc]
  exact Nat.le_succ _

theorem get_of_not_has (hp : ¬ p.Has h) : p.get h = default := by
  have hle : p.cells.size ≤ h.index := Nat.le_of_not_lt hp
  simp [get, Array.getD_eq_getD_getElem?, hle]

end Pool

/-! ### Stores -/

namespace Store

variable {s t u : Store}

/-- Everything in the first store stands in the second as it was. -/
structure Within (s t : Store) : Prop where
  objects : s.objects.Within t.objects
  arrays : s.arrays.Within t.arrays
  functions : s.functions.Within t.functions
  patterns : s.patterns.Within t.patterns
  prototypes : s.prototypes.Within t.prototypes
  instances : s.instances.Within t.instances

theorem Within.refl (s : Store) : s.Within s :=
  ⟨.refl _, .refl _, .refl _, .refl _, .refl _, .refl _⟩

theorem Within.trans (hst : s.Within t) (htu : t.Within u) : s.Within u where
  objects := hst.objects.trans htu.objects
  arrays := hst.arrays.trans htu.arrays
  functions := hst.functions.trans htu.functions
  patterns := hst.patterns.trans htu.patterns
  prototypes := hst.prototypes.trans htu.prototypes
  instances := hst.instances.trans htu.instances

theorem within_newObject (s : Store) (properties : Assoc String Value) :
    s.Within (s.newObject properties).2 :=
  ⟨Pool.within_alloc _ _, .refl _, .refl _, .refl _, .refl _, .refl _⟩

theorem within_newArray (s : Store) (items : List Value) : s.Within (s.newArray items).2 :=
  ⟨.refl _, Pool.within_alloc _ _, .refl _, .refl _, .refl _, .refl _⟩

theorem within_newFunction (s : Store) (method : Method) : s.Within (s.newFunction method).2 :=
  ⟨.refl _, .refl _, Pool.within_alloc _ _, .refl _, .refl _, .refl _⟩

theorem within_newPrototype (s : Store) (p : Prototype) : s.Within (s.newPrototype p).2 :=
  ⟨.refl _, .refl _, .refl _, .refl _, Pool.within_alloc _ _, .refl _⟩

theorem within_newRoutine (s : Store) : s.Within s.newRoutine.2 :=
  ⟨.refl _, .refl _, .refl _, .refl _, .refl _, .refl _⟩

/-! ### Values of a store -/

/-- The store has what a value refers to. -/
def Has (s : Store) : Value → Prop
  | .function f => s.functions.Has f
  | .pattern p => s.patterns.Has p
  | .object o => s.objects.Has o
  | .array a => s.arrays.Has a
  | .inst i => s.instances.Has i
  | _ => True

/-- The store has what its objects and arrays hold, and an object has each of its keys once. -/
structure WellFormed (s : Store) : Prop where
  has_property : ∀ o, ∀ p ∈ s.object o, s.Has p.2
  has_element : ∀ a, ∀ v ∈ s.array a, s.Has v
  nodup_keys : ∀ o, (Assoc.keys (s.object o)).Nodup

theorem Within.has (hst : s.Within t) {v : Value} (hv : s.Has v) : t.Has v := by
  cases v with
  | function f => exact hst.functions.has hv
  | pattern p => exact hst.patterns.has hv
  | object o => exact hst.objects.has hv
  | array a => exact hst.arrays.has hv
  | inst i => exact hst.instances.has hv
  | _ => trivial

/-- A store is well formed when it has grown from one, and what has changed are objects that hold what it
has, each key once. -/
theorem WellFormed.of_grown (hs : s.WellFormed) (hhas : ∀ v, s.Has v → t.Has v)
    (harrays : t.arrays = s.arrays)
    (hobject : ∀ o, t.object o = s.object o ∨
      (∀ p ∈ t.object o, t.Has p.2) ∧ (Assoc.keys (t.object o)).Nodup) : t.WellFormed := by
  refine ⟨?_, ?_, ?_⟩
  · intro o p hp
    rcases hobject o with hsame | ⟨hproperties, -⟩
    · rw [hsame] at hp
      exact hhas p.2 (hs.has_property o p hp)
    · exact hproperties p hp
  · intro a v hv
    have harray : t.array a = s.array a := congrArg (·.get a) harrays
    rw [harray] at hv
    exact hhas v (hs.has_element a v hv)
  · intro o
    rcases hobject o with hsame | ⟨-, hkeys⟩
    · rw [hsame]
      exact hs.nodup_keys o
    · exact hkeys

theorem WellFormed.newPrototype (hs : s.WellFormed) (p : Prototype) : (s.newPrototype p).2.WellFormed :=
  hs.of_grown (fun _ hv => (within_newPrototype s p).has hv) rfl fun _ => .inl rfl

theorem WellFormed.newRoutine (hs : s.WellFormed) : s.newRoutine.2.WellFormed :=
  hs.of_grown (fun _ hv => s.within_newRoutine.has hv) rfl fun _ => .inl rfl

/-- A new object may hold what the store has. -/
theorem WellFormed.newObject (hs : s.WellFormed) {properties : Assoc String Value}
    (hproperties : ∀ p ∈ properties, s.Has p.2) (hkeys : (Assoc.keys properties).Nodup) :
    (s.newObject properties).2.WellFormed := by
  have hwithin := within_newObject s properties
  refine hs.of_grown (fun v hv => hwithin.has hv) rfl fun o => ?_
  by_cases hold : s.objects.Has o
  · exact .inl (Pool.get_alloc_of_has s.objects properties hold)
  by_cases hlast : (s.newObject properties).2.objects.Has o
  · -- there is one handle that has become good
    have hsize := Pool.size_alloc s.objects properties
    have hindex : o = (s.objects.alloc properties).1 := by
      obtain ⟨index⟩ := o
      have hlt : index < s.objects.size + 1 := Nat.lt_of_lt_of_eq hlast hsize
      have hge : ¬ index < s.objects.size := hold
      have heq : index = s.objects.size := by omega
      rw [heq]
      rfl
    have hobject : (s.newObject properties).2.object o = properties := by
      rw [hindex]
      exact Pool.get_alloc_self s.objects properties
    rw [hobject]
    exact .inr ⟨fun p hp => hwithin.has (hproperties p hp), hkeys⟩
  · have hbefore := Pool.get_of_not_has hold
    have hafter := Pool.get_of_not_has hlast
    exact .inl (hafter.trans hbefore.symm)

/-- Writing a property loses nothing that the store has. -/
theorem has_setProperty {v : Value} (hv : s.Has v) (target : Value) (key : String) (value : Value) :
    (s.setProperty target key value).Has v := by
  cases target with
  | object o =>
    cases v with
    | object other =>
      have hsize := Pool.size_set s.objects o (Assoc.insert (s.object o) key value)
      exact Nat.lt_of_lt_of_eq hv hsize.symm
    | _ => exact hv
  | _ => exact hv

theorem WellFormed.setProperty (hs : s.WellFormed) {value : Value} (hvalue : s.Has value)
    (target : Value) (key : String) : (s.setProperty target key value).WellFormed := by
  cases target with
  | object o =>
    have hhas : ∀ v, s.Has v → (s.setProperty (.object o) key value).Has v :=
      fun v hv => has_setProperty hv _ key value
    refine hs.of_grown hhas rfl fun other => ?_
    by_cases hother : o = other
    · subst hother
      -- a write outside the pool changes nothing
      by_cases hgood : s.objects.Has o
      · have hobject : (s.setProperty (.object o) key value).object o
            = Assoc.insert (s.object o) key value := Pool.get_set_self s.objects o _ hgood
        rw [hobject]
        refine .inr ⟨?_, Assoc.nodup_keys_insert (hs.nodup_keys o) key value⟩
        intro p hp
        rcases Assoc.mem_insert hp with rfl | hmem
        · exact hhas value hvalue
        · exact hhas p.2 (hs.has_property o p hmem)
      · exact .inl (Pool.get_set_of_not_has s.objects o _ hgood)
    · exact .inl (Pool.get_set_of_ne s.objects _ hother)
  | _ => exact hs

theorem Within.object_eq (hst : s.Within t) {o : Handle .object} (ho : s.objects.Has o) :
    t.object o = s.object o := hst.objects.get_eq o ho

theorem Within.array_eq (hst : s.Within t) {a : Handle .array} (ha : s.arrays.Has a) :
    t.array a = s.array a := hst.arrays.get_eq a ha

theorem Within.function_eq (hst : s.Within t) {f : Handle .function} (hf : s.functions.Has f) :
    t.function f = s.function f := hst.functions.get_eq f hf

/-- The second store has grown from the first, and is well formed. -/
structure Continues (s t : Store) : Prop where
  within : s.Within t
  wellFormed : t.WellFormed

theorem WellFormed.continues (hs : s.WellFormed) : s.Continues s := ⟨.refl s, hs⟩

theorem Continues.trans (hst : s.Continues t) (htu : t.Continues u) : s.Continues u :=
  ⟨hst.within.trans htu.within, htu.wellFormed⟩

/-! ### Contents at any depth -/

/-- A step into a container. -/
inductive Step
  /-- To the property under a key. -/
  | property (key : String)
  /-- To the element at a position. -/
  | element (index : Nat)
  deriving DecidableEq, Repr

/-- What stands in a value at the end of a path, if it leads somewhere. -/
def reach? (s : Store) (v : Value) : List Step → Option Value
  | [] => some v
  | .property key :: rest => (s.property? v key).bind (s.reach? · rest)
  | .element index :: rest => (s.element? v index).bind (s.reach? · rest)

theorem reach?_single_property (s : Store) (v : Value) (key : String) :
    s.reach? v [.property key] = s.property? v key := Option.bind_fun_some _

theorem reach?_single_element (s : Store) (v : Value) (index : Nat) :
    s.reach? v [.element index] = s.element? v index := Option.bind_fun_some _

theorem reach?_append (s : Store) (v : Value) (steps others : List Step) :
    s.reach? v (steps ++ others) = (s.reach? v steps).bind (s.reach? · others) := by
  induction steps generalizing v with
  | nil => rfl
  | cons step rest ih =>
    cases step with
    | property key =>
      rw [List.cons_append, reach?, reach?, Option.bind_assoc]
      exact congrArg _ (funext ih)
    | element index =>
      rw [List.cons_append, reach?, reach?, Option.bind_assoc]
      exact congrArg _ (funext ih)

/-- A well-formed store has what stands under a key of a value. -/
theorem WellFormed.has_of_property? (hs : s.WellFormed) {v below : Value} {key : String}
    (h : s.property? v key = some below) : s.Has below := by
  cases v with
  | object o => exact hs.has_property o _ (Assoc.mem_of_get? h)
  | _ => cases h

theorem WellFormed.has_of_element? (hs : s.WellFormed) {v below : Value} {index : Nat}
    (h : s.element? v index = some below) : s.Has below := by
  cases v with
  | array a => exact hs.has_element a _ (List.mem_of_getElem? h)
  | _ => cases h

/-- What a value of a well-formed store reaches is a value of it. -/
theorem WellFormed.has_of_reach? (hs : s.WellFormed) {v x : Value} (hv : s.Has v) {steps : List Step}
    (h : s.reach? v steps = some x) : s.Has x := by
  induction steps generalizing v with
  | nil =>
    cases h
    exact hv
  | cons step rest ih =>
    cases step with
    | property key =>
      obtain ⟨below, hbelow, h⟩ := Option.bind_eq_some_iff.mp h
      exact ih (hs.has_of_property? hbelow) h
    | element index =>
      obtain ⟨below, hbelow, h⟩ := Option.bind_eq_some_iff.mp h
      exact ih (hs.has_of_element? hbelow) h

/-- Where everything that is reached has the properties and the elements that it had, the same is
reached. -/
theorem reach?_congr (h : ∀ steps x, s.reach? v steps = some x →
      t.entries x = s.entries x ∧ t.elements x = s.elements x) (steps : List Step) :
    t.reach? v steps = s.reach? v steps := by
  induction steps generalizing v with
  | nil => rfl
  | cons step rest ih =>
    obtain ⟨hentries, helements⟩ := h [] v rfl
    cases step with
    | property key =>
      rw [reach?, reach?, property?, hentries, ← property?]
      rcases hkey : s.property? v key with _ | below
      · rfl
      · -- what is reached from below is reached from here by one more step
        refine ih fun steps x hx => h (.property key :: steps) x ?_
        rw [reach?, hkey]
        exact hx
    | element index =>
      rw [reach?, reach?, element?, helements, ← element?]
      rcases hindex : s.element? v index with _ | below
      · rfl
      · refine ih fun steps x hx => h (.element index :: steps) x ?_
        rw [reach?, hindex]
        exact hx

theorem Within.held_eq (hst : s.Within t) {v : Value} (hv : s.Has v) :
    t.entries v = s.entries v ∧ t.elements v = s.elements v := by
  cases v with
  | object o => exact ⟨hst.object_eq hv, rfl⟩
  | array a => exact ⟨rfl, hst.array_eq hv⟩
  | _ => exact ⟨rfl, rfl⟩

/-- What was there has the same contents at any depth. -/
theorem Within.reach?_eq (hst : s.Within t) (hs : s.WellFormed) {v : Value} (hv : s.Has v)
    (steps : List Step) : t.reach? v steps = s.reach? v steps :=
  reach?_congr (fun _ _ hx => hst.held_eq (hs.has_of_reach? hv hx)) steps

/-! ### Positions below objects -/

/-- What stands in a value at the end of keys that lead down through objects. -/
def propertyAt? (s : Store) (v : Value) (keys : List String) : Option Value :=
  s.reach? v (keys.map .property)

@[simp] theorem propertyAt?_nil (s : Store) (v : Value) : s.propertyAt? v [] = some v := rfl

theorem propertyAt?_cons (s : Store) (v : Value) (key : String) (rest : List String) :
    s.propertyAt? v (key :: rest) = (s.property? v key).bind (s.propertyAt? · rest) := rfl

/-- In a value that is no object there is only the value itself. -/
theorem propertyAt?_of_leaf {v x : Value} (hv : v.kind ≠ .object) {keys : List String}
    (h : s.propertyAt? v keys = some x) : keys = [] ∧ x = v := by
  cases keys with
  | nil =>
    cases h
    exact ⟨rfl, rfl⟩
  | cons key rest =>
    cases v with
    | object o => simp [Value.kind] at hv
    | _ => cases h

/-- Below an object there is what stands in one of its properties. -/
theorem exists_property_of_propertyAt? {o : Handle .object} {key : String} {rest : List String}
    {x : Value} (h : s.propertyAt? (.object o) (key :: rest) = some x) :
    ∃ v, Assoc.get? (s.object o) key = some v ∧ s.propertyAt? v rest = some x := by
  rw [propertyAt?_cons] at h
  exact Option.bind_eq_some_iff.mp h

/-! ### New values -/

/-- The value came into being between the two stores. -/
def IsNew (s u : Store) (v : Value) : Prop := ¬ s.Has v ∧ u.Has v

theorem IsNew.mono {s₁ u₁ : Store} {v : Value} (h : s₁.IsNew u₁ v) (hs : s.Within s₁)
    (hu : u₁.Within u) : s.IsNew u v :=
  ⟨fun hv => h.1 (hs.has hv), hu.has h.2⟩

theorem isNew_newArray (s : Store) (items : List Value) :
    s.IsNew (s.newArray items).2 (s.newArray items).1 :=
  ⟨Nat.lt_irrefl s.arrays.size, Pool.has_alloc_self s.arrays items⟩

theorem isNew_newObject (s : Store) (properties : Assoc String Value) :
    s.IsNew (s.newObject properties).2 (s.newObject properties).1 :=
  ⟨Nat.lt_irrefl s.objects.size, Pool.has_alloc_self s.objects properties⟩

end Store

end ClassComposition
