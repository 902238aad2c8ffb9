import ClassComposition.Proofs.Class.NewInstance
import ClassComposition.Proofs.Registry.Atomicity

/-!
# The state of a new instance

The containers in the fields of a new instance are its own.  Following object properties down from its
fields one meets objects and arrays that came into being with it, each at one position only, and so none
of them stands in anything that was there before: the fields of other instances, class bodies, tables and
shared members.  What is left to have in common with them are the entries of the table, below the top, and
the elements of copied arrays.

## Main definitions

* `Store.fieldAt?` — what stands at a position of an instance.
* `Held` — what a new instance may hold at a position.

## Main results

* `Made.held` — what a made value holds.
* `Store.Within.reach?_ne_of_isNew` — nothing that was there reaches what is new.
* `Registry.Reachable.owns_of_materialize` — new instances own their state.
-/

namespace ClassComposition

open MemberDescriptor

/-- What stands at a position of an instance: in one of its fields, at the end of keys that lead down
through objects. -/
def Store.fieldAt? (t : Store) (i : Handle .inst) (name : String) (keys : List String) :
    Option Value :=
  (Assoc.get? (t.instanceAt i).fields name).bind fun v => t.propertyAt? v keys

/-- What a new instance may hold at the end of keys below one of its fields: simple data, a new object, a
new array with simple elements or those of an array of the table, and below the top a function or a
pattern of the table. -/
inductive Held (t : ReferenceTable) (s u : Store) (keys : List String) : Value → Prop
  | data {x : Value} (simple : x.isSimple = true) : Held t s u keys x
  | object {o : Handle .object} (isNew : s.IsNew u (.object o)) : Held t s u keys (.object o)
  | array {a : Handle .array} (isNew : s.IsNew u (.array a))
      (simple : ∀ v ∈ u.array a, v.isSimple = true) : Held t s u keys (.array a)
  | arrayCopy {a source : Handle .array} (isNew : s.IsNew u (.array a))
      (entry : .array source ∈ t.entries) (items : u.array a = s.array source) :
      Held t s u keys (.array a)
  | function {f : Handle .function} (below : keys ≠ []) (entry : .function f ∈ t.entries) :
      Held t s u keys (.function f)
  | pattern {p : Handle .pattern} (below : keys ≠ []) (entry : .pattern p ∈ t.entries) :
      Held t s u keys (.pattern p)

section Held

variable {t : ReferenceTable} {s u : Store} {keys : List String} {v x : Value}

theorem Held.isNew (h : Held t s u keys x) (hx : x.IsContainer) : s.IsNew u x := by
  cases h with
  | data simple => rcases hx with hkind | hkind <;> cases x <;> simp_all [Value.kind, Value.isSimple]
  | object isNew => exact isNew
  | array isNew simple => exact isNew
  | arrayCopy isNew entry items => exact isNew
  | function below entry => exact absurd hx (Value.not_isContainer_function _)
  | pattern below entry => rcases hx with hkind | hkind <;> cases hkind

theorem ReferenceTable.mem_of_get? {n : Nat} (h : t.get? n = some v) : v ∈ t.entries :=
  List.mem_of_getElem? h

mutual

/-- What a made value holds at a position.  A method or a pattern stands there only below the top: not in
a member that is one. -/
theorem Made.held (above : List String) {d : MemberDescriptor} {v : Value} {keys : List String}
    (htop : above ≠ [] ∨ d.slotIndex? = none) (hx : u.propertyAt? v keys = some x) :
    Made t s u d v → Held t s u (above ++ keys) x
  | .literal hkind => by
    have hleaf : v.kind ≠ .object := by
      intro heq
      simp [heq] at hkind
    obtain ⟨-, rfl⟩ := Store.propertyAt?_of_leaf hleaf hx
    refine .data ?_
    cases x <;> simp_all [Value.kind, Value.isSimple]
  | .text _ => by
    obtain ⟨-, rfl⟩ := Store.propertyAt?_of_leaf (by simp [Value.kind]) hx
    exact .data rfl
  | .function h => by
    obtain ⟨rfl, rfl⟩ := Store.propertyAt?_of_leaf (by simp [Value.kind]) hx
    -- as a data member it would be slotted, so it sits inside a container
    have habove : above ≠ [] := htop.resolve_right (by simp [slotIndex?])
    exact .function (by simpa using habove) (ReferenceTable.mem_of_get? h)
  | .pattern h => by
    obtain ⟨rfl, rfl⟩ := Store.propertyAt?_of_leaf (by simp [Value.kind]) hx
    have habove : above ≠ [] := htop.resolve_right (by simp [slotIndex?])
    exact .pattern (by simpa using habove) (ReferenceTable.mem_of_get? h)
  | .emptyArray isNew items => by
    obtain ⟨-, rfl⟩ := Store.propertyAt?_of_leaf (by simp [Value.kind]) hx
    exact .array isNew (by simp [items])
  | .inlineArray isNew simple => by
    obtain ⟨-, rfl⟩ := Store.propertyAt?_of_leaf (by simp [Value.kind]) hx
    exact .array isNew simple
  | .arrayCopy h isNew items => by
    obtain ⟨-, rfl⟩ := Store.propertyAt?_of_leaf (by simp [Value.kind]) hx
    exact .arrayCopy isNew (ReferenceTable.mem_of_get? h) items
  | .nested isNew h => by
    cases keys with
    | nil =>
      cases hx
      exact .object isNew
    | cons key rest =>
      obtain ⟨w, hw, hx⟩ := Store.exists_property_of_propertyAt? hx
      have habove : above ++ [key] ≠ [] := by simp
      have hbelow := h.held habove (Assoc.mem_of_get? hw) hx
      rwa [List.append_assoc] at hbelow

theorem MadeAll.held {ms : Skeleton} {entries : Assoc String Value} {p : String × Value}
    {above keys : List String} (habove : above ≠ []) (hp : p ∈ entries)
    (hx : u.propertyAt? p.2 keys = some x) : MadeAll t s u ms entries → Held t s u (above ++ keys) x
  | .nil => absurd hp List.not_mem_nil
  | .cons first others => by
    rcases List.mem_cons.mp hp with rfl | hmem
    · exact first.held above (.inl habove) hx
    · exact others.held habove hmem hx

end

/-- What stands in the values made from data. -/
theorem MadeAll.held_data {ms : Skeleton} {entries : Assoc String Value}
    (h : MadeAll t s u ms entries) (hdata : ∀ p ∈ ms, p.2.slotIndex? = none) {p : String × Value}
    (hp : p ∈ entries) (hx : u.propertyAt? p.2 keys = some x) : Held t s u keys x := by
  induction ms generalizing entries with
  | nil =>
    cases h
    cases hp
  | cons q rest ih =>
    cases h with
    | cons first others =>
      rw [List.forall_mem_cons] at hdata
      rcases List.mem_cons.mp hp with rfl | hmem
      · exact first.held [] (.inr hdata.1) hx
      · exact ih others hdata.2 hmem

end Held

theorem Store.Within.reach?_ne_of_isNew {s t : Store} (hst : s.Within t) (hs : s.WellFormed)
    {outer x : Value} (houter : s.Has outer) (hx : s.IsNew t x) (steps : List Store.Step) :
    t.reach? outer steps ≠ some x := by
  intro hreach
  rw [hst.reach?_eq hs houter] at hreach
  exact hx.1 (hs.has_of_reach? houter hreach)

namespace Registry

open Constructor

variable {config : Config} {r : Registry} {path : String} {c : ClassDefinition} {k : Constructor}

/-- New instances own their state.  Every object and array that is reached from the fields through object
properties came into being with the instance, and those at different positions are different.  So
nothing that was there before reaches one of them, be it another instance's field, a class body, a table
or a shared member, not even through elements of arrays.  Besides simple data the fields hold functions
and patterns of the table, below nested objects only, and arrays with the elements of the arrays of the
table. -/
theorem Reachable.owns_of_materialize (hr : r.Reachable config) (hc : r.definition? path = some c)
    (hconcrete : c.isAbstract = false) (hk : r.constructor? path none = some k) {s : Store}
    (hs : s.WellFormed) (harrays : c.references.ArraysIn s) :
    ∃ i t, k.materialize? s = some (i, t) ∧
      (∀ name keys x, t.fieldAt? i name keys = some x → x.IsContainer → s.IsNew t x) ∧
      (∀ name name' keys keys' x, t.fieldAt? i name keys = some x →
        t.fieldAt? i name' keys' = some x → x.IsContainer → name = name' ∧ keys = keys') ∧
      (∀ name keys x, t.fieldAt? i name keys = some x → x.IsContainer →
        ∀ outer steps, s.Has outer → t.reach? outer steps ≠ some x) ∧
      (∀ name keys x, t.fieldAt? i name keys = some x → Held c.references s t keys x) := by
  obtain ⟨i, t, hmaterialize, hnew⟩ := hr.exists_newInstance hc hconcrete hk harrays
  -- only the members without a slot are made into fields
  have hheld : ∀ name keys x, t.fieldAt? i name keys = some x → Held c.references s t keys x := by
    intro name keys x hx
    obtain ⟨v, hv, hx⟩ := Option.bind_eq_some_iff.mp hx
    refine hnew.made.held_data ?_ (Assoc.mem_of_get? hv) hx
    intro p hp
    have hslot := (List.mem_filter.mp hp).2
    exact Option.isNone_iff_eq_none.mp hslot
  refine ⟨i, t, hmaterialize, ?_, ?_, ?_, hheld⟩
  · intro name keys x hx hcontainer
    exact (hheld name keys x hx).isNew hcontainer
  · intro name name' keys keys' x hx hx' hcontainer
    obtain ⟨v, hv, hx⟩ := Option.bind_eq_some_iff.mp hx
    obtain ⟨v', hv', hx'⟩ := Option.bind_eq_some_iff.mp hx'
    exact hnew.apart.eq_of_propertyAt? hv hv' hx hx' hcontainer
  · intro name keys x hx hcontainer outer steps houter
    have hisNew := (hheld name keys x hx).isNew hcontainer
    exact hnew.within.reach?_ne_of_isNew hs houter hisNew steps

/-- An instance of the sample has an object of its own with an array of its own in it, which nothing that
was there reaches. -/
theorem Reachable.owns_of_materialize_leaf :
    ∃ k i t, Sample.registry.constructor? "Ns.Leaf" none = some k ∧
      k.materialize? Sample.world.store = some (i, t) ∧
      t.fieldAt? i "options" [] = some (.object ⟨3⟩) ∧
      t.fieldAt? i "options" ["list"] = some (.array ⟨1⟩) ∧
      Sample.world.store.IsNew t (.array ⟨1⟩) ∧
      (∀ steps, t.reach? (.object ⟨0⟩) steps ≠ some (.array ⟨1⟩)) ∧
      Held (Sample.definition "Ns.Leaf").references Sample.world.store t ["list"] (.array ⟨1⟩) := by
  have hc : Sample.registry.definition? "Ns.Leaf" = some (Sample.definition "Ns.Leaf") := rfl
  obtain ⟨k, hk⟩ : ∃ k, Sample.registry.constructor? "Ns.Leaf" none = some k := ⟨_, rfl⟩
  have harrays : (Sample.definition "Ns.Leaf").references.ArraysIn Sample.world.store := by
    have hentries : (Sample.definition "Ns.Leaf").references =
        ⟨[.function ⟨0⟩, .array ⟨0⟩, .function ⟨1⟩, .function ⟨1⟩, .function ⟨2⟩, .function ⟨2⟩]⟩ := rfl
    intro index a h
    rw [hentries] at h
    obtain rfl : a = ⟨0⟩ := by simpa using List.mem_of_getElem? h
    exact Nat.zero_lt_one
  obtain ⟨i, t, hmade, hnew, -, hunreached, hheld⟩ := Sample.reachable.owns_of_materialize hc rfl hk
    Sample.world_wellFormed harrays
  have hfields : (Sample.registry.constructor? "Ns.Leaf" none).bind (fun k =>
      (k.materialize? Sample.world.store).map fun p =>
        (p.2.fieldAt? p.1 "options" [], p.2.fieldAt? p.1 "options" ["list"]))
      = some (some (.object ⟨3⟩), some (.array ⟨1⟩)) := rfl
  rw [hk, Option.bind_some, hmade] at hfields
  obtain ⟨hobject, hlist⟩ := Prod.mk.inj (Option.some.inj hfields)
  have hgood : Sample.world.store.Has (.object ⟨0⟩) := Nat.zero_lt_succ 2
  exact ⟨k, i, t, hk, hmade, hobject, hlist, hnew _ _ _ hlist (.inr rfl),
    fun steps => hunreached _ _ _ hlist (.inr rfl) _ steps hgood, hheld _ _ _ hlist⟩

end Registry

end ClassComposition
