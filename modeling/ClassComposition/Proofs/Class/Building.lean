import ClassComposition.Proofs.Member.Rereading

/-!
# Building on a copy of a body

A copy of a body has the same values under the same names.  Most of what a builder writes goes into the
copy alone: an entry is written under its name, and the second path of a directive makes a new array of
the two.  But further paths are pushed to the array that is there, and an option is set in the options
object that is there, and these the copy has in common with the original.

## Main definitions

* `BuilderCall`, `BuilderCall.runAll` — the calls by which a body is built.
* `Write` — a change to a container that is there.
* `BuilderCall.writes` — the changes that calls make, in their order.
* `Write.Spares` — changes that leave a value as it is.
* `Store.WrittenBy` — stores that differ by some changes, and by what is new.

## Main results

* `BuilderCall.writtenBy_runAll` — calls make their changes and no other ones.
* `Store.WrittenBy.reach?_eq_iff` — when changes leave the contents of a value alone.
* `ClassBody.original_kept_iff` — when calls on a copy leave the original alone.
-/

namespace ClassComposition

/-! ### Calls -/

/-- A call by which a body is built. -/
inductive BuilderCall
  /-- Write the path of the parent. -/
  | setParent (path : String)
  /-- Add the path of a mixin. -/
  | addMixin (path : String)
  /-- Add the name of a shared member. -/
  | addShared (name : String)
  /-- Say whether the class is abstract. -/
  | setAbstract (isAbstract : Bool)
  /-- Write an entry. -/
  | addMember (name : String) (v : Value)
  /-- Write a method under its own name. -/
  | addMethod (name : String) (code : List Statement)

/-- A change to a container that is there. -/
inductive Write
  /-- A text is pushed to an array. -/
  | append (a : Handle .array) (item : String)
  /-- The option is set in an object. -/
  | setOption (o : Handle .object) (isAbstract : Bool)

namespace BuilderCall

/-- What a call makes of a body and of the store. -/
def run (b : ClassBody) (s : Store) : BuilderCall → ClassBody × Store
  | setParent path => (b.setParent path, s)
  | addMixin path => b.addMixin path s
  | addShared name => b.addShared name s
  | setAbstract isAbstract => b.setAbstract isAbstract s
  | addMember name v => (b.insert name v, s)
  | addMethod name code => b.addMethod name code s

/-- What calls make of them one after the other. -/
def runAll (b : ClassBody) (s : Store) : List BuilderCall → ClassBody × Store
  | [] => (b, s)
  | call :: rest => runAll (call.run b s).1 (call.run b s).2 rest

end BuilderCall

/-- The array that a directive holds, if it holds one. -/
def ClassBody.list? (b : ClassBody) (directive : Directive) : Option (Handle .array) :=
  match b.get? directive.name with
  | some (.array a) => some a
  | _ => none

/-- The options object, if there is one. -/
def ClassBody.options? (b : ClassBody) : Option (Handle .object) :=
  match b.get? Directive.options.name with
  | some (.object o) => some o
  | _ => none

theorem ClassBody.get?_of_list? {b : ClassBody} {directive : Directive} {a : Handle .array}
    (h : b.list? directive = some a) : b.get? directive.name = some (.array a) := by
  unfold list? at h
  split at h
  · next found =>
    cases h
    exact found
  · cases h

theorem ClassBody.get?_of_options? {b : ClassBody} {o : Handle .object} (h : b.options? = some o) :
    b.get? Directive.options.name = some (.object o) := by
  unfold options? at h
  split at h
  · next found =>
    cases h
    exact found
  · cases h

namespace BuilderCall

/-- The change that a call makes to a container of the body, if it makes one. -/
def write? (b : ClassBody) : BuilderCall → Option Write
  | addMixin path => (b.list? .mixins).map (.append · path)
  | addShared name => (b.list? .shared).map (.append · name)
  | setAbstract isAbstract => b.options?.map (.setOption · isAbstract)
  | _ => none

/-- The changes that calls make, each to a container of the body that the calls before it have left. -/
def writes (b : ClassBody) (s : Store) : List BuilderCall → List Write
  | [] => []
  | call :: rest => (call.write? b).toList ++ writes (call.run b s).1 (call.run b s).2 rest

end BuilderCall

namespace Write

/-- What a change makes of the store. -/
def run (s : Store) : Write → Store
  | append a item => s.push (.array a) (.text item)
  | setOption o isAbstract =>
    s.setProperty (.object o) Directive.abstractOption (.boolean isAbstract)

/-- The container that is changed. -/
def target : Write → Value
  | append a _ => .array a
  | setOption o _ => .object o

/-- The element that is pushed to an array. -/
def element? (a : Handle .array) : Write → Option Value
  | append other item => if other = a then some (.text item) else none
  | setOption _ _ => none

/-- The option that is set in an object. -/
def option? (o : Handle .object) : Write → Option Bool
  | append _ _ => none
  | setOption other isAbstract => if other = o then some isAbstract else none

/-- The elements that changes push to an array. -/
def elements (ws : List Write) (a : Handle .array) : List Value := ws.filterMap (element? a)

/-- The option that changes leave in an object, if they set it. -/
def lastOption? (ws : List Write) (o : Handle .object) : Option Bool :=
  (ws.filterMap (option? o)).getLast?

/-- The properties of an object with the option that changes leave in it. -/
def properties (ws : List Write) (o : Handle .object) (before : Assoc String Value) :
    Assoc String Value :=
  match lastOption? ws o with
  | some isAbstract => Assoc.insert before Directive.abstractOption (.boolean isAbstract)
  | none => before

/-- The changes leave a value as it is: nothing is pushed to an array, and the option that is left in an
object is the one that it had. -/
def Spares (ws : List Write) (s : Store) : Value → Prop
  | .array a => elements ws a = []
  | .object o => ∀ isAbstract, lastOption? ws o = some isAbstract →
      Assoc.get? (s.object o) Directive.abstractOption = some (.boolean isAbstract)
  | _ => True

variable {s : Store} {ws vs : List Write} {a : Handle .array} {o : Handle .object}

@[simp] theorem elements_single (a : Handle .array) (w : Write) :
    elements [w] a = (w.element? a).toList := by
  cases h : w.element? a <;> simp [elements, h]

@[simp] theorem lastOption?_single (o : Handle .object) (w : Write) :
    lastOption? [w] o = w.option? o := by
  cases h : w.option? o <;> simp [lastOption?, h]

theorem elements_append : elements (ws ++ vs) a = elements ws a ++ elements vs a :=
  List.filterMap_append

/-- Of the options that are set in an object, the last one stays. -/
theorem properties_append (before : Assoc String Value) :
    properties (ws ++ vs) o before = properties vs o (properties ws o before) := by
  unfold properties lastOption?
  rw [List.filterMap_append, List.getLast?_append]
  rcases (vs.filterMap (option? o)).getLast? with _ | last
  · rfl
  rcases (ws.filterMap (option? o)).getLast? with _ | first
  · rfl
  · exact (Assoc.insert_insert before _ _ _).symm

/-- Changes to other containers leave a value as it is. -/
theorem spares_of_forall_ne {x : Value} (h : ∀ w ∈ ws, w.target ≠ x) : Spares ws s x := by
  cases x with
  | array a =>
    refine List.filterMap_eq_nil_iff.mpr fun w hw => ?_
    cases w with
    | append other item =>
      have hne : other ≠ a := fun heq => h _ hw (congrArg Value.array heq)
      exact if_neg hne
    | setOption _ _ => rfl
  | object o =>
    have hnone : ws.filterMap (option? o) = [] := by
      refine List.filterMap_eq_nil_iff.mpr fun w hw => ?_
      cases w with
      | append _ _ => rfl
      | setOption other isAbstract =>
        have hne : other ≠ o := fun heq => h _ hw (congrArg Value.object heq)
        exact if_neg hne
    intro isAbstract hlast
    rw [lastOption?, hnone] at hlast
    cases hlast
  | _ => trivial

end Write

/-! ### Stores that differ by changes -/

namespace Store

variable {s t u : Store} {ws vs : List Write} {v x : Value}

/-- What the first store has is in the second one with some changes to objects and arrays, and everything
else is as it was. -/
structure WrittenBy (ws : List Write) (s t : Store) : Prop where
  array_eq : ∀ a, s.arrays.Has a → t.array a = s.array a ++ Write.elements ws a
  object_eq : ∀ o, s.objects.Has o → t.object o = Write.properties ws o (s.object o)
  arrays_le : s.arrays.size ≤ t.arrays.size
  objects_le : s.objects.size ≤ t.objects.size
  functions : s.functions.Within t.functions
  patterns : s.patterns.Within t.patterns
  prototypes : s.prototypes.Within t.prototypes
  instances : s.instances.Within t.instances

theorem Within.writtenBy (h : s.Within t) : WrittenBy [] s t where
  array_eq := fun _ ha => (h.array_eq ha).trans (List.append_nil _).symm
  object_eq := fun _ ho => h.object_eq ho
  arrays_le := h.arrays.size_le
  objects_le := h.objects.size_le
  functions := h.functions
  patterns := h.patterns
  prototypes := h.prototypes
  instances := h.instances

theorem WrittenBy.trans (hst : WrittenBy ws s t) (htu : WrittenBy vs t u) :
    WrittenBy (ws ++ vs) s u where
  array_eq := by
    intro a ha
    have hat : t.arrays.Has a := Nat.lt_of_lt_of_le ha hst.arrays_le
    rw [htu.array_eq a hat, hst.array_eq a ha, Write.elements_append, List.append_assoc]
  object_eq := by
    intro o ho
    have hot : t.objects.Has o := Nat.lt_of_lt_of_le ho hst.objects_le
    rw [htu.object_eq o hot, hst.object_eq o ho, Write.properties_append]
  arrays_le := Nat.le_trans hst.arrays_le htu.arrays_le
  objects_le := Nat.le_trans hst.objects_le htu.objects_le
  functions := hst.functions.trans htu.functions
  patterns := hst.patterns.trans htu.patterns
  prototypes := hst.prototypes.trans htu.prototypes
  instances := hst.instances.trans htu.instances

theorem writtenBy_run (s : Store) (w : Write) : WrittenBy [w] s (w.run s) := by
  cases w with
  | append a item =>
    have hsize : s.arrays.size ≤ ((Write.append a item).run s).arrays.size :=
      Nat.le_of_eq (Pool.size_set s.arrays a _).symm
    refine ⟨?_, fun _ _ => rfl, hsize, Nat.le_refl _, .refl _, .refl _, .refl _, .refl _⟩
    intro other hother
    -- one cell is written, and every other one is kept
    by_cases heq : a = other
    · subst heq
      have hpushed : ((Write.append a item).run s).array a = s.array a ++ [.text item] :=
        Pool.get_set_self s.arrays a _ hother
      rw [hpushed, Write.elements_single, Write.element?, if_pos rfl, Option.toList_some]
    · have hkept : ((Write.append a item).run s).array other = s.array other :=
        Pool.get_set_of_ne s.arrays _ heq
      rw [hkept, Write.elements_single, Write.element?, if_neg heq, Option.toList_none,
        List.append_nil]
  | setOption o isAbstract =>
    have hsize : s.objects.size ≤ ((Write.setOption o isAbstract).run s).objects.size :=
      Nat.le_of_eq (Pool.size_set s.objects o _).symm
    refine ⟨fun _ _ => (List.append_nil _).symm, ?_, Nat.le_refl _, hsize, .refl _, .refl _, .refl _,
      .refl _⟩
    intro other hother
    by_cases heq : o = other
    · subst heq
      have hset : ((Write.setOption o isAbstract).run s).object o
          = Assoc.insert (s.object o) Directive.abstractOption (.boolean isAbstract) :=
        Pool.get_set_self s.objects o _ hother
      rw [hset, Write.properties, Write.lastOption?_single, Write.option?, if_pos rfl]
    · have hkept : ((Write.setOption o isAbstract).run s).object other = s.object other :=
        Pool.get_set_of_ne s.objects _ heq
      rw [hkept, Write.properties, Write.lastOption?_single, Write.option?, if_neg heq]

/-- A value that the changes spare has the properties and the elements that it had. -/
theorem WrittenBy.eq_of_spares (h : WrittenBy ws s t) (hx : s.Has x) (hspares : Write.Spares ws s x) :
    t.entries x = s.entries x ∧ t.elements x = s.elements x := by
  cases x with
  | array a =>
    have hnone : Write.elements ws a = [] := hspares
    have harray := h.array_eq a hx
    rw [hnone, List.append_nil] at harray
    exact ⟨rfl, harray⟩
  | object o =>
    have hobject := h.object_eq o hx
    refine ⟨hobject.trans ?_, rfl⟩
    unfold Write.properties
    rcases hlast : Write.lastOption? ws o with _ | isAbstract
    · rfl
    · exact Assoc.insert_of_get? (hspares isAbstract hlast)
  | _ => exact ⟨rfl, rfl⟩

/-- A value in which the same is found by each step is one that the changes spare. -/
theorem WrittenBy.spares_of_eq (h : WrittenBy ws s t) (hx : s.Has x)
    (hsame : ∀ step, t.reach? x [step] = s.reach? x [step]) : Write.Spares ws s x := by
  cases x with
  | array a =>
    have hfound : ∀ index : Nat, (t.array a)[index]? = (s.array a)[index]? := by
      intro index
      have hstep := hsame (.element index)
      rw [reach?_single_element, reach?_single_element] at hstep
      exact hstep
    -- equal elements at every index leave no room for anything pushed
    have hpushed := h.array_eq a hx
    rw [List.ext_getElem? hfound] at hpushed
    exact List.append_right_eq_self.mp hpushed.symm
  | object o =>
    intro isAbstract hlast
    -- the last option set is the one found now, and by assumption was found before
    have hset := h.object_eq o hx
    rw [Write.properties, hlast] at hset
    have hstep := hsame (.property Directive.abstractOption)
    rw [reach?_single_property, reach?_single_property] at hstep
    have hfound : Assoc.get? (t.object o) Directive.abstractOption = some (.boolean isAbstract) := by
      rw [hset]
      exact Assoc.get?_insert_self _ _ _
    exact hstep.symm.trans hfound
  | _ => trivial

/-- Changes leave the contents of a value alone, at every depth, if and only if they spare whatever is
reached from it. -/
theorem WrittenBy.reach?_eq_iff (h : WrittenBy ws s t) (hs : s.WellFormed) (hv : s.Has v) :
    (∀ steps, t.reach? v steps = s.reach? v steps) ↔
      ∀ steps x, s.reach? v steps = some x → Write.Spares ws s x := by
  constructor
  · intro hsame steps x hx
    refine h.spares_of_eq (hs.has_of_reach? hv hx) fun step => ?_
    have hlonger := hsame (steps ++ [step])
    rw [reach?_append, reach?_append, hsame steps, hx] at hlonger
    exact hlonger
  · intro hspares
    exact reach?_congr fun steps x hx => h.eq_of_spares (hs.has_of_reach? hv hx) (hspares steps x hx)

end Store

/-! ### What calls change -/

namespace BuilderCall

variable {b : ClassBody} {s t : Store} {calls : List BuilderCall}

/-- Adding to a directive pushes to the array that it holds, and else leaves what is there alone. -/
theorem writtenBy_addTo (b : ClassBody) (s : Store) (directive : Directive) (item : String) :
    s.WrittenBy ((b.list? directive).map (Write.append · item)).toList (b.addTo directive item s).2 := by
  unfold ClassBody.list? ClassBody.addTo
  rcases b.get? directive.name with _ | v
  · exact (Store.Within.refl s).writtenBy
  cases v with
  | array a => exact s.writtenBy_run (.append a item)
  | text first => exact (s.within_newArray _).writtenBy
  | _ => exact (Store.Within.refl s).writtenBy

/-- Saying whether the class is abstract writes to the options object, if there is one. -/
theorem writtenBy_setAbstract (b : ClassBody) (s : Store) (isAbstract : Bool) :
    s.WrittenBy (b.options?.map (Write.setOption · isAbstract)).toList
      (b.setAbstract isAbstract s).2 := by
  unfold ClassBody.options? ClassBody.setAbstract
  rcases b.get? Directive.options.name with _ | v
  · exact (s.within_newObject _).writtenBy
  cases v with
  | object o => exact s.writtenBy_run (.setOption o isAbstract)
  | _ => exact (s.within_newObject _).writtenBy

theorem writtenBy_run (b : ClassBody) (s : Store) (call : BuilderCall) :
    s.WrittenBy (call.write? b).toList (call.run b s).2 := by
  cases call with
  | setParent path => exact (Store.Within.refl s).writtenBy
  | addMixin path => exact writtenBy_addTo b s .mixins path
  | addShared name => exact writtenBy_addTo b s .shared name
  | setAbstract isAbstract => exact writtenBy_setAbstract b s isAbstract
  | addMember name v => exact (Store.Within.refl s).writtenBy
  | addMethod name code => exact (s.within_newFunction _).writtenBy

theorem writtenBy_runAll (b : ClassBody) (s : Store) (calls : List BuilderCall) :
    s.WrittenBy (writes b s calls) (runAll b s calls).2 := by
  induction calls generalizing b s with
  | nil => exact (Store.Within.refl s).writtenBy
  | cons call rest ih => exact (writtenBy_run b s call).trans (ih _ _)

end BuilderCall

/-! ### Bodies whose directives are their own -/

/-- No container that the store has stands under a directive. -/
def ClassBody.Detached (b : ClassBody) (s : Store) : Prop :=
  ∀ (directive : Directive) (v : Value), b.get? directive.name = some v →
    v.kind = .array ∨ v.kind = .object → ¬ s.Has v

namespace BuilderCall

variable {b : ClassBody} {s t : Store} {calls : List BuilderCall}

theorem detached_insert {name : String} {v : Value} (hb : b.Detached s)
    (hv : Directive.isReserved name = true → v.kind = .array ∨ v.kind = .object → ¬ s.Has v) :
    (b.insert name v).Detached s := by
  intro directive x hx hkind
  rw [ClassBody.get?, ClassBody.insert, Assoc.get?_insert] at hx
  split at hx
  · next hname =>
    cases hx
    refine hv ?_ hkind
    rw [hname]
    cases directive <;> rfl
  · exact hb directive x hx hkind

theorem detached_insert_leaf {name : String} {v : Value} (hb : b.Detached s) (harray : v.kind ≠ .array)
    (hobject : v.kind ≠ .object) : (b.insert name v).Detached s :=
  detached_insert hb fun _ hkind => absurd hkind (not_or.mpr ⟨harray, hobject⟩)

theorem detached_addTo (hb : b.Detached s) (harrays : s.arrays.size ≤ t.arrays.size)
    (directive : Directive) (item : String) : (b.addTo directive item t).1.Detached s := by
  have htext : (b.insert directive.name (.text item)).Detached s :=
    detached_insert_leaf hb (by simp [Value.kind]) (by simp [Value.kind])
  unfold ClassBody.addTo
  rcases b.get? directive.name with _ | v
  · exact htext
  cases v with
  | array a => exact hb
  | text first => exact detached_insert hb fun _ _ hold => Nat.not_lt_of_le harrays hold
  | _ => exact htext

theorem detached_setAbstract (hb : b.Detached s) (hobjects : s.objects.size ≤ t.objects.size)
    (isAbstract : Bool) : (b.setAbstract isAbstract t).1.Detached s := by
  have hobject : (b.insert Directive.options.name (.object ⟨t.objects.size⟩)).Detached s :=
    detached_insert hb fun _ _ hold => Nat.not_lt_of_le hobjects hold
  unfold ClassBody.setAbstract
  rcases b.get? Directive.options.name with _ | v
  · exact hobject
  cases v with
  | object o => exact hb
  | _ => exact hobject

/-- Calls that write no entry under a reserved name leave the directives without containers that an
earlier store has. -/
theorem detached_run (hb : b.Detached s) (harrays : s.arrays.size ≤ t.arrays.size)
    (hobjects : s.objects.size ≤ t.objects.size) (call : BuilderCall)
    (hcall : ∀ name v, call = .addMember name v → Directive.isReserved name = false) :
    (call.run b t).1.Detached s := by
  cases call with
  | setParent path => exact detached_insert_leaf hb (by simp [Value.kind]) (by simp [Value.kind])
  | addMixin path => exact detached_addTo hb harrays .mixins path
  | addShared name => exact detached_addTo hb harrays .shared name
  | setAbstract isAbstract => exact detached_setAbstract hb hobjects isAbstract
  | addMember name v =>
    refine detached_insert hb fun hreserved => ?_
    rw [hcall name v rfl] at hreserved
    cases hreserved
  | addMethod name code =>
    exact detached_insert_leaf hb (by simp [Value.kind]) (by simp [Value.kind])

/-- What a call changes stands under a directive. -/
theorem not_has_target (hb : b.Detached s) {call : BuilderCall} {w : Write}
    (hw : call.write? b = some w) : ¬ s.Has w.target := by
  have hlist : ∀ {directive item}, (b.list? directive).map (Write.append · item) = some w →
      ¬ s.Has w.target := by
    intro directive item h
    obtain ⟨a, ha, rfl⟩ := Option.map_eq_some_iff.mp h
    exact hb directive (.array a) (ClassBody.get?_of_list? ha) (.inl rfl)
  cases call with
  | addMixin path => exact hlist hw
  | addShared name => exact hlist hw
  | setAbstract isAbstract =>
    obtain ⟨o, ho, rfl⟩ := Option.map_eq_some_iff.mp hw
    exact hb .options (.object o) (ClassBody.get?_of_options? ho) (.inr rfl)
  | _ => cases hw

/-- So calls that write no entry under a reserved name change only containers that have come into being
since. -/
theorem not_has_target_of_mem_writes (hb : b.Detached s) (harrays : s.arrays.size ≤ t.arrays.size)
    (hobjects : s.objects.size ≤ t.objects.size)
    (hcalls : ∀ name v, .addMember name v ∈ calls → Directive.isReserved name = false) :
    ∀ w ∈ writes b t calls, ¬ s.Has w.target := by
  induction calls generalizing b t with
  | nil => exact fun w hw => nomatch hw
  | cons call rest ih =>
    intro w hw
    rcases List.mem_append.mp hw with hfirst | hlater
    · exact not_has_target hb (Option.mem_toList.mp hfirst)
    · have hrun := writtenBy_run b t call
      refine ih (detached_run hb harrays hobjects call ?_) (Nat.le_trans harrays hrun.arrays_le)
        (Nat.le_trans hobjects hrun.objects_le) ?_ w hlater
      · rintro name v rfl
        exact hcalls name v List.mem_cons_self
      · exact fun name v hmem => hcalls name v (List.mem_cons_of_mem _ hmem)

end BuilderCall

/-! ### The original -/

/-- A body keeps its entries when calls are applied to a copy of it, and what they hold is as it was,
at every depth, if and only if the calls spare whatever is reached from the entries: a text is pushed to
no array of these, and no option is changed in an object of these.  Then the directives of the body say
what they said.  This is so for all calls that write no entry under a reserved name when the body has no
container under one, but for instance not when it has the array of two mixins and the copy gets another
one. -/
theorem ClassBody.original_kept_iff {b : ClassBody} {s : Store} (hs : s.WellFormed)
    (hb : ∀ p ∈ b.entries, s.Has p.2) (calls : List BuilderCall) :
    s.WrittenBy (BuilderCall.writes b s calls) (BuilderCall.runAll b s calls).2 ∧
    ((∀ p ∈ b.entries, ∀ steps,
        (BuilderCall.runAll b s calls).2.reach? p.2 steps = s.reach? p.2 steps) ↔
      ∀ p ∈ b.entries, ∀ steps x, s.reach? p.2 steps = some x →
        Write.Spares (BuilderCall.writes b s calls) s x) ∧
    ((∀ p ∈ b.entries, ∀ steps,
        (BuilderCall.runAll b s calls).2.reach? p.2 steps = s.reach? p.2 steps) →
      ∀ path, Directives.parse (BuilderCall.runAll b s calls).2 path b = Directives.parse s path b) ∧
    (b.Detached s → (∀ name v, .addMember name v ∈ calls → Directive.isReserved name = false) →
      ∀ p ∈ b.entries, ∀ steps,
        (BuilderCall.runAll b s calls).2.reach? p.2 steps = s.reach? p.2 steps) := by
  have hwritten := BuilderCall.writtenBy_runAll b s calls
  refine ⟨hwritten, ?_, ?_, ?_⟩
  · exact forall₂_congr fun p hp => hwritten.reach?_eq_iff hs (hb p hp)
  · intro hsame path
    refine Directives.parse_congr path fun p hp x hx => ?_
    obtain ⟨steps, hsteps⟩ := hx.exists_steps hs
    have hspares := (hwritten.reach?_eq_iff hs (hb p hp)).mp (hsame p hp) steps x hsteps
    exact hwritten.eq_of_spares (hx.has hs (hb p hp)) hspares
  · intro hdetached hcalls p hp
    refine (hwritten.reach?_eq_iff hs (hb p hp)).mpr fun steps x hx => ?_
    have hhas : s.Has x := hs.has_of_reach? (hb p hp) hx
    refine Write.spares_of_forall_ne fun w hw heq => ?_
    have hnew := BuilderCall.not_has_target_of_mem_writes hdetached (Nat.le_refl _) (Nat.le_refl _)
      hcalls w hw
    rw [heq] at hnew
    exact hnew hhas

namespace Sample

/-- The store with the array of two mixins and the options of an abstract class. -/
def listedStore : Store :=
  (BuilderCall.runAll .empty .empty [.addMixin "Ns.A", .addMixin "Ns.B", .setAbstract true]).2

/-- The body that has them. -/
def listed : ClassBody :=
  (BuilderCall.runAll .empty .empty [.addMixin "Ns.A", .addMixin "Ns.B", .setAbstract true]).1

theorem listedStore_wellFormed : listedStore.WellFormed := by
  refine ⟨?_, ?_, ?_⟩
  · rintro ⟨index⟩ p hp
    match index with
    | 0 =>
      obtain rfl := List.mem_singleton.mp hp
      trivial
    | index + 1 => cases hp
  · rintro ⟨index⟩ v hv
    match index with
    | 0 =>
      rcases List.mem_cons.mp hv with rfl | hrest
      · trivial
      · obtain rfl := List.mem_singleton.mp hrest
        trivial
    | index + 1 => cases hv
  · rintro ⟨index⟩
    match index with
    | 0 => decide
    | index + 1 => exact List.nodup_nil

theorem listedStore_has_listed : ∀ p ∈ listed.entries, listedStore.Has p.2 := by
  intro p hp
  rcases List.mem_cons.mp hp with rfl | hrest
  · exact Nat.zero_lt_one
  · obtain rfl := List.mem_singleton.mp hrest
    exact Nat.zero_lt_one

end Sample

namespace ClassBody

/-- A parent and members may be written to the copy. -/
theorem original_kept_listed :
    Sample.listedStore.WellFormed ∧ (∀ p ∈ Sample.listed.entries, Sample.listedStore.Has p.2) ∧
    ∀ path, Directives.parse (BuilderCall.runAll Sample.listed Sample.listedStore
        [.setParent "Ns.P", .addShared "size", .addMember "size" .null, .addMethod "run" []]).2 path
        Sample.listed
      = Directives.parse Sample.listedStore path Sample.listed := by
  obtain ⟨-, hiff, hparse, -⟩ := original_kept_iff Sample.listedStore_wellFormed
    Sample.listedStore_has_listed
    [.setParent "Ns.P", .addShared "size", .addMember "size" .null, .addMethod "run" []]
  refine ⟨Sample.listedStore_wellFormed, Sample.listedStore_has_listed, hparse (hiff.mpr ?_)⟩
  intro p _ steps x _
  exact Write.spares_of_forall_ne fun w hw => nomatch hw

/-- The third mixin of a copy is read from the original as well. -/
theorem copy_changes_original :
    ¬ ∀ (b : ClassBody) (s : Store) (calls : List BuilderCall), s.WellFormed →
      (∀ p ∈ b.entries, s.Has p.2) →
      ∀ path, Directives.parse (BuilderCall.runAll b s calls).2 path b = Directives.parse s path b := by
  intro hkept
  have hmixins := hkept Sample.listed Sample.listedStore [.addMixin "Ns.C"]
    Sample.listedStore_wellFormed Sample.listedStore_has_listed "Ns.D"
  have hbefore : Directives.parse Sample.listedStore "Ns.D" Sample.listed
      = .ok { parent? := none, mixins := ["Ns.A", "Ns.B"], shared := [], isAbstract := true } := rfl
  have hafter : Directives.parse
        (BuilderCall.runAll Sample.listed Sample.listedStore [.addMixin "Ns.C"]).2 "Ns.D" Sample.listed
      = .ok { parent? := none, mixins := ["Ns.A", "Ns.B", "Ns.C"], shared := [], isAbstract := true } :=
    rfl
  rw [hbefore, hafter] at hmixins
  cases hmixins

end ClassBody

end ClassComposition
