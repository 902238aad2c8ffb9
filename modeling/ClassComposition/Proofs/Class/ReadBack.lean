import ClassComposition.Proofs.Class.Building
import Mathlib.Data.List.Induction

/-!
# What a built body says

A body is built by calls, and its directives are read at once.  The calls write a directive in another
shape each time: the first name as a text, the second by a new array, and further ones into that array;
the option in a new object, and then into that object.  Whatever the order of the calls, reading undoes
this.  The invariant that carries it says for each directive in which shape it stands, and that the two
arrays of names are different ones: otherwise a mixin would be pushed among the shared names.

## Main definitions

* `BuilderCall.parent?`, `BuilderCall.mixin?`, `BuilderCall.sharedName?`, `BuilderCall.abstractness?` —
  what a call says.
* `BuilderCall.members` — the members that calls write.
* `ClassBody.Lists`, `ClassBody.HasOption` — the shapes of a directive.
* `ClassBody.Says` — what the directives of a body say.
* `ClassBody.others` — the entries that are no directives.

## Main results

* `ClassBody.Says.parse_eq` — what directives say is read from them.
* `BuilderCall.says_run`, `BuilderCall.says_runAll` — one call, and all calls on a new body.
* `ClassBody.parse_built` — the directives are read as they were written.
-/

namespace ClassComposition

/-! ### Maps written in turn -/

namespace Assoc

variable {κ α : Type} [DecidableEq κ]

theorem ofList_concat (pairs : List (κ × α)) (p : κ × α) :
    ofList (pairs ++ [p]) = insert (ofList pairs) p.1 p.2 := by
  rw [ofList, List.foldl_append]
  rfl

/-- Each key stands where it was written first. -/
theorem keys_ofList (pairs : List (κ × α)) : keys (ofList pairs) = (pairs.map Prod.fst).eraseDups := by
  induction pairs using List.reverseRecOn with
  | nil => rfl
  | append_singleton pairs p ih =>
    rw [ofList_concat, keys_insert, ih, List.map_append, List.eraseDups_append]
    by_cases hp : p.1 ∈ pairs.map Prod.fst
    · simp [List.removeAll, hp]
    · simp [List.removeAll, hp, List.eraseDups_cons]

/-- Each key has the value that was written last. -/
theorem get?_ofList (pairs : List (κ × α)) (key : κ) :
    get? (ofList pairs) key = ((pairs.filter (·.1 == key)).getLast?).map Prod.snd := by
  induction pairs using List.reverseRecOn with
  | nil => rfl
  | append_singleton pairs p ih =>
    rw [ofList_concat, get?_insert, ih, List.filter_append]
    by_cases hp : p.1 = key
    · simp [hp]
    · simp [hp]

end Assoc

/-! ### What calls say -/

namespace BuilderCall

/-- The parent that a call names. -/
def parent? : BuilderCall → Option String
  | setParent path => some path
  | _ => none

/-- The mixin that a call adds. -/
def mixin? : BuilderCall → Option String
  | addMixin path => some path
  | _ => none

/-- The shared name that a call adds. -/
def sharedName? : BuilderCall → Option String
  | addShared name => some name
  | _ => none

/-- What a call says of whether the class is abstract. -/
def abstractness? : BuilderCall → Option Bool
  | setAbstract isAbstract => some isAbstract
  | _ => none

/-- The method that a call makes. -/
def method? : BuilderCall → Option Method
  | addMethod name code => some ⟨some name, code⟩
  | _ => none

/-- The member that a call writes.  A method is the next function of the store. -/
def member? (next : Nat) : BuilderCall → Option (String × Value)
  | addMember name v => some (name, v)
  | addMethod name _ => some (name, .function ⟨next⟩)
  | _ => none

/-- The members that calls write, in their order.  The methods are the functions from `next` on. -/
def members (next : Nat) : List BuilderCall → List (String × Value)
  | [] => []
  | call :: rest => (call.member? next).toList ++ members (next + call.method?.toList.length) rest

theorem members_concat (next : Nat) (calls : List BuilderCall) (call : BuilderCall) :
    members next (calls ++ [call])
      = members next calls ++ (call.member? (next + (calls.filterMap method?).length)).toList := by
  induction calls generalizing next with
  | nil => simp [members]
  | cons first rest ih =>
    have hlength : ((first :: rest).filterMap method?).length
        = first.method?.toList.length + (rest.filterMap method?).length := by
      cases hfirst : first.method? <;> simp [hfirst, Nat.add_comm]
    rw [List.cons_append, members, members, ih, hlength, List.append_assoc, Nat.add_assoc]

theorem runAll_concat (b : ClassBody) (s : Store) (calls : List BuilderCall) (call : BuilderCall) :
    runAll b s (calls ++ [call]) = call.run (runAll b s calls).1 (runAll b s calls).2 := by
  induction calls generalizing b s with
  | nil => rfl
  | cons first rest ih => exact ih _ _

end BuilderCall

/-! ### The shapes of a directive -/

namespace ClassBody

/-- A directive holds these names: none, one as a text, or more in an array of texts. -/
def Lists (b : ClassBody) (s : Store) (directive : Directive) : List String → Prop
  | [] => b.get? directive.name = none
  | [name] => b.get? directive.name = some (.text name)
  | names => ∃ a, b.get? directive.name = some (.array a) ∧ s.arrays.Has a ∧
      s.array a = names.map .text

/-- There are no options, or an object with just the option that makes a class abstract or not. -/
def HasOption (b : ClassBody) (s : Store) : Option Bool → Prop
  | none => b.get? Directive.options.name = none
  | some isAbstract => ∃ o, b.get? Directive.options.name = some (.object o) ∧ s.objects.Has o ∧
      s.object o = [(Directive.abstractOption, .boolean isAbstract)]

variable {b b' : ClassBody} {s t : Store} {directive : Directive} {names : List String}
  {ws : List Write} {a : Handle .array}

theorem list?_of_get? (h : b.get? directive.name = some (.array a)) : b.list? directive = some a := by
  rw [list?, h]

theorem list?_congr (h : b'.get? directive.name = b.get? directive.name) :
    b'.list? directive = b.list? directive := by
  rw [list?, h, ← list?]

theorem Lists.has (h : b.Lists s directive names) (ha : b.list? directive = some a) : s.arrays.Has a := by
  have hfound := get?_of_list? ha
  match names, h with
  | [], h =>
    rw [h] at hfound
    cases hfound
  | [name], h =>
    rw [h] at hfound
    cases hfound
  | _ :: _ :: _, ⟨a', ha', hhas, _⟩ =>
    rw [ha'] at hfound
    cases hfound
    exact hhas

/-- A directive keeps its shape when the entry is kept and nothing is pushed to its array. -/
theorem Lists.frame (h : b.Lists s directive names)
    (hget : b'.get? directive.name = b.get? directive.name) (hst : s.WrittenBy ws t)
    (hkept : ∀ a, b.list? directive = some a → Write.elements ws a = []) :
    b'.Lists t directive names := by
  match names, h with
  | [], h => exact hget.trans h
  | [name], h => exact hget.trans h
  | _ :: _ :: _, ⟨a, ha, hhas, helements⟩ =>
    refine ⟨a, hget.trans ha, Nat.lt_of_lt_of_le hhas hst.arrays_le, ?_⟩
    rw [hst.array_eq a hhas, hkept a (list?_of_get? ha), List.append_nil, helements]

theorem HasOption.frame {option? : Option Bool} (h : b.HasOption s option?)
    (hget : b'.get? Directive.options.name = b.get? Directive.options.name) (hst : s.WrittenBy ws t)
    (hkept : ∀ o, Write.lastOption? ws o = none) : b'.HasOption t option? := by
  match option?, h with
  | none, h => exact hget.trans h
  | some isAbstract, ⟨o, ho, hhas, hobject⟩ =>
    refine ⟨o, hget.trans ho, Nat.lt_of_lt_of_le hhas hst.objects_le, ?_⟩
    rw [hst.object_eq o hhas, Write.properties, hkept o, hobject]

/-! ### Adding to a directive -/

theorem get?_insert (b : ClassBody) (name other : String) (v : Value) :
    (b.insert name v).get? other = if name = other then some v else b.get? other :=
  Assoc.get?_insert b.entries name other v

theorem get?_addTo_of_ne (b : ClassBody) (directive : Directive) (item : String) (s : Store)
    {name : String} (hne : directive.name ≠ name) :
    (b.addTo directive item s).1.get? name = b.get? name := by
  have hinsert : ∀ v, (b.insert directive.name v).get? name = b.get? name := by
    intro v
    rw [get?_insert, if_neg hne]
  unfold addTo
  split
  · rfl
  · exact hinsert _
  · exact hinsert _

/-- A directive to which a name is added holds it behind those that it held. -/
theorem Lists.addTo (h : b.Lists s directive names) (item : String) :
    (b.addTo directive item s).1.Lists (b.addTo directive item s).2 directive (names ++ [item]) := by
  have hself : ∀ v, (b.insert directive.name v).get? directive.name = some v := by
    intro v
    rw [get?_insert, if_pos rfl]
  -- no entry becomes a text, a text an array of two, and an array is pushed to
  match names, h with
  | [], h =>
    have hget : b.get? directive.name = none := h
    unfold ClassBody.addTo
    rw [hget]
    exact hself _
  | [name], h =>
    have hget : b.get? directive.name = some (.text name) := h
    unfold ClassBody.addTo
    rw [hget]
    refine ⟨⟨s.arrays.size⟩, hself _, ?_, ?_⟩
    · exact (s.isNew_newArray [.text name, .text item]).2
    · exact Pool.get_alloc_self s.arrays [.text name, .text item]
  | first :: second :: rest, ⟨a, ha, hhas, helements⟩ =>
    unfold ClassBody.addTo
    rw [ha]
    refine ⟨a, ha, ?_, ?_⟩
    · exact Nat.lt_of_lt_of_eq hhas (Pool.size_set s.arrays a _).symm
    · have hpushed : (s.push (.array a) (.text item)).array a = s.array a ++ [.text item] :=
        Pool.get_set_self s.arrays a _ hhas
      rw [hpushed, helements, ← List.map_singleton, ← List.map_append]
      rfl

/-- The array of a directive to which a name was added was there, or is new. -/
theorem list?_addTo (item : String) (h : (b.addTo directive item s).1.list? directive = some a) :
    b.list? directive = some a ∨ a = ⟨s.arrays.size⟩ := by
  have hself : ∀ v, (b.insert directive.name v).get? directive.name = some v := by
    intro v
    rw [get?_insert, if_pos rfl]
  have hfound := get?_of_list? h
  unfold addTo at hfound
  split at hfound
  · exact .inl (list?_of_get? hfound)
  · rw [hself] at hfound
    cases hfound
    exact .inr rfl
  · rw [hself] at hfound
    cases hfound

/-- A name that is added to one directive is pushed to no other array. -/
theorem elements_addTo {item : String} (hne : b.list? directive ≠ some a) :
    Write.elements ((b.list? directive).map (Write.append · item)).toList a = [] := by
  rcases hlist : b.list? directive with _ | other
  · rfl
  · have hother : other ≠ a := by
      rintro rfl
      exact hne hlist
    rw [Option.map_some, Option.toList_some, Write.elements_single, Write.element?, if_neg hother]
    rfl

theorem lastOption?_addTo (b : ClassBody) (directive : Directive) (item : String) (o : Handle .object) :
    Write.lastOption? ((b.list? directive).map (Write.append · item)).toList o = none := by
  cases b.list? directive <;> rfl

/-! ### The option -/

theorem get?_setAbstract_of_ne (b : ClassBody) (isAbstract : Bool) (s : Store) {name : String}
    (hne : Directive.options.name ≠ name) : (b.setAbstract isAbstract s).1.get? name = b.get? name := by
  unfold setAbstract
  split
  · rfl
  · dsimp only
    rw [get?_insert, if_neg hne]

theorem HasOption.setAbstract {option? : Option Bool} (h : b.HasOption s option?) (isAbstract : Bool) :
    (b.setAbstract isAbstract s).1.HasOption (b.setAbstract isAbstract s).2 (some isAbstract) := by
  -- the options object is made with the first option and written to from then on
  match option?, h with
  | none, h =>
    have hget : b.get? Directive.options.name = none := h
    unfold ClassBody.setAbstract
    rw [hget]
    refine ⟨⟨s.objects.size⟩, ?_, ?_, ?_⟩
    · dsimp only
      rw [get?_insert, if_pos rfl]
      rfl
    · exact (s.isNew_newObject [(Directive.abstractOption, .boolean isAbstract)]).2
    · exact Pool.get_alloc_self s.objects [(Directive.abstractOption, .boolean isAbstract)]
  | some before, ⟨o, ho, hhas, hobject⟩ =>
    unfold ClassBody.setAbstract
    rw [ho]
    refine ⟨o, ho, Nat.lt_of_lt_of_eq hhas (Pool.size_set s.objects o _).symm, ?_⟩
    have hset : (s.setProperty (.object o) Directive.abstractOption (.boolean isAbstract)).object o
        = Assoc.insert (s.object o) Directive.abstractOption (.boolean isAbstract) :=
      Pool.get_set_self s.objects o _ hhas
    rw [hset, hobject, Assoc.insert, if_pos rfl]

theorem elements_setAbstract (b : ClassBody) (isAbstract : Bool) (a : Handle .array) :
    Write.elements (b.options?.map (Write.setOption · isAbstract)).toList a = [] := by
  cases b.options? <;> rfl

/-! ### What the directives of a body say -/

theorem isReserved_name (directive : Directive) : Directive.isReserved directive.name = true := by
  cases directive <;> rfl

/-- The directives of a body name this parent, these mixins and these shared members, and hold this
option. -/
structure Says (b : ClassBody) (s : Store) (parent? : Option String) (mixins shared : List String)
    (option? : Option Bool) : Prop where
  parent : b.get? Directive.parent.name = parent?.map .text
  mixins : b.Lists s .mixins mixins
  shared : b.Lists s .shared shared
  /-- No array holds the names of both. -/
  apart : ∀ a, b.list? .mixins = some a → b.list? .shared ≠ some a
  option : b.HasOption s option?

variable {parent? : Option String} {mixins shared : List String} {option? : Option Bool}

theorem says_empty (s : Store) : empty.Says s none [] [] none where
  parent := rfl
  mixins := rfl
  shared := rfl
  apart := fun _ h => nomatch h
  option := rfl

/-- A member under a name that is not reserved changes nothing of what the directives say. -/
theorem Says.insert (h : b.Says s parent? mixins shared option?) {name : String}
    (hname : Directive.isReserved name = false) (v : Value) (hst : s.Within t) :
    (b.insert name v).Says t parent? mixins shared option? := by
  have hget : ∀ directive : Directive, (b.insert name v).get? directive.name = b.get? directive.name := by
    intro directive
    have hne : name ≠ directive.name := by
      rintro rfl
      rw [isReserved_name] at hname
      cases hname
    rw [get?_insert, if_neg hne]
  refine ⟨(hget _).trans h.parent, h.mixins.frame (hget _) hst.writtenBy fun _ _ => rfl,
    h.shared.frame (hget _) hst.writtenBy fun _ _ => rfl, ?_,
    h.option.frame (hget _) hst.writtenBy fun _ => rfl⟩
  rw [list?_congr (hget _), list?_congr (hget _)]
  exact h.apart

theorem Says.setParent (h : b.Says s parent? mixins shared option?) (path : String) :
    (b.setParent path).Says s (some path) mixins shared option? := by
  have hget : ∀ name, Directive.parent.name ≠ name → (b.setParent path).get? name = b.get? name := by
    intro name hne
    rw [ClassBody.setParent, get?_insert, if_neg hne]
  have hmixins := hget Directive.mixins.name (by decide)
  have hshared := hget Directive.shared.name (by decide)
  have hst := (Store.Within.refl s).writtenBy
  refine ⟨?_, h.mixins.frame hmixins hst fun _ _ => rfl, h.shared.frame hshared hst fun _ _ => rfl, ?_,
    h.option.frame (hget _ (by decide)) hst fun _ => rfl⟩
  · rw [ClassBody.setParent, get?_insert, if_pos rfl]
    rfl
  · rw [list?_congr hmixins, list?_congr hshared]
    exact h.apart

theorem Says.addMixin (h : b.Says s parent? mixins shared option?) (path : String) :
    (b.addMixin path s).1.Says (b.addMixin path s).2 parent? (mixins ++ [path]) shared option? := by
  have hget : ∀ name, Directive.mixins.name ≠ name → (b.addMixin path s).1.get? name = b.get? name :=
    fun name hne => get?_addTo_of_ne b .mixins path s hne
  have hshared := hget Directive.shared.name (by decide)
  have hst := BuilderCall.writtenBy_addTo b s .mixins path
  refine ⟨(hget _ (by decide)).trans h.parent, h.mixins.addTo path, h.shared.frame hshared hst ?_, ?_,
    h.option.frame (hget _ (by decide)) hst fun o => lastOption?_addTo b .mixins path o⟩
  · exact fun a ha => elements_addTo fun hmixins => h.apart a hmixins ha
  · intro a ha
    rw [list?_congr hshared]
    rcases list?_addTo path ha with hold | rfl
    · exact h.apart a hold
    · exact fun hnew => Nat.lt_irrefl _ (h.shared.has hnew)

theorem Says.addShared (h : b.Says s parent? mixins shared option?) (name : String) :
    (b.addShared name s).1.Says (b.addShared name s).2 parent? mixins (shared ++ [name]) option? := by
  have hget : ∀ other, Directive.shared.name ≠ other →
      (b.addShared name s).1.get? other = b.get? other :=
    fun other hne => get?_addTo_of_ne b .shared name s hne
  have hmixins := hget Directive.mixins.name (by decide)
  have hst := BuilderCall.writtenBy_addTo b s .shared name
  refine ⟨(hget _ (by decide)).trans h.parent, h.mixins.frame hmixins hst ?_, h.shared.addTo name, ?_,
    h.option.frame (hget _ (by decide)) hst fun o => lastOption?_addTo b .shared name o⟩
  · exact fun a ha => elements_addTo (h.apart a ha)
  · intro a ha hboth
    rw [list?_congr hmixins] at ha
    rcases list?_addTo name hboth with hold | rfl
    · exact h.apart a ha hold
    · exact Nat.lt_irrefl _ (h.mixins.has ha)

theorem Says.setAbstract (h : b.Says s parent? mixins shared option?) (isAbstract : Bool) :
    (b.setAbstract isAbstract s).1.Says (b.setAbstract isAbstract s).2 parent? mixins shared
      (some isAbstract) := by
  have hget : ∀ name, Directive.options.name ≠ name →
      (b.setAbstract isAbstract s).1.get? name = b.get? name :=
    fun name hne => get?_setAbstract_of_ne b isAbstract s hne
  have hmixins := hget Directive.mixins.name (by decide)
  have hshared := hget Directive.shared.name (by decide)
  have hst := BuilderCall.writtenBy_setAbstract b s isAbstract
  refine ⟨(hget _ (by decide)).trans h.parent,
    h.mixins.frame hmixins hst fun a _ => elements_setAbstract b isAbstract a,
    h.shared.frame hshared hst fun a _ => elements_setAbstract b isAbstract a, ?_,
    h.option.setAbstract isAbstract⟩
  rw [list?_congr hmixins, list?_congr hshared]
  exact h.apart

/-! ### Reading -/

theorem texts?_map (names : List String) : Directives.texts? (names.map .text) = some names := by
  induction names with
  | nil => rfl
  | cons name rest ih => rw [List.map_cons, Directives.texts?, ih, Option.map_some]

/-- The names that a directive holds are read, in whatever shape it holds them. -/
theorem Lists.names_eq (h : b.Lists s directive names) (path : String) :
    Directives.names s path b directive = .ok names := by
  unfold Directives.names
  match names, h with
  | [], h => rw [show b.get? directive.name = none from h]
  | [name], h => rw [show b.get? directive.name = some (.text name) from h]
  | first :: second :: rest, ⟨a, ha, _, helements⟩ =>
    rw [ha]
    dsimp only
    rw [helements, texts?_map]

theorem HasOption.abstractness_eq (h : b.HasOption s option?) (path : String) :
    Directives.abstractness s path b = .ok (option?.getD false) := by
  unfold Directives.abstractness
  match option?, h with
  | none, h => rw [show b.get? Directive.options.name = none from h, Option.getD_none]
  | some isAbstract, ⟨o, ho, _, hobject⟩ =>
    rw [ho]
    dsimp only
    rw [hobject, Assoc.get?, if_pos rfl]
    rfl

/-- What directives say is read from them. -/
theorem Says.parse_eq (h : b.Says s parent? mixins shared option?) (path : String) :
    Directives.parse s path b =
      .ok { parent?, mixins, shared, isAbstract := option?.getD false } := by
  have hparent : Directives.parentPath? path b = .ok parent? := by
    unfold Directives.parentPath?
    rw [h.parent]
    cases parent? <;> rfl
  rw [Directives.parse, h.option.abstractness_eq, hparent, h.mixins.names_eq, h.shared.names_eq]
  rfl

/-! ### Entries that are no directives -/

/-- The entries under names that are not reserved. -/
def others (b : ClassBody) : Assoc String Value := b.entries.filter fun p => !Directive.isReserved p.1

theorem others_insert (b : ClassBody) (name : String) (v : Value) :
    (b.insert name v).others =
      if Directive.isReserved name then b.others else Assoc.insert b.others name v := by
  rw [others, ClassBody.insert, Assoc.filter_insert fun name => !Directive.isReserved name]
  cases Directive.isReserved name <;> rfl

theorem others_insert_directive (b : ClassBody) (directive : Directive) (v : Value) :
    (b.insert directive.name v).others = b.others := by
  rw [others_insert, isReserved_name, if_pos rfl]

theorem others_addTo (b : ClassBody) (directive : Directive) (item : String) (s : Store) :
    (b.addTo directive item s).1.others = b.others := by
  unfold addTo
  split
  · rfl
  · exact others_insert_directive b directive _
  · exact others_insert_directive b directive _

theorem others_setAbstract (b : ClassBody) (isAbstract : Bool) (s : Store) :
    (b.setAbstract isAbstract s).1.others = b.others := by
  unfold setAbstract
  split
  · rfl
  · exact others_insert_directive b .options _

end ClassBody

/-! ### Calls on a new body -/

namespace BuilderCall

variable {s : Store} {calls : List BuilderCall}

/-- A call changes what the directives say by what it says itself. -/
theorem says_run {b : ClassBody} {parent? : Option String} {mixins shared : List String}
    {option? : Option Bool} (h : b.Says s parent? mixins shared option?) (call : BuilderCall)
    (hcall : ∀ name v, call.member? s.functions.size = some (name, v) →
      Directive.isReserved name = false) :
    (call.run b s).1.Says (call.run b s).2 (call.parent?.or parent?) (mixins ++ call.mixin?.toList)
      (shared ++ call.sharedName?.toList) (call.abstractness?.or option?) := by
  cases call <;> simp only [run, BuilderCall.parent?, mixin?, sharedName?, abstractness?,
    Option.toList_none, Option.toList_some, Option.none_or, Option.some_or, List.append_nil]
  case setParent path => exact h.setParent path
  case addMixin path => exact h.addMixin path
  case addShared name => exact h.addShared name
  case setAbstract isAbstract => exact h.setAbstract isAbstract
  case addMember name v => exact h.insert (hcall name v rfl) v (.refl s)
  case addMethod name code => exact h.insert (hcall name _ rfl) _ (s.within_newFunction _)

theorem functions_run (b : ClassBody) (s : Store) (call : BuilderCall) :
    (call.run b s).2.functions.cells.toList = s.functions.cells.toList ++ call.method?.toList := by
  have haddTo : ∀ directive item, (b.addTo directive item s).2.functions = s.functions := by
    intro directive item
    unfold ClassBody.addTo
    split <;> rfl
  have hsetAbstract : ∀ isAbstract, (b.setAbstract isAbstract s).2.functions = s.functions := by
    intro isAbstract
    unfold ClassBody.setAbstract
    split <;> rfl
  cases call with
  | addMixin path => simp [run, ClassBody.addMixin, haddTo, method?]
  | addShared name => simp [run, ClassBody.addShared, haddTo, method?]
  | setAbstract isAbstract => simp [run, hsetAbstract, method?]
  | addMethod name code =>
    simp [run, ClassBody.addMethod, Store.newFunction, Pool.alloc, method?]
  | _ => simp [run, method?]

/-- A call writes its member, if it has one, and changes no other entry that is no directive. -/
theorem others_run (b : ClassBody) (s : Store) (call : BuilderCall)
    (hcall : ∀ name v, call.member? s.functions.size = some (name, v) →
      Directive.isReserved name = false) :
    (call.run b s).1.others =
      ((call.member? s.functions.size).map fun p => Assoc.insert b.others p.1 p.2).getD b.others := by
  cases call with
  | setParent path => exact ClassBody.others_insert_directive b .parent _
  | addMixin path => exact ClassBody.others_addTo b .mixins path s
  | addShared name => exact ClassBody.others_addTo b .shared name s
  | setAbstract isAbstract => exact ClassBody.others_setAbstract b isAbstract s
  | addMember name v =>
    refine (ClassBody.others_insert b name v).trans ?_
    rw [hcall name v rfl]
    rfl
  | addMethod name code =>
    refine (ClassBody.others_insert b name _).trans ?_
    rw [hcall name _ rfl]
    rfl

theorem filterMap_concat {α : Type} (f : BuilderCall → Option α) (calls : List BuilderCall)
    (call : BuilderCall) : (calls ++ [call]).filterMap f = calls.filterMap f ++ (f call).toList := by
  rw [List.filterMap_append]
  cases hcall : f call <;> simp [hcall]

/-- The functions that calls make stand behind those that are there. -/
theorem functions_runAll (b : ClassBody) (s : Store) (calls : List BuilderCall) :
    (runAll b s calls).2.functions.cells.toList
      = s.functions.cells.toList ++ calls.filterMap method? := by
  induction calls using List.reverseRecOn with
  | nil => exact (List.append_nil _).symm
  | append_singleton calls call ih =>
    rw [runAll_concat, functions_run, ih, filterMap_concat, List.append_assoc]

theorem size_functions_runAll (b : ClassBody) (s : Store) (calls : List BuilderCall) :
    (runAll b s calls).2.functions.size = s.functions.size + (calls.filterMap method?).length := by
  have hlength := congrArg List.length (functions_runAll b s calls)
  rw [List.length_append, Array.length_toList, Array.length_toList] at hlength
  exact hlength

/-- No call of a list writes a member under a reserved name. -/
def SparesDirectives (calls : List BuilderCall) : Prop :=
  ∀ call ∈ calls, ∀ next name v, call.member? next = some (name, v) →
    Directive.isReserved name = false

/-- After calls on a new body, the directives say what the calls said, the last one where there is room
for one only. -/
theorem says_runAll (s : Store) (hcalls : SparesDirectives calls) :
    (runAll .empty s calls).1.Says (runAll .empty s calls).2
      (calls.filterMap BuilderCall.parent?).getLast? (calls.filterMap mixin?)
      (calls.filterMap sharedName?) (calls.filterMap abstractness?).getLast? := by
  induction calls using List.reverseRecOn with
  | nil => exact ClassBody.says_empty s
  | append_singleton calls call ih =>
    have hbefore : SparesDirectives calls := fun c hc => hcalls c (List.mem_append_left _ hc)
    have hstep := says_run (ih hbefore) call
      (hcalls call (List.mem_append_right _ (List.mem_singleton_self call)) _)
    have hlast : ∀ {α : Type} (xs : List α) (x? : Option α),
        (xs ++ x?.toList).getLast? = x?.or xs.getLast? := by
      intro α xs x?
      cases x? <;> simp
    rw [runAll_concat, filterMap_concat, filterMap_concat, filterMap_concat, filterMap_concat, hlast,
      hlast]
    exact hstep

/-- The other entries are the members that the calls wrote, one after the other. -/
theorem others_runAll (s : Store) (hcalls : SparesDirectives calls) :
    (runAll .empty s calls).1.others = Assoc.ofList (members s.functions.size calls) := by
  induction calls using List.reverseRecOn with
  | nil => rfl
  | append_singleton calls call ih =>
    have hbefore : SparesDirectives calls := fun c hc => hcalls c (List.mem_append_left _ hc)
    have hstep := others_run (runAll .empty s calls).1 (runAll .empty s calls).2 call
      (hcalls call (List.mem_append_right _ (List.mem_singleton_self call)) _)
    rw [runAll_concat, hstep, ih hbefore, members_concat, size_functions_runAll]
    rcases call.member? (s.functions.size + (calls.filterMap method?).length) with _ | p
    · rw [Option.map_none, Option.getD_none, Option.toList_none, List.append_nil]
    · rw [Option.map_some, Option.getD_some, Option.toList_some, Assoc.ofList_concat]

end BuilderCall

/-- The directives of a body are read as they were written.  Whatever calls are applied to a new body, in
any order, as long as no member is written under a reserved name: reading succeeds and answers the last
parent, all mixins and all shared names in the order in which they were added, and what was said last of
whether the class is abstract.  The other entries are the members, each at the place where it was
written first and with the value that was written last; the methods among them are new functions, in the
order of their calls. -/
theorem ClassBody.parse_built (s : Store) (calls : List BuilderCall)
    (hmembers : ∀ name v, .addMember name v ∈ calls → Directive.isReserved name = false)
    (hmethods : ∀ name code, .addMethod name code ∈ calls → Directive.isReserved name = false)
    (path : String) :
    Directives.parse (BuilderCall.runAll .empty s calls).2 path (BuilderCall.runAll .empty s calls).1
      = .ok {
          parent? := (calls.filterMap BuilderCall.parent?).getLast?
          mixins := calls.filterMap BuilderCall.mixin?
          shared := calls.filterMap BuilderCall.sharedName?
          isAbstract := (calls.filterMap BuilderCall.abstractness?).getLast?.getD false } ∧
    Assoc.keys (BuilderCall.runAll .empty s calls).1.others
      = ((BuilderCall.members s.functions.size calls).map Prod.fst).eraseDups ∧
    (∀ name, Directive.isReserved name = false →
      (BuilderCall.runAll .empty s calls).1.get? name
        = (((BuilderCall.members s.functions.size calls).filter (·.1 == name)).getLast?).map Prod.snd) ∧
    ∀ i m, (calls.filterMap BuilderCall.method?)[i]? = some m →
      (BuilderCall.runAll .empty s calls).2.function ⟨s.functions.size + i⟩ = m := by
  have hcalls : BuilderCall.SparesDirectives calls := by
    intro call hcall next name v hmember
    cases call with
    | addMember other x =>
      cases hmember
      exact hmembers name v hcall
    | addMethod other code =>
      cases hmember
      exact hmethods name code hcall
    | _ => cases hmember
  -- what calls say about directives and the members that they write are told separately
  have hothers := BuilderCall.others_runAll s hcalls
  refine ⟨(BuilderCall.says_runAll s hcalls).parse_eq path, ?_, ?_, ?_⟩
  · rw [hothers, Assoc.keys_ofList]
  · intro name hname
    have hget : Assoc.get? (BuilderCall.runAll .empty s calls).1.others name
        = (BuilderCall.runAll .empty s calls).1.get? name :=
      Assoc.get?_filter (fun other => !Directive.isReserved other) _ (by rw [hname]; rfl)
    rw [← hget, hothers, Assoc.get?_ofList]
  · intro i m hm
    -- the functions made by calls stand behind those that were there, in the order of the calls
    have hfunctions := BuilderCall.functions_runAll .empty s calls
    have hfound : (BuilderCall.runAll .empty s calls).2.functions.cells[s.functions.size + i]?
        = some m := by
      rw [← Array.getElem?_toList, hfunctions, List.getElem?_append_right]
      · rw [Array.length_toList, Pool.size, Nat.add_sub_cancel_left, hm]
      · rw [Array.length_toList]
        exact Nat.le_add_right _ _
    rw [Store.function, Pool.get, Array.getD_eq_getD_getElem?, hfound, Option.getD_some]

namespace Sample

/-- Calls in mixed order, with repetitions. -/
def calls : List BuilderCall :=
  [.addMixin "Ns.A", .addMember "size" .null, .setAbstract true, .setParent "Ns.P", .addMixin "Ns.B",
    .addShared "size", .addMethod "run" [], .setParent "Ns.Q", .addMixin "Ns.A", .addShared "run",
    .setAbstract false, .addMember "size" (.boolean true)]

end Sample

/-- Three mixins, one of them twice, and two shared names come back in their order, with the later of the
two parents and of the two options.  The member that was written twice stands first, with its later
value. -/
theorem ClassBody.parse_built_mixed :
    Directives.parse (BuilderCall.runAll .empty .empty Sample.calls).2 "Ns.C"
        (BuilderCall.runAll .empty .empty Sample.calls).1
      = .ok { parent? := some "Ns.Q", mixins := ["Ns.A", "Ns.B", "Ns.A"], shared := ["size", "run"],
              isAbstract := false } ∧
    Assoc.keys (BuilderCall.runAll .empty .empty Sample.calls).1.others = ["size", "run"] ∧
    (BuilderCall.runAll .empty .empty Sample.calls).1.get? "size" = some (.boolean true) ∧
    (BuilderCall.runAll .empty .empty Sample.calls).1.get? "run" = some (.function ⟨0⟩) ∧
    (BuilderCall.runAll .empty .empty Sample.calls).2.function ⟨0⟩ = ⟨some "run", []⟩ := by
  have hmembers : ∀ name v, .addMember name v ∈ Sample.calls → Directive.isReserved name = false := by
    intro name v hmem
    simp only [Sample.calls, List.mem_cons, reduceCtorEq, BuilderCall.addMember.injEq, false_or,
      List.not_mem_nil, or_false] at hmem
    obtain ⟨rfl, -⟩ | ⟨rfl, -⟩ := hmem <;> decide
  have hmethods : ∀ name code, .addMethod name code ∈ Sample.calls →
      Directive.isReserved name = false := by
    intro name code hmem
    simp only [Sample.calls, List.mem_cons, reduceCtorEq, BuilderCall.addMethod.injEq, false_or,
      List.not_mem_nil, or_false] at hmem
    obtain ⟨rfl, -⟩ := hmem
    decide
  obtain ⟨hparse, hkeys, hvalues, hfunctions⟩ :=
    ClassBody.parse_built .empty Sample.calls hmembers hmethods "Ns.C"
  exact ⟨hparse, hkeys.trans (by decide), hvalues "size" (by decide), hvalues "run" (by decide),
    hfunctions 0 ⟨some "run", []⟩ rfl⟩

end ClassComposition
