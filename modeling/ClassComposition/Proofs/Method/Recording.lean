import ClassComposition.Proofs.Method.Frame
import ClassComposition.Proofs.Method.Quiet

/-!
# Methods that record their class

A recording method first calls an implementation kept from a class, if it has one to call, and then appends
a text to an array.  Where each such call finds another recording method, the calls make up a relay: running
the first method runs all of them, and the texts are appended in the order in which the calls return.

## Main definitions

* `RecordsAfter` — what the code of such a method does, with the class whose implementation it calls first.
* `Relay` — methods each of which calls the next one, with what they record.
* `Store.Logged` — a store in which an array has got more elements, besides new containers.

## Main results

* `Relay.run_invoke` — running the first method of a relay records what the relay records.
* `records_of_quiet`, `callsThenRecords_of_quiet` — code that does so.
-/

namespace ClassComposition

/-! ### Stores with more elements in one array -/

namespace Store

variable {s t u : Store} {log : Handle .array} {entries others : List Value}

/-- The array has got these elements; besides, there are new containers at most. -/
structure Logged (log : Handle .array) (entries : List Value) (s t : Store) : Prop where
  has : t.arrays.Has log
  array_eq : t.array log = s.array log ++ entries
  rest_eq : s.SameButContainers t

theorem Logged.trans (hst : Logged log entries s t) (htu : Logged log others t u) :
    Logged log (entries ++ others) s u where
  has := htu.has
  array_eq := by rw [htu.array_eq, hst.array_eq, List.append_assoc]
  rest_eq := hst.rest_eq.trans htu.rest_eq

theorem AddsContainers.logged (hst : s.AddsContainers t) (hlog : s.arrays.Has log) :
    Logged log [] s t where
  has := hst.arrays.has hlog
  array_eq := by
    have hsame := hst.arrays.get_eq log hlog
    rw [List.append_nil]
    exact hsame
  rest_eq := hst.rest_eq

theorem logged_push (hlog : s.arrays.Has log) (v : Value) :
    Logged log [v] s (s.push (.array log) v) where
  has := by
    have hsize := Pool.size_set s.arrays log (s.array log ++ [v])
    exact Nat.lt_of_lt_of_eq hlog hsize.symm
  array_eq := Pool.get_set_self s.arrays log (s.array log ++ [v]) hlog
  rest_eq := rfl

end Store

/-! ### What code does -/

/-- Code that, whatever it calls, appends a text to an array once, and changes nothing else but objects and
other arrays. -/
def Records (log : Handle .array) (text : String) (body : List Statement) : Prop :=
  ∀ (invoke : Invoke) (this : Handle .inst) (args : List Value) (w : World), w.store.arrays.Has log →
    ∃ v w', (runBody invoke this args body).run w = (.ok v, w') ∧
      w.store.Logged log [.text text] w'.store

/-- Code that first calls the implementation of a method kept from a class, with whatever arguments, and
when this call has answered does what recording code does. -/
def CallsThenRecords (log : Handle .array) (name text owner : String) (body : List Statement) : Prop :=
  ∀ (invoke : Invoke) (this : Handle .inst) (args : List Value) (w : World), w.store.arrays.Has log →
    ∃ vs w₁, w.store.Logged log [] w₁.store ∧
      ∀ u w₂, (callKeptWith invoke this owner name vs).run w₁ = (.ok u, w₂) →
        w₂.store.arrays.Has log →
        ∃ v w', (runBody invoke this args body).run w = (.ok v, w') ∧
          w₂.store.Logged log [.text text] w'.store

/-- Code that records a text, after calling the implementation kept from a class if one is given. -/
def RecordsAfter (log : Handle .array) (name text : String) : Option String → List Statement → Prop
  | none => Records log text
  | some owner => CallsThenRecords log name text owner

/-- Methods each of which calls the next one, with what is recorded when the first one runs. -/
inductive Relay (s : Store) (i : Handle .inst) (log : Handle .array) (name : String) :
    Handle .function → List Value → Prop
  | first {f : Handle .function} {text : String} (code : Records log text (s.function f).body) :
      Relay s i log name f [.text text]
  | after {f g : Handle .function} {text owner : String} {entries : List Value}
      (code : CallsThenRecords log name text owner (s.function f).body)
      (callee : s.callee i (MemberKey.aliased owner name).display = .ok g)
      (next : Relay s i log name g entries) : Relay s i log name f (entries ++ [.text text])

/-! ### Runs -/

section Runs

variable {invoke : Invoke} {this : Handle .inst} {args : List Value} {w w₁ : World}

/-- To call a method is to run its code, with calls nested one level less deep. -/
theorem run_invoke_succ {s : Store} (hw : s.SameButContainers w.store) (depth : Nat)
    (f : Handle .function) :
    (ClassComposition.invoke (depth + 1) f this args).run w
      = (runBody (ClassComposition.invoke depth) this args (s.function f).body).run w := by
  rw [ClassComposition.invoke, Action.run_bind, Action.run_store]
  dsimp only
  rw [hw.function_eq f]

/-- Running the first method of a relay records what the relay records, in any store that has the same
methods and instances, when calls may be nested as deep as the relay is long. -/
theorem Relay.run_invoke {s : Store} {i : Handle .inst} {log : Handle .array} {name : String}
    {f : Handle .function} {entries : List Value} (h : Relay s i log name f entries) {depth : Nat}
    (hdepth : entries.length ≤ depth) (hw : s.SameButContainers w.store)
    (hlog : w.store.arrays.Has log) (args : List Value) :
    ∃ v w', (ClassComposition.invoke depth f i args).run w = (.ok v, w') ∧
      w.store.Logged log entries w'.store := by
  -- one method at a time: each finds the next one and leaves it one level of depth less
  induction h generalizing depth w args with
  | @first f text code =>
    obtain ⟨depth, rfl⟩ : ∃ below, depth = below + 1 := ⟨depth - 1, by simp at hdepth; omega⟩
    rw [run_invoke_succ hw]
    exact code _ i args w hlog
  | @after f g text owner entries code hcallee next ih =>
    obtain ⟨depth, rfl⟩ : ∃ below, depth = below + 1 := ⟨depth - 1, by simp at hdepth; omega⟩
    have hshorter : entries.length ≤ depth := by
      simp at hdepth
      omega
    obtain ⟨vs, w₁, hbefore, hcalled⟩ := code (ClassComposition.invoke depth) i args w hlog
    have hsame : s.SameButContainers w₁.store := hw.trans hbefore.rest_eq
    obtain ⟨u, w₂, hnext, hlogged⟩ := ih hshorter hsame hbefore.has vs
    have hfound : w₁.store.callee i (MemberKey.aliased owner name).display = .ok g := by
      rw [hsame.callee_eq, hcallee]
    have hcall := (run_callMemberWith hfound).trans hnext
    obtain ⟨v, w', hrun, hrecorded⟩ := hcalled u w₂ hcall hlogged.has
    refine ⟨v, w', ?_, (hbefore.trans hlogged).trans hrecorded⟩
    rw [run_invoke_succ hw]
    exact hrun

/-! ### Code that does so -/

/-- Append a text to an array. -/
def Statement.record (log : Handle .array) (text : String) : Statement :=
  .push (.literal (.array log)) (.literal (.text text))

/-- A call of the implementation of a method that was kept from a class, with the arguments received or
with arguments that call nothing. -/
inductive Expr.CallsKept (owner name : String) : Expr → Prop
  | anew {es : List Expr} (h : Expr.areQuiet es = true) : CallsKept owner name (.callKept owner name es)
  | forward : CallsKept owner name (.forwardKept owner name)

/-- After a statement that does not end the method come the others. -/
theorem run_runBody_cons {statement : Statement} {rest : List Statement}
    (h : (statement.execute invoke this args).run w = (.ok none, w₁)) :
    (runBody invoke this args (statement :: rest)).run w = (runBody invoke this args rest).run w₁ := by
  rw [runBody, Action.run_bind, h]

theorem run_execute_discard {e : Expr} {v : Value}
    (h : (e.eval invoke this args).run w = (.ok v, w₁)) :
    ((Statement.discard e).execute invoke this args).run w = (.ok none, w₁) := by
  rw [Statement.execute, Action.run_bind, h]
  rfl

theorem run_execute_record (log : Handle .array) (text : String) (w : World) :
    ((Statement.record log text).execute invoke this args).run w
      = (.ok none, { w with store := w.store.push (.array log) (.text text) }) := rfl

/-- A call of a kept implementation has its arguments evaluated first, which only adds containers. -/
theorem Expr.CallsKept.run_eval {owner name : String} {e : Expr} (h : e.CallsKept owner name) :
    ∃ vs w₁, w.store.AddsContainers w₁.store ∧
      (e.eval invoke this args).run w = (callKeptWith invoke this owner name vs).run w₁ := by
  cases h with
  | @anew es hquiet =>
    obtain ⟨vs, w₁, hargs, hadds⟩ := Expr.run_evalAll_of_areQuiet es hquiet w
    refine ⟨vs, w₁, hadds, ?_⟩
    rw [Expr.eval, Action.run_bind, hargs]
  | forward =>
    refine ⟨args, w, .refl w.store, ?_⟩
    rw [Expr.eval]

variable {log : Handle .array} {name text owner : String} {ending : List Statement}

/-- A method that appends a text and then neither calls nor writes anything. -/
theorem records_of_quiet (hquiet : ∀ statement ∈ ending, statement.isQuiet = true) :
    Records log text (.record log text :: ending) := by
  intro invoke this args w hlog
  have hpushed := Store.logged_push hlog (.text text)
  obtain ⟨v, w', hending, hadds⟩ := run_runBody_of_isQuiet hquiet
    { w with store := w.store.push (.array log) (.text text) }
  refine ⟨v, w', ?_, hpushed.trans (hadds.logged hpushed.has)⟩
  rw [run_runBody_cons (run_execute_record log text w)]
  exact hending

/-- A method that does the same after calling a kept implementation. -/
theorem callsThenRecords_of_quiet {e : Expr} (hcall : e.CallsKept owner name)
    (hquiet : ∀ statement ∈ ending, statement.isQuiet = true) :
    CallsThenRecords log name text owner (.discard e :: .record log text :: ending) := by
  intro invoke this args w hlog
  obtain ⟨vs, w₁, hadds, heval⟩ := hcall.run_eval
  refine ⟨vs, w₁, hadds.logged hlog, ?_⟩
  intro u w₂ hanswer hlater
  obtain ⟨v, w', hrest, hrecorded⟩ := records_of_quiet hquiet invoke this args w₂ hlater
  refine ⟨v, w', ?_, hrecorded⟩
  rw [run_runBody_cons (run_execute_discard (heval.trans hanswer))]
  exact hrest

end Runs

end ClassComposition
