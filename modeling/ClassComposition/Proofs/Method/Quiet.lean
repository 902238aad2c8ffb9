import ClassComposition.Method.Evaluation
import ClassComposition.Proofs.Effect
import ClassComposition.Proofs.Store.Extension

/-!
# Code that calls nothing

An expression without calls always has a value, and all it does to a store is to add arrays.  So a method
that records something in an array and otherwise only evaluates such expressions leaves everything but
that array as it was.

## Main definitions

* `Store.SameButContainers` — stores that differ in objects and arrays at most.
* `Store.AddsContainers` — a store that has got new objects and arrays, and nothing else.
* `Expr.isQuiet`, `Statement.isQuiet` — code that calls nothing and writes nothing.

## Main results

* `Expr.run_eval_of_isQuiet` — quiet expressions have a value.
* `run_runBody_of_isQuiet` — quiet statements run to their end.
-/

namespace ClassComposition

/-! ### New containers -/

namespace Store

variable {s t u : Store}

/-- The stores differ in objects and arrays at most. -/
def SameButContainers (s t : Store) : Prop := t = { s with objects := t.objects, arrays := t.arrays }

theorem SameButContainers.trans (hst : s.SameButContainers t) (htu : t.SameButContainers u) :
    s.SameButContainers u := by
  unfold SameButContainers at hst htu ⊢
  rw [htu, hst]

theorem SameButContainers.function_eq (hst : s.SameButContainers t) (f : Handle .function) :
    t.function f = s.function f := by
  rw [hst]
  rfl

theorem SameButContainers.callee_eq (hst : s.SameButContainers t) (i : Handle .inst) (name : String) :
    t.callee i name = s.callee i name := by
  rw [hst]
  rfl

/-- The second store has new objects and arrays, and is the same otherwise. -/
structure AddsContainers (s t : Store) : Prop where
  objects : s.objects.Within t.objects
  arrays : s.arrays.Within t.arrays
  rest_eq : s.SameButContainers t

theorem AddsContainers.refl (s : Store) : s.AddsContainers s := ⟨.refl _, .refl _, rfl⟩

theorem AddsContainers.trans (hst : s.AddsContainers t) (htu : t.AddsContainers u) :
    s.AddsContainers u where
  objects := hst.objects.trans htu.objects
  arrays := hst.arrays.trans htu.arrays
  rest_eq := hst.rest_eq.trans htu.rest_eq

theorem AddsContainers.within (h : s.AddsContainers t) : s.Within t := by
  obtain ⟨hobjects, harrays, hrest⟩ := h
  have ht : t = _ := hrest
  rw [ht]
  exact ⟨hobjects, harrays, .refl _, .refl _, .refl _, .refl _⟩

theorem addsContainers_newArray (s : Store) (items : List Value) :
    s.AddsContainers (s.newArray items).2 := ⟨.refl _, Pool.within_alloc _ _, rfl⟩

theorem addsContainers_newObject (s : Store) (properties : Assoc String Value) :
    s.AddsContainers (s.newObject properties).2 := ⟨Pool.within_alloc _ _, .refl _, rfl⟩

end Store

/-! ### Quiet expressions -/

mutual

/-- Whether an expression calls nothing. -/
def Expr.isQuiet : Expr → Bool
  | .literal _ | .argument _ _ | .arguments | .member _ | .self | .classPath => true
  | .call _ _ | .callKept _ _ _ | .forwardKept _ _ | .apply _ _ => false
  | .concat es | .sum es | .array es => Expr.areQuiet es
  | .property e _ | .length e => e.isQuiet
termination_by structural e => e

/-- Whether several expressions call nothing. -/
def Expr.areQuiet : List Expr → Bool
  | [] => true
  | e :: rest => e.isQuiet && Expr.areQuiet rest
termination_by structural es => es

end

/-- An action answers, and adds containers to the store at most. -/
def Action.AnswersQuietly {α : Type} (action : Action α) : Prop :=
  ∀ w, ∃ a w', action.run w = (.ok a, w') ∧ w.store.AddsContainers w'.store

namespace Action

variable {α β : Type}

theorem answersQuietly_pure (a : α) : (pure a : Action α).AnswersQuietly :=
  fun w => ⟨a, w, rfl, .refl _⟩

theorem answersQuietly_store : store.AnswersQuietly := fun w => ⟨w.store, w, rfl, .refl _⟩

theorem answersQuietly_newArray (items : List Value) :
    (onStore (·.newArray items)).AnswersQuietly :=
  fun w => ⟨_, _, rfl, w.store.addsContainers_newArray items⟩

theorem answersQuietly_bind {action : Action α} {f : α → Action β} (h : action.AnswersQuietly)
    (hf : ∀ a, (f a).AnswersQuietly) : (action >>= f).AnswersQuietly := by
  intro w
  obtain ⟨a, w₁, hfirst, hadds⟩ := h w
  obtain ⟨b, w₂, hsecond, hadds'⟩ := hf a w₁
  exact ⟨b, w₂, run_bind_eq_ok.mpr ⟨a, w₁, hfirst, hsecond⟩, hadds.trans hadds'⟩

end Action

section Quiet

variable {invoke : Invoke} {this : Handle .inst} {args : List Value}

open ClassComposition.Action

mutual

/-- A quiet expression has a value. -/
theorem Expr.run_eval_of_isQuiet : ∀ e : Expr, e.isQuiet = true →
    (e.eval invoke this args).AnswersQuietly
  | .literal v, _ => by
    rw [Expr.eval]
    exact answersQuietly_pure v
  | .argument position fallback, _ => by
    rw [Expr.eval]
    exact answersQuietly_pure _
  | .arguments, _ => by
    rw [Expr.eval]
    exact answersQuietly_newArray args
  | .member name, _ => by
    rw [Expr.eval]
    exact answersQuietly_bind answersQuietly_store fun _ => answersQuietly_pure _
  | .self, _ => by
    rw [Expr.eval]
    exact answersQuietly_pure _
  | .classPath, _ => by
    rw [Expr.eval]
    exact answersQuietly_bind answersQuietly_store fun _ => answersQuietly_pure _
  -- no expression that calls is quiet
  | .call name es, h | .callKept owner name es, h => by cases h
  | .forwardKept owner name, h | .apply f es, h => by cases h
  | .concat es, h => by
    rw [Expr.eval]
    refine answersQuietly_bind (Expr.run_evalAll_of_areQuiet es h) fun _ => ?_
    exact answersQuietly_bind answersQuietly_store fun _ => answersQuietly_pure _
  | .sum es, h => by
    rw [Expr.eval]
    exact answersQuietly_bind (Expr.run_evalAll_of_areQuiet es h) fun _ => answersQuietly_pure _
  | .property e key, h => by
    rw [Expr.eval]
    refine answersQuietly_bind (Expr.run_eval_of_isQuiet e h) fun _ => ?_
    exact answersQuietly_bind answersQuietly_store fun _ => answersQuietly_pure _
  | .length e, h => by
    rw [Expr.eval]
    refine answersQuietly_bind (Expr.run_eval_of_isQuiet e h) fun _ => ?_
    exact answersQuietly_bind answersQuietly_store fun _ => answersQuietly_pure _
  | .array es, h => by
    rw [Expr.eval]
    exact answersQuietly_bind (Expr.run_evalAll_of_areQuiet es h) fun vs => answersQuietly_newArray vs
termination_by structural e => e

theorem Expr.run_evalAll_of_areQuiet : ∀ es : List Expr, Expr.areQuiet es = true →
    (Expr.evalAll invoke this args es).AnswersQuietly
  | [], _ => by
    rw [Expr.evalAll]
    exact answersQuietly_pure []
  | e :: rest, h => by
    rw [Expr.areQuiet, Bool.and_eq_true] at h
    rw [Expr.evalAll]
    refine answersQuietly_bind (Expr.run_eval_of_isQuiet e h.1) fun _ => ?_
    exact answersQuietly_bind (Expr.run_evalAll_of_areQuiet rest h.2) fun _ => answersQuietly_pure _
termination_by structural es => es

end

/-! ### Quiet statements -/

/-- Whether a statement calls nothing and writes nothing. -/
def Statement.isQuiet : Statement → Bool
  | .discard e | .answer e => e.isQuiet
  | _ => false

/-- A quiet statement runs to its end. -/
theorem Statement.run_execute_of_isQuiet {statement : Statement} (h : statement.isQuiet = true) :
    (statement.execute invoke this args).AnswersQuietly := by
  cases statement with
  | discard e => exact answersQuietly_bind (Expr.run_eval_of_isQuiet e h) fun _ => answersQuietly_pure _
  | answer e => exact answersQuietly_bind (Expr.run_eval_of_isQuiet e h) fun _ => answersQuietly_pure _
  | _ => cases h

theorem run_runBody_of_isQuiet {body : List Statement}
    (h : ∀ statement ∈ body, statement.isQuiet = true) :
    (runBody invoke this args body).AnswersQuietly := by
  induction body with
  | nil => exact answersQuietly_pure _
  | cons statement rest ih =>
    rw [List.forall_mem_cons] at h
    rw [runBody]
    refine answersQuietly_bind (Statement.run_execute_of_isQuiet h.1) fun answer? => ?_
    cases answer? with
    | none => exact ih h.2
    | some v => exact answersQuietly_pure v

end Quiet

end ClassComposition
