import ClassComposition.Method.Evaluation
import ClassComposition.Proofs.Effect

/-!
# What running methods leaves alone

A method changes a store in four ways only: it makes arrays, writes own fields, appends to arrays and
writes properties of objects.  So every relation between stores that is a preorder and holds for these
four holds between the stores before and after any method runs, however deep it calls and however it
ends.

## Main definitions

* `Action.Keeps` — an action that relates every store to the one it leaves.
* `MethodFrame` — the relations that methods keep.
* `Store.SamePrototypes` — the same prototypes, and all instances with the ones they had.

## Main results

* `MethodFrame.keeps_invoke` — calling a function keeps every such relation.
* `methodFrame_samePrototypes` — methods leave prototypes alone.
-/

namespace ClassComposition

variable {α β : Type}

/-- Calling a member calls the function that is found under its name. -/
theorem run_callMemberWith {invoke : Invoke} {this : Handle .inst} {name : String}
    {f : Handle .function} {args : List Value} {w : World} (h : w.store.callee this name = .ok f) :
    (callMemberWith invoke this name args).run w = (invoke f this args).run w := by
  unfold callMemberWith
  rw [Action.run_bind, Action.run_store]
  dsimp only
  rw [h]
  rfl

/-- An action relates every store to the one that it leaves, whether it answers or fails. -/
def Action.Keeps (Q : Store → Store → Prop) (action : Action α) : Prop :=
  ∀ w, Q w.store (action.run w).2.store

/-- A relation between stores that holds for all that a method does to one. -/
structure MethodFrame (Q : Store → Store → Prop) : Prop where
  refl : ∀ s, Q s s
  trans : ∀ {s t u}, Q s t → Q t u → Q s u
  newArray : ∀ s items, Q s (s.newArray items).2
  setField : ∀ s i name v, Q s (s.setField i name v)
  push : ∀ s target v, Q s (s.push target v)
  setProperty : ∀ s target key v, Q s (s.setProperty target key v)

namespace MethodFrame

variable {Q : Store → Store → Prop}

/-! ### Building blocks -/

theorem keeps_pure (hQ : MethodFrame Q) (a : α) : (pure a : Action α).Keeps Q :=
  fun w => hQ.refl w.store

theorem keeps_throw (hQ : MethodFrame Q) (e : ClassError) : (throw e : Action α).Keeps Q :=
  fun w => hQ.refl w.store

theorem keeps_store (hQ : MethodFrame Q) : Action.store.Keeps Q :=
  fun w => hQ.refl w.store

theorem keeps_ofExcept (hQ : MethodFrame Q) (r : Except ClassError α) :
    (Action.ofExcept r).Keeps Q := by
  cases r with
  | error e => exact hQ.keeps_throw e
  | ok a => exact hQ.keeps_pure a

theorem keeps_modifyStore {f : Store → Store} (h : ∀ s, Q s (f s)) :
    (Action.modifyStore f).Keeps Q :=
  fun w => h w.store

theorem keeps_onStore {f : Store → α × Store} (h : ∀ s, Q s (f s).2) : (Action.onStore f).Keeps Q :=
  fun w => h w.store

theorem keeps_bind (hQ : MethodFrame Q) {action : Action α} {f : α → Action β}
    (h : action.Keeps Q) (hf : ∀ a, (f a).Keeps Q) : (action >>= f).Keeps Q := by
  intro w
  have hfirst := h w
  rw [Action.run_bind]
  rcases hrun : action.run w with ⟨e | a, w'⟩
  · rw [hrun] at hfirst
    exact hfirst
  · rw [hrun] at hfirst
    exact hQ.trans hfirst (hf a w')

/-! ### Calls -/

variable {invoke : Invoke} {this : Handle .inst} {args : List Value}

theorem keeps_callMemberWith (hQ : MethodFrame Q)
    (hinvoke : ∀ f this args, (invoke f this args).Keeps Q) (name : String) (args : List Value) :
    (callMemberWith invoke this name args).Keeps Q := by
  unfold callMemberWith
  refine hQ.keeps_bind hQ.keeps_store fun s => ?_
  refine hQ.keeps_bind (hQ.keeps_ofExcept _) fun f => ?_
  exact hinvoke f this args

theorem keeps_callValueWith (hQ : MethodFrame Q)
    (hinvoke : ∀ f this args, (invoke f this args).Keeps Q) (v : Value) (args : List Value) :
    (callValueWith invoke this v args).Keeps Q := by
  cases v with
  | function f => exact hinvoke f this args
  | _ => exact hQ.keeps_throw _

theorem keeps_callEachWith (hQ : MethodFrame Q)
    (hinvoke : ∀ f this args, (invoke f this args).Keeps Q) (args vs : List Value) :
    (callEachWith invoke this args vs).Keeps Q := by
  induction vs with
  | nil => exact hQ.keeps_pure ()
  | cons v rest ih =>
    rw [callEachWith]
    exact hQ.keeps_bind (hQ.keeps_callValueWith hinvoke v args) fun _ => ih

/-! ### Expressions and statements -/

mutual

/-- Evaluating an expression keeps what the calls in it keep. -/
theorem keeps_eval (hQ : MethodFrame Q) (hinvoke : ∀ f this args, (invoke f this args).Keeps Q) :
    ∀ e : Expr, (e.eval invoke this args).Keeps Q
  | .literal v => by
    rw [Expr.eval]
    exact hQ.keeps_pure v
  | .argument position fallback => by
    rw [Expr.eval]
    exact hQ.keeps_pure _
  | .arguments => by
    rw [Expr.eval]
    exact keeps_onStore fun s => hQ.newArray s args
  | .member name => by
    rw [Expr.eval]
    exact hQ.keeps_bind hQ.keeps_store fun _ => hQ.keeps_pure _
  | .self => by
    rw [Expr.eval]
    exact hQ.keeps_pure _
  | .classPath => by
    rw [Expr.eval]
    exact hQ.keeps_bind hQ.keeps_store fun _ => hQ.keeps_pure _
  | .call name es => by
    rw [Expr.eval]
    -- calls are the only way out of the expression, and what they invoke keeps the frame
    exact hQ.keeps_bind (keeps_evalAll hQ hinvoke es) (hQ.keeps_callMemberWith hinvoke name)
  | .callKept owner name es => by
    rw [Expr.eval]
    exact hQ.keeps_bind (keeps_evalAll hQ hinvoke es) (hQ.keeps_callMemberWith hinvoke _)
  | .forwardKept owner name => by
    rw [Expr.eval]
    exact hQ.keeps_callMemberWith hinvoke _ args
  | .apply f es => by
    rw [Expr.eval]
    refine hQ.keeps_bind (keeps_eval hQ hinvoke f) fun g => ?_
    exact hQ.keeps_bind (keeps_evalAll hQ hinvoke es) (hQ.keeps_callValueWith hinvoke g)
  | .concat es => by
    rw [Expr.eval]
    refine hQ.keeps_bind (keeps_evalAll hQ hinvoke es) fun _ => ?_
    exact hQ.keeps_bind hQ.keeps_store fun _ => hQ.keeps_pure _
  | .sum es => by
    rw [Expr.eval]
    exact hQ.keeps_bind (keeps_evalAll hQ hinvoke es) fun _ => hQ.keeps_pure _
  | .property e key => by
    rw [Expr.eval]
    refine hQ.keeps_bind (keeps_eval hQ hinvoke e) fun _ => ?_
    exact hQ.keeps_bind hQ.keeps_store fun _ => hQ.keeps_pure _
  | .length e => by
    rw [Expr.eval]
    refine hQ.keeps_bind (keeps_eval hQ hinvoke e) fun _ => ?_
    exact hQ.keeps_bind hQ.keeps_store fun _ => hQ.keeps_pure _
  | .array es => by
    rw [Expr.eval]
    refine hQ.keeps_bind (keeps_evalAll hQ hinvoke es) fun vs => ?_
    exact keeps_onStore fun s => hQ.newArray s vs
termination_by structural e => e

theorem keeps_evalAll (hQ : MethodFrame Q)
    (hinvoke : ∀ f this args, (invoke f this args).Keeps Q) :
    ∀ es : List Expr, (Expr.evalAll invoke this args es).Keeps Q
  | [] => by
    rw [Expr.evalAll]
    exact hQ.keeps_pure []
  | e :: rest => by
    rw [Expr.evalAll]
    refine hQ.keeps_bind (keeps_eval hQ hinvoke e) fun _ => ?_
    exact hQ.keeps_bind (keeps_evalAll hQ hinvoke rest) fun _ => hQ.keeps_pure _
termination_by structural es => es

end

/-- Running a statement keeps what the calls in it keep. -/
theorem keeps_execute (hQ : MethodFrame Q)
    (hinvoke : ∀ f this args, (invoke f this args).Keeps Q) (statement : Statement) :
    (statement.execute invoke this args).Keeps Q := by
  have heval : ∀ e : Expr, (e.eval invoke this args).Keeps Q := hQ.keeps_eval hinvoke
  cases statement with
  | setField name e =>
    refine hQ.keeps_bind (heval e) fun v => ?_
    -- the writes of a statement are the ones the frame was asked to survive
    refine hQ.keeps_bind (keeps_modifyStore fun s => hQ.setField s this name v) fun _ => ?_
    exact hQ.keeps_pure none
  | push target e =>
    refine hQ.keeps_bind (heval target) fun t => ?_
    refine hQ.keeps_bind (heval e) fun v => ?_
    refine hQ.keeps_bind (keeps_modifyStore fun s => hQ.push s t v) fun _ => ?_
    exact hQ.keeps_pure none
  | pushArgument target position =>
    refine hQ.keeps_bind (heval target) fun t => ?_
    rcases args[position]? with _ | v
    · exact hQ.keeps_pure none
    · exact hQ.keeps_bind (keeps_modifyStore fun s => hQ.push s t v) fun _ => hQ.keeps_pure none
  | setProperty target key e =>
    refine hQ.keeps_bind (heval target) fun t => ?_
    refine hQ.keeps_bind (heval e) fun v => ?_
    refine hQ.keeps_bind (keeps_modifyStore fun s => hQ.setProperty s t key v) fun _ => ?_
    exact hQ.keeps_pure none
  | callEach target es =>
    refine hQ.keeps_bind (heval target) fun t => ?_
    refine hQ.keeps_bind hQ.keeps_store fun s => ?_
    refine hQ.keeps_bind (hQ.keeps_evalAll hinvoke es) fun vs => ?_
    exact hQ.keeps_bind (hQ.keeps_callEachWith hinvoke vs _) fun _ => hQ.keeps_pure none
  | fail e =>
    refine hQ.keeps_bind (heval e) fun v => ?_
    exact hQ.keeps_bind hQ.keeps_store fun _ => hQ.keeps_throw _
  | discard e => exact hQ.keeps_bind (heval e) fun _ => hQ.keeps_pure none
  | answer e => exact hQ.keeps_bind (heval e) fun v => hQ.keeps_pure (some v)

/-- Running statements in order keeps what the calls in them keep. -/
theorem keeps_runBody (hQ : MethodFrame Q)
    (hinvoke : ∀ f this args, (invoke f this args).Keeps Q) (body : List Statement) :
    (runBody invoke this args body).Keeps Q := by
  induction body with
  | nil => exact hQ.keeps_pure _
  | cons statement rest ih =>
    rw [runBody]
    refine hQ.keeps_bind (hQ.keeps_execute hinvoke statement) fun answer? => ?_
    cases answer? with
    | none => exact ih
    | some v => exact hQ.keeps_pure v

/-- Calling a function keeps every relation that holds for all that a method does to a store. -/
theorem keeps_invoke (hQ : MethodFrame Q) (depth : Nat) (f : Handle .function)
    (this : Handle .inst) (args : List Value) : (ClassComposition.invoke depth f this args).Keeps Q := by
  induction depth generalizing f this args with
  | zero => exact hQ.keeps_throw _
  | succ depth ih =>
    rw [ClassComposition.invoke]
    refine hQ.keeps_bind hQ.keeps_store fun s => ?_
    exact hQ.keeps_runBody ih _

theorem keeps_callMember (hQ : MethodFrame Q) (depth : Nat) (this : Handle .inst) (name : String)
    (args : List Value) : (callMember depth this name args).Keeps Q :=
  hQ.keeps_callMemberWith (hQ.keeps_invoke depth) name args

end MethodFrame

/-! ### Prototypes -/

/-- The prototypes are the same, and every instance has the one that it had. -/
structure Store.SamePrototypes (s t : Store) : Prop where
  prototypes : t.prototypes = s.prototypes
  instances : ∀ i, (t.instanceAt i).prototype = (s.instanceAt i).prototype

theorem Store.SamePrototypes.prototypeOf {s t : Store} (h : s.SamePrototypes t) (i : Handle .inst) :
    t.prototypeOf i = s.prototypeOf i := by
  rw [Store.prototypeOf, Store.prototypeOf, h.instances i, Store.prototype, h.prototypes]
  rfl

theorem Store.samePrototypes_setField (s : Store) (i : Handle .inst) (name : String) (v : Value) :
    s.SamePrototypes (s.setField i name v) := by
  refine ⟨rfl, ?_⟩
  intro j
  -- the instance written to keeps its prototype, and writing to a handle that is not good does nothing
  by_cases hij : i = j
  · subst hij
    by_cases hgood : s.instances.Has i
    · have hwritten := congrArg Instance.prototype (Pool.get_set_self s.instances i
        { s.instanceAt i with fields := Assoc.insert (s.instanceAt i).fields name v } hgood)
      exact hwritten
    · exact congrArg Instance.prototype (Pool.get_set_of_not_has s.instances i _ hgood)
  · exact congrArg Instance.prototype (Pool.get_set_of_ne s.instances _ hij)

/-- Methods leave prototypes alone. -/
theorem methodFrame_samePrototypes : MethodFrame Store.SamePrototypes where
  refl := fun _ => ⟨rfl, fun _ => rfl⟩
  trans := by
    intro s t u hst htu
    refine ⟨htu.prototypes.trans hst.prototypes, ?_⟩
    intro i
    rw [htu.instances i, hst.instances i]
  newArray := fun _ _ => ⟨rfl, fun _ => rfl⟩
  setField := Store.samePrototypes_setField
  push := by
    intro s target v
    cases target <;> exact ⟨rfl, fun _ => rfl⟩
  setProperty := by
    intro s target key v
    cases target <;> exact ⟨rfl, fun _ => rfl⟩

end ClassComposition
