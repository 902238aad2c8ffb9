import ClassComposition.Proofs.Method.Recording

/-!
# Methods that answer

A statement whose expressions call nothing always runs to its end, also when it writes what it has
evaluated.  A method that first forwards its call to the implementation kept from a class, and otherwise has
such statements only, answers if that implementation does.  So a call that is forwarded from one method to
the next, down to one that forwards no more, answers in every store that has these methods.

## Main definitions

* `Statement.isDirect` — statements that call nothing, but may write.
* `ForwardsTo` — code that forwards to the implementation kept from a class, and else calls nothing.
* `Descent` — methods each of which forwards to the next one.

## Main results

* `answers_runBody` — direct statements run to their end.
* `Descent.run_invoke` — the first method of a descent answers.
-/

namespace ClassComposition

/-- An action answers in every world. -/
def Action.Answers {α : Type} (action : Action α) : Prop := ∀ w, ∃ a w', action.run w = (.ok a, w')

namespace Action

variable {α β : Type}

theorem AnswersQuietly.answers {action : Action α} (h : action.AnswersQuietly) : action.Answers := by
  intro w
  obtain ⟨a, w', hrun, -⟩ := h w
  exact ⟨a, w', hrun⟩

theorem answers_pure (a : α) : (pure a : Action α).Answers := fun w => ⟨a, w, rfl⟩

theorem answers_modifyStore (f : Store → Store) : (modifyStore f).Answers := fun _ => ⟨(), _, rfl⟩

theorem answers_bind {action : Action α} {f : α → Action β} (h : action.Answers)
    (hf : ∀ a, (f a).Answers) : (action >>= f).Answers := by
  intro w
  obtain ⟨a, w₁, hfirst⟩ := h w
  obtain ⟨b, w₂, hsecond⟩ := hf a w₁
  exact ⟨b, w₂, run_bind_eq_ok.mpr ⟨a, w₁, hfirst, hsecond⟩⟩

end Action

/-! ### Direct statements -/

/-- Whether a statement calls nothing and is none that fails: all that it may do is to write. -/
def Statement.isDirect : Statement → Bool
  | .setField _ e | .pushArgument e _ | .discard e | .answer e => e.isQuiet
  | .push target e | .setProperty target _ e => target.isQuiet && e.isQuiet
  | .callEach _ _ | .fail _ => false

section Direct

open ClassComposition.Action

variable {invoke : Invoke} {this : Handle .inst} {args : List Value}

theorem Expr.answers_eval {e : Expr} (h : e.isQuiet = true) : (e.eval invoke this args).Answers :=
  (e.run_eval_of_isQuiet h).answers

/-- A direct statement runs to its end. -/
theorem Statement.answers_execute {statement : Statement} (h : statement.isDirect = true) :
    (statement.execute invoke this args).Answers := by
  cases statement with
  | setField name e =>
    refine answers_bind (e.answers_eval h) fun v => ?_
    exact answers_bind (answers_modifyStore _) fun _ => answers_pure none
  | push target e =>
    obtain ⟨htarget, he⟩ := Bool.and_eq_true_iff.mp h
    refine answers_bind (target.answers_eval htarget) fun t => ?_
    refine answers_bind (e.answers_eval he) fun v => ?_
    exact answers_bind (answers_modifyStore _) fun _ => answers_pure none
  | pushArgument target position =>
    refine answers_bind (target.answers_eval h) fun t => ?_
    rcases args[position]? with _ | v
    · -- an argument that was not passed is not pushed
      exact answers_pure none
    · exact answers_bind (answers_modifyStore _) fun _ => answers_pure none
  | setProperty target key e =>
    obtain ⟨htarget, he⟩ := Bool.and_eq_true_iff.mp h
    refine answers_bind (target.answers_eval htarget) fun t => ?_
    refine answers_bind (e.answers_eval he) fun v => ?_
    exact answers_bind (answers_modifyStore _) fun _ => answers_pure none
  | discard e => exact answers_bind (e.answers_eval h) fun _ => answers_pure none
  | answer e => exact answers_bind (e.answers_eval h) fun v => answers_pure (some v)
  | callEach target es => cases h
  | fail e => cases h

theorem answers_runBody {body : List Statement} (h : ∀ statement ∈ body, statement.isDirect = true) :
    (runBody invoke this args body).Answers := by
  induction body with
  | nil => exact answers_pure _
  | cons statement rest ih =>
    rw [List.forall_mem_cons] at h
    rw [runBody]
    refine answers_bind (Statement.answers_execute h.1) fun answer? => ?_
    cases answer? with
    | none => exact ih h.2
    | some v => exact answers_pure v

end Direct

/-! ### Forwarding -/

/-- Code that calls nothing, if no class is given; else code that first forwards to the implementation of a
method that was kept from the class, and either ends with its answer or calls nothing after that. -/
inductive ForwardsTo (name : String) : Option String → List Statement → Prop
  | direct {body : List Statement} (h : ∀ statement ∈ body, statement.isDirect = true) :
      ForwardsTo name none body
  | before {owner : String} {rest : List Statement} (h : ∀ statement ∈ rest, statement.isDirect = true) :
      ForwardsTo name (some owner) (.discard (.forwardKept owner name) :: rest)
  | ending {owner : String} {rest : List Statement} :
      ForwardsTo name (some owner) (.answer (.forwardKept owner name) :: rest)

/-- Methods each of which forwards to the next one, with their number. -/
inductive Descent (s : Store) (i : Handle .inst) (name : String) : Nat → Handle .function → Prop
  | last {f : Handle .function} (code : ForwardsTo name none (s.function f).body) : Descent s i name 1 f
  | next {f g : Handle .function} {owner : String} {n : Nat}
      (code : ForwardsTo name (some owner) (s.function f).body)
      (callee : s.callee i (MemberKey.aliased owner name).display = .ok g)
      (below : Descent s i name n g) : Descent s i name (n + 1) f

section Runs

variable {invoke : Invoke} {i : Handle .inst} {args : List Value} {name : String} {w : World}

/-- Code that forwards answers if the call that it forwards does. -/
theorem ForwardsTo.run_runBody {owner : String} {body : List Statement} (h : ForwardsTo name (some owner) body)
    {u : Value} {w₁ : World} (hcall : (callKeptWith invoke i owner name args).run w = (.ok u, w₁)) :
    ∃ v w', (runBody invoke i args body).run w = (.ok v, w') := by
  have heval : ((Expr.forwardKept owner name).eval invoke i args).run w = (.ok u, w₁) := by
    rw [Expr.eval]
    exact hcall
  cases h with
  | before hrest =>
    obtain ⟨v, w', hrun⟩ := answers_runBody hrest w₁
    exact ⟨v, w', (run_runBody_cons (run_execute_discard heval)).trans hrun⟩
  | ending =>
    refine ⟨u, w₁, ?_⟩
    have hanswer : ((Statement.answer (.forwardKept owner name)).execute invoke i args).run w
        = (.ok (some u), w₁) := by
      rw [Statement.execute, Action.run_bind, heval]
      rfl
    rw [runBody, Action.run_bind, hanswer]
    rfl

/-- The first method of a descent answers, when calls may be nested as deep as there are methods.  Each
method forwards before it writes anything, so the next one is found in the very store in which the first was
called. -/
theorem Descent.run_invoke {n : Nat} {f : Handle .function} (h : Descent w.store i name n f) {depth : Nat}
    (hdepth : n ≤ depth) (args : List Value) :
    ∃ v w', (ClassComposition.invoke depth f i args).run w = (.ok v, w') := by
  induction h generalizing depth with
  | last code =>
    obtain ⟨depth, rfl⟩ : ∃ below, depth = below + 1 := ⟨depth - 1, by omega⟩
    rw [run_invoke_succ rfl]
    cases code with
    | direct hdirect => exact answers_runBody hdirect w
  | next code callee below ih =>
    obtain ⟨depth, rfl⟩ : ∃ below, depth = below + 1 := ⟨depth - 1, by omega⟩
    obtain ⟨u, w₁, hnext⟩ := ih (Nat.le_of_succ_le_succ hdepth)
    rw [run_invoke_succ rfl]
    exact code.run_runBody ((run_callMemberWith callee).trans hnext)

end Runs

end ClassComposition
