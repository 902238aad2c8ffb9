import ClassComposition.Action
import ClassComposition.Method.Basic

/-!
# Running methods

Expressions and statements are evaluated by recursion on their structure; what a call of a function does
is a parameter of that recursion.  `invoke` closes the knot: a function runs its statements, and the calls
in them may be nested at most `depth` levels deep.  Going deeper is an error of its own, so an answer
obtained within some depth never depends on the depth.

## Main definitions

* `Invoke` — what calling a function does.
* `Expr.eval`, `Expr.evalAll`, `Statement.execute`, `Method.runBody` — evaluation, open in the calls.
* `invoke` — calling a function, nested calls bounded by a depth.
* `callMember`, `callKept`, `callValueWith` — calling what a name or a value refers to.
-/

namespace ClassComposition

/-- What calling a function on an instance with arguments does. -/
abbrev Invoke := Handle .function → Handle .inst → List Value → Action Value

/-- Call a member of an instance. -/
def callMemberWith (invoke : Invoke) (this : Handle .inst) (name : String) (args : List Value) :
    Action Value := do
  let f ← Action.ofExcept ((← Action.store).callee this name)
  invoke f this args

/-- Call the implementation of a method that was kept from a class. -/
def callKeptWith (invoke : Invoke) (this : Handle .inst) (owner method : String)
    (args : List Value) : Action Value :=
  callMemberWith invoke this (MemberKey.aliased owner method).display args

/-- Call a value, which has to be a function, on an instance. -/
def callValueWith (invoke : Invoke) (this : Handle .inst) (v : Value) (args : List Value) :
    Action Value :=
  match v with
  | .function f => invoke f this args
  | v => throw (.notFunction v.kind)

/-- Call every value of a list in turn. -/
def callEachWith (invoke : Invoke) (this : Handle .inst) (args : List Value) :
    List Value → Action Unit
  | [] => pure ()
  | v :: rest => do
    let _ ← callValueWith invoke this v args
    callEachWith invoke this args rest

/-- The sum of the numbers among values, from zero. -/
def sumNumbers (vs : List Value) : Number :=
  vs.foldl (fun total v => match v with | .number x => total.add x | _ => total) Number.zero

mutual

/-- The value of an expression. -/
def Expr.eval (invoke : Invoke) (this : Handle .inst) (args : List Value) : Expr → Action Value
  | .literal v => pure v
  | .argument position fallback => pure (args.getD position fallback)
  | .arguments => Action.onStore (·.newArray args)
  | .member name => return ((← Action.store).member? this name).getD .undefined
  | .self => pure (.inst this)
  | .classPath => return .text ((← Action.store).classPath this)
  | .call name es => do
    let vs ← Expr.evalAll invoke this args es
    callMemberWith invoke this name vs
  | .callKept owner name es => do
    let vs ← Expr.evalAll invoke this args es
    callKeptWith invoke this owner name vs
  | .forwardKept owner name => callKeptWith invoke this owner name args
  | .apply f es => do
    let g ← Expr.eval invoke this args f
    let vs ← Expr.evalAll invoke this args es
    callValueWith invoke this g vs
  | .concat es => do
    let vs ← Expr.evalAll invoke this args es
    let s ← Action.store
    return .text (String.join (vs.map s.display))
  | .sum es => do
    let vs ← Expr.evalAll invoke this args es
    return .number (sumNumbers vs)
  | .property e key => do
    let v ← Expr.eval invoke this args e
    return ((← Action.store).property? v key).getD .undefined
  | .length e => do
    let v ← Expr.eval invoke this args e
    return .number (Number.ofNat ((← Action.store).length v))
  | .array es => do
    let vs ← Expr.evalAll invoke this args es
    Action.onStore (·.newArray vs)
termination_by structural e => e

/-- The values of expressions, from left to right. -/
def Expr.evalAll (invoke : Invoke) (this : Handle .inst) (args : List Value) :
    List Expr → Action (List Value)
  | [] => pure []
  | e :: rest => do
    let v ← Expr.eval invoke this args e
    let vs ← Expr.evalAll invoke this args rest
    return v :: vs
termination_by structural es => es

end

/-- Run one statement; the answer, if it ends the method. -/
def Statement.execute (invoke : Invoke) (this : Handle .inst) (args : List Value) :
    Statement → Action (Option Value)
  | .setField name e => do
    let v ← e.eval invoke this args
    Action.modifyStore (·.setField this name v)
    return none
  | .push target e => do
    let t ← target.eval invoke this args
    let v ← e.eval invoke this args
    Action.modifyStore (·.push t v)
    return none
  | .pushArgument target position => do
    let t ← target.eval invoke this args
    match args[position]? with
    | some v => Action.modifyStore (·.push t v)
    | none => pure ()
    return none
  | .setProperty target key e => do
    let t ← target.eval invoke this args
    let v ← e.eval invoke this args
    Action.modifyStore (·.setProperty t key v)
    return none
  | .callEach target es => do
    let t ← target.eval invoke this args
    let functions := (← Action.store).elements t
    let vs ← Expr.evalAll invoke this args es
    callEachWith invoke this vs functions
    return none
  | .fail e => do
    let v ← e.eval invoke this args
    throw (.raised ((← Action.store).display v))
  | .discard e => do
    let _ ← e.eval invoke this args
    return none
  | .answer e => do
    let v ← e.eval invoke this args
    return some v

/-- Run statements in order; undefined unless one of them answers. -/
def runBody (invoke : Invoke) (this : Handle .inst) (args : List Value) :
    List Statement → Action Value
  | [] => pure .undefined
  | statement :: rest => do
    match ← statement.execute invoke this args with
    | some v => pure v
    | none => runBody invoke this args rest

/-- Call a function; calls may be nested `depth` levels deep. -/
def invoke : Nat → Invoke
  | 0, _, _, _ => throw .callsTooDeep
  | depth + 1, f, this, args => do
    runBody (invoke depth) this args ((← Action.store).function f).body

/-- Call a member of an instance; calls may be nested `depth` levels deep. -/
def callMember (depth : Nat) : Handle .inst → String → List Value → Action Value :=
  callMemberWith (invoke depth)

/-- Call the implementation of a method that was kept from a class. -/
def callKept (depth : Nat) : Handle .inst → String → String → List Value → Action Value :=
  callKeptWith (invoke depth)

end ClassComposition
