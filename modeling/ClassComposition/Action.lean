import ClassComposition.Store.Walk

/-!
# Actions

Defining classes and running methods change a store, leave a journal of what was done, and may fail.
What was done before a failure stays done, so the state is kept beside the error and not inside it.

## Main definitions

* `Event`, `Event.level`, `Event.text` — the entries of the journal.
* `World` — a store and a journal.
* `Action` — a computation on a world that answers or fails.
-/

namespace ClassComposition

/-- How much a journal entry matters. -/
inductive Level
  /-- A class was published. -/
  | debug
  /-- A single step of a composition. -/
  | trace
  deriving DecidableEq, Repr

/-- An entry of the journal. -/
inductive Event
  /-- A parent's shared member was taken over, redeclared by the body or not. -/
  | sharedInherited (path name : String) (redeclared : Bool)
  /-- A parent's implementation was kept under a key. -/
  | implementationKept (path : String) (key : MemberKey)
  /-- A mixin was merged in, its reference table standing from `offset` on. -/
  | mixinMerged (path mixin : String) (offset : Nat)
  /-- A class was published. -/
  | classDefined (path : String) (members references shared : Nat) (isAbstract : Bool)
  /-- A slot was given the implementation of another one. -/
  | slotPatched (path : String) (target : MemberKey) (replacement owner : String)
  deriving DecidableEq, Repr

namespace Event

/-- How much an entry matters. -/
def level : Event → Level
  | classDefined _ _ _ _ _ => .debug
  | _ => .trace

/-- The text of an entry. -/
def text : Event → String
  | sharedInherited path name redeclared =>
    s!"{path}: shared member {name} " ++ (if redeclared then "redeclared" else "inherited")
  | implementationKept path key => s!"{path}: parent implementation kept as {key.display}"
  | mixinMerged path mixin offset => s!"{path}: implementing {mixin} at reference offset {offset}"
  | classDefined path members references shared isAbstract =>
    s!"defined {path} ({members} members, {references} references, {shared} shared"
      ++ (if isAbstract then ", abstract" else "") ++ ")"
  | slotPatched path target replacement owner =>
    s!"{path}: patched {target.display} with {replacement} (declared by {owner})"

end Event

/-- What actions change. -/
structure World where
  /-- The stored things. -/
  store : Store
  /-- What has been done, the latest entry first. -/
  journal : List Event
  deriving Inhabited

/-- A computation on a world that answers or fails; the world is kept either way. -/
abbrev Action (α : Type) := ExceptT ClassError (StateM World) α

namespace Action

variable {α : Type}

/-- The store as it is. -/
def store : Action Store := return (← get).store

/-- Change the store. -/
def modifyStore (f : Store → Store) : Action Unit :=
  modify fun w => { w with store := f w.store }

/-- Change the store and answer. -/
def onStore (f : Store → α × Store) : Action α :=
  modifyGet fun w => let (a, s) := f w.store; (a, { w with store := s })

/-- Add an entry to the journal. -/
def record (e : Event) : Action Unit := modify fun w => { w with journal := e :: w.journal }

/-- Answer, or fail with the given error. -/
def ofExcept : Except ClassError α → Action α
  | .ok a => pure a
  | .error e => throw e

/-- Run an action: its answer or error, and the world afterwards. -/
def run (action : Action α) (w : World) : Except ClassError α × World :=
  Id.run (StateT.run (ExceptT.run action) w)

end Action

end ClassComposition
