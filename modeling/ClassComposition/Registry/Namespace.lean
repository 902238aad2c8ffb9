import ClassComposition.Class.Constructor

/-!
# Namespaces

Constructors are published in trees: each node may hold a constructor and has named children in order of
creation.  Nodes on the way to a constructor are created on demand.

## Main definitions

* `Namespace` — a tree node.
* `Namespace.find?`, `Namespace.resolve` — the node at some segments, or at a dotted path.
* `Namespace.constructorAt?` — the constructor published at some segments.
* `Namespace.isVacant` — whether a constructor may be published at some segments.
* `Namespace.insert` — publishing.

## Main results

* `Namespace.constructorAt?_insert` — publishing changes what is published at its own segments only.
* `Namespace.isVacant_insert` — publishing takes its own segments and all nodes on the way there.
-/

namespace ClassComposition

/-- A node of a namespace tree. -/
inductive Namespace
  /-- The constructor published here, and the children in order of creation. -/
  | node (constructor? : Option Constructor) (children : List (String × Namespace))
  deriving Inhabited

namespace Namespace

/-- The node with nothing in it. -/
def empty : Namespace := node none []

/-- The constructor published at a node. -/
def constructor? : Namespace → Option Constructor
  | node c _ => c

/-- The children of a node in order of creation. -/
def children : Namespace → Assoc String Namespace
  | node _ cs => cs

/-- The node at some segments below a node. -/
def find? (n : Namespace) : List String → Option Namespace
  | [] => some n
  | segment :: rest =>
    match Assoc.get? n.children segment with
    | some child => child.find? rest
    | none => none

/-- The node at a dotted path below a node. -/
def resolve (n : Namespace) (path : String) : Option Namespace := n.find? (ClassPath.segments path)

/-- The constructor published at some segments below a node. -/
def constructorAt? (n : Namespace) (segments : List String) : Option Constructor :=
  (n.find? segments).bind constructor?

/-- Whether a constructor may be published at some segments: the node is not there yet, or it has neither
a constructor nor children. -/
def isVacant (n : Namespace) (segments : List String) : Bool :=
  match n.find? segments with
  | none => true
  | some m => m.constructor?.isNone && m.children.isEmpty

/-- Publish a constructor at some segments, creating the nodes that are missing. -/
def insert (n : Namespace) (segments : List String) (c : Constructor) : Namespace :=
  match segments with
  | [] => node (some c) n.children
  | segment :: rest =>
    let child := (Assoc.get? n.children segment).getD empty
    node n.constructor? (Assoc.insert n.children segment (child.insert rest c))

/-! ### What is published -/

theorem constructorAt?_nil (n : Namespace) : n.constructorAt? [] = n.constructor? := by
  simp [constructorAt?, find?]

/-- Below a segment there is what the child of that name has; nothing if there is no such child. -/
theorem constructorAt?_cons (n : Namespace) (segment : String) (rest : List String) :
    n.constructorAt? (segment :: rest)
      = (Assoc.get? n.children segment).bind fun child => child.constructorAt? rest := by
  rw [constructorAt?, find?]
  cases Assoc.get? n.children segment <;> rfl

theorem constructorAt?_empty (segments : List String) : empty.constructorAt? segments = none := by
  cases segments with
  | nil => rfl
  | cons segment rest => rw [constructorAt?_cons]; rfl

/-- Publishing changes what is published at its own segments, and nowhere else. -/
theorem constructorAt?_insert (n : Namespace) (segments other : List String) (c : Constructor) :
    (n.insert segments c).constructorAt? other =
      if segments = other then some c else n.constructorAt? other := by
  induction segments generalizing n other with
  | nil =>
    cases other with
    | nil => simp [insert, constructorAt?_nil, constructor?]
    | cons segment rest =>
      have hne : ([] : List String) ≠ segment :: rest := by simp
      rw [if_neg hne, insert, constructorAt?_cons, constructorAt?_cons]
      rfl
  | cons segment rest ih =>
    cases other with
    | nil =>
      rw [if_neg (List.cons_ne_nil segment rest), insert, constructorAt?_nil, constructorAt?_nil]
      rfl
    | cons first more =>
      rw [insert, constructorAt?_cons, constructorAt?_cons, children, Assoc.get?_insert]
      by_cases hfirst : segment = first
      · subst hfirst
        rw [if_pos rfl, Option.bind_some, ih]
        -- a child that has just been created has nothing published below it
        have hchild : ((Assoc.get? n.children segment).getD empty).constructorAt? more
            = (Assoc.get? n.children segment).bind fun child => child.constructorAt? more := by
          cases Assoc.get? n.children segment with
          | none => exact constructorAt?_empty more
          | some child => rfl
        rw [hchild]
        simp
      · have hne : segment :: rest ≠ first :: more := by simp [hfirst]
        rw [if_neg hfirst, if_neg hne]

/-! ### What is vacant -/

theorem isVacant_nil (n : Namespace) :
    n.isVacant [] = (n.constructor?.isNone && n.children.isEmpty) := rfl

/-- Below a segment vacant is what is so in the child of that name; everything if there is no such child. -/
theorem isVacant_cons (n : Namespace) (segment : String) (rest : List String) :
    n.isVacant (segment :: rest) =
      ((Assoc.get? n.children segment).map fun child => child.isVacant rest).getD true := by
  rw [isVacant, find?]
  cases Assoc.get? n.children segment <;> rfl

theorem isVacant_empty (segments : List String) : empty.isVacant segments = true := by
  cases segments <;> rfl

/-- Publishing takes its own segments and all nodes on the way there, and no others. -/
theorem isVacant_insert (n : Namespace) (segments other : List String) (c : Constructor) :
    (n.insert segments c).isVacant other = (!other.isPrefixOf segments && n.isVacant other) := by
  induction segments generalizing n other with
  | nil =>
    cases other with
    | nil => rfl
    | cons first more => rfl
  | cons segment rest ih =>
    cases other with
    | nil =>
      -- the node now has a child on the way to the segments
      rw [insert, isVacant_nil]
      have hchild : (Assoc.insert n.children segment
          (((Assoc.get? n.children segment).getD empty).insert rest c)).isEmpty = false := by
        cases n.children with
        | nil => rfl
        | cons p others =>
          rw [Assoc.insert]
          split <;> rfl
      rw [children, hchild, Bool.and_false]
      rfl
    | cons first more =>
      rw [insert, isVacant_cons, isVacant_cons, children, Assoc.get?_insert, List.isPrefixOf_cons_cons]
      by_cases hfirst : segment = first
      · subst hfirst
        rw [if_pos rfl, Option.map_some, Option.getD_some, ih, beq_self_eq_true, Bool.true_and]
        -- all is vacant below a child that has just been created
        cases Assoc.get? n.children segment with
        | none => rw [Option.getD_none, isVacant_empty, Option.map_none, Option.getD_none]
        | some child => rfl
      · have hne : (first == segment) = false := by
          rw [beq_eq_false_iff_ne]
          exact fun heq => hfirst heq.symm
        rw [if_neg hfirst, hne, Bool.false_and, Bool.not_false, Bool.true_and]

end Namespace

end ClassComposition
