import ClassComposition.Assoc
import ClassComposition.Member.Key
import ClassComposition.Value.Basic

/-!
# Member descriptors and skeletons

A descriptor says how the value of a member comes about on a new instance: as a literal, from an entry of
the class's reference table, as a new empty array, or as a new object with members of its own.  A skeleton
gives the descriptors of a class or of a nested object in order.

## Main definitions

* `MemberDescriptor`, `Skeleton`.
* `MemberDescriptor.isCallable`, `MemberDescriptor.isPlaceholder` — the two sides of the override rule.
* `MemberDescriptor.shift` — the same description over a table in which the entries stand further on, for
  all but nested objects.
* `MemberDescriptor.same` — equality, with literals compared as values are.

## Main results

* `MemberDescriptor.induction` — what holds of leaves, and of nested objects when it holds of their
  members, holds of every descriptor.
-/

namespace ClassComposition

/-- How the value of a member comes about. -/
inductive MemberDescriptor
  /-- Null, a boolean or a number. -/
  | literal (v : Value)
  | text (s : String)
  /-- A function of the reference table. -/
  | function (index : Nat)
  /-- A pattern of the reference table. -/
  | pattern (index : Nat)
  /-- A new empty array. -/
  | emptyArray
  /-- A new array of these simple values. -/
  | inlineArray (items : List Value)
  /-- A copy of an array of the reference table. -/
  | arrayCopy (index : Nat)
  /-- A new object with these members. -/
  | nested (members : List (MemberKey × MemberDescriptor))
  deriving Repr, Inhabited

/-- The members of a class or of a nested object, in order. -/
abbrev Skeleton := Assoc MemberKey MemberDescriptor

/-- The sorts of descriptors that messages distinguish. -/
inductive DescriptorKind
  | literal
  | text
  | function
  | pattern
  | emptyArray
  | inlineArray
  | arrayCopy
  | nested
  deriving DecidableEq, Repr

/-- The name of a sort of descriptors in messages. -/
def DescriptorKind.name : DescriptorKind → String
  | .literal => "primitive"
  | .text => "text"
  | .function => "function"
  | .pattern => "pattern"
  | .emptyArray => "empty array"
  | .inlineArray => "inline array"
  | .arrayCopy => "reference array"
  | .nested => "object"

namespace MemberDescriptor

/-- The sort of a descriptor. -/
def kind : MemberDescriptor → DescriptorKind
  | literal _ => .literal
  | text _ => .text
  | function _ => .function
  | pattern _ => .pattern
  | emptyArray => .emptyArray
  | inlineArray _ => .inlineArray
  | arrayCopy _ => .arrayCopy
  | nested _ => .nested

/-- Whether the member is a method. -/
def isCallable : MemberDescriptor → Bool
  | function _ => true
  | _ => false

/-- Whether the member is the null placeholder, the only data that may become a method. -/
def isPlaceholder : MemberDescriptor → Bool
  | literal .null => true
  | _ => false

/-- The index into the reference table, for the kinds kept there. -/
def index? : MemberDescriptor → Option Nat
  | function i | pattern i | arrayCopy i => some i
  | _ => none

/-- The members of a nested object. -/
def members? : MemberDescriptor → Option Skeleton
  | nested ms => some ms
  | _ => none

theorem eq_nested_of_members? {d : MemberDescriptor} {ms : Skeleton} (h : d.members? = some ms) :
    d = nested ms := by
  cases d with
  | nested ns =>
    cases h
    rfl
  | _ => cases h

/-! ### Induction -/

mutual

/-- Induction over descriptors: from leaves, and to nested objects from their members. -/
theorem induction {motive : MemberDescriptor → Prop}
    (leaf : ∀ d, d.members? = none → motive d)
    (nested : ∀ ms, (∀ p ∈ ms, motive p.2) → motive (.nested ms)) : ∀ d, motive d
  | .literal _ => leaf _ rfl
  | .text _ => leaf _ rfl
  | .function _ => leaf _ rfl
  | .pattern _ => leaf _ rfl
  | .emptyArray => leaf _ rfl
  | .inlineArray _ => leaf _ rfl
  | .arrayCopy _ => leaf _ rfl
  | .nested ms => nested ms (induction_members leaf nested ms)
termination_by structural d => d

theorem induction_members {motive : MemberDescriptor → Prop}
    (leaf : ∀ d, d.members? = none → motive d)
    (nested : ∀ ms, (∀ p ∈ ms, motive p.2) → motive (.nested ms)) :
    ∀ ms : List (MemberKey × MemberDescriptor), ∀ p ∈ ms, motive p.2
  | [], _, h => absurd h List.not_mem_nil
  | (_, d) :: rest, p, h => by
    rcases List.mem_cons.mp h with rfl | hmem
    · exact induction leaf nested d
    · exact induction_members leaf nested rest p hmem
termination_by structural ms => ms

end

/-- The descriptor with its own index moved by `offset`; a nested object is left as it is. -/
def shift (offset : Nat) : MemberDescriptor → MemberDescriptor
  | function i => function (i + offset)
  | pattern i => pattern (i + offset)
  | arrayCopy i => arrayCopy (i + offset)
  | d => d

/-- Whether two lists of values agree item by item. -/
def sameItems : List Value → List Value → Bool
  | [], [] => true
  | a :: as, b :: bs => a.same b && sameItems as bs
  | _, _ => false

mutual

/-- Whether two descriptors are equal, with literals compared as values are: a NaN differs from itself.
The order of the members of a nested object does not matter. -/
def same : MemberDescriptor → MemberDescriptor → Bool
  | literal a, literal b => a.same b
  | text a, text b => a == b
  | function i, function j => i == j
  | pattern i, pattern j => i == j
  | emptyArray, emptyArray => true
  | inlineArray as, inlineArray bs => sameItems as bs
  | arrayCopy i, arrayCopy j => i == j
  | nested as, nested bs => as.length == bs.length && sameMembers as bs
  | _, _ => false
termination_by structural d => d

/-- Whether every member has an equal counterpart under its key. -/
def sameMembers : List (MemberKey × MemberDescriptor) → Skeleton → Bool
  | [], _ => true
  | (key, d) :: rest, other =>
    (match Assoc.get? other key with
      | some d' => same d d'
      | none => false) && sameMembers rest other
termination_by structural ms => ms

end

end MemberDescriptor

end ClassComposition
