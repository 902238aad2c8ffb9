import ClassComposition.Class.Body
import ClassComposition.Member.References
import ClassComposition.Store.Walk

/-!
# Classification of member values

How a member is stored is decided once, from the value it is declared with.  Null, booleans, numbers and
texts become literals, plain objects become nested skeletons, and functions, patterns and most arrays go
into the reference table.  An array of simple values may be kept as a literal.  Undefined values, big
integers and instances are refused.

## Main definitions

* `Classifying` — computations that grow a reference table and may fail; the table is kept either way.
* `Classifying.member` — one value.
* `Classifying.skeleton` — the members of a class body, directives and shared names left out.
-/

namespace ClassComposition

/-- A computation that grows a reference table and may fail. -/
abbrev Classifying (α : Type) := ExceptT ClassError (StateM ReferenceTable) α

namespace Classifying

/-- Add a value to the table and answer its index. -/
def reference (v : Value) : Classifying Nat :=
  modifyGet fun t => t.push v

/-- Classify the entries of a map in turn, into a skeleton. -/
def members (classify : String → Value → Classifying MemberDescriptor) :
    Assoc String Value → Skeleton → Classifying Skeleton
  | [], skeleton => return skeleton
  | (name, v) :: rest, skeleton => do
    let d ← classify name v
    members classify rest (Assoc.insert skeleton (MemberKey.parse name) d)

/-- Classify one value, nested objects being followed at most `fuel` levels down. -/
def memberAt (s : Store) (inlineSimple : Bool) (path : String) (fuel : Nat) (name : String)
    (v : Value) : Classifying MemberDescriptor :=
  match v with
  | .null | .boolean _ | .number _ => return .literal v
  | .text t => return .text t
  | .function _ => return .function (← reference v)
  | .pattern _ => return .pattern (← reference v)
  | .array a =>
    let items := s.array a
    if items.isEmpty then return .emptyArray
    else if inlineSimple && items.all Value.isSimple then return .inlineArray items
    else return .arrayCopy (← reference v)
  | .object o =>
    match fuel with
    | 0 => throw (.cyclicMember path name)
    | fuel + 1 => return .nested (← members (memberAt s inlineSimple path fuel) (s.object o) [])
  | .undefined => throw (.undefinedMember path name)
  | .inst _ | .big _ => throw (.unsupportedMember v.kind path name)

/-- Classify one value. -/
def member (s : Store) (inlineSimple : Bool) (path name : String) (v : Value) :
    Classifying MemberDescriptor :=
  memberAt s inlineSimple path s.nesting name v

/-- Classify the members of a class body: all entries but the directives and the shared names. -/
def skeleton (s : Store) (inlineSimple : Bool) (path : String) (b : ClassBody)
    (shared : List String) : Classifying Skeleton :=
  members (member s inlineSimple path)
    (b.entries.filter fun p => !Directive.isReserved p.1 && !shared.contains p.1) []

/-- Run a classification on a table: its answer or error, and the table afterwards. -/
def run {α : Type} (c : Classifying α) (t : ReferenceTable) : Except ClassError α × ReferenceTable :=
  Id.run (StateT.run (ExceptT.run c) t)

end Classifying

end ClassComposition
