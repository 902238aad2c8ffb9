import ClassComposition.Class.Body

/-!
# Directives of a class

Reading and checking the directives of a class body.  The options come first, then the parent, the mixins
and the shared names, so that of several faults the first in this order is reported.

## Main definitions

* `Directives` — what the directives of a body say.
* `Directives.parse` — reading them.
-/

namespace ClassComposition

/-- What the directives of a class body say. -/
structure Directives where
  /-- The path of the parent. -/
  parent? : Option String
  /-- The paths of the mixins, as declared. -/
  mixins : List String
  /-- The names of the members declared shared. -/
  shared : List String
  /-- Whether the class is abstract. -/
  isAbstract : Bool
  deriving DecidableEq, Repr

namespace Directives

/-- The directives of a body that has none. -/
def none : Directives := ⟨.none, [], [], false⟩

instance : Inhabited Directives := ⟨none⟩

/-- The texts of a list of values, if all of them are texts. -/
def texts? : List Value → Option (List String)
  | [] => some []
  | .text t :: rest => (texts? rest).map (t :: ·)
  | _ :: _ => .none

/-- The names that a directive holds: one text, or an array of texts; none if it is missing. -/
def names (s : Store) (path : String) (b : ClassBody) (directive : Directive) :
    Except ClassError (List String) :=
  match b.get? directive.name with
  | .none => .ok []
  | some (.text t) => .ok [t]
  | some (.array a) =>
    match texts? (s.array a) with
    | some ts => .ok ts
    | .none => .error (.namesNotTexts directive.name path)
  | some _ => .error (.namesNotTexts directive.name path)

/-- The names in an array of texts. -/
theorem names_of_array {s : Store} {path : String} {b : ClassBody} {directive : Directive}
    {a : Handle .array} {ts : List String} (hfound : b.get? directive.name = some (.array a))
    (htexts : texts? (s.array a) = some ts) : names s path b directive = .ok ts := by
  simp only [names, hfound, htexts]

/-- Whether the options make the class abstract. -/
def abstractness (s : Store) (path : String) (b : ClassBody) : Except ClassError Bool :=
  match b.get? Directive.options.name with
  | .none => .ok false
  | some (.object o) =>
    match Assoc.get? (s.object o) Directive.abstractOption with
    | some v => .ok v.isTruthy
    | .none => .ok false
  | some _ => .error (.malformedOptions path)

/-- The parent that a body names. -/
def parentPath? (path : String) (b : ClassBody) : Except ClassError (Option String) :=
  match b.get? Directive.parent.name with
  | .none => .ok .none
  | some (.text t) => .ok (some t)
  | some _ => .error (.parentNotText path)

/-- Read the directives of a body. -/
def parse (s : Store) (path : String) (b : ClassBody) : Except ClassError Directives := do
  let isAbstract ← abstractness s path b
  let parent? ← parentPath? path b
  let mixins ← names s path b .mixins
  let shared ← names s path b .shared
  return { parent?, mixins, shared, isAbstract }

end Directives

end ClassComposition
