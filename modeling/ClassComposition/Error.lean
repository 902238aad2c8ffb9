import ClassComposition.Member.Descriptor
import ClassComposition.Text.Quoted

/-!
# Errors

Every way in which declaring, building or using a class can fail, as a cause with the data that belongs
to it.  Causes fall into ten kinds; the wording of a cause is in `ClassError.message`, and the text shown
to a reader puts the label of the kind in front.

## Main definitions

* `ErrorKind`, `ErrorKind.label` — the kinds of failure.
* `ErrorKind.display` — a message with the label of its kind.
* `ClassError` — the causes.
* `ClassError.kind`, `ClassError.message`, `ClassError.display`.
-/

namespace ClassComposition

/-- The kinds of failure. -/
inductive ErrorKind
  /-- A path, mixin, alias or name is there already. -/
  | duplicateDefinition
  /-- A parent, mixin, namespace or class is not there. -/
  | missingDependency
  /-- A member changes its shape on the way to a descendant. -/
  | invalidOverride
  /-- A class cannot be used as a mixin. -/
  | invalidMixin
  /-- A member value is not supported. -/
  | invalidMember
  /-- A directive or a class path is malformed. -/
  | invalidDirective
  /-- A shared member and an instance member have one name. -/
  | visibilityConflict
  /-- An abstract class was instantiated. -/
  | abstractInstantiation
  /-- Something that is no function was called. -/
  | notCallable
  /-- A method failed. -/
  | runtime
  deriving DecidableEq, Repr, Inhabited

/-- What stands in front of the message of an error of this kind. -/
def ErrorKind.label : ErrorKind → String
  | .duplicateDefinition => "duplicate definition: "
  | .missingDependency => "missing dependency: "
  | .invalidOverride => "invalid override: "
  | .invalidMixin => "invalid mixin: "
  | .invalidMember => "invalid member: "
  | .invalidDirective => "invalid directive: "
  | .visibilityConflict => "visibility conflict: "
  | .abstractInstantiation => "trying to create an instance of an abstract class: "
  | .notCallable => "not callable: "
  | .runtime => ""

/-- A message with the label of its kind. -/
def ErrorKind.display (kind : ErrorKind) (message : String) : String := kind.label ++ message

/-- The causes of failure. -/
inductive ClassError
  /-- The path is a defined class or has a constructor. -/
  | alreadyDefined (path : String)
  /-- The path's place in its namespace is taken. -/
  | placeTaken (path : String)
  /-- The class has the short name of one of its ancestors. -/
  | repeatedName (name path : String)
  /-- The mixin is implemented already, here or by an ancestor. -/
  | repeatedMixin (path mixin : String)
  /-- The key under which a parent's implementation is to be kept is taken. -/
  | aliasTaken (path : String) (key : MemberKey)
  /-- The name is shared already. -/
  | repeatedShared (path name : String)
  /-- A constructor was registered for a path that is a defined class. -/
  | classExists (path : String)
  /-- The path has no namespace. -/
  | missingNamespace (path : String)
  /-- The path's namespace is not registered. -/
  | unknownRoot (root path : String)
  /-- The parent is not a defined class. -/
  | unknownParent (parent path : String)
  /-- The mixin is not a defined class. -/
  | unknownMixin (mixin path : String)
  /-- The path from which a package is looked up is not a defined class. -/
  | unknownBase (path : String)
  /-- The class that declares a patch is no ancestor. -/
  | notAnAncestor (owner path : String)
  /-- A method became data, or data became a method. -/
  | callableChanged (path : String) (key : MemberKey)
  /-- A nested object became something else. -/
  | nestedReplaced (path : String) (key : MemberKey) (kind : DescriptorKind)
  /-- A shared member changed its kind. -/
  | sharedKindChanged (path name : String) (inherited declared : ValueKind)
  /-- A class with shared members was used as a mixin. -/
  | mixinWithShared (path mixin : String)
  /-- A class with a post-construction hook was used as a mixin. -/
  | mixinWithHook (hook path mixin : String)
  /-- The source of a pattern is malformed. -/
  | malformedPattern (source : String)
  /-- A member is undefined. -/
  | undefinedMember (path name : String)
  /-- A member is of a kind that cannot be stored. -/
  | unsupportedMember (kind : ValueKind) (path name : String)
  /-- A member contains itself. -/
  | cyclicMember (path name : String)
  /-- A shared member is neither an object nor an array. -/
  | sharedNotContainer (path name : String) (kind : ValueKind)
  /-- The initializer is neither a method nor the placeholder. -/
  | initNotFunction (name : String) (kind : DescriptorKind) (path : String)
  /-- The post-construction hook is no method. -/
  | hookNotFunction (name path : String)
  /-- A segment of the path is empty. -/
  | malformedPath (path : String)
  /-- The class options are no object. -/
  | malformedOptions (path : String)
  /-- The parent is not given as a text. -/
  | parentNotText (path : String)
  /-- The names of a directive are not given as a text or an array of texts. -/
  | namesNotTexts (directive path : String)
  /-- A shared name is not in the class body. -/
  | sharedNotInBody (path name : String)
  /-- A class body is not given as an object. -/
  | bodyNotObject (kind : ValueKind)
  /-- An instance member of the parent was declared shared. -/
  | sharedOverInstance (path name : String)
  /-- An instance member hides a shared one. -/
  | sharedHidden (path name : String)
  /-- The class is abstract. -/
  | abstractClass (path : String)
  /-- A member that is no function was called. -/
  | memberNotFunction (path name : String) (kind : ValueKind)
  /-- A member that is not there was called. -/
  | memberMissing (path name : String)
  /-- A value that is no function was called. -/
  | notFunction (kind : ValueKind)
  /-- A method failed with this text. -/
  | raised (message : String)
  /-- A descriptor points behind the end of its reference table. -/
  | indexOutOfRange (index : Nat) (path : String) (entries : Nat)
  /-- Calls are nested deeper than the evaluation was allowed to go. -/
  | callsTooDeep
  deriving DecidableEq, Repr

namespace ClassError

/-- The kind of a cause. -/
def kind : ClassError → ErrorKind
  | alreadyDefined _ | placeTaken _ | repeatedName _ _ | repeatedMixin _ _ | aliasTaken _ _
  | repeatedShared _ _ | classExists _ => .duplicateDefinition
  | missingNamespace _ | unknownRoot _ _ | unknownParent _ _ | unknownMixin _ _ | unknownBase _
  | notAnAncestor _ _ => .missingDependency
  | callableChanged _ _ | nestedReplaced _ _ _ | sharedKindChanged _ _ _ _ => .invalidOverride
  | mixinWithShared _ _ | mixinWithHook _ _ _ => .invalidMixin
  | malformedPattern _ | undefinedMember _ _ | unsupportedMember _ _ _ | cyclicMember _ _
  | sharedNotContainer _ _ _ | initNotFunction _ _ _ | hookNotFunction _ _ => .invalidMember
  | malformedPath _ | malformedOptions _ | parentNotText _ | namesNotTexts _ _
  | sharedNotInBody _ _ | bodyNotObject _ => .invalidDirective
  | sharedOverInstance _ _ | sharedHidden _ _ => .visibilityConflict
  | abstractClass _ => .abstractInstantiation
  | memberNotFunction _ _ _ | memberMissing _ _ | notFunction _ => .notCallable
  | raised _ | indexOutOfRange _ _ _ | callsTooDeep => .runtime

/-- The wording of a cause, without the label of its kind. -/
def message : ClassError → String
  | alreadyDefined path => s!"class is already defined: {path}"
  | placeTaken path => s!"class name conflict: '{path}' is already defined in its namespace"
  | repeatedName name path => s!"duplicate name in inheritance chain: '{name}' in {path}"
  | repeatedMixin path mixin => s!"class {path} already implements {mixin}"
  | aliasTaken path key => s!"function already exists in child: {path}::{key.display}"
  | repeatedShared path name => s!"member is already 'Shared' in parent class: {path}::{name}"
  | classExists path => s!"class \"{path}\" is already defined"
  | missingNamespace path =>
    s!"class path must start with a namespace, even for global classes: {path}"
  | unknownRoot root path => s!"namespace is not registered: {root} ({path})"
  | unknownParent parent path => s!"parent class not found: \"{parent}\" (extended by {path})"
  | unknownMixin mixin path => s!"Implements: class not found - \"{mixin}\" ({path})"
  | unknownBase path => s!"get_package_constructor - class not found: {path}"
  | notAnAncestor owner path => s!"{owner} is not in the inheritance chain of {path}"
  | callableChanged path key =>
    s!"a method from parent must not become something else in child: {path}::{key.display}"
  | nestedReplaced path key kind =>
    s!"an object from parent must not become {kind.name} in child: {path}::{key.display}"
  | sharedKindChanged path name inherited declared =>
    s!"shared members of different types must not override each other: {path}::{name} ({inherited.name} -> {declared.name})"
  | mixinWithShared path mixin => s!"classes with 'Shared' can not be used as mixin: {path} <- {mixin}"
  | mixinWithHook hook path mixin =>
    "classes with `" ++ hook ++ s!"` hook can not be used as mixin: {path} <- {mixin}"
  | malformedPattern source => "malformed pattern " ++ Text.quoted source
  | undefinedMember path name =>
    s!"please, replace undefined member values with null: {path}::{name}"
  | unsupportedMember kind path name =>
    s!"unsupported property type in source object: {kind.name} ({path}::{name})"
  | cyclicMember path name => s!"member contains itself: {path}::{name}"
  | sharedNotContainer path name kind =>
    s!"only objects and arrays can be made 'Shared': {path}::{name} is {kind.name}"
  | initNotFunction name kind path => s!"{name} must be a function, got {kind.name}: {path}"
  | hookNotFunction name path =>
    s!"{name} is not a function. If {name} is defined then it must be a function: {path}"
  | malformedPath path => s!"malformed class path: \"{path}\""
  | malformedOptions path => s!"malformed 'Class' property in {path}"
  | parentNotText path => s!"value of Extends directive must be a string: {path}"
  | namesNotTexts directive path =>
    s!"value of {directive} directive must be a string or a list of strings: {path}"
  | sharedNotInBody path name => s!"'Shared' member is not in class: {path}::{name}"
  | bodyNotObject kind => s!"class body must be an object, got {kind.name}"
  | sharedOverInstance path name =>
    s!"instance member from parent class may not become 'Shared' in descendant: {path}::{name}"
  | sharedHidden path name =>
    s!"'Shared' class member is hidden by member from instance: {path}::{name}"
  | abstractClass path => path
  | memberNotFunction path name kind => s!"{path}::{name} is {kind.name}"
  | memberMissing path name => s!"{path}::{name} is not defined"
  | notFunction kind => s!"{kind.name} is not a function"
  | raised text => text
  | indexOutOfRange index path entries =>
    s!"reference index {index} out of range in {path} ({entries} entries)"
  | callsTooDeep => "calls are nested too deep"

/-- The text shown to a reader. -/
def display (e : ClassError) : String := e.kind.display e.message

end ClassError

end ClassComposition
