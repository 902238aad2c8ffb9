/-!
# Options of a registry

## Main definitions

* `Config` — how class bodies are compiled.
* `Config.standard` — the options that hold unless others are given.
-/

namespace ClassComposition

/-- How class bodies are compiled. -/
structure Config where
  /-- Keep arrays of simple values as literals, and not in the reference table. -/
  inlineSimpleArrays : Bool
  /-- The method that a new instance is initialised with. -/
  initMember : String
  /-- The method that is called last when an instance is made. -/
  afterInitMember : String
  deriving DecidableEq, Repr

namespace Config

/-- The options that hold unless others are given. -/
def standard : Config where
  inlineSimpleArrays := true
  initMember := "init"
  afterInitMember := "_afterInit"

instance : Inhabited Config := ⟨standard⟩

end Config

end ClassComposition
