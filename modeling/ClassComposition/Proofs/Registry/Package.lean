import ClassComposition.Proofs.Registry.Agreement
import ClassComposition.Proofs.Registry.Lineage

/-!
# Looking packages up

A package is looked up from a class: a constructor is searched at the path of the class followed by a
suffix, and then at the paths of its ancestors up to the root.  The search walks the lineage that is kept
with the class and never asks for a parent.  That it follows inheritance all the same is because the
lineage is the parent's with the class behind it, in every reachable registry.

## Main results

* `Registry.Reachable.packageConstructor?_of_class` — the search at a class goes on above it.
* `Registry.Reachable.packageConstructor?_eq_parent` — what is not found at a class is searched from its
  parent.
* `Registry.Reachable.packages_inherited` — what is found, and when the search fails.
-/

namespace ClassComposition

namespace Registry

variable {config : Config} {r : Registry} {path suffix : String} {c : ClassDefinition} {k : Constructor}

theorem packageConstructor?_of_no_class (h : r.definition? path = none) (suffix : String) :
    r.packageConstructor? path suffix = .error (.unknownBase path) := by
  rw [packageConstructor?, h]

/-- The search at a class finds what is registered below its own path, or else goes on along the lineage
of its parent. -/
theorem Reachable.packageConstructor?_of_class (hr : r.Reachable config)
    (hc : r.definition? path = some c) (suffix : String) :
    r.packageConstructor? path suffix =
      .ok ((Assoc.get? r.constructors (path ++ suffix)).or
        ((((r.parentClass? c).map ClassDefinition.lineage).getD []).reverse.findSome?
          fun above => Assoc.get? r.constructors (above ++ suffix))) := by
  rw [packageConstructor?, hc]
  dsimp only
  rw [hr.lineage_eq hc, List.reverse_append, List.reverse_singleton, List.singleton_append,
    List.findSome?_cons]
  cases Assoc.get? r.constructors (path ++ suffix) <;> rfl

/-- What is not found at a class that has no parent is not found. -/
theorem Reachable.packageConstructor?_of_root (hr : r.Reachable config)
    (hc : r.definition? path = some c) (hmissing : Assoc.get? r.constructors (path ++ suffix) = none)
    (hroot : c.parent? = none) : r.packageConstructor? path suffix = .ok none := by
  have hparent : r.parentClass? c = none := by rw [parentClass?, hroot, Option.bind_none]
  rw [hr.packageConstructor?_of_class hc, hmissing, hparent]
  rfl

/-- What is not found at a class that has a parent is searched from there. -/
theorem Reachable.packageConstructor?_eq_parent (hr : r.Reachable config)
    (hc : r.definition? path = some c) (hmissing : Assoc.get? r.constructors (path ++ suffix) = none)
    {parentPath : String} (hextended : c.parent? = some parentPath) :
    r.packageConstructor? path suffix = r.packageConstructor? parentPath suffix := by
  obtain ⟨parent, hparent, hfound⟩ := hr.exists_parentClass hc hextended
  rw [hr.packageConstructor?_of_class hc, hmissing, hparent, packageConstructor?, hfound]
  rfl

/-- Packages are inherited.  From a class the search succeeds: it finds the constructor at the path of the
class followed by the suffix if there is one, and otherwise what is found from the parent, which is nothing
if there is none.  It fails exactly where no class is defined, as at a path that has only a constructor
from outside, and the error is that of a missing dependency. -/
theorem Reachable.packages_inherited (hr : r.Reachable config) :
    (∀ path c suffix, r.definition? path = some c →
      ∃ found?, r.packageConstructor? path suffix = .ok found? ∧
        (∀ k, r.constructor? (path ++ suffix) none = some k → found? = some k) ∧
        (r.constructor? (path ++ suffix) none = none →
          (c.parent? = none → found? = none) ∧
          ∀ parentPath, c.parent? = some parentPath →
            r.packageConstructor? parentPath suffix = .ok found?)) ∧
    (∀ path suffix, (∃ e, r.packageConstructor? path suffix = .error e) ↔ r.hasClass path = false) ∧
    (∀ path suffix e, r.packageConstructor? path suffix = .error e →
      e = .unknownBase path ∧ e.kind = .missingDependency) ∧
    ∀ path suffix, r.Outside path → r.packageConstructor? path suffix = .error (.unknownBase path) := by
  have hclass : ∀ {path c}, r.definition? path = some c → ∀ suffix,
      ∃ found?, r.packageConstructor? path suffix = .ok found? :=
    fun hc suffix => ⟨_, hr.packageConstructor?_of_class hc suffix⟩
  -- without a namespace the lookup is the one in the table of constructors
  have hregistered : ∀ path, r.constructor? path none = Assoc.get? r.constructors path := by
    intro path
    unfold constructor?
    cases Assoc.get? r.constructors path <;> rfl
  refine ⟨?_, ?_, ?_, ?_⟩
  · intro path c suffix hc
    obtain ⟨found?, hfound⟩ := hclass hc suffix
    rw [hregistered]
    refine ⟨found?, hfound, fun k hk => ?_, fun hmissing => ⟨fun hroot => ?_, fun parentPath hextended => ?_⟩⟩
    · rw [hr.packageConstructor?_of_class hc, hk] at hfound
      exact (Except.ok.inj hfound).symm
    · rw [hr.packageConstructor?_of_root hc hmissing hroot] at hfound
      exact (Except.ok.inj hfound).symm
    · rw [← hr.packageConstructor?_eq_parent hc hmissing hextended]
      exact hfound
  · intro path suffix
    rw [hasClass, Assoc.contains, Option.isSome_eq_false_iff, Option.isNone_iff_eq_none]
    constructor
    · rintro ⟨e, he⟩
      rcases hc : r.definition? path with _ | c
      · exact hc
      · obtain ⟨found?, hfound⟩ := hclass hc suffix
        rw [hfound] at he
        cases he
    · exact fun hnone => ⟨_, packageConstructor?_of_no_class hnone suffix⟩
  · intro path suffix e he
    rcases hc : r.definition? path with _ | c
    · rw [packageConstructor?_of_no_class hc] at he
      cases he
      exact ⟨rfl, rfl⟩
    · obtain ⟨found?, hfound⟩ := hclass hc suffix
      rw [hfound] at he
      cases he
  · exact fun path suffix houtside => packageConstructor?_of_no_class houtside.no_class suffix

end Registry

namespace Sample

/-- A constructor made elsewhere. -/
def editor : Constructor := ⟨"Ns.Base.Editor", 3, .external ⟨0⟩ []⟩

/-- The registry with that constructor at a path below the parent's. -/
def packages : Registry := registry.perform world (.addConstructor "Ns.Base.Editor" editor)

end Sample

namespace Registry

/-- The constructor below the parent is found from the class, which has none of its own; another suffix
leads nowhere, and from the path of that constructor nothing can be looked up. -/
theorem Reachable.packages_inherited_leaf :
    Sample.packages.packageConstructor? "Ns.Leaf" ".Editor" = .ok (some Sample.editor) ∧
      Sample.packages.packageConstructor? "Ns.Leaf" ".Viewer" = .ok none ∧
      Sample.packages.packageConstructor? "Ns.Base.Editor" "" = .error (.unknownBase "Ns.Base.Editor") := by
  have hreachable : Sample.packages.Reachable .standard := Sample.reachable.perform _ _
  obtain ⟨hfollows, -, -, houtside⟩ := hreachable.packages_inherited
  have hbase : Sample.packages.definition? "Ns.Base" = some (Sample.definition "Ns.Base") := rfl
  have hleaf : Sample.packages.definition? "Ns.Leaf" = some (Sample.definition "Ns.Leaf") := rfl
  have hextended : (Sample.definition "Ns.Leaf").parent? = some "Ns.Base" := rfl
  refine ⟨?_, ?_, houtside "Ns.Base.Editor" "" ⟨Option.some_ne_none Sample.editor, rfl⟩⟩
  · obtain ⟨found?, hfound, -, habove⟩ := hfollows "Ns.Leaf" _ ".Editor" hleaf
    obtain ⟨above?, hparent, hregistered, -⟩ := hfollows "Ns.Base" _ ".Editor" hbase
    have hsame := (habove rfl).2 "Ns.Base" hextended
    rw [hregistered Sample.editor rfl, hsame] at hparent
    rw [hfound, Except.ok.inj hparent]
  · obtain ⟨found?, hfound, -, habove⟩ := hfollows "Ns.Leaf" _ ".Viewer" hleaf
    obtain ⟨above?, hparent, -, hroot⟩ := hfollows "Ns.Base" _ ".Viewer" hbase
    have hsame := (habove rfl).2 "Ns.Base" hextended
    rw [(hroot rfl).1 rfl, hsame] at hparent
    rw [hfound, Except.ok.inj hparent]

end Registry

end ClassComposition
