import ClassComposition.Proofs.Class.Path
import ClassComposition.Registry.Namespace

/-!
# Publishing by segments, resolving by paths

A constructor is published at a list of segments, and found again by a dotted path.  The two agree because
a path and its segments stand for each other: what is published at the segments of a path is found by that
path, and no other path leads there.  This holds of all trees and of all paths below a node, also of those
that could not be the path of a class.

## Main results

* `Namespace.resolve_insert` — publishing at the segments of a path changes what is found by that path only.
* `Namespace.split_resolves` — how class paths are split, and that a class is found below its root by the
  rest of its path.
-/

namespace ClassComposition

namespace Namespace

/-- What is found by a path is what is published at its segments. -/
theorem bind_resolve (n : Namespace) (path : String) :
    (n.resolve path).bind constructor? = n.constructorAt? (ClassPath.segments path) := rfl

/-- Publishing at the segments of a path changes what is found by that path, and by no other one. -/
theorem resolve_insert (n : Namespace) (path other : String) (k : Constructor) :
    ((n.insert (ClassPath.segments path) k).resolve other).bind constructor? =
      if path = other then some k else (n.resolve other).bind constructor? := by
  rw [bind_resolve, bind_resolve, constructorAt?_insert]
  by_cases hpath : path = other
  · rw [if_pos hpath, if_pos (congrArg ClassPath.segments hpath)]
  · rw [if_neg hpath, if_neg fun hsegments => hpath (ClassPath.segments_injective hsegments)]

/-- What is below the root of a class path is the list of segments of a path. -/
theorem tail_eq_segments {path : String} {parts : List String} (h : ClassPath.split path = .ok parts) :
    parts.tail = ClassPath.segments (".".intercalate parts.tail) := by
  obtain ⟨hlength, hparts, -⟩ := ClassPath.split_eq_ok_iff.mp h
  have hne : parts.tail ≠ [] := by
    apply List.ne_nil_of_length_pos
    rw [List.length_tail]
    omega
  exact (ClassPath.segments_intercalate hne fun s hs => (hparts s (List.mem_of_mem_tail hs)).2).symm

/-- A path is split exactly into the two or more texts that are neither empty nor have separators and join
to it.  It is malformed if it is empty or has an empty segment, and lacks a namespace if it is not empty and
has no separator.  A path that is split has its short name as its last segment, and in whatever tree a
constructor is published at the other ones below the root, it is found there by these joined, while all
other paths find what they found before. -/
theorem split_resolves (path : String) :
    (∀ parts, ClassPath.split path = .ok parts ↔
      2 ≤ parts.length ∧ (∀ s ∈ parts, s ≠ "" ∧ ClassPath.separator ∉ s.toList) ∧
        ".".intercalate parts = path) ∧
    ((∃ e, ClassPath.split path = .error e ∧ e.kind = .invalidDirective) ↔
      path = "" ∨ ClassPath.IsSegment "" path) ∧
    ((∃ e, ClassPath.split path = .error e ∧ e.kind = .missingDependency) ↔
      path ≠ "" ∧ ClassPath.separator ∉ path.toList) ∧
    ∀ parts, ClassPath.split path = .ok parts →
      parts.getLast? = some (ClassPath.shortName path) ∧
      ∀ (n : Namespace) (k : Constructor),
        ((n.insert parts.tail k).resolve (".".intercalate parts.tail)).bind constructor? = some k ∧
        ∀ other, other ≠ ".".intercalate parts.tail →
          ((n.insert parts.tail k).resolve other).bind constructor?
            = (n.resolve other).bind constructor? := by
  refine ⟨fun _ => ClassPath.split_eq_ok_iff, ?_, ClassPath.split_missingDependency_iff, ?_⟩
  · rw [ClassPath.split_invalidDirective_iff, ClassPath.mem_segments_iff]
    refine ⟨.inr, ?_⟩
    rintro (rfl | hempty)
    · exact ClassPath.mem_segments_iff.mp List.mem_cons_self
    · exact hempty
  · intro parts hsplit
    constructor
    · rw [(ClassPath.split_eq_ok hsplit).1]
      exact ClassPath.getLast?_segments path
    · intro n k
      -- from here on the tree is told by paths
      have hfound := fun other => resolve_insert n (".".intercalate parts.tail) other k
      rw [← tail_eq_segments hsplit] at hfound
      refine ⟨?_, fun other hother => ?_⟩
      · rw [hfound, if_pos rfl]
      · rw [hfound, if_neg (Ne.symm hother)]

end Namespace

/-! ### A sample

A button is published beside an input field. -/

namespace Sample

def button : Constructor := ⟨"Ns.widget.Button", 1, .abstract⟩

def input : Constructor := ⟨"Ns.widget.Input", 0, .abstract⟩

/-- A root with the input field in an inner namespace. -/
def widgets : Namespace := Namespace.empty.insert ["widget", "Input"] input

end Sample

namespace Namespace

/-- In the sample the button is found by its path below the root, and so is the input field still. -/
theorem split_resolves_widget :
    ClassPath.split "Ns.widget.Button" = .ok ["Ns", "widget", "Button"] ∧
    ClassPath.shortName "Ns.widget.Button" = "Button" ∧
    ((Sample.widgets.insert ["widget", "Button"] Sample.button).resolve "widget.Button").bind constructor?
      = some Sample.button ∧
    "widget.Input" ≠ "widget.Button" ∧
    ((Sample.widgets.insert ["widget", "Button"] Sample.button).resolve "widget.Input").bind constructor?
      = some Sample.input := by
  obtain ⟨hsplits, -, -, hresolves⟩ := split_resolves "Ns.widget.Button"
  have hsplit := (hsplits ["Ns", "widget", "Button"]).mpr ⟨by decide, by decide, by decide⟩
  obtain ⟨hname, htrees⟩ := hresolves _ hsplit
  obtain ⟨hbutton, hothers⟩ := htrees Sample.widgets Sample.button
  refine ⟨hsplit, (Option.some.inj hname).symm, hbutton, by decide, ?_⟩
  exact hothers "widget.Input" (by decide)

end Namespace

end ClassComposition
