import ClassComposition.Proofs.Member.Conflict
import ClassComposition.Proofs.Member.Rereading

/-!
# Members that are refused

Classification goes into an object before it goes on to the next member, and it stops at the first value
that may not be a member.  So its outcome is told by the values of a member that are no objects, taken
depth first: it fails with the error of the first that is refused, and answers if none is.  The entries
that it has written to the table by then stay there.

## Main definitions

* `Contents.leaves` — the values of contents that are no objects, depth first and under their names.
* `Value.refusal?` — why a value may not be a member.

## Main results

* `Store.Shows.forall_leaves` — these values are the ones reached through object properties.
* `Classifying.failure?_memberAt` — a classification reports the first refusal.
* `Classifying.isPrefix_memberAt` — it only adds to the table, whatever comes of it.
-/

namespace ClassComposition

variable {α : Type}

/-! ### Values that are no objects -/

namespace Contents

mutual

/-- The values of contents that are no objects, depth first, each with the name that it stands under. -/
def leaves (name : String) : Contents α → List (String × α)
  | leaf a => [(name, a)]
  | object properties => leavesAll properties
termination_by structural c => c

/-- The values of contents under keys, from the first key to the last. -/
def leavesAll : List (String × Contents α) → List (String × α)
  | [] => []
  | (key, c) :: rest => leaves key c ++ leavesAll rest
termination_by structural properties => properties

end

end Contents

namespace Store

variable {s : Store} {among : Handle .object → Prop} {P : Value → Prop}

mutual

/-- The values of contents that are no objects are those that are reached through object properties. -/
theorem Shows.forall_leaves {v : Value} {c : Contents Value} (name : String) :
    s.Shows among id v c →
      ((∀ p ∈ c.leaves name, P p.2) ↔ ∀ x, s.Below v x → x.kind ≠ .object → P x)
  | .leaf hleaf => by
    simp only [Contents.leaves, List.mem_singleton, forall_eq, id_eq]
    constructor
    · intro h x hx _
      cases hx with
      | refl => exact h
      | property => exact absurd rfl hleaf
    · intro h
      exact h v (.refl v) hleaf
  | .object (o := o) _ below => by
    rw [Contents.leaves, below.forall_leaves]
    constructor
    · intro h x hx hkind
      cases hx with
      | refl => exact absurd rfl hkind
      | property hp hbelow => exact h _ hp x hbelow hkind
    · intro h p hp x hx
      exact h x (.property hp hx)

theorem ShowsAll.forall_leaves {entries : Assoc String Value} {cs : List (String × Contents Value)} :
    s.ShowsAll among id entries cs →
      ((∀ p ∈ Contents.leavesAll cs, P p.2) ↔
        ∀ q ∈ entries, ∀ x, s.Below q.2 x → x.kind ≠ .object → P x)
  | .nil => by simp [Contents.leavesAll]
  | @ShowsAll.cons _ _ _ _ key _ _ _ _ first below => by
    rw [Contents.leavesAll, List.forall_mem_append, List.forall_mem_cons, first.forall_leaves key,
      below.forall_leaves]

end

end Store

/-! ### Refusals -/

/-- Why a value may not be a member of this name, if it may not. -/
def Value.refusal? (path name : String) (v : Value) : Option ClassError :=
  match v with
  | .undefined => some (.undefinedMember path name)
  | .inst _ | .big _ => some (.unsupportedMember v.kind path name)
  | _ => none

/-- Undefined values, big integers and instances are refused, and nothing else is. -/
theorem Value.refusal?_eq_none_iff {path name : String} {v : Value} :
    v.refusal? path name = none ↔ v.isStorable = true := by
  cases v <;> simp [refusal?, isStorable]

theorem Value.kind_of_refusal? {path name : String} {v : Value} {e : ClassError}
    (h : v.refusal? path name = some e) : e.kind = .invalidMember := by
  cases v <;> cases h <;> rfl

namespace Classifying

variable {s : Store} {inlineSimple : Bool} {path : String} {among : Handle .object → Prop}

/-- Where each entry reports the first refusal in it, so do all of them together. -/
theorem failure?_members {classify : String → Value → Classifying MemberDescriptor}
    {entries : Assoc String Value} {cs : List (String × Contents Value)} {n : Nat}
    (member : ∀ p ∈ entries, ∀ {c}, s.Shows among id p.2 c → c.depth ≤ n → ∀ t,
      failure? (run (classify p.1 p.2) t).1 =
        (c.leaves p.1).findSome? fun q => q.2.refusal? path q.1)
    (hcs : s.ShowsAll among id entries cs) (hdepth : Contents.depthAll cs ≤ n) (ms : Skeleton)
    (t : ReferenceTable) :
    failure? (run (members classify entries ms) t).1 =
      (Contents.leavesAll cs).findSome? fun q => q.2.refusal? path q.1 := by
  induction entries generalizing cs ms t with
  | nil =>
    cases hcs
    rfl
  | cons p rest ih =>
    obtain ⟨name, v⟩ := p
    cases hcs with
    | @cons _ _ _ c others first below =>
      rw [Contents.depthAll] at hdepth
      rw [List.forall_mem_cons] at member
      have hfirst := member.1 first (by omega) t
      rw [members, run_bind, Contents.leavesAll, List.findSome?_append, ← hfirst]
      rcases hrun : run (classify name v) t with ⟨e | d, u⟩
      · rfl
      · exact ih member.2 below (by omega) _ u

/-- A value whose contents are not deeper than classification goes is refused for the first of its values
that is. -/
theorem failure?_memberAt {fuel : Nat} {name : String} {v : Value} {c : Contents Value}
    (hc : s.Shows among id v c) (hdepth : c.depth ≤ fuel) (t : ReferenceTable) :
    failure? (run (memberAt s inlineSimple path fuel name v) t).1 =
      (c.leaves name).findSome? fun q => q.2.refusal? path q.1 := by
  induction fuel using Nat.strongRecOn generalizing name v c t with
  | ind fuel ih =>
    cases v with
    | object o =>
      obtain ⟨properties, rfl, -, hproperties⟩ := hc.exists_properties
      rw [Contents.depth] at hdepth
      -- the depth of the contents leaves room for the properties one level down
      obtain ⟨below, rfl⟩ : ∃ below, fuel = below + 1 := ⟨fuel - 1, by omega⟩
      have hmembers : failure? (run (members (memberAt s inlineSimple path below) (s.object o) []) t).1 =
          (Contents.leavesAll properties).findSome? fun q => q.2.refusal? path q.1 :=
        failure?_members (fun _ _ _ hc hdepth t => ih below (Nat.lt_succ_self below) hc hdepth t)
          hproperties (by omega) [] t
      rw [Contents.leaves, ← hmembers, memberAt, run_bind]
      rcases hrun : run (members (memberAt s inlineSimple path below) (s.object o) []) t
        with ⟨e | ms, u⟩
      · rfl
      · rfl
    | array a =>
      rw [hc.eq_leaf (by simp [Value.kind]), memberAt]
      split
      · rfl
      · split <;> rfl
    | _ =>
      rw [hc.eq_leaf (by simp [Value.kind]), memberAt]
      rfl

/-! ### The table -/

theorem isPrefix_members {classify : String → Value → Classifying MemberDescriptor}
    (member : ∀ name v (t : ReferenceTable), t.IsPrefix (run (classify name v) t).2)
    (entries : Assoc String Value) (ms : Skeleton) (t : ReferenceTable) : t.IsPrefix (run (members classify entries ms) t).2 := by
  induction entries generalizing ms t with
  | nil => exact .refl t
  | cons p rest ih =>
    obtain ⟨name, v⟩ := p
    have hfirst := member name v t
    rw [members, run_bind]
    rcases hrun : run (classify name v) t with ⟨e | d, u⟩
    · rw [hrun] at hfirst
      exact hfirst
    · rw [hrun] at hfirst
      exact hfirst.trans (ih _ u)

theorem isPrefix_memberAt (fuel : Nat) (name : String) (v : Value) (t : ReferenceTable) :
    t.IsPrefix (run (memberAt s inlineSimple path fuel name v) t).2 := by
  -- only an object goes deeper, and it spends one unit of fuel doing so
  induction fuel using Nat.strongRecOn generalizing name v t with
  | ind fuel ih =>
    cases v with
    | function f =>
      rw [memberAt]
      exact t.isPrefix_push (.function f)
    | pattern p =>
      rw [memberAt]
      exact t.isPrefix_push (.pattern p)
    | array a =>
      rw [memberAt]
      split
      · exact .refl t
      · split
        · exact .refl t
        · exact t.isPrefix_push (.array a)
    | object o =>
      cases fuel with
      | zero => exact .refl t
      | succ fuel =>
        have hmembers := isPrefix_members (ih fuel (Nat.lt_succ_self fuel)) (s.object o) [] t
        rw [memberAt, run_bind]
        rcases hrun : run (members (memberAt s inlineSimple path fuel) (s.object o) []) t
          with ⟨e | ms, u⟩
        · rw [hrun] at hmembers
          exact hmembers
        · rw [hrun] at hmembers
          exact hmembers
    | _ =>
      rw [memberAt]
      exact .refl t

end Classifying

end ClassComposition
