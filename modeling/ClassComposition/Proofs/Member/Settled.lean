import ClassComposition.Proofs.Class.Tree
import ClassComposition.Proofs.Member.Alike
import ClassComposition.Proofs.Store.Contents

/-!
# Members with their arrays read out

Whether an array of simple values is kept as a literal or copied from the table shows in a descriptor, and
in all indices behind it.  It does not show once every array is read out: then classification gives a tree
that follows from the contents of the body alone, and it fails only for contents that cannot be stored.

## Main definitions

* `Resolved.settle`, `ReferenceTable.settled` — leaves with the elements of copied arrays in place of them.
* `Store.exact` — a value with its elements.
* `Contents.isStorable` — contents that can be classified.
* `Contents.tree` — the tree that they are classified to.

## Main results

* `Classifying.isOk_memberAt` — classification succeeds exactly for contents that can be stored.
* `Classified.tree_eq`, `ClassifiedMembers.forest_eq` — what is classified has the tree of its contents.
* `Classifying.skeleton_alike` — two classifications of the same contents read alike.
-/

namespace ClassComposition

open MemberDescriptor

/-! ### Reading arrays out -/

namespace Resolved

/-- An array that is copied stands for the elements that it has in a store. -/
def settle (s : Store) : Resolved → Resolved
  | arrayCopy entry => inlineArray ((entry.map s.elements).getD [])
  | r => r

/-- Whether a leaf stands for a method. -/
def isFunction : Resolved → Bool
  | function _ => true
  | _ => false

/-- Whether a leaf stands for the placeholder. -/
def isNull : Resolved → Bool
  | literal .null => true
  | _ => false

end Resolved

namespace ReferenceTable

variable {s s' : Store} {t u : ReferenceTable} {d : MemberDescriptor}

/-- What a leaf stands for over a table, arrays being read out of a store. -/
def settled (t : ReferenceTable) (s : Store) (d : MemberDescriptor) : Resolved := (t.read d).settle s

theorem isFunction_settled (t : ReferenceTable) (s : Store) (d : MemberDescriptor) :
    (t.settled s d).isFunction = d.isCallable := by
  cases d <;> rfl

theorem isNull_settled (t : ReferenceTable) (s : Store) (d : MemberDescriptor) :
    (t.settled s d).isNull = d.isPlaceholder := by
  cases d with
  | literal v => cases v <;> rfl
  | _ => rfl

/-- Methods and placeholders are told apart also when arrays are read out. -/
theorem telling_settled (t u : ReferenceTable) (s s' : Store) :
    Telling (t.settled s) (u.settled s') := by
  intro d d' h
  rw [← isFunction_settled t s d, ← isNull_settled t s d, h, isFunction_settled, isNull_settled]
  exact ⟨rfl, rfl⟩

/-- What points into a table stands for the same over a table that has grown. -/
theorem IsPrefix.settled_eq (h : t.IsPrefix u) (s : Store) (d : MemberDescriptor)
    (hd : d.PointsInto t) : t.settled s d = u.settled s d := congrArg (·.settle s) (h.read_eq d hd)

theorem settled_shiftDeep (t u : ReferenceTable) (s : Store) (d : MemberDescriptor)
    (hleaf : d.members? = none) : (t.append u).2.settled s (shiftDeep t.size d) = u.settled s d :=
  congrArg (·.settle s) (read_shiftDeep t u d hleaf)

/-- The arrays of a table have the same elements in both stores. -/
def KeepsArrays (t : ReferenceTable) (s s' : Store) : Prop :=
  ∀ i a, t.get? i = some (.array a) → s'.array a = s.array a

/-- A leaf stands for the same as long as the arrays of its table keep their elements. -/
theorem KeepsArrays.settled_eq (h : t.KeepsArrays s s') (d : MemberDescriptor) (hd : d.PointsInto t) :
    t.settled s' d = t.settled s d := by
  cases d with
  | arrayCopy i =>
    obtain ⟨a, ha⟩ := hd
    show Resolved.inlineArray _ = Resolved.inlineArray _
    rw [ha]
    exact congrArg Resolved.inlineArray (h i a ha)
  | _ => rfl

end ReferenceTable

/-! ### The tree of contents -/

/-- A value together with its elements, if it is an array. -/
def Store.exact (s : Store) (v : Value) : Value × List Value := (v, s.elements v)

/-- Whether a value that is no object can be a member. -/
def Value.isStorable : Value → Bool
  | .undefined | .inst _ | .big _ => false
  | _ => true

/-- What a member that is no object stands for once arrays are read out. -/
def Resolved.ofLeaf : Value × List Value → Resolved
  | (.array _, []) => .emptyArray
  | (.array _, items) => .inlineArray items
  | (.function f, _) => .function (some (.function f))
  | (.pattern p, _) => .pattern (some (.pattern p))
  | (.text x, _) => .text x
  | (v, _) => .literal v

namespace Contents

mutual

/-- Whether contents can be members: all that is no object can. -/
def isStorable : Contents (Value × List Value) → Bool
  | leaf a => a.1.isStorable
  | object properties => isStorableAll properties
termination_by structural c => c

/-- Whether all contents under keys can be members. -/
def isStorableAll : List (String × Contents (Value × List Value)) → Bool
  | [] => true
  | (_, c) :: rest => isStorable c && isStorableAll rest
termination_by structural properties => properties

end

mutual

/-- The tree that contents are classified to. -/
def tree : Contents (Value × List Value) → Tree Resolved
  | leaf a => .leaf (.ofLeaf a)
  | object properties => .object (Assoc.ofList (trees properties))
termination_by structural c => c

/-- The trees that contents under keys are classified to, under the parsed keys. -/
def trees : List (String × Contents (Value × List Value)) → List (MemberKey × Tree Resolved)
  | [] => []
  | (key, c) :: rest => (MemberKey.parse key, tree c) :: trees rest
termination_by structural properties => properties

end

end Contents

/-! ### Classification of contents -/

section Classification

variable {s : Store} {inlineSimple : Bool} {among : Handle .object → Prop}

mutual

/-- A classified value has the tree of its contents. -/
theorem Classified.tree_eq {v : Value} {t u : ReferenceTable} {d : MemberDescriptor}
    {c : Contents (Value × List Value)} (hc : s.Shows among s.exact v c) :
    Classified s inlineSimple v t d u → d.tree (u.settled s) = c.tree
  | .literal h _ => by
    have hleaf : v.kind ≠ .object := by
      intro heq
      simp [heq] at h
    rw [hc.eq_leaf hleaf, tree_leaf _ rfl]
    cases v with
    | null | boolean b | number x => rfl
    | _ => simp [Value.kind] at h
  | .text x _ => by
    rw [hc.eq_leaf (by simp [Value.kind]), tree_leaf _ rfl]
    rfl
  | .function f t => by
    have hentry : (t.push (.function f)).2.get? t.size = some (.function f) := t.get?_push_size _
    -- the leaf names the entry just pushed, so reading it back gives the value itself
    rw [hc.eq_leaf (by simp [Value.kind]), tree_leaf _ rfl, ReferenceTable.settled,
      ReferenceTable.read, hentry]
    rfl
  | .pattern p t => by
    have hentry : (t.push (.pattern p)).2.get? t.size = some (.pattern p) := t.get?_push_size _
    rw [hc.eq_leaf (by simp [Value.kind]), tree_leaf _ rfl, ReferenceTable.settled,
      ReferenceTable.read, hentry]
    rfl
  | .emptyArray (a := a) h _ => by
    have hread : s.exact (.array a) = (.array a, []) := Prod.ext rfl h
    rw [hc.eq_leaf (by simp [Value.kind]), tree_leaf _ rfl, hread]
    rfl
  | .inlineArray (a := a) h inlined _ => by
    have hread : s.exact (.array a) = (.array a, s.array a) := rfl
    rw [hc.eq_leaf (by simp [Value.kind]), tree_leaf _ rfl, hread, Contents.tree]
    rcases hitems : s.array a with _ | ⟨first, others⟩
    · exact absurd hitems h
    · rfl
  | .arrayCopy (a := a) h kept t => by
    have hentry : (t.push (.array a)).2.get? t.size = some (.array a) := t.get?_push_size _
    have hread : s.exact (.array a) = (.array a, s.array a) := rfl
    have hsettled : (t.push (.array a)).2.settled s (.arrayCopy t.size)
        = .inlineArray (s.array a) := by
      rw [ReferenceTable.settled, ReferenceTable.read, hentry]
      rfl
    rw [hc.eq_leaf (by simp [Value.kind]), tree_leaf _ rfl, hread, hsettled, Contents.tree]
    rcases hitems : s.array a with _ | ⟨first, others⟩
    · exact absurd hitems h
    · rfl
  | .object h => by
    -- the members of an object were merged into an empty skeleton, which has no leaf to override
    obtain ⟨properties, rfl, -, hproperties⟩ := hc.exists_properties
    rw [Skeleton.tree_nested, h.forest_eq hproperties Skeleton.allLeaves_nil]
    rfl

/-- Classified members are those that there were, with the trees of their contents written in turn. -/
theorem ClassifiedMembers.forest_eq {entries : Assoc String Value} {ms result : Skeleton}
    {t u : ReferenceTable} {cs : List (String × Contents (Value × List Value))}
    (hcs : s.ShowsAll among s.exact entries cs) :
    ClassifiedMembers s inlineSimple entries ms t result u →
      Skeleton.AllLeaves (PointsInto t) ms →
      result.forest (u.settled s) =
        (Contents.trees cs).foldl (fun forest p => Assoc.insert forest p.1 p.2)
          (ms.forest (t.settled s))
  | .nil _ _, _ => by
    cases hcs
    rfl
  | .cons first others, hms => by
    cases hcs with
    | cons hfirst hrest =>
      -- what was classified before stands for the same over the longer table
      have hgrown := Skeleton.allLeaves_of_isPrefix first.isPrefix hms
      have hbefore := Skeleton.forest_congr (first.isPrefix.settled_eq s) hms
      rw [others.forest_eq hrest (Skeleton.allLeaves_insert hgrown _ first.allLeaves),
        Skeleton.forest_insert, ← hbefore, first.tree_eq hfirst]
      rfl

end

/-! ### When classification succeeds -/

namespace Classifying

variable {path : String}

theorem run_bind {α β : Type} (c : Classifying α) (f : α → Classifying β) (t : ReferenceTable) :
    run (c >>= f) t =
      match run c t with
      | (.ok a, u) => run (f a) u
      | (.error e, u) => (.error e, u) := by
  show (c >>= f) t = _
  rw [stateful_bind]
  rcases hrun : run c t with ⟨e | a, u⟩
  · rw [show c t = (.error e, u) from hrun]
  · rw [show c t = (.ok a, u) from hrun]
    rfl

/-- Where each entry is classified exactly if its contents can be stored, so are all of them. -/
theorem isOk_members {classify : String → Value → Classifying MemberDescriptor}
    {entries : Assoc String Value} {cs : List (String × Contents (Value × List Value))} {n : Nat}
    (member : ∀ p ∈ entries, ∀ {c}, s.Shows among s.exact p.2 c → c.depth ≤ n → ∀ t,
      (run (classify p.1 p.2) t).1.isOk = c.isStorable)
    (hcs : s.ShowsAll among s.exact entries cs) (hdepth : Contents.depthAll cs ≤ n) (ms : Skeleton)
    (t : ReferenceTable) : (run (members classify entries ms) t).1.isOk = Contents.isStorableAll cs := by
  induction entries generalizing cs ms t with
  | nil =>
    cases hcs
    rfl
  | cons p rest ih =>
    obtain ⟨name, v⟩ := p
    cases hcs with
    | @cons _ _ _ c others first below =>
      rw [Contents.depthAll] at hdepth
      rw [List.forall_mem_cons] at member
      have hfirst := member.1 first (by omega) t
      rw [members, run_bind, Contents.isStorableAll, ← hfirst]
      rcases hrun : run (classify name v) t with ⟨e | d, u⟩
      · rfl
      · exact ih member.2 below (by omega) _ u

/-- A value whose contents are not deeper than classification goes is classified exactly if they can be
stored. -/
theorem isOk_memberAt {fuel : Nat} {name : String} {v : Value} {c : Contents (Value × List Value)}
    (hc : s.Shows among s.exact v c) (hdepth : c.depth ≤ fuel) (t : ReferenceTable) :
    (run (memberAt s inlineSimple path fuel name v) t).1.isOk = c.isStorable := by
  induction fuel using Nat.strongRecOn generalizing name v c t with
  | ind fuel ih =>
    cases v with
    | object o =>
      obtain ⟨properties, rfl, -, hproperties⟩ := hc.exists_properties
      rw [Contents.depth] at hdepth
      -- contents of an object are at least one deep, so some fuel is left for what it holds
      obtain ⟨below, rfl⟩ : ∃ below, fuel = below + 1 := ⟨fuel - 1, by omega⟩
      have hmembers : (run (members (memberAt s inlineSimple path below) (s.object o) []) t).1.isOk
          = Contents.isStorableAll properties :=
        isOk_members (fun _ _ _ hc hdepth t => ih below (Nat.lt_succ_self below) hc hdepth t)
          hproperties (by omega) [] t
      rw [Contents.isStorable, ← hmembers, memberAt, run_bind]
      rcases hrun : run (members (memberAt s inlineSimple path below) (s.object o) []) t
        with ⟨e | ms, u⟩
      · rfl
      · rfl
    | array a =>
      rw [hc.eq_leaf (by simp [Value.kind]), memberAt]
      split
      · rfl
      · split <;> rfl
    | _ =>
      rw [hc.eq_leaf (by simp [Value.kind]), memberAt]
      rfl

/-- Where entries are refused for one kind of reason only, so are all of them. -/
theorem kind_of_members {classify : String → Value → Classifying MemberDescriptor}
    (member : ∀ {name v t e u}, run (classify name v) t = (.error e, u) → e.kind = .invalidMember)
    {entries : Assoc String Value} {ms : Skeleton} {t u : ReferenceTable} {e : ClassError}
    (h : run (members classify entries ms) t = (.error e, u)) : e.kind = .invalidMember := by
  induction entries generalizing ms t with
  | nil => cases h
  | cons p rest ih =>
    obtain ⟨name, v⟩ := p
    rw [members, run_bind] at h
    rcases hfirst : run (classify name v) t with ⟨e' | d, t₁⟩
    · rw [hfirst] at h
      cases h
      exact member hfirst
    · rw [hfirst] at h
      exact ih h

/-- All values that are refused are invalid as members. -/
theorem kind_of_memberAt {fuel : Nat} {name : String} {v : Value} {t u : ReferenceTable} {e : ClassError}
    (h : run (memberAt s inlineSimple path fuel name v) t = (.error e, u)) :
    e.kind = .invalidMember := by
  induction fuel using Nat.strongRecOn generalizing name v t u e with
  | ind fuel ih =>
    unfold memberAt at h
    cases v with
    | object o =>
      cases fuel with
      | zero =>
        -- too deep for the fuel is reported as the invalid member it is
        cases h
        rfl
      | succ fuel =>
        dsimp only at h
        rw [run_bind] at h
        rcases hmembers : run (members (memberAt s inlineSimple path fuel) (s.object o) []) t
          with ⟨e' | ms, t₁⟩
        · rw [hmembers] at h
          cases h
          exact kind_of_members (ih fuel (Nat.lt_succ_self fuel)) hmembers
        · rw [hmembers] at h
          cases h
    | array a =>
      dsimp only at h
      split at h
      · cases h
      · split at h <;> cases h
    | undefined | inst i | big n =>
      cases h
      rfl
    | _ => cases h

variable (path inlineSimple) in
/-- Two classifications of the same contents, arrays being kept as literals in one and not in the other,
come to the same outcome, and what they give reads alike once arrays are read out. -/
theorem skeleton_alike (inlineSimple' : Bool) {s' : Store} {among' : Handle .object → Prop}
    {b : ClassBody} {shared : List String} {cs : List (String × Contents (Value × List Value))}
    (hcs : s.ShowsAll among s.exact (b.memberEntries shared) cs)
    (hcs' : s'.ShowsAll among' s'.exact (b.memberEntries shared) cs)
    (hdepth : Contents.depthAll cs ≤ s.nesting) (hdepth' : Contents.depthAll cs ≤ s'.nesting)
    (t t' : ReferenceTable) :
    SameOutcome
      (fun ms ms' =>
        ms.forest ((run (skeleton s inlineSimple path b shared) t).2.settled s) =
          ms'.forest ((run (skeleton s' inlineSimple' path b shared) t').2.settled s'))
      (run (skeleton s inlineSimple path b shared) t).1
      (run (skeleton s' inlineSimple' path b shared) t').1 := by
  -- both runs succeed exactly when the contents are storable, and the contents are the same
  have hok : (run (skeleton s inlineSimple path b shared) t).1.isOk = Contents.isStorableAll cs :=
    isOk_members (fun _ _ _ hc hdepth t => isOk_memberAt hc hdepth t) hcs hdepth [] t
  have hok' : (run (skeleton s' inlineSimple' path b shared) t').1.isOk = Contents.isStorableAll cs :=
    isOk_members (fun _ _ _ hc hdepth t => isOk_memberAt hc hdepth t) hcs' hdepth' [] t'
  rcases hrun : run (skeleton s inlineSimple path b shared) t with ⟨e | ms, u⟩
  · rcases hrun' : run (skeleton s' inlineSimple' path b shared) t' with ⟨e' | ms', u'⟩
    · have hkind : e.kind = .invalidMember := kind_of_members kind_of_memberAt hrun
      have hkind' : e'.kind = .invalidMember := kind_of_members kind_of_memberAt hrun'
      exact .error (hkind.trans hkind'.symm)
    · rw [hrun] at hok
      rw [hrun', ← hok] at hok'
      cases hok'
  · rcases hrun' : run (skeleton s' inlineSimple' path b shared) t' with ⟨e' | ms', u'⟩
    · rw [hrun] at hok
      rw [hrun', ← hok] at hok'
      cases hok'
    · have hforest := (classifiedMembers_of_skeleton hrun).forest_eq hcs Skeleton.allLeaves_nil
      have hforest' := (classifiedMembers_of_skeleton hrun').forest_eq hcs' Skeleton.allLeaves_nil
      exact .ok (hforest.trans hforest'.symm)

end Classifying

end Classification

end ClassComposition
