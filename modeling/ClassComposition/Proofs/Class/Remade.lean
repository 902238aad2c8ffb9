import ClassComposition.Proofs.Class.InstanceAlike
import ClassComposition.Proofs.Member.Refusal
import ClassComposition.Proofs.Registry.Atomicity

/-!
# What is classified is made again

A value that is classified gives a descriptor, and the initializer of that descriptor gives a value.  Between
the two the names of properties become keys and are written as texts again, and functions, patterns and
arrays become indices into a table and are looked up again.  Nothing is lost on the way: the value that is
made holds what the value that was classified holds.

## Main definitions

* `MemberDescriptor.indices` — the indices of a descriptor, depth first.

## Main results

* `Classified.indices_eq` — the indices are those of the entries that were added, in order and each once.
* `Store.Shows.contents_tree` — contents are those of the tree that they are classified to.
* `Classifying.member_result` — what becomes of a value, and of its classification.
-/

namespace ClassComposition

open MemberDescriptor

/-! ### Indices -/

namespace MemberDescriptor

mutual

/-- The indices of a descriptor, depth first. -/
def indices : MemberDescriptor → List Nat
  | nested ms => indicesIn ms
  | d => d.index?.toList
termination_by structural d => d

/-- The indices of members, from the first to the last. -/
def indicesIn : List (MemberKey × MemberDescriptor) → List Nat
  | [] => []
  | (_, d) :: rest => indices d ++ indicesIn rest
termination_by structural ms => ms

end

theorem indicesIn_snoc (ms : Skeleton) (key : MemberKey) (d : MemberDescriptor) :
    indicesIn (ms ++ [(key, d)]) = indicesIn ms ++ d.indices := by
  induction ms with
  | nil => simp [indicesIn]
  | cons p rest ih =>
    obtain ⟨k, first⟩ := p
    rw [List.cons_append, indicesIn, indicesIn, ih, List.append_assoc]

end MemberDescriptor

section Classification

variable {s : Store} {inlineSimple : Bool}

/-- The indices of the entries between a table and one that has grown further follow on one another. -/
theorem ReferenceTable.IsPrefix.range_append {t u r : ReferenceTable} (htu : t.IsPrefix u)
    (hur : u.IsPrefix r) :
    List.range' t.size (u.size - t.size) ++ List.range' u.size (r.size - u.size) =
      List.range' t.size (r.size - t.size) := by
  have hle : t.size ≤ u.size := htu.length_le
  have hle' : u.size ≤ r.size := hur.length_le
  have hjoined := @List.range'_append_1 t.size (u.size - t.size) (r.size - u.size)
  rw [Nat.add_sub_cancel' hle] at hjoined
  rw [hjoined]
  congr 1
  omega

mutual

/-- The indices of a classified value are those of the entries that it has added to the table. -/
theorem Classified.indices_eq (hs : s.WellFormed) {v : Value} {t u : ReferenceTable}
    {d : MemberDescriptor} :
    Classified s inlineSimple v t d u → d.indices = List.range' t.size (u.size - t.size)
  | .literal _ _ | .text _ _ | .emptyArray _ _ | .inlineArray _ _ _ => by simp [indices, index?]
  | .function _ _ | .pattern _ _ | .arrayCopy _ _ _ => by
    simp [indices, index?, ReferenceTable.push, ReferenceTable.size]
  | .object (o := o) h => by
    rw [indices, h.indicesIn_eq hs (hs.nodup_keys o) (by simp [Assoc.keys]), indicesIn, List.nil_append]

/-- Where names and keys are new, members add their indices behind those that are there. -/
theorem ClassifiedMembers.indicesIn_eq (hs : s.WellFormed) {entries : Assoc String Value}
    {ms result : Skeleton} {t u : ReferenceTable} (hnames : (Assoc.keys entries).Nodup)
    (hnew : ∀ name ∈ Assoc.keys entries, MemberKey.parse name ∉ Assoc.keys ms) :
    ClassifiedMembers s inlineSimple entries ms t result u →
      indicesIn result = indicesIn ms ++ List.range' t.size (u.size - t.size)
  | .nil _ _ => by simp
  | @ClassifiedMembers.cons _ _ name _ rest d _ _ _ _ _ first others => by
    obtain ⟨hfresh, hrest⟩ := List.nodup_cons.mp hnames
    obtain ⟨hname, hlater⟩ := List.forall_mem_cons.mp hnew
    have hwritten := Assoc.insert_of_notMem hname d
    have hothers := others.indicesIn_eq hs hrest fun other hother hmem => by
      rcases (Assoc.mem_keys_insert _ _ _ _).mp hmem with heq | hbefore
      · obtain rfl := MemberKey.parse_injective heq
        exact hfresh hother
      · exact hlater other hother hbefore
    rw [hothers, hwritten, indicesIn_snoc, first.indices_eq hs, List.append_assoc,
      first.isPrefix.range_append others.isPrefix]

end

end Classification

/-! ### Contents -/

/-- What is seen of a value with its elements: an array by these, and any other value as it is. -/
def Value.seenWith : Value × List Value → Value ⊕ List Value
  | (.array _, items) => .inr items
  | (v, _) => .inl v

theorem Value.seenWith_exact (s : Store) (v : Value) : Value.seenWith (s.exact v) = s.seen v := by
  cases v <;> rfl

theorem Resolved.seen_ofLeaf (a : Value × List Value) :
    (Resolved.ofLeaf a).seen = Value.seenWith a := by
  obtain ⟨v, items⟩ := a
  cases v with
  | array handle => cases items <;> rfl
  | _ => rfl

theorem Contents.keys_trees (cs : List (String × Contents (Value × List Value))) :
    Assoc.keys (Contents.trees cs) = (Assoc.keys cs).map MemberKey.parse := by
  induction cs with
  | nil => rfl
  | cons p rest ih =>
    obtain ⟨key, c⟩ := p
    exact congrArg (MemberKey.parse key :: ·) ih

namespace Store

variable {s : Store} {among : Handle .object → Prop}

mutual

/-- The tree that contents are classified to has these contents: the keys that were read from names are
written as these names again, and none of them falls together with another. -/
theorem Shows.contents_tree (hs : s.WellFormed) {v : Value} {c : Contents (Value × List Value)} :
    s.Shows among s.exact v c → c.tree.contents = c.map Value.seenWith
  | .leaf _ => by
    rw [Contents.tree, Tree.contents, Contents.map, Resolved.seen_ofLeaf]
  | @Shows.object _ _ _ _ o properties _ below => by
    have hnodup : (Assoc.keys (Contents.trees properties)).Nodup := by
      rw [Contents.keys_trees, below.keys_eq]
      exact (hs.nodup_keys o).map fun _ _ => MemberKey.parse_injective
    rw [Contents.tree, Assoc.ofList_of_nodup hnodup, Tree.contents, Contents.map,
      below.contentsAll_trees hs]

theorem ShowsAll.contentsAll_trees (hs : s.WellFormed) {entries : Assoc String Value}
    {cs : List (String × Contents (Value × List Value))} :
    s.ShowsAll among s.exact entries cs →
      Tree.contentsAll (Contents.trees cs) = Contents.mapAll Value.seenWith cs
  | .nil => rfl
  | .cons first below => by
    rw [Contents.trees, Tree.contentsAll, Contents.mapAll, MemberKey.display_parse,
      first.contents_tree hs, below.contentsAll_trees hs]

end

end Store

/-! ### Classifying and making -/

/-- What is classified and made again, at any later time, shows the same contents. -/
theorem Classified.exists_remade {s : Store} {inlineSimple : Bool} {v : Value} {t u : ReferenceTable}
    {d : MemberDescriptor} (h : Classified s inlineSimple v t d u) (path : String)
    (hs : s.WellFormed) (hv : s.Has v) (ht : t.HeldIn s) :
    ∃ i c, Initializer.ofDescriptor path u d = .ok i ∧ s.Shows s.objects.Has s.seen v c ∧
      ∀ s', s.Within s' →
        (i.run s').2.Shows (i.run s').2.objects.Has (i.run s').2.seen (i.run s').1 c := by
  have hheld := h.heldIn hs hv ht
  obtain ⟨i, hi⟩ := Initializer.exists_ofDescriptor path h.allLeaves
  obtain ⟨c, hc, -⟩ := h.exists_entries_eq
  have hcontents := (hc.map Value.seenWith).has hs hv
  rw [funext (Value.seenWith_exact s)] at hcontents
  refine ⟨i, c.map Value.seenWith, hi, hcontents, fun s' hwithin => ?_⟩
  have harrays : u.ArraysIn s' := hheld.arraysIn.of_within hwithin
  obtain ⟨hmade, -⟩ := Initializer.made_run h.allLeaves h.regular harrays hi
  -- the arrays of the table have kept their elements since the value was classified
  have htree : d.tree (u.settled s') = d.tree (u.settled s) :=
    tree_congr (hheld.keepsArrays hwithin).settled_eq h.allLeaves
  have hshows := hmade.shows
  rw [htree, h.tree_eq hc, hc.contents_tree hs] at hshows
  exact hshows

namespace Classifying

variable {s : Store} {v : Value}

/-- What becomes of a value whose objects do not lie below themselves, classified over a table of the same
store.  The entries of the table stay where they are.  There is a descriptor exactly if no value that is
reached through object properties is undefined, a big integer or an instance.  Its indices, depth first, are
those of the entries that were added, in order and each once, and the value that is made from it holds what
the classified one does: under the same keys in the same order the same data, the very same functions and
patterns, and arrays of the same elements.  Otherwise the error is that of the first of these values, depth
first. -/
theorem member_result (hs : s.WellFormed) (hv : s.Has v) (hacyclic : s.Acyclic v) (inlineSimple : Bool)
    (path name : String) {t : ReferenceTable} (ht : t.HeldIn s) :
    ∃ outcome u, run (member s inlineSimple path name v) t = (outcome, u) ∧ t.IsPrefix u ∧
      ((∃ d, outcome = .ok d) ↔ ∀ x, s.Below v x → x.isStorable = true) ∧
      (∀ d, outcome = .ok d → d.indices = List.range' t.size (u.size - t.size) ∧
        ∃ i c, Initializer.ofDescriptor path u d = .ok i ∧ s.Shows s.objects.Has s.seen v c ∧
          ∀ s', s.Within s' →
            (i.run s').2.Shows (i.run s').2.objects.Has (i.run s').2.seen (i.run s').1 c) ∧
      ∀ e, outcome = .error e → e.kind = .invalidMember ∧
        ∃ c before refusedName refused after, s.Shows s.objects.Has id v c ∧
          c.leaves name = before ++ (refusedName, refused) :: after ∧
          (∀ p ∈ before, p.2.isStorable = true) ∧ refused.refusal? path refusedName = some e := by
  obtain ⟨c, hc, hdepth⟩ := hacyclic.exists_shows hs hv id
  -- classification goes as deep as there are objects, and an acyclic value is no deeper
  have hlevels : c.depth ≤ s.nesting := by
    unfold Store.nesting
    omega
  have hprefix : t.IsPrefix (run (member s inlineSimple path name v) t).2 :=
    isPrefix_memberAt s.nesting name v t
  have hfailure : failure? (run (member s inlineSimple path name v) t).1 =
      (c.leaves name).findSome? fun p => p.2.refusal? path p.1 := failure?_memberAt hc hlevels t
  rcases hrun : run (member s inlineSimple path name v) t with ⟨outcome, u⟩
  rw [hrun] at hprefix hfailure
  refine ⟨outcome, u, rfl, hprefix, ?_, ?_, ?_⟩
  · -- there is a refusal in the contents exactly if some value that is reached cannot be stored
    have hnone : (∃ d, outcome = .ok d) ↔ failure? outcome = none := by
      cases outcome <;> simp [failure?]
    have hleaves := hc.forall_leaves (P := fun x => x.isStorable = true) name
    rw [hnone, hfailure, List.findSome?_eq_none_iff]
    simp only [Value.refusal?_eq_none_iff]
    rw [hleaves]
    refine forall₂_congr fun x _ => ⟨fun h => ?_, fun h _ => h⟩
    by_cases hkind : x.kind = .object
    · cases x <;> first | rfl | cases hkind
    · exact h hkind
  · rintro d rfl
    have hclassified := classified_of_memberAt hrun
    exact ⟨hclassified.indices_eq hs, hclassified.exists_remade path hs hv ht⟩
  · rintro e rfl
    rw [failure?_eq_some.mpr rfl] at hfailure
    -- the first refusal splits the leaves into those before it, which can all be stored, and the rest
    obtain ⟨before, ⟨refusedName, refused⟩, after, hsplit, hrefused, hbefore⟩ :=
      List.findSome?_eq_some_iff.mp hfailure.symm
    refine ⟨Value.kind_of_refusal? hrefused, c, before, refusedName, refused, after, hc, hsplit, ?_,
      hrefused⟩
    exact fun p hp => Value.refusal?_eq_none_iff.mp (hbefore p hp)

/-- The sample's object has an array, which goes behind the entry that the table has, and a null.  A copy
that is made from its descriptor holds the same array and the same null. -/
theorem member_result_options :
    run (member Sample.world.store true "Ns.Store" "options" (.object ⟨0⟩)) ⟨[.function ⟨2⟩]⟩ =
        (.ok (.nested [(.plain "list", .arrayCopy 1), (.plain "size", .literal .null)]),
          ⟨[.function ⟨2⟩, .array ⟨0⟩]⟩) ∧
      (∀ x, Sample.world.store.Below (.object ⟨0⟩) x → x.isStorable = true) ∧
      ∃ i c, Initializer.ofDescriptor "Ns.Store" ⟨[.function ⟨2⟩, .array ⟨0⟩]⟩
          (.nested [(.plain "list", .arrayCopy 1), (.plain "size", .literal .null)]) = .ok i ∧
        Sample.world.store.Shows Sample.world.store.objects.Has Sample.world.store.seen (.object ⟨0⟩)
          c ∧
        (i.run Sample.world.store).2.Shows (i.run Sample.world.store).2.objects.Has
          (i.run Sample.world.store).2.seen (i.run Sample.world.store).1 c := by
  have hgood : Sample.world.store.Has (.object ⟨0⟩) := Nat.zero_lt_succ 2
  have hheld : ReferenceTable.HeldIn ⟨[.function ⟨2⟩]⟩ Sample.world.store := by
    intro x hx
    obtain rfl := List.mem_singleton.mp hx
    exact Nat.lt_succ_self 2
  obtain ⟨outcome, u, hrun, -, hok, hmade, -⟩ := member_result Sample.world_wellFormed hgood
    Sample.world_acyclic true "Ns.Store" "options" hheld
  have hanswer : run (member Sample.world.store true "Ns.Store" "options" (.object ⟨0⟩))
      ⟨[.function ⟨2⟩]⟩ =
        (.ok (.nested [(.plain "list", .arrayCopy 1), (.plain "size", .literal .null)]),
          ⟨[.function ⟨2⟩, .array ⟨0⟩]⟩) := rfl
  rw [hanswer] at hrun
  cases hrun
  obtain ⟨-, i, c, hi, hc, hshows⟩ := hmade _ rfl
  exact ⟨hanswer, hok.mp ⟨_, rfl⟩, i, c, hi, hc, hshows _ (.refl _)⟩

end Classifying

end ClassComposition
