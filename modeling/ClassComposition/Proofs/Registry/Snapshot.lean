import ClassComposition.Proofs.Class.InstanceAlike
import ClassComposition.Proofs.Member.Rereading
import ClassComposition.Proofs.Registry.Matching
import ClassComposition.Proofs.Registry.Replay

/-!
# Members are taken down when a class is defined

A class keeps nothing of the objects in its body, and of the arrays only those that stand in its table.
So when properties of objects are set later, and elements are pushed to arrays that the table does not
hold, the class stays what it was: its members stand for the same, its instances begin with the same
fields, and whatever is defined later is compiled in the same way, as long as its own body is left alone.

## Main definitions

* `Store.Edited` — what setting properties and pushing elements leads to.

## Main results

* `Store.Edited.frame` — all else stays as it was.
* `Registry.Ready.matches_define` — a body that reads the same is compiled to the same class.
* `Registry.Reachable.snapshot` — what editing leaves alone.
-/

namespace ClassComposition

open ClassComposition.Action

/-! ### Editing -/

namespace Store

variable {sites : Value → Prop} {s t u : Store}

/-- What setting properties of some objects and pushing elements to some arrays leads to, while new things
may come into being. -/
inductive Edited (sites : Value → Prop) (s : Store) : Store → Prop
  | start : Edited sites s s
  | set {t : Store} {o : Handle .object} (before : Edited sites s t) (site : sites (.object o))
      (key : String) {value : Value} (hvalue : t.Has value) :
      Edited sites s (t.setProperty (.object o) key value)
  | push {t : Store} {a : Handle .array} (before : Edited sites s t) (site : sites (.array a))
      {value : Value} (hvalue : t.Has value) : Edited sites s (t.push (.array a) value)
  | grow {t u : Store} (before : Edited sites s t) (grown : t.Continues u) : Edited sites s u

/-- The second store is well formed and has what the first one has, and the objects and arrays outside the
sites are as they were. -/
structure Framed (sites : Value → Prop) (s t : Store) : Prop where
  wellFormed : t.WellFormed
  has : ∀ v, s.Has v → t.Has v
  object_eq : ∀ o, s.objects.Has o → ¬ sites (.object o) → t.object o = s.object o
  array_eq : ∀ a, s.arrays.Has a → ¬ sites (.array a) → t.array a = s.array a

theorem has_push {v : Value} (hv : s.Has v) (target value : Value) : (s.push target value).Has v := by
  cases target with
  | array a =>
    cases v with
    | array other =>
      have hsize := Pool.size_set s.arrays a (s.array a ++ [value])
      exact Nat.lt_of_lt_of_eq hv hsize.symm
    | _ => exact hv
  | _ => exact hv

theorem WellFormed.push (hs : s.WellFormed) {value : Value} (hvalue : s.Has value) (target : Value) :
    (s.push target value).WellFormed := by
  cases target with
  | array a =>
    have hhas : ∀ v, s.Has v → (s.push (.array a) value).Has v := fun v hv => has_push hv _ value
    refine ⟨fun o p hp => hhas _ (hs.has_property o p hp), ?_, hs.nodup_keys⟩
    intro other v hv
    by_cases hother : a = other
    · subst hother
      -- a push at an index out of the pool writes nothing
      by_cases hgood : s.arrays.Has a
      · have harray : (s.push (.array a) value).array a = s.array a ++ [value] :=
          Pool.get_set_self s.arrays a _ hgood
        rw [harray] at hv
        rcases List.mem_append.mp hv with hold | hlast
        · exact hhas v (hs.has_element a v hold)
        · obtain rfl := List.mem_singleton.mp hlast
          exact hhas _ hvalue
      · have harray : (s.push (.array a) value).array a = s.array a :=
          Pool.get_set_of_not_has s.arrays a _ hgood
        rw [harray] at hv
        exact hhas v (hs.has_element a v hv)
    · have harray : (s.push (.array a) value).array other = s.array other :=
        Pool.get_set_of_ne s.arrays _ hother
      rw [harray] at hv
      exact hhas v (hs.has_element other v hv)
  | _ => exact hs

/-- Editing leaves everything outside the sites as it was. -/
theorem Edited.frame (h : s.Edited sites t) (hs : s.WellFormed) : Framed sites s t := by
  -- an edit away from a container leaves it alone, and so does whatever the store grows by
  induction h with
  | start => exact ⟨hs, fun _ hv => hv, fun _ _ _ => rfl, fun _ _ _ => rfl⟩
  | @set t o before site key value hvalue ih =>
    refine ⟨ih.wellFormed.setProperty hvalue _ key, fun v hv => has_setProperty (ih.has v hv) _ key value,
      ?_, ih.array_eq⟩
    intro other hother hoff
    have hne : o ≠ other := fun heq => hoff (heq ▸ site)
    exact (Pool.get_set_of_ne t.objects _ hne).trans (ih.object_eq other hother hoff)
  | @push t a before site value hvalue ih =>
    refine ⟨ih.wellFormed.push hvalue _, fun v hv => has_push (ih.has v hv) _ value, ih.object_eq, ?_⟩
    intro other hother hoff
    have hne : a ≠ other := fun heq => hoff (heq ▸ site)
    exact (Pool.get_set_of_ne t.arrays _ hne).trans (ih.array_eq other hother hoff)
  | grow before grown ih =>
    refine ⟨grown.wellFormed, fun v hv => grown.within.has (ih.has v hv), ?_, ?_⟩
    · intro o ho hoff
      exact (grown.within.object_eq (ih.has (.object o) ho)).trans (ih.object_eq o ho hoff)
    · intro a ha hoff
      exact (grown.within.array_eq (ih.has (.array a) ha)).trans (ih.array_eq a ha hoff)

/-- A value from which no site is reached reads the same. -/
theorem Framed.sameBelow (h : Framed sites s t) (hs : s.WellFormed) {v : Value} (hv : s.Has v)
    (hoff : ∀ x, s.Below v x → ¬ sites x) : s.SameBelow t v := by
  intro x hx
  have hhas := hx.has hs hv
  constructor
  · cases x with
    | object o => exact h.object_eq o hhas (hoff _ hx)
    | _ => rfl
  · cases x with
    | array a => exact h.array_eq a hhas (hoff _ hx)
    | _ => rfl

end Store

/-! ### Compiling a body that reads the same -/

namespace Registry

variable {config : Config} {r : Registry} {path : String} {c : ClassDefinition} {body : ClassBody}
  {w w' : World} {sites : Value → Prop} {s t : Store}

/-- Whether a member is handed down depends on the sorts of the values only. -/
theorem agree_inheritOne (name : String) (inherited : Value) (declared? : Option Value) :
    Agree (fun _ _ => True) ((SharedMembers.inheritOne path name inherited declared?).run w).1
      ((SharedMembers.inheritOne path name inherited declared?).run w').1 := by
  cases declared? with
  | none => exact .ok trivial
  | some declared =>
    cases inherited <;> cases declared <;> first | exact .ok trivial | exact .error _

variable (path) in
/-- A body that reads the same is defined in both worlds once it is so in the first one, and the classes
are the same but for what they share. -/
theorem Ready.matches_define (h : r.Ready body w.store) (h' : r.Ready body w'.store)
    (hsame : ∀ p ∈ body.entries, w.store.SameBelow w'.store p.2) :
    Matches (fun _ => False) (fun u u' => w.store.Continues u ∧ w'.store.Continues u')
      (Published (fun _ _ => True) (fun _ _ => True) (fun _ _ => True) r r path) (r.define path body) w
      (r.define path body) w' := by
  refine Registry.matches_define ⟨h.wellFormed.continues, h'.wellFormed.continues⟩ rfl ?_
    (fun _ _ => ⟨fun _ _ => rfl, fun _ _ => rfl⟩) (Directives.parse_congr path hsame)
    (fun _ _ _ => trivial) ?_ ?_ ?_ ?_
  · exact samePlace_refl (r.place path)
  · intro parent hparent p hp u u' hu _
    exact ⟨⟨h.preserves_inheritOne hparent hp u hu.1, h'.preserves_inheritOne hparent hp u' hu.2⟩,
      agree_inheritOne _ _ _⟩
  · rintro u u' names table outcome t ⟨hu, hu'⟩ hrun hended
    rcases outcome with e | ms
    · exact (hended e rfl).elim
    -- what the stores have in common, the body included, is as it was in both
    refine Classifying.run_skeleton_of_ok (fun p hp => ?_) hrun
    have hgrown := hu.within.sameBelow h.wellFormed (h.has_entries p hp)
    have hgrown' := hu'.within.sameBelow h'.wellFormed (h'.has_entries p hp)
    exact hgrown.symm.trans ((hsame p hp).trans hgrown')
  · rintro c c' _ ps u u' - - - ⟨hu, hu'⟩
    exact ⟨⟨hu.trans ⟨u.within_newPrototype _, hu.wellFormed.newPrototype _⟩,
      hu'.trans ⟨u'.within_newPrototype _, hu'.wellFormed.newPrototype _⟩⟩, trivial⟩
  · rintro u u' ⟨hu, hu'⟩
    exact ⟨⟨hu.trans ⟨u.within_newRoutine, hu.wellFormed.newRoutine⟩,
      hu'.trans ⟨u'.within_newRoutine, hu'.wellFormed.newRoutine⟩⟩, trivial⟩

/-- A definition that succeeds in the first world does so in the second one, with the same members and the
same table. -/
theorem Ready.exists_define (h : r.Ready body w.store) (h' : r.Ready body w'.store)
    (hsame : ∀ p ∈ body.entries, w.store.SameBelow w'.store p.2) {k : Constructor} {after : Registry}
    (hrun : ((r.define path body).run w).1 = .ok (k, after)) :
    ∃ k' after' d d', ((r.define path body).run w').1 = .ok (k', after') ∧
      after.definition? path = some d ∧ after'.definition? path = some d' ∧
      d'.skeleton = d.skeleton ∧ d'.references = d.references := by
  -- a run that succeeds meets none of the errors on which the two runs may part
  have hended : ∀ e, ((r.define path body).run w).1 = .error e → False := by
    intro e he
    rw [hrun] at he
    cases he
  obtain ⟨-, hagree⟩ := h.matches_define path h' hsame hended
  rw [hrun] at hagree
  generalize houtcome : ((r.define path body).run w').1 = outcome at hagree
  cases hagree with
  | @ok _ answer hpublished =>
    obtain ⟨k', after'⟩ := answer
    obtain ⟨d, d', root, space, space', below, hpath, hd, -, -, hafter, hafter'⟩ :=
      hpublished.published
    obtain rfl : after = r.publish d k root space below := hafter
    obtain rfl : after' = r.publish d' k' root space' below := hafter'
    have hpath' : d'.path = path := by
      rw [hd.1]
      exact hpath
    refine ⟨k', _, d, d', rfl, ?_, ?_, ?_, ?_⟩
    · rw [definition?_publish, if_pos hpath]
    · rw [definition?_publish, if_pos hpath']
    · rw [hd.1]
    · rw [hd.1]

/-- The members that a definition gives, or leaves as they are, are the same in both worlds. -/
theorem Ready.perform_define_eq (h : r.Ready body w.store) (h' : r.Ready body w'.store)
    (hsame : ∀ p ∈ body.entries, w.store.SameBelow w'.store p.2) :
    ((r.perform w' (.define path body)).definition? path).map (fun d => (d.skeleton, d.references))
      = ((r.perform w (.define path body)).definition? path).map
          (fun d => (d.skeleton, d.references)) := by
  rw [perform, perform]
  rcases hrun : (r.define path body).run w with ⟨e | ⟨k, after⟩, u⟩
  · rcases hrun' : (r.define path body).run w' with ⟨e' | ⟨k', after'⟩, u'⟩
    · rfl
    · -- what succeeds in the second world would do so in the first one
      obtain ⟨k, after, -, -, hok, -⟩ := h'.exists_define h (fun p hp => (hsame p hp).symm)
        (congrArg (·.1) hrun')
      rw [hrun] at hok
      cases hok
  · obtain ⟨k', after', d, d', hrun', hd, hd', hskeleton, hreferences⟩ :=
      h.exists_define h' hsame (congrArg (·.1) hrun)
    rcases hrun'' : (r.define path body).run w' with ⟨outcome, u'⟩
    rw [hrun''] at hrun'
    obtain rfl := hrun'
    dsimp only
    rw [hd, hd', Option.map_some, Option.map_some, hskeleton, hreferences]

/-- Members are taken down when their class is defined.  Properties of objects may be set afterwards, those
of the objects in the class's own body and in the bodies of its ancestors and mixins included, and elements
pushed to any array that the table of the class does not hold, with the tables of its ancestors and mixins
in it.  The members still stand for the same, so new instances begin with fields of the same names that
hold the same, at every depth and down to the elements of arrays.  And a body that reaches no container
that was edited is defined or refused as it would have been before, with the same members and the same
table, whether it extends the class, implements it or neither.  As always, no object may lie below itself
in what it redeclares of its parent's shared members. -/
theorem Reachable.snapshot (hr : r.Reachable config) (hc : r.definition? path = some c)
    (hs : s.WellFormed) (harrays : c.references.ArraysIn s) (hedited : s.Edited sites t)
    (hsites : ∀ a, sites (.array a) → Value.array a ∉ c.references.entries) :
    c.skeleton.forest (c.references.settled t) = c.skeleton.forest (c.references.settled s) ∧
    (c.isAbstract = false → ∃ k i u i' u' contents, r.constructor? path none = some k ∧
      k.materialize? s = some (i, u) ∧ k.materialize? t = some (i', u') ∧
      u.ShowsAll u.objects.Has u.seen (u.instanceAt i).fields contents ∧
      u'.ShowsAll u'.objects.Has u'.seen (u'.instanceAt i').fields contents) ∧
    ∀ (w w' : World) (p : String) (body : ClassBody), w.store = s → w'.store = t → r.Ready body s →
      (∀ q ∈ body.entries, ∀ x, s.Below q.2 x → ¬ sites x) →
      (∀ parent, r.parentOf? body = some parent → ∀ q ∈ parent.shared,
        body.contains q.1 = true → t.Acyclic q.2) →
      ((r.perform w' (.define p body)).definition? p).map (fun d => (d.skeleton, d.references))
        = ((r.perform w (.define p body)).definition? p).map (fun d => (d.skeleton, d.references)) := by
  have hframe := hedited.frame hs
  have hsound := hr.compiled.referencesSound hc
  -- an edited array is none of those in the table, so the table reads as it did
  have hkeeps : c.references.KeepsArrays s t := by
    intro i a hget
    refine hframe.array_eq a (harrays i a hget) fun hsite => ?_
    exact hsites a hsite (List.mem_of_getElem? hget)
  have hforest : ∀ ms : Skeleton, Skeleton.AllLeaves (MemberDescriptor.PointsInto c.references) ms →
      ms.forest (c.references.settled t) = ms.forest (c.references.settled s) :=
    fun ms hms => Skeleton.forest_congr hkeeps.settled_eq hms
  have hdata : Skeleton.AllLeaves (MemberDescriptor.PointsInto c.references) c.skeleton.data :=
    ⟨hsound.1.sublist (List.filter_sublist.map Prod.fst),
      fun p hp => hsound.2 p (List.mem_filter.mp hp).1⟩
  refine ⟨hforest c.skeleton hsound, fun hconcrete => ?_, ?_⟩
  · obtain ⟨k, -, -, hk, -⟩ := hr.constructor_built hc
    rw [← constructor?_none] at hk
    obtain ⟨i, u, hmade, hnew⟩ := hr.exists_newInstance hc hconcrete hk harrays
    obtain ⟨i', u', hmade', hnew'⟩ := hr.exists_newInstance hc hconcrete hk
      fun index a hget => hframe.has (.array a) (harrays index a hget)
    have hshown' := hnew'.made.showsAll
    rw [hforest c.skeleton.data hdata] at hshown'
    exact ⟨k, i, u, i', u', _, hk, hmade, hmade', hnew.made.showsAll, hshown'⟩
  · -- the body reads nothing at an edited site, hence the same contents in both stores
    rintro w w' p body rfl rfl hready hoff hacyclic
    have hready' : r.Ready body w'.store := by
      refine ⟨hframe.wellFormed, fun q hq => hframe.has _ (hready.has_entries q hq), ?_⟩
      intro parent hparent q hq hcontains
      exact ⟨hframe.has _ (hready.redeclared parent hparent q hq hcontains).1,
        hacyclic parent hparent q hq hcontains⟩
    exact hready.perform_define_eq hready' fun q hq =>
      hframe.sameBelow hs (hready.has_entries q hq) (hoff q hq)

end Registry

/-! ### A sample

The class has an array of texts as a literal, and an object that holds the same array. -/

namespace Sample

/-- A text has been pushed to the array, and the property of the object has been written. -/
def edited : Store :=
  (twice.store.push (.array ⟨0⟩) (.text "c")).setProperty (.object ⟨0⟩) "list" .null

/-- The array and the object. -/
def isEdited (v : Value) : Prop := v = .array ⟨0⟩ ∨ v = .object ⟨0⟩

theorem edited_edited : twice.store.Edited isEdited edited := by
  have hpushed : twice.store.Edited isEdited (twice.store.push (.array ⟨0⟩) (.text "c")) :=
    .push .start (.inl rfl) trivial
  exact .set hpushed (.inr rfl) "list" trivial

/-- A body that extends the class. -/
def subBody : ClassBody := ⟨[("Extends", .text "Ns.Tagged"), ("more", .null)]⟩

end Sample

namespace Registry

/-- The class of the sample makes the same fields after its array and its object have been edited, and the
class that is defined below it has the same members. -/
theorem Reachable.snapshot_tagged :
    Sample.twice.store.array ⟨0⟩ = [.text "a", .text "b"] ∧
      Sample.edited.array ⟨0⟩ = [.text "a", .text "b", .text "c"] ∧
      Sample.edited.object ⟨0⟩ = [("list", .null)] ∧
      (∃ k i u i' u' contents, Sample.literalTags.constructor? "Ns.Tagged" none = some k ∧
        k.materialize? Sample.twice.store = some (i, u) ∧
        k.materialize? Sample.edited = some (i', u') ∧
        u.ShowsAll u.objects.Has u.seen (u.instanceAt i).fields contents ∧
        u'.ShowsAll u'.objects.Has u'.seen (u'.instanceAt i').fields contents ∧
        u'.fieldNames i' = ["tags", "options"]) ∧
      ∃ d d', (Sample.literalTags.perform Sample.twice (.define "Ns.Sub" Sample.subBody)).definition?
          "Ns.Sub" = some d ∧
        (Sample.literalTags.perform ⟨Sample.edited, []⟩ (.define "Ns.Sub" Sample.subBody)).definition?
          "Ns.Sub" = some d' ∧ d'.skeleton = d.skeleton := by
  have hstep := Sample.tags_replay.inStep
  obtain ⟨c, hc⟩ : ∃ c, Sample.literalTags.definition? "Ns.Tagged" = some c := ⟨_, rfl⟩
  have hcompiled : c.references.entries = [.function ⟨0⟩] ∧ c.isAbstract = false ∧ c.shared = [] := by
    cases hc
    exact ⟨rfl, rfl, rfl⟩
  obtain ⟨hentries, hconcrete, hshared⟩ := hcompiled
  have hno : ∀ a, Value.array a ∉ c.references.entries := by
    intro a
    rw [hentries]
    simp
  obtain ⟨-, hmakes, hlater⟩ := hstep.reachable.snapshot hc hstep.wellFormed
    (fun i a hget => absurd (List.mem_of_getElem? hget) (hno a)) Sample.edited_edited fun a _ => hno a
  obtain ⟨k, i, u, i', u', contents, hk, hmade, hmade', hshown, hshown'⟩ := hmakes hconcrete
  have hnames : u'.fieldNames i' = ["tags", "options"] := by
    cases hk
    cases hmade'
    rfl
  have hparent : ∀ parent, Sample.literalTags.parentOf? Sample.subBody = some parent →
      parent.shared = [] := by
    intro parent hparent
    obtain rfl : c = parent := Option.some.inj (hc.symm.trans hparent)
    exact hshared
  have hready : Sample.literalTags.Ready Sample.subBody Sample.twice.store := by
    refine ⟨hstep.wellFormed, ?_, ?_⟩
    · intro p hp
      rcases List.mem_cons.mp hp with rfl | hp
      · trivial
      · obtain rfl := List.mem_singleton.mp hp
        trivial
    · intro parent hfound p hp
      rw [hparent parent hfound] at hp
      cases hp
  -- the members of the body are texts, and nothing is below a text
  have hoff : ∀ q ∈ Sample.subBody.entries, ∀ x, Sample.twice.store.Below q.2 x → ¬ Sample.isEdited x := by
    intro q hq x hx
    rcases List.mem_cons.mp hq with rfl | hq
    · cases hx
      rintro (h | h) <;> cases h
    · obtain rfl := List.mem_singleton.mp hq
      cases hx
      rintro (h | h) <;> cases h
  have hsub := hlater Sample.twice ⟨Sample.edited, []⟩ "Ns.Sub" Sample.subBody rfl rfl hready hoff
    fun parent hfound p hp => by rw [hparent parent hfound] at hp; cases hp
  obtain ⟨d, hd⟩ : ∃ d, (Sample.literalTags.perform Sample.twice
    (.define "Ns.Sub" Sample.subBody)).definition? "Ns.Sub" = some d := ⟨_, rfl⟩
  rw [hd, Option.map_some] at hsub
  obtain ⟨d', hd', heq⟩ := Option.map_eq_some_iff.mp hsub
  exact ⟨rfl, rfl, rfl,
    ⟨k, i, u, i', u', contents, hk, hmade, hmade', hshown, hshown', hnames⟩,
    d, d', hd, hd', congrArg (·.1) heq⟩

end Registry

end ClassComposition
