import ClassComposition.Proofs.Registry.Commuting

/-!
# Definitions do not look at prototypes

A definition reads objects and arrays, and it makes a prototype of its own; what the prototypes that are
there hold makes no difference to it.  So two worlds that differ in their prototypes only, and have as many
of them, lead to the same classes and the same constructors, however many definitions follow.

## Main definitions

* `Store.SameButPrototypes` — stores that differ in what their prototypes hold only.
* `Registry.defineAll` — definitions one after the other.

## Main results

* `Store.SameButPrototypes.inheritOne` — shared members are handed down in the same way.
* `Store.SameButPrototypes.define` — a definition has the same outcome in both worlds.
* `Registry.defineAll_eq` — so have definitions one after the other.
* `Registry.prototypes_define` — a definition leaves the prototypes that are there alone.
-/

namespace ClassComposition

open ClassComposition.Action

namespace Store

/-! ### Other prototypes -/

/-- The store with other prototypes. -/
def withPrototypes (s : Store) (prototypes : Pool .prototype Prototype) : Store :=
  { s with prototypes }

/-- The second store is the first one with other prototypes, and with as many of them. -/
def SameButPrototypes (s t : Store) : Prop :=
  ∃ prototypes, t = s.withPrototypes prototypes ∧ prototypes.size = s.prototypes.size

variable {s t : Store} {q : Pool .prototype Prototype}

theorem newObject_withPrototypes (s : Store) (q : Pool .prototype Prototype)
    (properties : Assoc String Value) : (s.withPrototypes q).newObject properties =
      ((s.newObject properties).1, (s.newObject properties).2.withPrototypes q) := rfl

theorem setProperty_withPrototypes (s : Store) (q : Pool .prototype Prototype) (target : Value)
    (key : String) (v : Value) :
    (s.withPrototypes q).setProperty target key v = (s.setProperty target key v).withPrototypes q := by
  cases target <;> rfl

/-- Where every value is copied as with the first prototypes, so are several one after the other. -/
theorem mapEntries_withPrototypes {step : Value → Store → Value × Store}
    (hstep : ∀ v s, step v (s.withPrototypes q) = ((step v s).1, (step v s).2.withPrototypes q))
    (entries : Assoc String Value) (s : Store) :
    mapEntries step entries (s.withPrototypes q) =
      ((mapEntries step entries s).1, (mapEntries step entries s).2.withPrototypes q) := by
  induction entries generalizing s with
  | nil => rfl
  | cons p rest ih =>
    obtain ⟨key, v⟩ := p
    rw [mapEntries, hstep]
    dsimp only
    rw [ih]
    rfl

theorem deepCopyAt_withPrototypes (fuel : Nat) (v : Value) (s : Store) (q : Pool .prototype Prototype) :
    deepCopyAt fuel v (s.withPrototypes q) =
      ((deepCopyAt fuel v s).1, (deepCopyAt fuel v s).2.withPrototypes q) := by
  induction fuel generalizing v s with
  | zero => cases v <;> rfl
  | succ fuel ih =>
    cases v with
    | object o =>
      have hmapped := mapEntries_withPrototypes ih (s.object o) s
      have hobject : (s.withPrototypes q).object o = s.object o := rfl
      rw [deepCopyAt_object, deepCopyAt_object, hobject, hmapped]
      exact newObject_withPrototypes _ q _
    | _ => rfl

theorem overlayAt_withPrototypes (fuel : Nat) (target source : Value) (s : Store)
    (q : Pool .prototype Prototype) :
    overlayAt fuel target source (s.withPrototypes q) =
      (overlayAt fuel target source s).withPrototypes q := by
  induction fuel generalizing target source s with
  | zero => rfl
  | succ fuel ih =>
    have hentry : ∀ (s : Store) p, overlayEntry fuel target (s.withPrototypes q) p =
        (overlayEntry fuel target s p).withPrototypes q := by
      rintro s ⟨key, v⟩
      have hproperty : (s.withPrototypes q).property? target key = s.property? target key := by
        cases target <;> rfl
      unfold overlayEntry
      dsimp only
      rw [hproperty]
      split
      · exact ih _ _ s
      · exact setProperty_withPrototypes s q target key _
    have hentries : (s.withPrototypes q).entries source = s.entries source := by
      cases source <;> rfl
    rw [overlayAt_succ, overlayAt_succ, hentries]
    clear hentries
    -- the entries are laid over one after the other, each on the store that the last one left
    generalize s.entries source = entries
    induction entries generalizing s with
    | nil => rfl
    | cons p rest ihrest => rw [List.foldl_cons, List.foldl_cons, hentry, ihrest]

namespace SameButPrototypes

theorem sameBelow (h : s.SameButPrototypes t) (v : Value) : s.SameBelow t v := by
  obtain ⟨q, rfl, -⟩ := h
  intro x _
  constructor <;> cases x <;> rfl

theorem skeleton_eq (h : s.SameButPrototypes t) (inlineSimple : Bool) (path : String) (body : ClassBody)
    (shared : List String) : Classifying.skeleton t inlineSimple path body shared =
      Classifying.skeleton s inlineSimple path body shared := by
  have hsame := h.sameBelow
  obtain ⟨q, rfl, -⟩ := h
  exact Classifying.members_congr (fun p _ => Classifying.memberAt_congr (hsame p.2)) []

theorem newPrototype (h : s.SameButPrototypes t) (p : Prototype) :
    (s.newPrototype p).2.SameButPrototypes (t.newPrototype p).2 ∧
      (s.newPrototype p).1 = (t.newPrototype p).1 := by
  obtain ⟨q, rfl, hsize⟩ := h
  refine ⟨⟨(q.alloc p).2, rfl, ?_⟩, congrArg Handle.mk hsize.symm⟩
  rw [Pool.size_alloc, hsize]
  exact (Pool.size_alloc s.prototypes p).symm

theorem newRoutine (h : s.SameButPrototypes t) :
    s.newRoutine.2.SameButPrototypes t.newRoutine.2 ∧ s.newRoutine.1 = t.newRoutine.1 := by
  obtain ⟨q, rfl, hsize⟩ := h
  exact ⟨⟨q, rfl, hsize⟩, rfl⟩

theorem overlay_deepCopy (h : s.SameButPrototypes t) (target source : Handle .object) :
    (overlay (s.deepCopy (.object target)).1 (.object source)
        (s.deepCopy (.object target)).2).SameButPrototypes
      (overlay (t.deepCopy (.object target)).1 (.object source) (t.deepCopy (.object target)).2) ∧
    (s.deepCopy (.object target)).1 = (t.deepCopy (.object target)).1 := by
  have hprototypes := congrArg Store.prototypes (onlyObjects_overlay_deepCopy target source s)
  obtain ⟨q, rfl, hsize⟩ := h
  have hcopy : (s.withPrototypes q).deepCopy (.object target) =
      ((s.deepCopy (.object target)).1, (s.deepCopy (.object target)).2.withPrototypes q) :=
    deepCopyAt_withPrototypes s.nesting (.object target) s q
  rw [hcopy]
  exact ⟨⟨q, overlayAt_withPrototypes _ _ _ _ q, hsize.trans (congrArg Pool.size hprototypes).symm⟩, rfl⟩

theorem inheritOne {u u' : World} (h : u.store.SameButPrototypes u'.store) (path name : String)
    (inherited : Value) (declared? : Option Value) :
    Matches (fun _ => True) SameButPrototypes (fun v v' => v = v')
      (SharedMembers.inheritOne path name inherited declared?) u
      (SharedMembers.inheritOne path name inherited declared?) u' := by
  cases declared? with
  | none => exact matches_pure h rfl
  | some declared =>
    cases inherited with
    | array a =>
      cases declared with
      | array b => exact matches_pure h rfl
      | _ => exact matches_throw h _
    | object target =>
      cases declared with
      | object source =>
        obtain ⟨hlaid, hcopy⟩ := h.overlay_deepCopy target source
        intro _
        exact ⟨hlaid, .ok hcopy⟩
      | _ => exact matches_throw h _
    | _ => exact matches_throw h _

end SameButPrototypes

end Store

/-! ### Definitions -/

theorem Assoc.Beside.eq {κ α : Type} {m m' : Assoc κ α} (h : Assoc.Beside (fun _ v v' => v = v') m m') :
    m = m' := by
  induction h with
  | nil => rfl
  | cons first rest ih => exact congrArg₂ List.cons (Prod.ext first.1 first.2) ih

theorem ClassDefinition.SameButShared.eq {c c' : ClassDefinition}
    (h : SameButShared (fun v v' => v = v') c c') : c' = c := by
  obtain ⟨hc, hshared⟩ := h
  rw [← hshared.eq] at hc
  exact hc

namespace Registry

variable {r : Registry} {path : String}

/-- Two definitions of one class at one place that share the same values and have given out the same
handles have the same answer. -/
theorem Published.eq {answer answer' : Constructor × Registry}
    (h : Published (fun v v' => v = v') (fun n n' => n = n') (fun p p' => p = p') r r path answer
      answer') : answer = answer' := by
  obtain ⟨k, after⟩ := answer
  obtain ⟨k', after'⟩ := answer'
  have hk : k = k' := by
    cases h.corresponds with
    | compiled hid hh => rw [hid, hh]
    | abstract hid => rw [hid]
  obtain ⟨c, c', root, space, space', below, -, hc, hplace, hplace', hafter, hafter'⟩ := h.published
  rw [hplace] at hplace'
  cases hplace'
  dsimp only at hafter hafter'
  rw [hafter, hafter', hc.eq, hk]

end Registry

namespace Store.SameButPrototypes

/-- A definition has the same outcome in both worlds, and leaves them the same but for the prototypes. -/
theorem define {w w' : World} (h : w.store.SameButPrototypes w'.store) (r : Registry) (path : String)
    (body : ClassBody) :
    ((r.define path body).run w').1 = ((r.define path body).run w).1 ∧
      ((r.define path body).run w).2.store.SameButPrototypes ((r.define path body).run w').2.store := by
  have hmatches : Matches (fun _ => True) SameButPrototypes
      (Registry.Published (fun v v' => v = v') (fun n n' => n = n') (fun p p' => p = p') r r path)
      (r.define path body) w (r.define path body) w' := by
    -- values, routines and prototypes correspond by equality; slots are what may differ
    refine Registry.matches_define h rfl (Registry.samePlace_refl (r.place path))
      (fun _ _ => ⟨fun _ _ => rfl, fun _ _ => rfl⟩)
      (Directives.parse_congr path fun p _ => h.sameBelow p.2) (fun _ _ _ => rfl) ?_ ?_ ?_ ?_
    · intro parent _ p _ u u' hu
      exact hu.inheritOne path p.1 p.2 (body.get? p.1)
    · intro s s' names table outcome t hs hrun _
      rw [hs.skeleton_eq]
      exact hrun
    · intro c c' _ ps s s' _ hc _ hs
      rw [hc.eq]
      exact hs.newPrototype _
    · intro s s' hs
      exact hs.newRoutine
  obtain ⟨hstores, hagree⟩ := hmatches fun _ _ => trivial
  refine ⟨?_, hstores⟩
  generalize ((r.define path body).run w).1 = outcome at hagree
  generalize ((r.define path body).run w').1 = outcome' at hagree
  cases hagree with
  | ok hpublished => rw [hpublished.eq]
  | error e => rfl

end Store.SameButPrototypes

namespace Registry

/-- Definitions one after the other: their answers, and the registry and the world that the last one
leaves. -/
def defineAll (r : Registry) (w : World) :
    List (String × ClassBody) → List (Except ClassError Constructor) × Registry × World
  | [] => ([], r, w)
  | (path, body) :: rest =>
    let (answer, after, w) := r.defineIn w path body
    let (answers, last) := after.defineAll w rest
    (answer :: answers, last)

/-- Definitions one after the other have the same answers in both worlds, and lead to the same registry. -/
theorem defineAll_eq (bodies : List (String × ClassBody)) {w w' : World}
    (h : w.store.SameButPrototypes w'.store) (r : Registry) :
    (r.defineAll w' bodies).1 = (r.defineAll w bodies).1 ∧
      (r.defineAll w' bodies).2.1 = (r.defineAll w bodies).2.1 := by
  induction bodies generalizing r w w' with
  | nil => exact ⟨rfl, rfl⟩
  | cons p rest ih =>
    obtain ⟨path, body⟩ := p
    obtain ⟨houtcome, hstores⟩ := h.define r path body
    have hafter : r.perform w' (.define path body) = r.perform w (.define path body) := by
      -- the registry afterwards depends on the outcome only
      rw [perform, perform]
      generalize (r.define path body).run w = run at houtcome
      generalize (r.define path body).run w' = run' at houtcome
      obtain ⟨outcome, u⟩ := run
      obtain ⟨outcome', u'⟩ := run'
      cases houtcome
      cases outcome <;> rfl
    obtain ⟨hanswers, hregistry⟩ := ih hstores (r.perform w (.define path body))
    rw [defineAll, defineAll, defineIn_eq, defineIn_eq, houtcome, hafter]
    exact ⟨congrArg (List.cons _) hanswers, hregistry⟩

/-- A definition leaves the prototypes that are there alone, whatever comes of it. -/
theorem prototypes_define (r : Registry) (path : String) (body : ClassBody) (w : World) :
    w.store.prototypes.Within ((r.define path body).run w).2.store.prototypes := by
  have hdefine : (r.define path body).Preserves fun s => w.store.prototypes.Within s.prototypes := by
    unfold define
    refine preserves_ofExcept_bind fun place _ => ?_
    refine preserves_bind (ClassDefinition.preserves_compile ?_) fun c => ?_
    · intro parentPath parent _ _ p _
      refine SharedMembers.preserves_inheritOne_of fun target source s _ _ hs => ?_
      have hprototypes := congrArg Store.prototypes (Store.onlyObjects_overlay_deepCopy target source s)
      exact hprototypes ▸ hs
    refine preserves_bind (Constructor.preserves_build ?_ ?_) fun k => ?_
    · exact fun ps s _ hs => hs.trans (Pool.within_alloc s.prototypes _)
    · exact fun s hs => hs
    exact preserves_bind (preserves_record _) fun _ => preserves_pure _
  exact hdefine w (.refl _)

end Registry

end ClassComposition
