import ClassComposition.Proofs.Beside
import ClassComposition.Proofs.Class.Overlay
import ClassComposition.Proofs.Store.Contents

/-!
# The contents of a redeclared object

A redeclared shared object is a copy of the parent's with the body's laid over it.  What it holds depends
on what these two hold and on nothing else: neither on the handles of the copies, nor on how far the walk
was allowed to go, as long as that is as deep as the body's object.

## Main definitions

* `Store.OwnOrOld` — objects of some list, or that an earlier store had.
* `LaysOver` — overlays of some depth give the contents of the one laid over those of the other.

## Main results

* `laysOver` — they do.
* `shows_overlay_deepCopy` — what a copy holds over which an object was laid.
-/

namespace ClassComposition

namespace Store

variable {α : Type} {s₀ s : Store} {among : Handle .object → Prop} {read : Value → α}
  {entries : Assoc String Value} {properties : List (String × Contents α)}

theorem ShowsAll.beside (h : s.ShowsAll among read entries properties) :
    Assoc.Beside (fun _ v c => s.Shows among read v c) entries properties := by
  induction entries generalizing properties with
  | nil =>
    cases h
    exact .nil
  | cons p rest ih =>
    cases h with
    | cons first below => exact .cons ⟨rfl, first⟩ (ih below)

theorem showsAll_of_beside
    (h : Assoc.Beside (fun _ v c => s.Shows among read v c) entries properties) :
    s.ShowsAll among read entries properties := by
  induction h with
  | nil => exact .nil
  | @cons p q rest others first below ih =>
    obtain ⟨k, v⟩ := p
    obtain ⟨k', c⟩ := q
    obtain ⟨rfl, hshows⟩ := first
    exact .cons hshows ih

/-! ### Overlays -/

/-- An object is one of a list, or an earlier store had it. -/
def OwnOrOld (s₀ : Store) (os : List (Handle .object)) (o : Handle .object) : Prop :=
  o ∈ os ∨ s₀.objects.Has o

/-- Changes to new objects leave contents that are made of others and of what was there. -/
theorem Shows.changedAt {os others : List (Handle .object)} {t : Store} {v : Value} {c : Contents α}
    (h : s.Shows (s₀.OwnOrOld others) read v c) (hst : ChangedAt os s t) (hdisjoint : os.Disjoint others)
    (hnew : ∀ o ∈ os, ¬ s₀.objects.Has o) : t.Shows (s₀.OwnOrOld others) read v c := by
  refine h.congr fun o ho => ⟨ho, hst.object_eq o fun hmem => ?_⟩
  rcases ho with hother | hold
  · exact hdisjoint hmem hother
  · exact hnew o hmem hold

end Store

section Overlays

variable {α : Type} {s₀ s : Store} {read : Value → α} {fuel : Nat} {os : List (Handle .object)}
  {target source : Handle .object} {properties sources : List (String × Contents α)}

/-- Overlays that go some levels down lay the contents of a source, if it is no deeper, over those of a
target.  The source was there, and the objects of the target are new and pairwise different. -/
def LaysOver (s₀ : Store) (read : Value → α) (fuel : Nat) : Prop :=
  ∀ {target source : Handle .object} {s : Store} {os : List (Handle .object)}
    {properties sources : List (String × Contents α)},
    s₀.Has (.object source) → s₀.Within s → s.WellFormed → s.Has (.object target) →
    s.Spans (.object target) os → os.Nodup → (∀ o ∈ os, ¬ s₀.objects.Has o) →
    s.Shows (s₀.OwnOrOld os) read (.object target) (.object properties) →
    s₀.Shows s₀.objects.Has read (.object source) (.object sources) →
    (Contents.object sources).depth ≤ fuel →
    (overlayAt fuel (.object target) (.object source) s).Shows (s₀.OwnOrOld os) read (.object target)
      (.object (Contents.overlayAll properties sources))

/-- One property of a source, laid over a target, changes the contents under its key, when the overlays one
level down do. -/
theorem shows_overlayEntry {own : String → List (Handle .object)} {key : String} {v : Value}
    {c : Contents α} {rest : List String} (hs₀ : s₀.WellFormed)
    (hbelow : LaysOver s₀ read fuel) (hnew : ∀ o ∈ os, ¬ s₀.objects.Has o) (htarget : target ∈ os)
    (hown : ∀ key, own key ⊆ os) (hv : s₀.Has v) (hs : s₀.Within s) (hwell : s.WellFormed)
    (hgood : s.Has (.object target)) (hseparate : s.Separate target (key :: rest) own)
    (hc : s₀.Shows s₀.objects.Has read v c) (hdepth : c.depth ≤ fuel)
    (hproperties : Assoc.Beside (fun name x d => s.Shows (s₀.OwnOrOld (own name)) read x d)
      (s.object target) properties) :
    Assoc.Beside (fun name x d => (overlayEntry fuel (.object target) s (key, v)).Shows
        (s₀.OwnOrOld (own name)) read x d)
      ((overlayEntry fuel (.object target) s (key, v)).object target)
      (Assoc.insert properties key (match Assoc.get? properties key with
        | some below => below.overlay c
        | none => c)) := by
  obtain hkeys : (Assoc.keys (s.object target)).Nodup := hwell.nodup_keys target
  rcases overlayEntry_cases fuel (.object target) s key v with
    ⟨below, above, hproperty, rfl, hentry⟩ | ⟨hneither, hentry⟩
  · -- the object under the key is laid over in place, and nothing else is touched
    obtain ⟨as, rfl, -, -⟩ := hc.exists_properties
    have hfound : Assoc.get? (s.object target) key = some (.object below) := hproperty
    obtain ⟨b, hb, hshows⟩ : ∃ b, Assoc.get? properties key = some b ∧
        s.Shows (s₀.OwnOrOld (own key)) read (.object below) b := by
      rcases hproperties.get? key with ⟨v, b, hv, hb, hshows⟩ | ⟨hnone, -⟩
      · rw [hfound] at hv
        cases hv
        exact ⟨b, hb, hshows⟩
      · rw [hfound] at hnone
        cases hnone
    obtain ⟨bs, rfl, -, -⟩ := hshows.exists_properties
    have hspans := hseparate.spans key List.mem_cons_self below hproperty
    have hnewOwn : ∀ o ∈ own key, ¬ s₀.objects.Has o := fun o ho => hnew o (hown key ho)
    have hbelowGood : s.Has (.object below) := hwell.has_property target _ (Assoc.mem_of_get? hfound)
    have hinner := hbelow hv hs hwell hbelowGood hspans (hseparate.nodup key) hnewOwn hshows hc hdepth
    have hchanged : s.ChangedAt (own key) (overlayAt fuel (.object below) (.object above) s) :=
      changedAt_overlayAt hs₀ hv hs hspans (hseparate.nodup key) hnewOwn
    have hsame := hchanged.object_eq target (hseparate.notMem key)
    rw [hentry, hb, hsame, ← Assoc.insert_of_get? hfound]
    refine hproperties.insert hkeys ?_ hinner
    intro other x d hne hshows
    exact hshows.changedAt hchanged (hseparate.disjoint key other (Ne.symm hne)) hnewOwn
  · -- the property is written, and the objects under other keys are not the target
    have hchanged := Store.changedAt_setProperty s target key v
    have hobject : (s.setProperty (.object target) key v).object target
        = Assoc.insert (s.object target) key v := Pool.get_set_self s.objects target _ hgood
    have hnewTarget : ∀ o ∈ [target], ¬ s₀.objects.Has o := by
      intro o ho
      obtain rfl := List.mem_singleton.mp ho
      exact hnew o htarget
    have hapart : ∀ other, [target].Disjoint (own other) := by
      intro other o ho hmem
      obtain rfl := List.mem_singleton.mp ho
      exact hseparate.notMem other hmem
    have hwritten : (match Assoc.get? properties key with
        | some below => below.overlay c
        | none => c) = c := by
      rcases hproperties.get? key with ⟨v', b, hv', hb, hshows⟩ | ⟨-, hnone⟩
      · rw [hb]
        cases hc with
        | leaf hleaf => cases b <;> rfl
        | object ho hall =>
          have hleaf : v'.kind ≠ .object := by
            intro hkind
            cases v' with
            | object below => exact hneither below _ hv' rfl
            | _ => cases hkind
          rw [hshows.eq_leaf hleaf]
          rfl
      · rw [hnone]
    rw [hentry, hobject, hwritten]
    refine hproperties.insert hkeys ?_ ?_
    · intro other x d _ hshows
      exact hshows.changedAt hchanged (hapart other) hnewTarget
    · -- what is written was there, and stays as it was
      refine hc.congr fun o ho => ⟨.inr ho, ?_⟩
      have hne : o ∉ [target] := fun hmem => hnewTarget o hmem ho
      exact (hchanged.object_eq o hne).trans (hs.object_eq ho)

/-- Properties of a source, laid over a target one after the other, change the contents under their keys
in turn, when the overlays one level down do. -/
theorem shows_foldl {own : String → List (Handle .object)} {entries : Assoc String Value}
    (hs₀ : s₀.WellFormed) (hbelow : LaysOver s₀ read fuel) (hnew : ∀ o ∈ os, ¬ s₀.objects.Has o)
    (htarget : target ∈ os) (hown : ∀ key, own key ⊆ os) (hhas : ∀ p ∈ entries, s₀.Has p.2)
    (hkeys : (Assoc.keys entries).Nodup) (hs : s₀.Within s) (hwell : s.WellFormed)
    (hgood : s.Has (.object target)) (hseparate : s.Separate target (Assoc.keys entries) own)
    (hall : s₀.ShowsAll s₀.objects.Has read entries sources)
    (hdepth : Contents.depthAll sources ≤ fuel)
    (hproperties : Assoc.Beside (fun name x d => s.Shows (s₀.OwnOrOld (own name)) read x d)
      (s.object target) properties) :
    Assoc.Beside (fun name x d => (entries.foldl (overlayEntry fuel (.object target)) s).Shows
        (s₀.OwnOrOld (own name)) read x d)
      ((entries.foldl (overlayEntry fuel (.object target)) s).object target)
      (Contents.overlayAll properties sources) := by
  induction entries generalizing s properties sources with
  | nil =>
    cases hall
    exact hproperties
  | cons p rest ih =>
    cases hall with
    | @cons key v _ c others first below =>
      obtain ⟨hkey, hrest⟩ := List.nodup_cons.mp hkeys
      rw [List.forall_mem_cons] at hhas
      rw [Contents.depthAll] at hdepth
      -- the first property is laid over, and the store that this leaves has all that the others need
      have hstep := shows_overlayEntry hs₀ hbelow hnew htarget hown hhas.1 hs hwell hgood hseparate
        first (by omega) hproperties
      obtain ⟨hchanged, hlater⟩ := changedAt_overlayEntry (changedAt_overlayAt hs₀) hnew htarget hown
        hhas.1 hkey hs hseparate
      obtain ⟨hwellStep, hkept⟩ : (overlayEntry fuel (.object target) s (key, v)).WellFormed ∧
          ∀ x, s.Has x → (overlayEntry fuel (.object target) s (key, v)).Has x :=
        wellFormed_overlayEntry key wellFormed_overlayAt hwell (hs.has hhas.1)
      rw [List.foldl_cons, Contents.overlayAll]
      exact ih hhas.2 hrest (hs.changedAt hchanged hnew) hwellStep (hkept _ hgood) hlater below
        (by omega) hstep

/-- What an overlay makes of the contents of its target. -/
theorem laysOver (hs₀ : s₀.WellFormed) : LaysOver s₀ read fuel := by
  induction fuel with
  | zero =>
    intro target source s os properties sources _ _ _ _ _ _ _ _ _ hdepth
    rw [Contents.depth] at hdepth
    omega
  | succ fuel ih =>
    intro target source s os properties sources hsource hs hwell hgood hspans hnodup hnew htarget
      hshows hdepth
    obtain ⟨ps, heq, hmem, hproperties⟩ := htarget.exists_properties
    cases heq
    obtain ⟨ss, heq, -, hsources⟩ := hshows.exists_properties
    cases heq
    obtain ⟨below, rfl, hspansAll⟩ := hspans.exists_below
    obtain ⟨hnotMem, hbelowNodup⟩ := List.nodup_cons.mp hnodup
    obtain ⟨own, hown, hportions, hdisjoint⟩ := hspansAll.exists_own hbelowNodup
    have hportion : ∀ key, own key ⊆ target :: below :=
      fun key o ho => List.mem_cons_of_mem _ ((hportions key).2 ho)
    have hapart : s.Separate target (Assoc.keys (s₀.object source)) own :=
      ⟨fun key _ below hbelow => hown key below hbelow, fun key => (hportions key).1, hdisjoint,
        fun key hmem => hnotMem ((hportions key).2 hmem)⟩
    -- before the first property is laid over, what stands under a key is made of the objects of that key
    have hstart : Assoc.Beside (fun name x d => s.Shows (s₀.OwnOrOld (own name)) read x d)
        (s.object target) properties := by
      refine hproperties.beside.mono fun name x d hx _ hd => ?_
      have hfound := Assoc.get?_of_mem (hwell.nodup_keys target) hx
      cases hd with
      | leaf hleaf => exact .leaf hleaf
      | object ho hall =>
        have hcontents := (Store.Shows.object ho hall).of_spans (hown name _ hfound)
        exact hcontents.mono fun o ho => .inl ho
    rw [Contents.depth] at hdepth
    have hentries : s.entries (.object source) = s₀.object source := hs.object_eq hsource
    have hlaid := shows_foldl hs₀ ih hnew List.mem_cons_self hportion (hs₀.has_property source)
      (hs₀.nodup_keys source) hs hwell hgood hapart hsources (by omega) hstart
    rw [overlayAt_succ, hentries]
    refine .object hmem (Store.showsAll_of_beside (hlaid.mono fun name x d _ _ hd => ?_))
    exact hd.mono fun o ho => ho.imp_left fun hmem => hportion name hmem

/-- A copy of an object that was there is an object again.  It is made of new objects, pairwise different,
and holds what the original held. -/
theorem Store.exists_copy {target : Handle .object} {c : Contents α} (hs₀ : s₀.WellFormed)
    (htarget : s₀.Has (.object target)) (hshallow : s₀.Shallow (.object target)) (hs : s₀.Continues s)
    (hc : s₀.Shows s₀.objects.Has read (.object target) c) :
    ∃ copy os, (s.deepCopy (.object target)).1 = .object copy ∧
      s.Continues (s.deepCopy (.object target)).2 ∧
      (s.deepCopy (.object target)).2.Has (.object copy) ∧
      (s.deepCopy (.object target)).2.Spans (.object copy) os ∧
      s.Fresh (s.deepCopy (.object target)).2 os ∧ (∀ o ∈ os, ¬ s₀.objects.Has o) ∧
      (s.deepCopy (.object target)).2.Shows (· ∈ os) read (.object copy) c := by
  obtain ⟨os, hspans, hfresh⟩ := Store.fresh_deepCopy hs₀ htarget hshallow hs.within
  have hgood := hs.within.has htarget
  obtain ⟨hcopied, hcopy⟩ : s.Continues (s.deepCopy (.object target)).2 ∧
      (s.deepCopy (.object target)).2.Has (s.deepCopy (.object target)).1 :=
    Store.continues_deepCopyAt hs.wellFormed hgood
  have hcontents : (s.deepCopy (.object target)).2.Shows (s.deepCopy (.object target)).2.objects.Has read
      (s.deepCopy (.object target)).1 c := Store.shows_deepCopyAt hs.wellFormed hgood (hc.within hs.within)
  have hnew : ∀ o ∈ os, ¬ s₀.objects.Has o :=
    fun o ho hold => hfresh.isNew o ho (hs.within.objects.has hold)
  obtain ⟨copy, heq⟩ : ∃ copy, (s.deepCopy (.object target)).1 = .object copy := ⟨_, rfl⟩
  rw [heq] at hspans hcopy hcontents
  exact ⟨copy, os, heq, hcopied, hcopy, hspans, hfresh, hnew, hcontents.of_spans hspans⟩

/-- A copy of an object over which another one is laid holds what the contents of the two laid over one
another are.  Both were there before. -/
theorem shows_overlay_deepCopy {target source : Handle .object} {c d : Contents α}
    (hs₀ : s₀.WellFormed) (hsource : s₀.Has (.object source)) (htarget : s₀.Has (.object target))
    (hshallow : s₀.Shallow (.object target)) (hs : s₀.Continues s)
    (hc : s₀.Shows s₀.objects.Has read (.object target) c)
    (hd : s₀.Shows s₀.objects.Has read (.object source) d) (hdepth : d.depth ≤ s₀.objects.size) :
    (overlay (s.deepCopy (.object target)).1 (.object source) (s.deepCopy (.object target)).2).Shows
      (overlay (s.deepCopy (.object target)).1 (.object source)
        (s.deepCopy (.object target)).2).objects.Has read (s.deepCopy (.object target)).1
      (c.overlay d) := by
  obtain ⟨copy, os, heq, hcopied, hcopy, hspans, hfresh, hnew, hcontents⟩ :=
    Store.exists_copy hs₀ htarget hshallow hs hc
  have hbefore : s₀.Within (s.deepCopy (.object target)).2 := hs.within.trans hcopied.within
  obtain ⟨properties, rfl, -, -⟩ := hc.exists_properties
  obtain ⟨sources, rfl, -, -⟩ := hd.exists_properties
  rw [heq]
  have hown := hcontents.mono fun o ho => (.inl ho : s₀.OwnOrOld os o)
  have hlevels : (Contents.object sources).depth ≤ (s.deepCopy (.object target)).2.nesting := by
    have hsize := hbefore.objects.size_le
    unfold Store.nesting
    omega
  have hlaid := laysOver hs₀ hsource hbefore hcopied.wellFormed hcopy hspans hfresh.nodup hnew hown hd
    hlevels
  -- the objects of the copy and those that were there are all in the store afterwards
  have hkept : ∀ v, (s.deepCopy (.object target)).2.Has v →
      (overlay (.object copy) (.object source) (s.deepCopy (.object target)).2).Has v :=
    (wellFormed_overlayAt hcopied.wellFormed (hbefore.has hsource)).2
  refine hlaid.mono fun o ho => ?_
  rcases ho with hmem | hold
  · exact hkept (.object o) (hfresh.has o hmem)
  · exact hkept (.object o) (hbefore.objects.has hold)

end Overlays

end ClassComposition
