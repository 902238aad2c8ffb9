import ClassComposition.Class.Shared
import ClassComposition.Proofs.Store.Copies

/-!
# What an overlay changes

An overlay writes into the objects of its target and nowhere else.  It goes into an object that stands
under a key of the target before it writes anything under that key, and the objects under different keys
have none in common when the target's are pairwise different, as those of a copy are.  So it never follows
a handle that it has written itself, which may lead to an object of the source.

## Main definitions

* `Store.ChangedAt` — two stores that differ in some objects only.
* `Store.Separate` — the objects under the keys that are still to come, for each key its own.

## Main results

* `changedAt_overlayAt` — an overlay changes the objects of its target only.
* `continues_overlay` — laying properties over a copy changes nothing that was there.
-/

namespace ClassComposition

namespace Store

variable {s t u : Store} {os others : List (Handle .object)} {target : Handle .object}
  {key : String} {keys : List String} {own : String → List (Handle .object)}

/-! ### Changes to some objects -/

/-- The second store differs from the first in the properties of these objects only. -/
structure ChangedAt (os : List (Handle .object)) (s t : Store) : Prop where
  object_eq : ∀ o, o ∉ os → t.object o = s.object o
  size_eq : t.objects.size = s.objects.size
  rest_eq : t = { s with objects := t.objects }

theorem ChangedAt.refl (os : List (Handle .object)) (s : Store) : ChangedAt os s s :=
  ⟨fun _ _ => rfl, rfl, rfl⟩

theorem ChangedAt.trans (hst : ChangedAt os s t) (htu : ChangedAt os t u) : ChangedAt os s u where
  object_eq := by
    intro o ho
    rw [htu.object_eq o ho, hst.object_eq o ho]
  size_eq := htu.size_eq.trans hst.size_eq
  rest_eq := by
    rw [htu.rest_eq, hst.rest_eq]

theorem ChangedAt.mono (hst : ChangedAt os s t) (hos : os ⊆ others) : ChangedAt others s t where
  object_eq := fun o ho => hst.object_eq o fun hmem => ho (hos hmem)
  size_eq := hst.size_eq
  rest_eq := hst.rest_eq

/-- A change to new objects changes nothing that was there. -/
theorem Within.changedAt (hst : s.Within t) (htu : ChangedAt os t u)
    (hnew : ∀ o ∈ os, ¬ s.objects.Has o) : s.Within u := by
  obtain ⟨hobject, hsize, hrest⟩ := htu
  have hobjects : s.objects.Within u.objects := by
    refine ⟨?_, ?_⟩
    · rw [hsize]
      exact hst.objects.size_le
    intro o ho
    have hkept : u.object o = t.object o := hobject o fun hmem => hnew o hmem ho
    exact hkept.trans (hst.object_eq ho)
  rw [hrest]
  exact ⟨hobjects, hst.arrays, hst.functions, hst.patterns, hst.prototypes, hst.instances⟩

theorem changedAt_setProperty (s : Store) (target : Handle .object) (key : String) (value : Value) :
    ChangedAt [target] s (s.setProperty (.object target) key value) where
  object_eq := by
    intro o ho
    have hne : target ≠ o := by
      rintro rfl
      exact ho List.mem_cons_self
    exact Pool.get_set_of_ne s.objects _ hne
  size_eq := Pool.size_set s.objects target _
  rest_eq := rfl

theorem property?_setProperty_of_ne (s : Store) (target : Handle .object) (value : Value)
    {key other : String} (hne : key ≠ other) :
    (s.setProperty (.object target) key value).property? (.object target) other
      = s.property? (.object target) other := by
  show Assoc.get? ((s.objects.set target _).get target) other = Assoc.get? (s.object target) other
  by_cases hgood : s.objects.Has target
  · rw [Pool.get_set_self s.objects target _ hgood, Assoc.get?_insert_of_ne _ _ hne]
  · rw [Pool.get_set_of_not_has s.objects target _ hgood]
    rfl

/-! ### Objects under different keys -/

/-- Under each of the keys the target has an object with objects of its own, or none at all. -/
structure Separate (s : Store) (target : Handle .object) (keys : List String)
    (own : String → List (Handle .object)) : Prop where
  spans : ∀ key ∈ keys, ∀ below, s.property? (.object target) key = some (.object below) →
    s.Spans (.object below) (own key)
  nodup : ∀ key, (own key).Nodup
  disjoint : ∀ key other, key ≠ other → (own key).Disjoint (own other)
  notMem : ∀ key, target ∉ own key

/-- A step that leaves the properties and the objects under the remaining keys keeps them separate. -/
theorem Separate.rest (h : s.Separate target (key :: keys) own)
    (hproperty : ∀ other ∈ keys, t.property? (.object target) other = s.property? (.object target) other)
    (hobject : ∀ other ∈ keys, ∀ o ∈ own other, t.object o = s.object o) :
    t.Separate target keys own where
  spans := by
    intro other hother below hbelow
    rw [hproperty other hother] at hbelow
    exact (h.spans other (List.mem_cons_of_mem _ hother) below hbelow).congr (hobject other hother)
  nodup := h.nodup
  disjoint := h.disjoint
  notMem := h.notMem

/-- The objects of pairwise different entries are divided among their keys. -/
theorem SpansAll.exists_own {entries : Assoc String Value} (h : s.SpansAll entries os)
    (hnodup : os.Nodup) :
    ∃ own : String → List (Handle .object),
      (∀ key below, Assoc.get? entries key = some (.object below) →
        s.Spans (.object below) (own key)) ∧
      (∀ key, (own key).Nodup ∧ own key ⊆ os) ∧
      ∀ key other, key ≠ other → (own key).Disjoint (own other) := by
  induction entries generalizing os with
  | nil =>
    refine ⟨fun _ => [], ?_, ?_, ?_⟩
    · intro key below hbelow
      cases hbelow
    · simp
    · simp
  | cons p rest ih =>
    obtain ⟨name, v⟩ := p
    obtain ⟨first, later, rfl, hfirst, hlater⟩ := h.exists_first
    obtain ⟨hfirstNodup, hlaterNodup, hapart⟩ := List.nodup_append.mp hnodup
    obtain ⟨own, hspans, hown, hdisjoint⟩ := ih hlater hlaterNodup
    -- the first entry has its objects under its name, and what is under other keys comes later
    refine ⟨fun key => if name = key then first else own key, ?_, ?_, ?_⟩
    · intro key below hbelow
      by_cases hname : name = key
      · simp only [Assoc.get?, if_pos hname, Option.some.injEq] at hbelow ⊢
        rw [← hbelow]
        exact hfirst
      · simp only [Assoc.get?, if_neg hname] at hbelow ⊢
        exact hspans key below hbelow
    · intro key
      by_cases hname : name = key
      · simp only [if_pos hname]
        exact ⟨hfirstNodup, List.subset_append_left _ _⟩
      · simp only [if_neg hname]
        exact ⟨(hown key).1, fun o ho => List.mem_append_right _ ((hown key).2 ho)⟩
    · intro key other hne
      have hfirstLater : ∀ key, first.Disjoint (own key) := by
        intro key o ho hlater
        exact hapart o ho o ((hown key).2 hlater) rfl
      by_cases hkey : name = key
      · have hother : name ≠ other := hkey ▸ hne
        simp only [if_pos hkey, if_neg hother]
        exact hfirstLater other
      · by_cases hother : name = other
        · simp only [if_neg hkey, if_pos hother]
          exact List.disjoint_symm (hfirstLater key)
        · simp only [if_neg hkey, if_neg hother]
          exact hdisjoint key other hne

end Store

/-! ### Overlays -/

/-- What an overlay does with one property of its source. -/
def overlayEntry (fuel : Nat) (target : Value) (s : Store) (p : String × Value) : Store :=
  match s.property? target p.1, p.2 with
  | some (.object below), .object above => overlayAt fuel (.object below) (.object above) s
  | _, v => s.setProperty target p.1 v

theorem overlayAt_succ (fuel : Nat) (target source : Value) (s : Store) :
    overlayAt (fuel + 1) target source s
      = (s.entries source).foldl (overlayEntry fuel target) s := rfl

/-- A property is laid over an object where both are objects, and else written. -/
theorem overlayEntry_cases (fuel : Nat) (target : Value) (s : Store) (key : String) (v : Value) :
    (∃ below above, s.property? target key = some (.object below) ∧ v = .object above ∧
      overlayEntry fuel target s (key, v) = overlayAt fuel (.object below) (.object above) s) ∨
    (∀ below above, s.property? target key = some (.object below) → v ≠ .object above) ∧
      overlayEntry fuel target s (key, v) = s.setProperty target key v := by
  unfold overlayEntry
  split
  · next below above hproperty hv => exact .inl ⟨below, above, hproperty, hv, rfl⟩
  · next hneither =>
    exact .inr ⟨fun below above hproperty hv => hneither below above hproperty hv, rfl⟩

section Changes

variable {s₀ s : Store} {fuel : Nat} {os : List (Handle .object)} {target source : Handle .object}

/-- One property of a source that was there, laid over a target, changes objects of the target only, and
nothing under the keys that are still to come. -/
theorem changedAt_overlayEntry {own : String → List (Handle .object)} {key : String} {v : Value}
    {rest : List String}
    (hbelow : ∀ {below above : Handle .object} {s : Store} {os : List (Handle .object)},
      s₀.Has (.object above) → s₀.Within s → s.Spans (.object below) os → os.Nodup →
      (∀ o ∈ os, ¬ s₀.objects.Has o) →
      s.ChangedAt os (overlayAt fuel (.object below) (.object above) s))
    (hnew : ∀ o ∈ os, ¬ s₀.objects.Has o) (htarget : target ∈ os) (hown : ∀ key, own key ⊆ os)
    (hv : s₀.Has v) (hkey : key ∉ rest) (hs : s₀.Within s)
    (hseparate : s.Separate target (key :: rest) own) :
    s.ChangedAt os (overlayEntry fuel (.object target) s (key, v)) ∧
      (overlayEntry fuel (.object target) s (key, v)).Separate target rest own := by
  have hne : ∀ other ∈ rest, key ≠ other := by
    rintro other hother rfl
    exact hkey hother
  rcases overlayEntry_cases fuel (.object target) s key v with
    ⟨below, above, hproperty, rfl, hentry⟩ | ⟨-, hentry⟩
  · -- both are objects, and the objects of the one under the key are apart from all others
    have hspans := hseparate.spans key List.mem_cons_self below hproperty
    have hinner := hbelow hv hs hspans (hseparate.nodup key) fun o ho => hnew o (hown key ho)
    rw [hentry]
    refine ⟨hinner.mono (hown key), hseparate.rest ?_ ?_⟩
    · intro other _
      have hsame := hinner.object_eq target (hseparate.notMem key)
      exact congrArg (Assoc.get? · other) hsame
    · intro other hother o ho
      refine hinner.object_eq o fun hmem => ?_
      exact hseparate.disjoint key other (hne other hother) hmem ho
  · -- the property is written to the target, which is none of the objects below it
    have hwritten := Store.changedAt_setProperty s target key v
    rw [hentry]
    refine ⟨hwritten.mono (List.cons_subset.mpr ⟨htarget, List.nil_subset _⟩), hseparate.rest ?_ ?_⟩
    · intro other hother
      exact Store.property?_setProperty_of_ne s target v (hne other hother)
    · intro other _ o ho
      refine hwritten.object_eq o fun hmem => ?_
      obtain rfl := List.mem_singleton.mp hmem
      exact hseparate.notMem other ho

/-- The properties of a source that was there, laid over a target one after the other, change objects of
the target only, when the overlays one level down do. -/
theorem changedAt_foldl {own : String → List (Handle .object)} {entries : Assoc String Value}
    (hbelow : ∀ {below above : Handle .object} {s : Store} {os : List (Handle .object)},
      s₀.Has (.object above) → s₀.Within s → s.Spans (.object below) os → os.Nodup →
      (∀ o ∈ os, ¬ s₀.objects.Has o) →
      s.ChangedAt os (overlayAt fuel (.object below) (.object above) s))
    (hnew : ∀ o ∈ os, ¬ s₀.objects.Has o) (htarget : target ∈ os) (hown : ∀ key, own key ⊆ os)
    (hhas : ∀ p ∈ entries, s₀.Has p.2) (hkeys : (Assoc.keys entries).Nodup) (hs : s₀.Within s)
    (hseparate : s.Separate target (Assoc.keys entries) own) :
    s.ChangedAt os (entries.foldl (overlayEntry fuel (.object target)) s) := by
  induction entries generalizing s with
  | nil => exact .refl os s
  | cons p rest ih =>
    obtain ⟨key, v⟩ := p
    obtain ⟨hkey, hrest⟩ := List.nodup_cons.mp hkeys
    rw [List.forall_mem_cons] at hhas
    obtain ⟨hstep, hlater⟩ :=
      changedAt_overlayEntry hbelow hnew htarget hown hhas.1 hkey hs hseparate
    have hothers := ih hhas.2 hrest (hs.changedAt hstep hnew) hlater
    exact hstep.trans hothers

/-- An overlay changes objects of its target only, when these are new and pairwise different and the
source was there. -/
theorem changedAt_overlayAt (hs₀ : s₀.WellFormed) (hsource : s₀.Has (.object source))
    (hs : s₀.Within s) (hspans : s.Spans (.object target) os) (hnodup : os.Nodup)
    (hnew : ∀ o ∈ os, ¬ s₀.objects.Has o) :
    s.ChangedAt os (overlayAt fuel (.object target) (.object source) s) := by
  induction fuel generalizing target source s os with
  | zero => exact .refl os s
  | succ fuel ih =>
    obtain ⟨below, rfl, hspansAll⟩ := hspans.exists_below
    obtain ⟨hnotMem, hbelowNodup⟩ := List.nodup_cons.mp hnodup
    obtain ⟨own, hown, hportions, hdisjoint⟩ := hspansAll.exists_own hbelowNodup
    have hentries : s.entries (.object source) = s₀.object source := hs.object_eq hsource
    rw [overlayAt_succ, hentries]
    refine changedAt_foldl ih hnew List.mem_cons_self ?_ (hs₀.has_property source)
      (hs₀.nodup_keys source) hs ⟨?_, ?_, hdisjoint, ?_⟩
    · intro key o ho
      exact List.mem_cons_of_mem _ ((hportions key).2 ho)
    · intro key _ below hbelow
      exact hown key below hbelow
    · exact fun key => (hportions key).1
    · exact fun key hmem => hnotMem ((hportions key).2 hmem)

/-- One property that the store has, laid over a target, leaves a well-formed store that has lost nothing,
when the overlays one level down do. -/
theorem wellFormed_overlayEntry (key : String) {target v : Value}
    (hbelow : ∀ {target source : Value} {s : Store}, s.WellFormed → s.Has source →
      (overlayAt fuel target source s).WellFormed ∧
        ∀ v, s.Has v → (overlayAt fuel target source s).Has v)
    (hs : s.WellFormed) (hv : s.Has v) :
    (overlayEntry fuel target s (key, v)).WellFormed ∧
      ∀ other, s.Has other → (overlayEntry fuel target s (key, v)).Has other := by
  rcases overlayEntry_cases fuel target s key v with
    ⟨below, above, -, rfl, hentry⟩ | ⟨-, hentry⟩
  · rw [hentry]
    exact hbelow hs hv
  · rw [hentry]
    refine ⟨hs.setProperty hv target key, ?_⟩
    intro other hother
    exact Store.has_setProperty hother target key v

theorem wellFormed_foldl {target : Value} {entries : Assoc String Value}
    (hbelow : ∀ {target source : Value} {s : Store}, s.WellFormed → s.Has source →
      (overlayAt fuel target source s).WellFormed ∧
        ∀ v, s.Has v → (overlayAt fuel target source s).Has v)
    (hs : s.WellFormed) (hentries : ∀ p ∈ entries, s.Has p.2) :
    (entries.foldl (overlayEntry fuel target) s).WellFormed ∧
      ∀ v, s.Has v → (entries.foldl (overlayEntry fuel target) s).Has v := by
  induction entries generalizing s with
  | nil => exact ⟨hs, fun _ hv => hv⟩
  | cons p rest ih =>
    obtain ⟨key, v⟩ := p
    rw [List.forall_mem_cons] at hentries
    obtain ⟨hwellStep, hkept⟩ := wellFormed_overlayEntry key hbelow hs hentries.1
    -- what comes later in the source was in the store from the start, and no step loses it
    obtain ⟨hwell, hlost⟩ := ih hwellStep fun p hp => hkept p.2 (hentries.2 p hp)
    exact ⟨hwell, fun other hother => hlost other (hkept other hother)⟩

/-- An overlay of a source that the store has leaves a well-formed store, which has lost nothing. -/
theorem wellFormed_overlayAt {target source : Value} (hs : s.WellFormed) (hsource : s.Has source) :
    (overlayAt fuel target source s).WellFormed ∧
      ∀ v, s.Has v → (overlayAt fuel target source s).Has v := by
  induction fuel generalizing target source s with
  | zero => exact ⟨hs, fun _ hv => hv⟩
  | succ fuel ih =>
    have hentries : ∀ p ∈ s.entries source, s.Has p.2 := by
      cases source with
      | object o => exact hs.has_property o
      | _ => simp [Store.entries]
    rw [overlayAt_succ]
    exact wellFormed_foldl ih hs hentries

/-- Laying an object that was there over a copy of one that was there changes nothing that was there. -/
theorem continues_overlay (hs₀ : s₀.WellFormed) (hsource : s₀.Has (.object source))
    (htarget : s₀.Has (.object target)) (hshallow : s₀.Shallow (.object target))
    (hs : s₀.Continues s) :
    s₀.Continues (overlay (s.deepCopy (.object target)).1 (.object source)
      (s.deepCopy (.object target)).2) := by
  obtain ⟨os, hspans, hfresh⟩ := Store.fresh_deepCopy hs₀ htarget hshallow hs.within
  obtain ⟨hcopied, -⟩ := Store.continues_deepCopyAt hs.wellFormed (hs.within.has htarget)
  have hbefore : s₀.Within (s.deepCopy (.object target)).2 := hs.within.trans hfresh.within
  have hnew : ∀ o ∈ os, ¬ s₀.objects.Has o :=
    fun o ho hold => hfresh.isNew o ho (hs.within.objects.has hold)
  obtain ⟨copy, hcopy⟩ : ∃ copy, (s.deepCopy (.object target)).1 = .object copy := ⟨_, rfl⟩
  rw [hcopy] at hspans ⊢
  refine ⟨?_, (wellFormed_overlayAt hcopied.wellFormed (hbefore.has hsource)).1⟩
  exact hbefore.changedAt (changedAt_overlayAt hs₀ hsource hbefore hspans hfresh.nodup hnew) hnew

end Changes

end ClassComposition
