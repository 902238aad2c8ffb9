import ClassComposition.Proofs.Store.Renaming

/-!
# Copies and overlays in two stores

One store follows another one under a renaming.  When a copy is made in both, or an overlay, they are the
same under the renaming, and the one store follows the other again.  The walks through the second store may
go deeper, which makes no difference when all of the value was met before.

## Main results

* `Store.Follows.deepCopyAt`, `Store.Follows.overlayAt` — copies and overlays of any depth.
* `Store.Follows.overlay_deepCopy` — an object laid over a copy of another one.
* `Store.grows_overlay_deepCopy` — the store has got objects only.
-/

namespace ClassComposition

namespace Store

variable {ρ : Renaming} {s s' t s₀ : Store}

namespace Follows

/-! ### Copies -/

/-- Values of entries that are copied in both give entries that are the same under the renaming. -/
theorem mapEntries {step step' : Value → Store → Value × Store} {entries : Assoc String Value}
    (hstep : ∀ p ∈ entries, ∀ s s', s₀.Continues s → Follows ρ s s' →
      Follows ρ (step p.2 s).2 (step' (ρ.value p.2) s').2 ∧
        (step' (ρ.value p.2) s').1 = ρ.value (step p.2 s).1 ∧ s₀.Continues (step p.2 s).2)
    (hs : s₀.Continues s) (h : Follows ρ s s') :
    Follows ρ (Store.mapEntries step entries s).2
        (Store.mapEntries step' (ρ.entries entries) s').2 ∧
      (Store.mapEntries step' (ρ.entries entries) s').1
        = ρ.entries (Store.mapEntries step entries s).1 := by
  induction entries generalizing s s' with
  | nil => exact ⟨h, rfl⟩
  | cons p rest ih =>
    obtain ⟨key, v⟩ := p
    rw [List.forall_mem_cons] at hstep
    obtain ⟨hfirst, hvalue, hgrown⟩ := hstep.1 s s' hs h
    obtain ⟨hothers, hvalues⟩ := ih hstep.2 hgrown hfirst
    exact ⟨hothers, congrArg₂ (fun x others => (key, x) :: others) hvalue hvalues⟩

end Follows

theorem deepCopyAt_of_leaf {v : Value} (hv : v.kind ≠ .object) (fuel : Nat) (s : Store) :
    deepCopyAt fuel v s = (v, s) := by
  cases v with
  | object o => exact absurd rfl hv
  | _ => cases fuel <;> rfl

/-- The copy of an object is a new object with the copies of its properties. -/
theorem deepCopyAt_object (fuel : Nat) (o : Handle .object) (s : Store) :
    deepCopyAt (fuel + 1) (.object o) s
      = (mapEntries (deepCopyAt fuel) (s.object o) s).2.newObject
          (mapEntries (deepCopyAt fuel) (s.object o) s).1 := rfl

namespace Follows

/-- A copy of a value that was there is made in both, and it is the same under the renaming.  The second
copy may go deeper: all of the value is met on the way. -/
theorem deepCopyAt (hs₀ : s₀.WellFormed) {fuel fuel' : Nat} (hle : fuel ≤ fuel') {v : Value}
    (hv : s₀.Has v) (hdepth : ∀ path, s₀.Descends v path → path.length ≤ fuel) (hs : s₀.Continues s)
    (h : Follows ρ s s') :
    Follows ρ (Store.deepCopyAt fuel v s).2 (Store.deepCopyAt fuel' (ρ.value v) s').2 ∧
      (Store.deepCopyAt fuel' (ρ.value v) s').1 = ρ.value (Store.deepCopyAt fuel v s).1 := by
  induction fuel generalizing fuel' v s s' with
  | zero =>
    by_cases hleaf : v.kind ≠ .object
    · rw [Renaming.value_of_leaf hleaf, deepCopyAt_of_leaf hleaf, deepCopyAt_of_leaf hleaf]
      exact ⟨h, (Renaming.value_of_leaf hleaf).symm⟩
    · cases v with
      | object o =>
        have hlast := hdepth [o] (.last o)
        simp at hlast
      | _ => exact absurd (by simp [Value.kind]) hleaf
  | succ fuel ih =>
    by_cases hleaf : v.kind ≠ .object
    · rw [Renaming.value_of_leaf hleaf, deepCopyAt_of_leaf hleaf, deepCopyAt_of_leaf hleaf]
      exact ⟨h, (Renaming.value_of_leaf hleaf).symm⟩
    cases v with
    | object o =>
      obtain ⟨fuel', rfl⟩ : ∃ n, fuel' = n + 1 := ⟨fuel' - 1, by omega⟩
      have hproperties : s.object o = s₀.object o := hs.within.object_eq hv
      -- both copies make their objects in the same order, so each new object is followed by its image
      have hstep : ∀ p ∈ s.object o, ∀ u u', s₀.Continues u → Follows ρ u u' →
          Follows ρ (Store.deepCopyAt fuel p.2 u).2 (Store.deepCopyAt fuel' (ρ.value p.2) u').2 ∧
            (Store.deepCopyAt fuel' (ρ.value p.2) u').1 = ρ.value (Store.deepCopyAt fuel p.2 u).1 ∧
            s₀.Continues (Store.deepCopyAt fuel p.2 u).2 := by
        intro p hp u u' hu hfollows
        rw [hproperties] at hp
        have hhas := hs₀.has_property o p hp
        obtain ⟨hnext, hvalue⟩ := ih (Nat.le_of_succ_le_succ hle) hhas
          (fun path hpath => Nat.le_of_succ_le_succ (hdepth (o :: path) (.down hp hpath))) hu hfollows
        exact ⟨hnext, hvalue, hu.trans (continues_deepCopyAt hu.wellFormed (hu.within.has hhas)).1⟩
      obtain ⟨hnext, hvalues⟩ := h.mapEntries hstep hs
      have hproperties' : s'.object ⟨ρ.object o.index⟩ = ρ.entries (s.object o) := h.object_eq o.index
      rw [Renaming.value, deepCopyAt_object, deepCopyAt_object, hproperties', hvalues]
      exact hnext.newObject _
    | _ => exact absurd (by simp [Value.kind]) hleaf

/-! ### Overlays -/

section Overlays

variable {fuel fuel' : Nat} {os : List (Handle .object)} {target source : Handle .object}

/-- The properties of a source, laid over a target one after the other, are so in both, when overlays one
level down are. -/
theorem foldl_overlayEntry {own : String → List (Handle .object)} {entries : Assoc String Value}
    (hbelow : ∀ {below above : Handle .object} {s s' : Store} {os : List (Handle .object)},
      s₀.Has (.object above) → s₀.Within s → s.Spans (.object below) os → os.Nodup →
      (∀ o ∈ os, ¬ s₀.objects.Has o) → os.length ≤ fuel → os.length ≤ fuel' → Follows ρ s s' →
      Follows ρ (overlayAt fuel (.object below) (.object above) s)
        (overlayAt fuel' (ρ.value (.object below)) (ρ.value (.object above)) s'))
    (hs₀ : s₀.WellFormed) (hnew : ∀ o ∈ os, ¬ s₀.objects.Has o) (htarget : target ∈ os)
    (hown : ∀ key, own key ⊆ os) (hlength : ∀ key, (own key).length ≤ fuel ∧ (own key).length ≤ fuel')
    (hhas : ∀ p ∈ entries, s₀.Has p.2) (hkeys : (Assoc.keys entries).Nodup) (hs : s₀.Within s)
    (hseparate : s.Separate target (Assoc.keys entries) own) (h : Follows ρ s s') :
    Follows ρ (entries.foldl (overlayEntry fuel (.object target)) s)
      ((ρ.entries entries).foldl (overlayEntry fuel' (ρ.value (.object target))) s') := by
  induction entries generalizing s s' with
  | nil => exact h
  | cons p rest ih =>
    obtain ⟨key, v⟩ := p
    obtain ⟨hkey, hrest⟩ := List.nodup_cons.mp hkeys
    rw [List.forall_mem_cons] at hhas
    obtain ⟨hchanged, hlater⟩ := changedAt_overlayEntry
      (fun hsource hs hspans hnodup hnew => changedAt_overlayAt hs₀ hsource hs hspans hnodup hnew)
      hnew htarget hown hhas.1 hkey hs hseparate
    refine ih hhas.2 hrest (hs.changedAt hchanged hnew) hlater ?_
    -- both sides find objects to go down into, or neither does
    have hproperty := h.property?_eq (.object target) key
    rcases overlayEntry_cases fuel (.object target) s key v with
      ⟨below, above, hfound, rfl, hentry⟩ | ⟨hneither, hentry⟩
    · rw [hfound] at hproperty
      have hentry' : overlayEntry fuel' (ρ.value (.object target)) s' (key, ρ.value (.object above))
          = overlayAt fuel' (ρ.value (.object below)) (ρ.value (.object above)) s' := by
        unfold overlayEntry
        dsimp only
        rw [hproperty]
        rfl
      rw [hentry, hentry']
      exact hbelow hhas.1 hs (hseparate.spans key List.mem_cons_self below hfound)
        (hseparate.nodup key) (fun o ho => hnew o (hown key ho)) (hlength key).1 (hlength key).2 h
    · have hentry' : overlayEntry fuel' (ρ.value (.object target)) s' (key, ρ.value v)
          = s'.setProperty (ρ.value (.object target)) key (ρ.value v) := by
        rcases overlayEntry_cases fuel' (ρ.value (.object target)) s' key (ρ.value v) with
          ⟨below', above', hfound', hv', -⟩ | ⟨-, hwritten⟩
        · -- only objects are renamed to objects
          rw [hfound'] at hproperty
          obtain ⟨x, hx, hvalue⟩ := Option.map_eq_some_iff.mp hproperty.symm
          cases x with
          | object below =>
            cases v with
            | object above => exact absurd rfl (hneither below above hx)
            | _ => cases hv'
          | _ => cases hvalue
        · exact hwritten
      rw [hentry, hentry']
      exact h.setProperty _ key v

/-- An overlay is made in both, each going as deep as the target or deeper. -/
theorem overlayAt (hs₀ : s₀.WellFormed) (hsource : s₀.Has (.object source)) (hs : s₀.Within s)
    (hspans : s.Spans (.object target) os) (hnodup : os.Nodup)
    (hnew : ∀ o ∈ os, ¬ s₀.objects.Has o) (hle : os.length ≤ fuel) (hle' : os.length ≤ fuel')
    (h : Follows ρ s s') :
    Follows ρ (ClassComposition.overlayAt fuel (.object target) (.object source) s)
      (ClassComposition.overlayAt fuel' (ρ.value (.object target)) (ρ.value (.object source)) s') := by
  induction fuel generalizing fuel' target source s s' os with
  | zero =>
    obtain ⟨below, rfl, -⟩ := hspans.exists_below
    simp at hle
  | succ fuel ih =>
    obtain ⟨below, rfl, hspansAll⟩ := hspans.exists_below
    obtain ⟨hnotMem, hbelowNodup⟩ := List.nodup_cons.mp hnodup
    obtain ⟨own, hown, hportions, hdisjoint⟩ := hspansAll.exists_own hbelowNodup
    obtain ⟨fuel', rfl⟩ : ∃ n, fuel' = n + 1 := ⟨fuel' - 1, by simp at hle'; omega⟩
    rw [List.length_cons] at hle hle'
    -- each property of the target has its own portion of the new objects, which bounds the fuel it needs
    have hlength : ∀ key, (own key).length ≤ fuel ∧ (own key).length ≤ fuel' := by
      intro key
      have hportion := (List.subperm_of_subset (hportions key).1 (hportions key).2).length_le
      omega
    have hentries : s.entries (.object source) = s₀.object source := hs.object_eq hsource
    rw [overlayAt_succ, overlayAt_succ, h.entries_eq, hentries]
    refine foldl_overlayEntry ih hs₀ hnew List.mem_cons_self ?_ hlength (hs₀.has_property source)
      (hs₀.nodup_keys source) hs ⟨?_, ?_, hdisjoint, ?_⟩ h
    · intro key o ho
      exact List.mem_cons_of_mem _ ((hportions key).2 ho)
    · intro key _ below hbelow
      exact hown key below hbelow
    · exact fun key => (hportions key).1
    · exact fun key hmem => hnotMem ((hportions key).2 hmem)

/-- An object is laid over a copy of another one in both. -/
theorem overlay_deepCopy (hs₀ : s₀.WellFormed) (htarget : s₀.Has (.object target))
    (hshallow : s₀.Shallow (.object target)) (hsource : s₀.Has (.object source))
    (hs : s₀.Continues s) (h : Follows ρ s s') :
    Follows ρ
        (overlay (s.deepCopy (.object target)).1 (.object source) (s.deepCopy (.object target)).2)
        (overlay (s'.deepCopy (ρ.value (.object target))).1 (ρ.value (.object source))
          (s'.deepCopy (ρ.value (.object target))).2) ∧
      (s'.deepCopy (ρ.value (.object target))).1 = ρ.value (s.deepCopy (.object target)).1 := by
  -- the store is at least as large as any way down the target is long
  have hdepth : ∀ path, s₀.Descends (.object target) path → path.length ≤ s.nesting := by
    intro path hpath
    have hlength := hshallow path hpath
    have hsize := hs.within.objects.size_le
    unfold nesting
    omega
  obtain ⟨hcopied, hvalue⟩ := h.deepCopyAt hs₀ h.nesting_le htarget hdepth hs
  obtain ⟨os, hspans, hfresh⟩ := fresh_deepCopy hs₀ htarget hshallow hs.within
  have hnew : ∀ o ∈ os, ¬ s₀.objects.Has o :=
    fun o ho hold => hfresh.isNew o ho (hs.within.objects.has hold)
  have hlength : os.length ≤ (s.deepCopy (.object target)).2.nesting := by
    have hle := length_le_of_has hfresh.nodup hfresh.has
    unfold nesting
    omega
  obtain ⟨copy, hcopy⟩ : ∃ copy, (s.deepCopy (.object target)).1 = .object copy := ⟨_, rfl⟩
  refine ⟨?_, hvalue⟩
  have hvalue' : (s'.deepCopy (ρ.value (.object target))).1 = ρ.value (.object copy) :=
    hvalue.trans (congrArg ρ.value hcopy)
  rw [hcopy] at hspans ⊢
  rw [hvalue']
  exact hcopied.overlayAt hs₀ hsource (hs.within.trans hfresh.within) hspans hfresh.nodup hnew hlength
    (Nat.le_trans hlength hcopied.nesting_le)

end Overlays

end Follows

/-! ### What is changed -/

theorem onlyObjects_setProperty (s : Store) (target : Value) (key : String) (v : Value) :
    s.OnlyObjects (s.setProperty target key v) := by
  cases target <;> rfl

/-- Where every value that is copied changes objects only, so do several one after the other. -/
theorem onlyObjects_mapEntries {step : Value → Store → Value × Store}
    (hstep : ∀ (v : Value) (s : Store), s.OnlyObjects (step v s).2) (entries : Assoc String Value)
    (s : Store) : s.OnlyObjects (mapEntries step entries s).2 := by
  induction entries generalizing s with
  | nil => rfl
  | cons p rest ih => exact (hstep p.2 s).trans (ih (step p.2 s).2)

theorem onlyObjects_deepCopyAt (fuel : Nat) (v : Value) (s : Store) :
    s.OnlyObjects (deepCopyAt fuel v s).2 := by
  induction fuel generalizing v s with
  | zero => cases v <;> rfl
  | succ fuel ih =>
    cases v with
    | object o =>
      have hmapped := onlyObjects_mapEntries ih (s.object o) s
      rw [deepCopyAt_object]
      exact hmapped.trans rfl
    | _ => rfl

theorem onlyObjects_overlayAt (fuel : Nat) (target source : Value) (s : Store) :
    s.OnlyObjects (overlayAt fuel target source s) := by
  induction fuel generalizing target source s with
  | zero => rfl
  | succ fuel ih =>
    rw [overlayAt_succ]
    generalize s.entries source = entries
    -- an entry either goes deeper or is one write to an object
    induction entries generalizing s with
    | nil => rfl
    | cons p rest ihrest =>
      obtain ⟨key, v⟩ := p
      refine OnlyObjects.trans ?_ (ihrest _)
      rcases overlayEntry_cases fuel target s key v with
        ⟨below, above, -, -, hentry⟩ | ⟨-, hentry⟩
      · rw [hentry]
        exact ih _ _ s
      · rw [hentry]
        exact onlyObjects_setProperty s target key v

theorem onlyObjects_overlay_deepCopy (target source : Handle .object) (s : Store) :
    s.OnlyObjects (overlay (s.deepCopy (.object target)).1 (.object source)
      (s.deepCopy (.object target)).2) :=
  OnlyObjects.trans (onlyObjects_deepCopyAt _ _ _) (onlyObjects_overlayAt _ _ _ _)

/-- An object that was there is laid over a copy of one that was there: the store has got objects. -/
theorem grows_overlay_deepCopy {target source : Handle .object} (hs₀ : s₀.WellFormed)
    (hsource : s₀.Has (.object source)) (htarget : s₀.Has (.object target))
    (hshallow : s₀.Shallow (.object target)) (hs : s₀.Grows s) :
    s₀.Grows (overlay (s.deepCopy (.object target)).1 (.object source) (s.deepCopy (.object target)).2) :=
  hs.of_onlyObjects (continues_overlay hs₀ hsource htarget hshallow hs.continues)
    (onlyObjects_overlay_deepCopy target source s)

end Store

end ClassComposition
