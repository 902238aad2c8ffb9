import ClassComposition.Proofs.Class.OverlayResult
import ClassComposition.Proofs.Class.SharedState
import ClassComposition.Proofs.Registry.Atomicity
import ClassComposition.Proofs.Store.Following

/-!
# Inheriting shared members

A class starts from the shared members of its parent.  Whether it may is told from the kinds of the values
alone, name by name in the parent's order.  A member that is redeclared with an object is a copy of the
parent's over which the body's is laid; it is new, and what was there before stays as it is.

## Main definitions

* `Store.Copies` — a copy that comes to an end, with no bound on how deep it goes.
* `SharedMembers.kindChange?` — the error for a shared member that is redeclared with another kind.
* `SharedMembers.Inherits` — what becomes of a shared member of the parent.

## Main results

* `Store.Shows.copies` — a walk that is as deep as a value copies all of it.
* `overlay_deepCopy_result` — what an object laid over a copy comes to.
* `SharedMembers.inherit_result` — the shared members that a class starts from.
-/

namespace ClassComposition

/-! ### Copies that come to an end -/

namespace Store

mutual

/-- Copying a value comes to an end, with the copy and the store that are left. -/
inductive Copies : Value → Store → Value → Store → Prop
  | leaf {v : Value} {s : Store} (h : v.kind ≠ .object) : Copies v s v s
  | object {o : Handle .object} {s t : Store} {properties : Assoc String Value}
      (entries : CopiesAll (s.object o) s properties t) :
      Copies (.object o) s (t.newObject properties).1 (t.newObject properties).2

/-- So does copying the values of entries one after the other. -/
inductive CopiesAll : Assoc String Value → Store → Assoc String Value → Store → Prop
  | nil {s : Store} : CopiesAll [] s [] s
  | cons {key : String} {v w : Value} {rest others : Assoc String Value} {s t u : Store}
      (first : Copies v s w t) (later : CopiesAll rest t others u) :
      CopiesAll ((key, v) :: rest) s ((key, w) :: others) u

end

variable {α : Type} {s₀ : Store} {read : Value → α}

mutual

/-- A walk that may go as deep as the contents of a value are copies all of it. -/
theorem Shows.copies {s : Store} {fuel : Nat} (hs : s₀.Within s) {v : Value} {c : Contents α}
    (hdepth : c.depth ≤ fuel) :
    s₀.Shows s₀.objects.Has read v c → Copies v s (deepCopyAt fuel v s).1 (deepCopyAt fuel v s).2
  | .leaf hleaf => by
    rw [deepCopyAt_of_leaf hleaf]
    exact .leaf hleaf
  | .object ho below => by
    rw [Contents.depth] at hdepth
    obtain ⟨levels, rfl⟩ : ∃ levels, fuel = levels + 1 := ⟨fuel - 1, by omega⟩
    have hall := below.copies hs (Nat.le_of_succ_le_succ hdepth)
    rw [← hs.object_eq ho] at hall
    rw [deepCopyAt_object]
    exact .object hall

theorem ShowsAll.copies {s : Store} {fuel : Nat} (hs : s₀.Within s) {entries : Assoc String Value}
    {properties : List (String × Contents α)} (hdepth : Contents.depthAll properties ≤ fuel) :
    s₀.ShowsAll s₀.objects.Has read entries properties →
      CopiesAll entries s (mapEntries (deepCopyAt fuel) entries s).1
        (mapEntries (deepCopyAt fuel) entries s).2
  | .nil => .nil
  | @ShowsAll.cons _ _ _ _ _ v _ _ _ first below => by
    rw [Contents.depthAll] at hdepth
    have hfirst := first.copies hs (Nat.le_trans (Nat.le_max_left _ _) hdepth)
    have hgrown := hs.trans (addsContainers_deepCopyAt fuel v s).within
    exact .cons hfirst (below.copies hgrown (Nat.le_trans (Nat.le_max_right _ _) hdepth))

end

/-- The objects that are in the second store and not in the first. -/
def NewObject (s t : Store) (o : Handle .object) : Prop := ¬ s.objects.Has o ∧ t.objects.Has o

theorem StandsFor.within {t u : Store} {v : Value} {c : Contents Value}
    (h : t.StandsFor (s₀.NewObject t) v c) (htu : t.Within u) : u.StandsFor (s₀.NewObject u) v c :=
  h.congr fun _ ho => ⟨⟨ho.1, htu.objects.has ho.2⟩, htu.object_eq ho.2⟩

end Store

/-! ### Objects laid over copies -/

/-- A copy of an object that was there and does not lie below itself comes to an end, and so does laying
another one over it.  What comes of it stands for the contents of the first under the second, and is made
of new objects only. -/
theorem overlay_deepCopy_result {s₀ s t : Store} {target source : Handle .object} {made : Value}
    (hs₀ : s₀.WellFormed) (hsource : s₀.Has (.object source)) (htarget : s₀.Has (.object target))
    (hacyclic : s₀.Acyclic (.object target)) (hs : s₀.Continues s)
    (hcopy : s.deepCopy (.object target) = (made, t)) :
    Store.Copies (.object target) s made t ∧
    Overlays made (.object source) t (overlay made (.object source) t) ∧
    s.Within (overlay made (.object source) t) ∧
    ∃ c, s₀.Shows s₀.objects.Has id (.object target) c ∧
      (overlay made (.object source) t).StandsFor (s₀.NewObject (overlay made (.object source) t)) made
        (c.under s₀ (.object source)) := by
  obtain ⟨c, hc, hdepth⟩ := hacyclic.exists_shows hs₀ htarget id
  -- no store is walked less deep than the contents of an object that an earlier one had
  have hlevels : c.depth ≤ s.nesting := by
    have hsize := hs.within.objects.size_le
    unfold Store.nesting
    omega
  have hcopies : Store.Copies (.object target) s (s.deepCopy (.object target)).1
      (s.deepCopy (.object target)).2 := hc.copies hs.within hlevels
  obtain ⟨copy, os, heq, hcopied, hmade, hspans, hfresh, hnew, hcontents⟩ :=
    Store.exists_copy hs₀ htarget (hacyclic.shallow hs₀ htarget) hs hc
  rw [hcopy] at heq hcopies hcopied hmade hspans hfresh hcontents
  obtain rfl : made = .object copy := heq
  have hbefore : s₀.Within t := hs.within.trans hcopied.within
  -- the copy has added objects, so there is room for the overlay as well
  have hroom : c.depth ≤ t.nesting := by
    have hsize := hbefore.objects.size_le
    unfold Store.nesting
    omega
  obtain ⟨hstands, hends⟩ := laysUnder hs₀ hsource hbefore hcopied.wellFormed hmade hspans hfresh.nodup
    hnew hcontents hroom
  have hchanged : t.ChangedAt os (overlay (.object copy) (.object source) t) :=
    changedAt_overlayAt hs₀ hsource hbefore hspans hfresh.nodup hnew
  refine ⟨hcopies, hends, hcopied.within.changedAt hchanged hfresh.isNew, c, hc, ?_⟩
  refine hstands.mono fun o ho => ⟨hnew o ho, ?_⟩
  have hhas : o.index < t.objects.size := hfresh.has o ho
  exact Nat.lt_of_lt_of_eq hhas hchanged.size_eq.symm

/-! ### Shared members -/

namespace SharedMembers

/-- The error for a shared member of the parent that is redeclared, unless both are arrays or both are
objects. -/
def kindChange? (path : String) (b : ClassBody) (p : String × Value) : Option ClassError :=
  match b.get? p.1 with
  | none => none
  | some declared =>
    if (p.2.kind = .array ∧ declared.kind = .array) ∨ (p.2.kind = .object ∧ declared.kind = .object) then
      none
    else some (.sharedKindChanged path p.1 p.2.kind declared.kind)

/-- What becomes of a shared member of the parent, given what the body has under its name: it stays, it
gives way to the body's array, or to a new object that stands for its contents under the body's object. -/
inductive Inherits (s u : Store) : Value → Option Value → Value → Prop
  | same (inherited : Value) : Inherits s u inherited none inherited
  | array (a b : Handle .array) : Inherits s u (.array a) (some (.array b)) (.array b)
  | object {target source : Handle .object} {made : Value} {c : Contents Value}
      (contents : s.Shows s.objects.Has id (.object target) c)
      (stands : u.StandsFor (s.NewObject u) made (c.under s (.object source))) :
      Inherits s u (.object target) (some (.object source)) made

variable {path : String} {b : ClassBody} {s₀ : Store} {w : World}

theorem Inherits.within {s u u' : Store} {inherited v : Value} {declared? : Option Value}
    (h : Inherits s u inherited declared? v) (hu : u.Within u') : Inherits s u' inherited declared? v := by
  cases h with
  | same => exact .same _
  | array a b => exact .array a b
  | object contents stands => exact .object contents (stands.within hu)

variable (path) in
/-- A shared member is refused without any change, or becomes what it is to become. -/
theorem inheritOne_result (hs₀ : s₀.WellFormed) (hw : s₀.Continues w.store) {p : String × Value}
    (hinherited : s₀.Has p.2 ∧ s₀.Acyclic p.2) (hdeclared : ∀ v, b.get? p.1 = some v → s₀.Has v) :
    (∃ e, kindChange? path b p = some e ∧
      (inheritOne path p.1 p.2 (b.get? p.1)).run w = (.error e, w)) ∨
    (kindChange? path b p = none ∧ ∃ v w', (inheritOne path p.1 p.2 (b.get? p.1)).run w = (.ok v, w') ∧
      w.store.Within w'.store ∧ Inherits s₀ w'.store p.2 (b.get? p.1) v) := by
  obtain ⟨name, inherited⟩ := p
  rcases hget : b.get? name with _ | declared
  · refine .inr ⟨?_, inherited, w, rfl, .refl _, .same inherited⟩
    simp only [kindChange?, hget]
  · have hrefused : ¬ ((inherited.kind = .array ∧ declared.kind = .array) ∨
          (inherited.kind = .object ∧ declared.kind = .object)) →
        kindChange? path b (name, inherited)
          = some (.sharedKindChanged path name inherited.kind declared.kind) := by
      intro hkinds
      simp only [kindChange?, hget, if_neg hkinds]
    have htaken : (inherited.kind = .array ∧ declared.kind = .array) ∨
          (inherited.kind = .object ∧ declared.kind = .object) →
        kindChange? path b (name, inherited) = none := by
      intro hkinds
      simp only [kindChange?, hget, if_pos hkinds]
    cases inherited with
    | array a =>
      cases declared with
      | array a' =>
        exact .inr ⟨htaken (.inl ⟨rfl, rfl⟩), .array a', w, rfl, .refl _, .array a a'⟩
      | _ => exact .inl ⟨_, hrefused (by simp [Value.kind]), rfl⟩
    | object target =>
      cases declared with
      | object source =>
        -- the copy and the overlay on it are one change of the store
        rcases hcopy : w.store.deepCopy (.object target) with ⟨made, t⟩
        obtain ⟨-, -, hkept, c, hc, hstands⟩ := overlay_deepCopy_result hs₀
          (hdeclared _ hget) hinherited.1 hinherited.2 hw hcopy
        refine .inr ⟨htaken (.inr ⟨rfl, rfl⟩), made, { w with store := overlay made (.object source) t },
          ?_, hkept, .object hc hstands⟩
        rw [run_inheritOne_object, hcopy]
      | _ => exact .inl ⟨_, hrefused (by simp [Value.kind]), rfl⟩
    | _ => exact .inl ⟨_, hrefused (by simp [Value.kind]), by cases declared <;> rfl⟩

variable (path) in
/-- Shared members are refused for the first of them that changes its kind, or each becomes what it is to
become. -/
theorem run_inherit (hs₀ : s₀.WellFormed) (hw : s₀.Continues w.store)
    {parent : SharedMembers} (hparent : ∀ p ∈ parent, s₀.Has p.2 ∧ s₀.Acyclic p.2)
    (hbody : ∀ p ∈ b.entries, s₀.Has p.2) :
    (∃ e w', parent.findSome? (kindChange? path b) = some e ∧
      (inherit path b parent).run w = (.error e, w')) ∨
    (parent.findSome? (kindChange? path b) = none ∧ ∃ shared w',
      (inherit path b parent).run w = (.ok shared, w') ∧ w.store.Within w'.store ∧
      Assoc.Beside (fun name inherited v => Inherits s₀ w'.store inherited (b.get? name) v) parent
        shared) := by
  induction parent generalizing w with
  | nil => exact .inr ⟨rfl, [], w, rfl, .refl _, .nil⟩
  | cons p rest ih =>
    obtain ⟨name, inherited⟩ := p
    rw [List.forall_mem_cons] at hparent
    obtain ⟨hfirst, hrest⟩ := hparent
    have hdeclared : ∀ v, b.get? name = some v → s₀.Has v :=
      fun v hv => hbody _ (Assoc.mem_of_get? hv)
    have hcontinues : (inheritOne path name inherited (b.get? name)).Preserves s₀.Continues :=
      preserves_inheritOne hs₀ (fun _ => ⟨hfirst.1, hfirst.2.shallow hs₀ hfirst.1⟩) hdeclared
    rw [inherit, List.findSome?_cons]
    -- a member that changes its kind ends the run; otherwise the rest is handed down in the store that this
    -- one has left
    rcases inheritOne_result path hs₀ hw hfirst hdeclared with
      ⟨e, hchange, hrun⟩ | ⟨hkept, v, w₁, hrun, hgrown, hone⟩
    · rw [hchange]
      refine .inl ⟨e, w, rfl, ?_⟩
      rw [Action.run_bind, hrun]
    · have hlater := hcontinues w hw
      rw [hrun] at hlater
      rw [hkept, Action.run_bind, hrun]
      dsimp only
      rw [Action.run_bind, Action.run_record]
      dsimp only
      rw [Action.run_bind]
      rcases ih (w := ⟨w₁.store, .sharedInherited path name (b.contains name) :: w₁.journal⟩)
          hlater hrest with ⟨e, w', hfound, hothers⟩ | ⟨hfound, shared, w', hothers, hthen, hall⟩
      · exact .inl ⟨e, w', hfound, by rw [hothers]⟩
      · refine .inr ⟨hfound, (name, v) :: shared, w', ?_, hgrown.trans hthen, ?_⟩
        · rw [hothers]
          rfl
        · exact .cons ⟨rfl, hone.within hthen⟩ hall

theorem kind_of_kindChange? {p : String × Value} {e : ClassError} (h : kindChange? path b p = some e) :
    e.kind = .invalidOverride := by
  unfold kindChange? at h
  split at h
  · cases h
  · split_ifs at h
    cases h
    rfl

variable (path) in
/-- A class starts from the shared members of its parent, none of which lies below itself; in what the body
declares an object may.  Each copy and each overlay that this takes comes to an end.  It fails exactly when
one of the members is redeclared and the two values are neither both arrays nor both objects, for the first
of these in the parent's order.  If it succeeds, the members have the names of the parent's in their order: one
that is not redeclared is the parent's value, a redeclared array is the body's, and a redeclared object is
made of new objects and stands for the contents of the parent's under the body's.  No object and no array
that was there is changed at any depth. -/
theorem inherit_result {parent : SharedMembers} (hs : w.store.WellFormed)
    (hparent : ∀ p ∈ parent, w.store.Has p.2 ∧ w.store.Acyclic p.2)
    (hbody : ∀ p ∈ b.entries, w.store.Has p.2) :
    (∀ p ∈ parent, ∀ target source, p.2 = .object target → b.get? p.1 = some (.object source) →
      ∀ s, w.store.Continues s → ∀ made t, s.deepCopy (.object target) = (made, t) →
        Store.Copies (.object target) s made t ∧
          Overlays made (.object source) t (overlay made (.object source) t)) ∧
    ∃ outcome w', (inherit path b parent).run w = (outcome, w') ∧
      (∀ e, outcome = .error e ↔ parent.findSome? (kindChange? path b) = some e) ∧
      (∀ e, outcome = .error e → e.kind = .invalidOverride) ∧
      (∀ shared, outcome = .ok shared →
        Assoc.Beside (fun name inherited v => Inherits w.store w'.store inherited (b.get? name) v) parent
          shared) ∧
      w.store.Continues w'.store ∧
      ∀ v, w.store.Has v → ∀ steps, w'.store.reach? v steps = w.store.reach? v steps := by
  have hdeclared : ∀ {name v}, b.get? name = some v → w.store.Has v :=
    fun hv => hbody _ (Assoc.mem_of_get? hv)
  have hpreserves : (inherit path b parent).Preserves w.store.Continues :=
    preserves_inherit fun p hp => preserves_inheritOne hs
      (fun _ => ⟨(hparent p hp).1, (hparent p hp).2.shallow hs (hparent p hp).1⟩) fun _ => hdeclared
  have hkept := hpreserves w hs.continues
  refine ⟨?_, ?_⟩
  · intro p hp target source htarget hsource s hcontinues made t hcopy
    obtain ⟨hhas, hacyclic⟩ := hparent p hp
    rw [htarget] at hhas hacyclic
    obtain ⟨hcopies, hends, -⟩ :=
      overlay_deepCopy_result hs (hdeclared hsource) hhas hacyclic hcontinues hcopy
    exact ⟨hcopies, hends⟩
  -- the run fails exactly where some member changes its kind, and the first such one is reported
  rcases run_inherit path hs hs.continues hparent hbody with
    ⟨e, w', hfound, hrun⟩ | ⟨hfound, shared, w', hrun, -, hall⟩
  · rw [hrun] at hkept
    refine ⟨_, w', hrun, ?_, ?_, ?_, hkept, fun v hv steps => hkept.within.reach?_eq hs hv steps⟩
    · intro e'
      rw [hfound, Except.error.injEq, Option.some.injEq]
    · rintro e' heq
      cases heq
      obtain ⟨p, -, hchange⟩ := List.exists_of_findSome?_eq_some hfound
      exact kind_of_kindChange? hchange
    · rintro shared heq
      cases heq
  · rw [hrun] at hkept
    refine ⟨_, w', hrun, ?_, ?_, ?_, hkept, fun v hv steps => hkept.within.reach?_eq hs hv steps⟩
    · intro e
      simp [hfound]
    · rintro e heq
      cases heq
    · rintro shared' heq
      cases heq
      exact hall

end SharedMembers

namespace Sample

/-- A world with the options of a parent, and those of a body in which an object lies below itself. -/
def looped : World :=
  ⟨(((Store.empty.newObject [("bold", .boolean false)]).2.newObject
      [("size", .null), ("style", .object ⟨0⟩)]).2.newObject
      [("style", .object ⟨2⟩), ("extra", .null)]).2, []⟩

/-- The body that redeclares the options. -/
def loopedBody : ClassBody := ⟨[("options", .object ⟨2⟩)]⟩

theorem looped_wellFormed : looped.store.WellFormed := by
  -- three objects and nothing else: every handle that is good is looked at
  refine ⟨?_, ?_, ?_⟩
  · rintro ⟨index⟩ p hp
    match index with
    | 0 =>
      obtain rfl := List.mem_singleton.mp hp
      trivial
    | 1 =>
      rcases List.mem_cons.mp hp with rfl | hrest
      · trivial
      · obtain rfl := List.mem_singleton.mp hrest
        exact Nat.zero_lt_succ 2
    | 2 =>
      rcases List.mem_cons.mp hp with rfl | hrest
      · exact Nat.lt_succ_self 2
      · obtain rfl := List.mem_singleton.mp hrest
        trivial
    | index + 3 => cases hp
  · rintro ⟨index⟩ v hv
    cases hv
  · rintro ⟨index⟩
    match index with
    | 0 => decide
    | 1 => decide
    | 2 => decide
    | index + 3 => exact List.nodup_nil

theorem looped_shows : looped.store.Shows looped.store.objects.Has id (.object ⟨1⟩)
    (.object [("size", .leaf .null), ("style", .object [("bold", .leaf (.boolean false))])]) := by
  have hleaf : ∀ {v : Value}, v.kind ≠ .object →
      looped.store.Shows looped.store.objects.Has id v (.leaf v) := fun hv => .leaf hv
  refine .object (Nat.lt_succ_of_lt (Nat.lt_succ_self 1)) (.cons (hleaf (by simp [Value.kind])) ?_)
  refine .cons (.object (Nat.zero_lt_succ 2) ?_) .nil
  exact .cons (hleaf (by simp [Value.kind])) .nil

end Sample

namespace SharedMembers

/-- The object that lies below itself is taken as it is, into the copy of an object that has nothing under
its key. -/
theorem inherit_result_looped :
    ∃ w', (inherit "Ns.B" Sample.loopedBody [("options", .object ⟨1⟩)]).run Sample.looped
        = (.ok [("options", .object ⟨4⟩)], w') ∧
      w'.store.object ⟨4⟩ = [("size", .null), ("style", .object ⟨3⟩), ("extra", .null)] ∧
      w'.store.object ⟨3⟩ = [("bold", .boolean false), ("style", .object ⟨2⟩), ("extra", .null)] ∧
      ∀ steps, w'.store.reach? (.object ⟨1⟩) steps
        = Sample.looped.store.reach? (.object ⟨1⟩) steps := by
  have hgood : Sample.looped.store.Has (.object ⟨1⟩) := Nat.lt_succ_of_lt (Nat.lt_succ_self 1)
  have hparent : ∀ p ∈ ([("options", .object ⟨1⟩)] : SharedMembers),
      Sample.looped.store.Has p.2 ∧ Sample.looped.store.Acyclic p.2 := by
    intro p hp
    obtain rfl := List.mem_singleton.mp hp
    exact ⟨hgood, Sample.looped_shows.acyclic⟩
  have hbody : ∀ p ∈ Sample.loopedBody.entries, Sample.looped.store.Has p.2 := by
    intro p hp
    obtain rfl := List.mem_singleton.mp hp
    exact Nat.lt_succ_self 2
  obtain ⟨-, outcome, w', hrun, -, -, -, -, hreach⟩ :=
    inherit_result "Ns.B" Sample.looped_wellFormed hparent hbody
  -- the theorem gives the world in which the run ends, and the run computes what stands in it
  have hcomputed : (inherit "Ns.B" Sample.loopedBody [("options", .object ⟨1⟩)]).run Sample.looped
      = (.ok [("options", .object ⟨4⟩)],
        ((inherit "Ns.B" Sample.loopedBody [("options", .object ⟨1⟩)]).run Sample.looped).2) := rfl
  have hworld : w' = ((inherit "Ns.B" Sample.loopedBody [("options", .object ⟨1⟩)]).run
      Sample.looped).2 := by
    rw [hrun]
  refine ⟨w', by rw [hcomputed, ← hworld], ?_, ?_, hreach _ hgood⟩
  · rw [hworld]
    rfl
  · rw [hworld]
    rfl

end SharedMembers

end ClassComposition
