import ClassComposition.Class.Directives
import ClassComposition.Proofs.Class.OverlayContents
import ClassComposition.Proofs.Member.Settled

/-!
# Bodies that are the same in two stores

Two runs of one program hold the same class body: its entries are the same values, and in both stores
these have the same contents, down to the elements of arrays.  Only acyclic values have contents.  The
directives of such a body say the same in both, and what is handed down to it as a shared member has the
same contents again.

## Main definitions

* `Store.SameContents` — values with the same contents, one in each store.
* `ClassBody.SameIn` — a body whose entries have the same contents in both stores.

## Main results

* `Store.SameContents.overlay` — copies over which the same was laid have the same contents.
* `ClassBody.SameIn.within` — a body stays the same while the stores grow.
* `ClassBody.SameIn.parse_eq` — its directives say the same.
-/

namespace ClassComposition

namespace Store

variable {s s' t t' : Store} {v v' : Value}

/-! ### Values with the same contents -/

/-- Two values, one in each store, have the same contents, arrays being meant by their handles. -/
structure SameContents (s s' : Store) (v v' : Value) : Prop where
  has : s.Has v
  has' : s'.Has v'
  contents : ∃ c : Contents Value, s.Shows s.objects.Has id v c ∧ s'.Shows s'.objects.Has id v' c

namespace SameContents

theorem within (h : s.SameContents s' v v') (hst : s.Within t) (hst' : s'.Within t') :
    t.SameContents t' v v' := by
  obtain ⟨c, hc, hc'⟩ := h.contents
  exact ⟨hst.has h.has, hst'.has h.has', c, hc.within hst, hc'.within hst'⟩

/-- Values that are no objects are the same, and else both are objects. -/
theorem eq_or_objects (h : s.SameContents s' v v') :
    (v.kind ≠ .object ∧ v = v') ∨ ∃ o o', v = .object o ∧ v' = .object o' := by
  obtain ⟨c, hc, hc'⟩ := h.contents
  cases hc with
  | leaf hleaf =>
    cases hc' with
    | leaf => exact .inl ⟨hleaf, rfl⟩
  | @object o properties ho below =>
    obtain ⟨o', rfl⟩ : ∃ o', v' = .object o' := by
      cases hc' with
      | @object o' => exact ⟨o', rfl⟩
    exact .inr ⟨o, o', rfl, rfl⟩

theorem shallow (h : s.SameContents s' v v') (hs : s.WellFormed) : s.Shallow v := by
  obtain ⟨c, hc, -⟩ := h.contents
  exact hc.acyclic.shallow hs h.has

theorem symm (h : s.SameContents s' v v') : s'.SameContents s v' v := by
  obtain ⟨c, hc, hc'⟩ := h.contents
  exact ⟨h.has', h.has, c, hc', hc⟩

/-- Copies over which objects with the same contents were laid have the same contents. -/
theorem overlay {s₀ s₀' : Store} {target target' source source' : Handle .object}
    (hs₀ : s₀.WellFormed) (hs₀' : s₀'.WellFormed)
    (htarget : s₀.SameContents s₀' (.object target) (.object target'))
    (hsource : s₀.SameContents s₀' (.object source) (.object source')) (hs : s₀.Continues s)
    (hs' : s₀'.Continues s') :
    SameContents
      (ClassComposition.overlay (s.deepCopy (.object target)).1 (.object source)
        (s.deepCopy (.object target)).2)
      (ClassComposition.overlay (s'.deepCopy (.object target')).1 (.object source')
        (s'.deepCopy (.object target')).2)
      (s.deepCopy (.object target)).1 (s'.deepCopy (.object target')).1 := by
  obtain ⟨c, hc, hc'⟩ := htarget.contents
  obtain ⟨d, hd, hd'⟩ := hsource.contents
  have hlaid := shows_overlay_deepCopy hs₀ hsource.has htarget.has (htarget.shallow hs₀) hs hc hd
    (hd.depth_le hs₀ hsource.has)
  have hlaid' := shows_overlay_deepCopy hs₀' hsource.has' htarget.has' (htarget.symm.shallow hs₀') hs'
    hc' hd' (hd'.depth_le hs₀' hsource.has')
  obtain ⟨_, -, ho, -⟩ := hlaid.exists_properties
  obtain ⟨_, -, ho', -⟩ := hlaid'.exists_properties
  exact ⟨ho, ho', _, hlaid, hlaid'⟩

end SameContents

end Store

/-! ### Bodies -/

namespace ClassBody

variable {b : ClassBody} {s s' t t' : Store} {path name : String} {v : Value}

/-- A body of which both stores have all entries, with the same contents in both: the same objects down to
the same values, and arrays with the same elements.  So no object of it lies below itself. -/
structure SameIn (b : ClassBody) (s s' : Store) : Prop where
  has : ∀ p ∈ b.entries, s.Has p.2
  has' : ∀ p ∈ b.entries, s'.Has p.2
  contents : ∀ p ∈ b.entries, ∃ c, s.Shows s.objects.Has s.exact p.2 c ∧
    s'.Shows s'.objects.Has s'.exact p.2 c

/-- Contents with the elements of arrays stay when the store grows. -/
theorem exact_within {c : Contents (Value × List Value)} (hs : s.WellFormed) (hv : s.Has v)
    (h : s.Shows s.objects.Has s.exact v c) (hst : s.Within t) : t.Shows t.objects.Has t.exact v c := by
  refine (h.reread (fun v hv => ?_) hs hv).within hst
  cases v with
  | array a =>
    show (Value.array a, t.array a) = (Value.array a, s.array a)
    rw [hst.array_eq hv]
  | _ => rfl

/-- In one store every acyclic body is the same as itself. -/
theorem sameIn_self (hs : s.WellFormed) (hhas : ∀ p ∈ b.entries, s.Has p.2)
    (hacyclic : ∀ p ∈ b.entries, s.Acyclic p.2) : b.SameIn s s := by
  refine ⟨hhas, hhas, fun p hp => ?_⟩
  obtain ⟨c, hc, -⟩ := (hacyclic p hp).exists_shows hs (hhas p hp) s.exact
  exact ⟨c, hc, hc⟩

namespace SameIn

theorem within (h : b.SameIn s s') (hs : s.WellFormed) (hs' : s'.WellFormed) (hst : s.Within t)
    (hst' : s'.Within t') : b.SameIn t t' where
  has := fun p hp => hst.has (h.has p hp)
  has' := fun p hp => hst'.has (h.has' p hp)
  contents := by
    intro p hp
    obtain ⟨c, hc, hc'⟩ := h.contents p hp
    exact ⟨c, exact_within hs (h.has p hp) hc hst, exact_within hs' (h.has' p hp) hc' hst'⟩

theorem sameContents (h : b.SameIn s s') (hv : b.get? name = some v) : s.SameContents s' v v := by
  have hmem := Assoc.mem_of_get? hv
  obtain ⟨c, hc, hc'⟩ := h.contents _ hmem
  exact ⟨h.has _ hmem, h.has' _ hmem, c.map Prod.fst, hc.map Prod.fst, hc'.map Prod.fst⟩

theorem exists_showsAll {entries : Assoc String Value} (h : b.SameIn s s') (hsub : entries ⊆ b.entries) :
    ∃ cs, s.ShowsAll s.objects.Has s.exact entries cs ∧
      s'.ShowsAll s'.objects.Has s'.exact entries cs := by
  induction entries with
  | nil => exact ⟨[], .nil, .nil⟩
  | cons p rest ih =>
    obtain ⟨hp, hrest⟩ := List.cons_subset.mp hsub
    obtain ⟨c, hc, hc'⟩ := h.contents p hp
    obtain ⟨cs, hcs, hcs'⟩ := ih hrest
    exact ⟨(p.1, c) :: cs, .cons hc hcs, .cons hc' hcs'⟩

/-! ### Directives -/

theorem array_eq (h : b.SameIn s s') {a : Handle .array} (hv : b.get? name = some (.array a)) :
    s.array a = s'.array a := by
  obtain ⟨c, hc, hc'⟩ := h.contents _ (Assoc.mem_of_get? hv)
  have hread := hc.eq_leaf (by simp [Value.kind])
  rw [hc'.eq_leaf (by simp [Value.kind]), Contents.leaf.injEq, Prod.mk.injEq] at hread
  exact hread.2.symm

theorem names_eq (h : b.SameIn s s') (directive : Directive) :
    Directives.names s path b directive = Directives.names s' path b directive := by
  unfold Directives.names
  rcases hv : b.get? directive.name with _ | v
  · rfl
  · cases v with
    | array a =>
      dsimp only
      rw [h.array_eq hv]
    | _ => rfl

theorem isTruthy_eq {w w' : Value} {c : Contents (Value × List Value)}
    (hc : s.Shows s.objects.Has s.exact w c) (hc' : s'.Shows s'.objects.Has s'.exact w' c) :
    w.isTruthy = w'.isTruthy := by
  cases hc with
  | leaf hleaf =>
    generalize hread : s.exact w = read at hc'
    cases hc' with
    | leaf =>
      obtain rfl : w = w' := congrArg Prod.fst hread
      rfl
  | object ho below =>
    cases hc' with
    | object => rfl

theorem abstractness_eq (h : b.SameIn s s') :
    Directives.abstractness s path b = Directives.abstractness s' path b := by
  unfold Directives.abstractness
  rcases hv : b.get? Directive.options.name with _ | v
  · rfl
  cases v with
  | object o =>
    obtain ⟨c, hc, hc'⟩ := h.contents _ (Assoc.mem_of_get? hv)
    obtain ⟨properties, rfl, -, hall⟩ := hc.exists_properties
    obtain ⟨_, heq, -, hall'⟩ := hc'.exists_properties
    cases heq
    dsimp only
    -- the option is there in both stores or in neither, as its contents are
    rcases hall.beside.get? Directive.abstractOption with ⟨w, d, hw, hd, hshows⟩ | ⟨hw, hd⟩
    · rcases hall'.beside.get? Directive.abstractOption with ⟨w', d', hw', hd', hshows'⟩ | ⟨hw', hd'⟩
      · rw [hd] at hd'
        cases hd'
        rw [hw, hw']
        dsimp only
        rw [isTruthy_eq hshows hshows']
      · rw [hd] at hd'
        cases hd'
    · rcases hall'.beside.get? Directive.abstractOption with ⟨w', d', hw', hd', hshows'⟩ | ⟨hw', hd'⟩
      · rw [hd] at hd'
        cases hd'
      · rw [hw, hw']
  | _ => rfl

/-- The directives of a body that is the same in both stores say the same. -/
theorem parse_eq (h : b.SameIn s s') : Directives.parse s path b = Directives.parse s' path b := by
  unfold Directives.parse
  rw [h.abstractness_eq, h.names_eq .mixins, h.names_eq .shared]

end SameIn

end ClassBody

end ClassComposition
