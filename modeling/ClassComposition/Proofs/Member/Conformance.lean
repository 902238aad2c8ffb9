import ClassComposition.Proofs.Member.Leaves

/-!
# Conformance of skeletons

What a class owes to the classes it is composed from: it has all their members, what can be called there
can be called here, and their objects are objects here, with at least the same members at every depth.
A merge keeps all of this towards both sides.  Towards what is merged in, a member may also change from
the null placeholder to a method, and from nothing else.

## Main definitions

* `Skeleton.objectAt?` — the nested object at a path of keys.
* `Skeleton.Covers`, `MemberDescriptor.Covers` — the same objects, with at least the same members.
* `Skeleton.Conforms` — covering, with methods staying methods.
* `MemberDescriptor.Grown`, `MemberDescriptor.Overriding` — a member against what it was before a merge,
  and against what was merged in.
* `Skeleton.Above` — one skeleton against another, member by member.

## Main results

* `Skeleton.covers_iff` — covering, member by member.
* `Skeleton.above_rootMerge` — what a merge at the root gives towards both sides.
* `Skeleton.Conforms.trans` — conformance is handed down.
-/

namespace ClassComposition

open MemberDescriptor

/-! ### Paths of nested objects -/

namespace Skeleton

/-- The members of the nested object at a path of keys; at the empty path the skeleton itself. -/
def objectAt? : Skeleton → List MemberKey → Option Skeleton
  | ms, [] => some ms
  | ms, key :: trail =>
    match (Assoc.get? ms key).bind members? with
    | some inner => objectAt? inner trail
    | none => none

/-- Wherever the lower skeleton has a nested object, the upper one has one with at least the same keys. -/
def Covers (upper lower : Skeleton) : Prop :=
  ∀ trail inner, lower.objectAt? trail = some inner →
    ∃ outer, upper.objectAt? trail = some outer ∧ Assoc.keys inner ⊆ Assoc.keys outer

theorem Covers.refl (ms : Skeleton) : ms.Covers ms :=
  fun _ inner h => ⟨inner, h, List.Subset.refl _⟩

theorem Covers.trans {upper middle lower : Skeleton} (hupper : upper.Covers middle)
    (hlower : middle.Covers lower) : upper.Covers lower := by
  intro trail inner h
  obtain ⟨between, hbetween, hkeys⟩ := hlower trail inner h
  obtain ⟨outer, houter, hkeys'⟩ := hupper trail between hbetween
  exact ⟨outer, houter, List.Subset.trans hkeys hkeys'⟩

end Skeleton

namespace MemberDescriptor

/-- A nested object is covered by a nested object with at least the same members at every depth. -/
def Covers (upper lower : MemberDescriptor) : Prop :=
  ∀ inner, lower.members? = some inner →
    ∃ outer, upper.members? = some outer ∧ Skeleton.Covers outer inner

theorem Covers.refl (d : MemberDescriptor) : d.Covers d :=
  fun inner h => ⟨inner, h, Skeleton.Covers.refl inner⟩

theorem Covers.trans {upper middle lower : MemberDescriptor} (hupper : upper.Covers middle)
    (hlower : middle.Covers lower) : upper.Covers lower := by
  intro inner h
  obtain ⟨between, hbetween, hcovers⟩ := hlower inner h
  obtain ⟨outer, houter, hcovers'⟩ := hupper between hbetween
  exact ⟨outer, houter, hcovers'.trans hcovers⟩

theorem covers_of_leaf (upper : MemberDescriptor) {d : MemberDescriptor} (h : d.members? = none) :
    upper.Covers d := by
  intro inner hinner
  rw [h] at hinner
  cases hinner

theorem covers_nested {outer inner : Skeleton} (h : outer.Covers inner) :
    (nested outer).Covers (nested inner) := by
  intro ms hms
  cases hms
  exact ⟨outer, rfl, h⟩

end MemberDescriptor

/-! ### Member by member -/

namespace Skeleton

variable {Q Q' : MemberDescriptor → MemberDescriptor → Prop}
  {upper middle lower result : Skeleton} {key : MemberKey} {d own : MemberDescriptor}

/-- Every member of the lower skeleton has one above it, in the sense given. -/
def Above (Q : MemberDescriptor → MemberDescriptor → Prop) (upper lower : Skeleton) : Prop :=
  ∀ key d, Assoc.get? lower key = some d → ∃ d', Assoc.get? upper key = some d' ∧ Q d' d

theorem Above.refl (hQ : ∀ d, Q d d) (ms : Skeleton) : Above Q ms ms :=
  fun _ d h => ⟨d, h, hQ d⟩

theorem Above.trans (hQ : ∀ a b c, Q a b → Q' b c → Q' a c) (hupper : Above Q upper middle)
    (hlower : Above Q' middle lower) : Above Q' upper lower := by
  intro key d h
  obtain ⟨d₁, h₁, hd₁⟩ := hlower key d h
  obtain ⟨d₂, h₂, hd₂⟩ := hupper key d₁ h₁
  exact ⟨d₂, h₂, hQ d₂ d₁ d hd₂ hd₁⟩

theorem above_cons (hd : ∃ d', Assoc.get? upper key = some d' ∧ Q d' d) (h : Above Q upper lower) :
    Above Q upper ((key, d) :: lower) := by
  intro k e he
  by_cases hk : key = k
  · subst hk
    rw [Assoc.get?, if_pos rfl] at he
    cases he
    exact hd
  · rw [Assoc.get?, if_neg hk] at he
    exact h k e he

/-- Writing a member keeps the others, and puts a member above the one that was there. -/
theorem above_insert (hQ : ∀ d, Q d d) (h : ∀ own, Assoc.get? upper key = some own → Q d own) :
    Above Q (Assoc.insert upper key d) upper := by
  intro k own hown
  by_cases hk : key = k
  · subst hk
    exact ⟨d, Assoc.get?_insert_self upper key d, h own hown⟩
  · exact ⟨own, (Assoc.get?_insert_of_ne upper d hk).trans hown, hQ own⟩

theorem above_insert_of_absent (hQ : ∀ d, Q d d) (h : Assoc.get? upper key = none) :
    Above Q (Assoc.insert upper key d) upper := by
  refine above_insert hQ ?_
  intro own hown
  rw [h] at hown
  cases hown

theorem above_insert_of_present (hQ : ∀ d, Q d d) (h : Assoc.get? upper key = some own)
    (hd : Q d own) : Above Q (Assoc.insert upper key d) upper := by
  refine above_insert hQ ?_
  intro own' hown
  rw [h] at hown
  cases hown
  exact hd

/-- One step of a merge: a member has been dealt with, and the others are merged into what this gave. -/
theorem above_step {written : Skeleton} (hQ : ∀ a b c, Q a b → Q b c → Q a c)
    (hQ' : ∀ a b c, Q a b → Q' b c → Q' a c) (hwritten : Above Q written upper)
    (hkey : ∃ m, Assoc.get? written key = some m ∧ Q' m d)
    (hothers : Above Q result written ∧ Above Q' result lower) :
    Above Q result upper ∧ Above Q' result ((key, d) :: lower) := by
  obtain ⟨m, hm, hmd⟩ := hkey
  obtain ⟨m', hm', hmm⟩ := hothers.1 key m hm
  exact ⟨hothers.1.trans hQ hwritten, above_cons ⟨m', hm', hQ' m' m d hmm hmd⟩ hothers.2⟩

theorem covers_iff : upper.Covers lower ↔ Above MemberDescriptor.Covers upper lower := by
  constructor
  · intro h key d hd
    -- the key is there because the empty path is covered, and its members because longer paths are
    have hkey : key ∈ Assoc.keys upper := by
      obtain ⟨outer, houter, hkeys⟩ := h [] lower rfl
      cases houter
      exact hkeys (Assoc.mem_keys_of_mem (Assoc.mem_of_get? hd))
    rw [← Assoc.get?_isSome_iff, Option.isSome_iff_exists] at hkey
    obtain ⟨d', hd'⟩ := hkey
    refine ⟨d', hd', ?_⟩
    intro inner hinner
    have hlower : ∀ trail, lower.objectAt? (key :: trail) = inner.objectAt? trail := by
      intro trail
      rw [objectAt?, hd, Option.bind_some, hinner]
    have hupper : ∀ trail, upper.objectAt? (key :: trail) =
        match d'.members? with
        | some outer => objectAt? outer trail
        | none => none := by
      intro trail
      rw [objectAt?, hd', Option.bind_some]
    rcases houter : d'.members? with _ | outer
    · obtain ⟨ms, hms, -⟩ := h [key] inner (hlower [])
      rw [hupper, houter] at hms
      cases hms
    · refine ⟨outer, rfl, ?_⟩
      intro trail ms hms
      obtain ⟨ns, hns, hkeys⟩ := h (key :: trail) ms ((hlower trail).trans hms)
      rw [hupper, houter] at hns
      exact ⟨ns, hns, hkeys⟩
  · intro h trail
    cases trail with
    | nil =>
      intro inner hinner
      cases hinner
      refine ⟨upper, rfl, ?_⟩
      intro key hkey
      rw [← Assoc.get?_isSome_iff, Option.isSome_iff_exists] at hkey ⊢
      obtain ⟨d, hd⟩ := hkey
      obtain ⟨d', hd', -⟩ := h key d hd
      exact ⟨d', hd'⟩
    | cons key trail =>
      intro inner hinner
      rw [objectAt?] at hinner
      rcases hd : Assoc.get? lower key with _ | d
      · rw [hd] at hinner
        cases hinner
      rw [hd, Option.bind_some] at hinner
      rcases hms : d.members? with _ | ms
      · rw [hms] at hinner
        cases hinner
      rw [hms] at hinner
      obtain ⟨d', hd', hcovers⟩ := h key d hd
      obtain ⟨ns, hns, hcovers⟩ := hcovers ms hms
      rw [objectAt?, hd', Option.bind_some, hns]
      exact hcovers trail inner hinner

end Skeleton

/-! ### What a merge gives towards both sides -/

namespace MemberDescriptor

/-- What a member has become when others have been merged in. -/
def Grown (d own : MemberDescriptor) : Prop := d.isCallable = own.isCallable ∧ d.Covers own

/-- A member that may stand for the one that was merged in. -/
def Overriding (own d : MemberDescriptor) : Prop := mayOverride own d = true ∧ own.Covers d

theorem Grown.refl (d : MemberDescriptor) : d.Grown d := ⟨rfl, .refl d⟩

theorem Grown.trans {a b c : MemberDescriptor} (hab : a.Grown b) (hbc : b.Grown c) : a.Grown c :=
  ⟨hab.1.trans hbc.1, hab.2.trans hbc.2⟩

theorem Grown.overriding {a b c : MemberDescriptor} (hab : a.Grown b) (hbc : b.Overriding c) :
    a.Overriding c := by
  refine ⟨?_, hab.2.trans hbc.2⟩
  rw [mayOverride, hab.1]
  exact hbc.1

theorem Overriding.refl (d : MemberDescriptor) : d.Overriding d := by
  refine ⟨?_, .refl d⟩
  rw [mayOverride, beq_self_eq_true, Bool.true_or]

/-- What may override a method is a method. -/
theorem Overriding.isCallable {own d : MemberDescriptor} (h : own.Overriding d)
    (hd : d.isCallable = true) : own.isCallable = true := by
  have hallowed := h.1
  rw [mayOverride, hd] at hallowed
  cases hown : own.isCallable with
  | true => rfl
  | false =>
    rw [hown] at hallowed
    cases hallowed

/-- What may override data other than the placeholder is data. -/
theorem Overriding.not_isCallable {own d : MemberDescriptor} (h : own.Overriding d)
    (hd : d.isCallable = false) (hplaceholder : d.isPlaceholder = false) :
    own.isCallable = false := by
  have hallowed := h.1
  rw [mayOverride, hd, hplaceholder, Bool.and_false, Bool.or_false] at hallowed
  exact beq_iff_eq.mp hallowed

theorem covers_shiftDeep (offset : Nat) (d : MemberDescriptor) : (shiftDeep offset d).Covers d := by
  induction d using MemberDescriptor.induction with
  | leaf d hleaf => exact covers_of_leaf _ hleaf
  | nested ms ih =>
    rw [shiftDeep]
    refine covers_nested (Skeleton.covers_iff.mpr ?_)
    intro key d hd
    have hget := Assoc.get?_map (shiftDeep offset) ms key
    rw [hd] at hget
    rw [shiftMembers_eq_map]
    exact ⟨shiftDeep offset d, hget, ih (key, d) (Assoc.mem_of_get? hd)⟩

theorem Overriding.of_shiftDeep {own d : MemberDescriptor} {offset : Nat}
    (h : own.Overriding (shiftDeep offset d)) : own.Overriding d := by
  refine ⟨?_, h.2.trans (covers_shiftDeep offset d)⟩
  have hallowed := h.1
  rw [mayOverride, isCallable_shiftDeep, isPlaceholder_shiftDeep] at hallowed
  exact hallowed

/-- What two members are merged into has grown from the class's own and covers the other. -/
def MergedOver (d own merged : MemberDescriptor) : Prop := merged.Grown own ∧ merged.Covers d

theorem MergedOver.overriding {d own merged : MemberDescriptor} (h : MergedOver d own merged)
    (allowed : mayOverride own d = true) : merged.Overriding d := by
  refine ⟨?_, h.2⟩
  rw [mayOverride, h.1.1]
  exact allowed

end MemberDescriptor

namespace Skeleton

variable {lower upper result : Skeleton}

/-- Below the root, the result of a merge covers both sides. -/
theorem covers_nestedMerge (h : NestedMerge MergedOver lower upper result) :
    Above MemberDescriptor.Covers result upper ∧ Above MemberDescriptor.Covers result lower := by
  induction h with
  | nil upper =>
    refine ⟨.refl MemberDescriptor.Covers.refl upper, ?_⟩
    intro key d hd
    cases hd
  | @copied key d rest upper result absent others ih =>
    refine above_step (fun _ _ _ => .trans) (fun _ _ _ => .trans)
      (above_insert_of_absent MemberDescriptor.Covers.refl absent) ?_ ih
    exact ⟨d, Assoc.get?_insert_self upper key d, .refl d⟩
  | @overridden key d own merged rest upper result present step others ih =>
    refine above_step (fun _ _ _ => .trans) (fun _ _ _ => .trans)
      (above_insert_of_present MemberDescriptor.Covers.refl present step.1.2) ?_ ih
    exact ⟨merged, Assoc.get?_insert_self upper key merged, step.2⟩

/-- Merging a member into one that the class has. -/
theorem mergedOver_mergeMember {path : String} {key : MemberKey} {d own merged : MemberDescriptor}
    (h : mergeMember path key d (some own) = (merged, .ok ())) : MergedOver d own merged := by
  refine mergeMember_induction ?_ ?_ h
  · intro d own hleaf
    exact ⟨.refl own, covers_of_leaf own hleaf⟩
  · intro lower upper result hsteps
    obtain ⟨hupper, hlower⟩ := covers_nestedMerge hsteps
    exact ⟨⟨rfl, covers_nested (covers_iff.mpr hupper)⟩, covers_nested (covers_iff.mpr hlower)⟩

/-- At the root, the result of a merge has grown from the class's own members, and each member that was
merged in has one that may override it. -/
theorem above_rootMerge {owner? : Option String} {slots : List MemberKey}
    (h : RootMerge MergedOver owner? lower upper result slots) :
    Above Grown result upper ∧ Above Overriding result lower := by
  induction h with
  | nil upper =>
    refine ⟨.refl Grown.refl upper, ?_⟩
    intro key d hd
    cases hd
  | @copied key d rest upper result slots absent others ih =>
    refine above_step (fun _ _ _ => .trans) (fun _ _ _ => Grown.overriding)
      (above_insert_of_absent Grown.refl absent) ?_ ih
    exact ⟨d, Assoc.get?_insert_self upper key d, .refl d⟩
  | @overridden key d own merged rest upper result slots present allowed step unkept others ih =>
    refine above_step (fun _ _ _ => .trans) (fun _ _ _ => Grown.overriding)
      (above_insert_of_present Grown.refl present step.1) ?_ ih
    exact ⟨merged, Assoc.get?_insert_self upper key merged, step.overriding allowed⟩
  | @kept key slot d own merged rest upper result slots present allowed step slot_eq free others ih =>
    -- the alias is new, so writing it keeps the member that has just been merged
    have hmerged := above_insert_of_present Grown.refl present step.1
    have halias : Above Grown (Assoc.insert (Assoc.insert upper key merged) slot d)
        (Assoc.insert upper key merged) := above_insert_of_absent Grown.refl free
    refine above_step (fun _ _ _ => .trans) (fun _ _ _ => Grown.overriding)
      (halias.trans (fun _ _ _ => .trans) hmerged) ?_ ih
    obtain ⟨m, hm, hgrown⟩ := halias key merged (Assoc.get?_insert_self upper key merged)
    exact ⟨m, hm, hgrown.overriding (step.overriding allowed)⟩

/-- Members that may override a mixin's as they were moved may override the mixin's. -/
theorem Above.of_shiftMembers {offset : Nat}
    (h : Above Overriding upper (shiftMembers offset lower)) : Above Overriding upper lower := by
  intro key d hd
  have hget := Assoc.get?_map (shiftDeep offset) lower key
  rw [hd, ← shiftMembers_eq_map] at hget
  obtain ⟨d', hd', hover⟩ := h key _ hget
  exact ⟨d', hd', hover.of_shiftDeep⟩

/-! ### Conformance -/

/-- A skeleton conforms to another one: it covers it, and what can be called there can be called here. -/
structure Conforms (upper lower : Skeleton) : Prop where
  covers : upper.Covers lower
  callable : ∀ key d, Assoc.get? lower key = some d → d.isCallable = true →
    ∃ d', Assoc.get? upper key = some d' ∧ d'.isCallable = true

theorem Conforms.refl (ms : Skeleton) : ms.Conforms ms :=
  ⟨.refl ms, fun _ d hd hcallable => ⟨d, hd, hcallable⟩⟩

/-- Conformance is handed down. -/
theorem Conforms.trans {upper middle lower : Skeleton} (hupper : upper.Conforms middle)
    (hlower : middle.Conforms lower) : upper.Conforms lower := by
  refine ⟨hupper.covers.trans hlower.covers, ?_⟩
  intro key d hd hcallable
  obtain ⟨d₁, hd₁, hcallable₁⟩ := hlower.callable key d hd hcallable
  exact hupper.callable key d₁ hd₁ hcallable₁

/-- A skeleton conforms to one whose members its own may override. -/
theorem conforms_of_above {upper lower : Skeleton} (h : Above Overriding upper lower) :
    upper.Conforms lower := by
  refine ⟨covers_iff.mpr ?_, ?_⟩
  · intro key d hd
    obtain ⟨d', hd', hover⟩ := h key d hd
    exact ⟨d', hd', hover.2⟩
  · intro key d hd hcallable
    obtain ⟨d', hd', hover⟩ := h key d hd
    exact ⟨d', hd', hover.isCallable hcallable⟩

end Skeleton

end ClassComposition
