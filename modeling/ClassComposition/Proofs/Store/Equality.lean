import ClassComposition.Proofs.Store.Contents

/-!
# Structural equality

The comparison of two values goes down through objects and arrays together, and stops early where both
sides are one container, whatever that holds.  For values without cycles it decides a relation that
reads nothing but look-ups: what stands under a key of both objects, or at a position of both arrays.
This relation is symmetric and transitive, though the comparison looks for the keys of one object among
those of the other one only.

## Main definitions

* `Value.IsNaN` — a number that equals nothing.
* `Store.Loopless` — no container lies below itself, through properties or elements.
* `Store.Equal` — equality by contents, with no bound on the depth.

## Main results

* `Store.Loopless.length_lt` — no way down is as long as a walk goes.
* `Store.Equal.symm`, `Store.Equal.trans`.
* `Store.structuralEq_iff_equal` — the comparison decides the relation.
-/

namespace ClassComposition

/-! ### Numbers and data -/

namespace Number

theorem same_iff (x y : Number) :
    x.same y = true ↔
      x.isNaN = false ∧ y.isNaN = false ∧ (x = y ∨ x.isZero = true ∧ y.isZero = true) := by
  simp [same, and_assoc]

theorem same_symm {x y : Number} (h : x.same y = true) : y.same x = true := by
  rw [same_iff] at h ⊢
  obtain ⟨hx, hy, heq | ⟨hzero, hzero'⟩⟩ := h
  · exact ⟨hy, hx, .inl heq.symm⟩
  · exact ⟨hy, hx, .inr ⟨hzero', hzero⟩⟩

theorem same_trans {x y z : Number} (h : x.same y = true) (h' : y.same z = true) :
    x.same z = true := by
  rw [same_iff] at h h' ⊢
  obtain ⟨hx, -, rfl | ⟨hzero, hzero'⟩⟩ := h
  · exact h'
  · obtain ⟨-, hz, rfl | ⟨-, hzero''⟩⟩ := h'
    · exact ⟨hx, hz, .inr ⟨hzero, hzero'⟩⟩
    · exact ⟨hx, hz, .inr ⟨hzero, hzero''⟩⟩

theorem same_self_iff (x : Number) : x.same x = true ↔ x.isNaN = false := by
  rw [same_iff]
  exact ⟨fun h => h.1, fun h => ⟨h, h, .inl rfl⟩⟩

end Number

namespace Value

/-- The value is a number that is not a number. -/
def IsNaN (v : Value) : Prop := ∃ x : Number, v = .number x ∧ x.isNaN = true

/-- Identity is equality of everything but numbers, which are compared numerically. -/
theorem same_iff (v w : Value) :
    v.same w = true ↔
      (∃ x y : Number, v = .number x ∧ w = .number y ∧ x.same y = true) ∨ v = w ∧ v.kind ≠ .number := by
  cases v <;> cases w <;> simp [same, kind]

theorem same_symm {v w : Value} (h : v.same w = true) : w.same v = true := by
  rcases (same_iff v w).mp h with ⟨x, y, rfl, rfl, hsame⟩ | ⟨rfl, -⟩
  · exact Number.same_symm hsame
  · exact h

theorem same_trans {u v w : Value} (h : u.same v = true) (h' : v.same w = true) : u.same w = true := by
  rcases (same_iff u v).mp h with ⟨x, y, rfl, rfl, hsame⟩ | ⟨rfl, -⟩
  · rcases (same_iff _ w).mp h' with ⟨_, z, hv, rfl, hsame'⟩ | ⟨-, hkind⟩
    · cases hv
      exact Number.same_trans hsame hsame'
    · exact absurd rfl hkind
  · exact h'

theorem same_self_iff (v : Value) : v.same v = true ↔ ¬ v.IsNaN := by
  cases v with
  | number x =>
    have hnan : (number x).IsNaN ↔ x.isNaN = true :=
      ⟨fun ⟨_, heq, h⟩ => by cases heq; exact h, fun h => ⟨x, rfl, h⟩⟩
    rw [hnan, Bool.not_eq_true]
    exact Number.same_self_iff x
  | _ => simp [same, IsNaN]

/-- What is no number is the same as itself only. -/
theorem eq_of_same {v w : Value} (hv : v.kind ≠ .number) (h : v.same w = true) : w = v := by
  rcases (same_iff v w).mp h with ⟨x, y, rfl, -, -⟩ | ⟨rfl, -⟩
  · exact absurd rfl hv
  · rfl

end Value

namespace Store

variable {s t : Store} {u v w x : Value} {steps : List Step}

/-! ### Values without cycles -/

/-- What is reached by a step and more steps is reached from what the step leads to. -/
theorem reach?_cons (s : Store) (v : Value) (step : Step) (rest : List Step) :
    s.reach? v (step :: rest) = (s.reach? v [step]).bind (s.reach? · rest) :=
  reach?_append s v [step] rest

/-- A step leads to each property of an object. -/
theorem WellFormed.reach?_of_mem (hs : s.WellFormed) {o : Handle .object} {p : String × Value}
    (hp : p ∈ s.object o) : s.reach? (.object o) [.property p.1] = some p.2 := by
  rw [reach?_single_property]
  exact Assoc.get?_of_mem (hs.nodup_keys o) hp

/-- No container that is reached from the value lies below itself, through properties or elements. -/
def Loopless (s : Store) (v : Value) : Prop :=
  ∀ steps x more, s.reach? v steps = some x → s.reach? x more = some x → more = []

/-- What a value without cycles reaches has none. -/
theorem Loopless.below (h : s.Loopless v) (hx : s.reach? v steps = some x) : s.Loopless x := by
  intro further y more hy hmore
  refine h (steps ++ further) y more ?_ hmore
  rw [reach?_append, hx]
  exact hy

/-- The objects and arrays of a store. -/
def containers (s : Store) : List Value :=
  (List.range s.objects.size).map (fun i => .object ⟨i⟩)
    ++ (List.range s.arrays.size).map fun i => .array ⟨i⟩

/-- Only containers lead on. -/
theorem mem_containers_of_step {step : Step} (hv : s.Has v) (h : s.reach? v [step] = some x) :
    v ∈ s.containers := by
  cases v with
  | object o => exact List.mem_append_left _ (List.mem_map.mpr ⟨o.index, List.mem_range.mpr hv, rfl⟩)
  | array a => exact List.mem_append_right _ (List.mem_map.mpr ⟨a.index, List.mem_range.mpr hv, rfl⟩)
  | _ => cases step <;> cases h

/-- The containers on a way down from a value without cycles, one for each step: none is passed twice. -/
theorem Loopless.exists_passed (h : s.Loopless v) (hs : s.WellFormed) (hv : s.Has v)
    (hx : s.reach? v steps = some x) :
    ∃ passed : List Value, passed.length = steps.length ∧ passed.Nodup ∧
      ∀ y ∈ passed, y ∈ s.containers ∧ ∃ way, s.reach? v way = some y := by
  induction steps generalizing v with
  | nil => exact ⟨[], rfl, List.nodup_nil, by simp⟩
  | cons step rest ih =>
    rw [reach?_cons] at hx
    obtain ⟨below, hbelow, hx⟩ := Option.bind_eq_some_iff.mp hx
    obtain ⟨passed, hlength, hnodup, hpassed⟩ := ih (h.below hbelow) (hs.has_of_reach? hv hbelow) hx
    refine ⟨v :: passed, by simp [hlength], List.nodup_cons.mpr ⟨fun hmem => ?_, hnodup⟩, ?_⟩
    · -- a way back to the value would be a cycle
      obtain ⟨-, way, hway⟩ := hpassed v hmem
      have hcycle : s.reach? v (step :: way) = some v := by
        rw [reach?_cons, hbelow]
        exact hway
      cases h [] v _ rfl hcycle
    · refine List.forall_mem_cons.mpr ⟨⟨mem_containers_of_step hv hbelow, [], rfl⟩, fun y hy => ?_⟩
      obtain ⟨hcontainer, way, hway⟩ := hpassed y hy
      refine ⟨hcontainer, step :: way, ?_⟩
      rw [reach?_cons, hbelow]
      exact hway

/-- No way down from a value without cycles is as long as a walk goes. -/
theorem Loopless.length_lt (h : s.Loopless v) (hs : s.WellFormed) (hv : s.Has v)
    (hx : s.reach? v steps = some x) : steps.length < s.nesting := by
  obtain ⟨passed, hlength, hnodup, hpassed⟩ := h.exists_passed hs hv hx
  have hsubset : passed ⊆ s.containers := fun y hy => (hpassed y hy).1
  have hle := (List.subperm_of_subset hnodup hsubset).length_le
  have hcontainers : s.containers.length = s.objects.size + s.arrays.size := by simp [containers]
  unfold nesting
  omega

/-- Values have no cycles where some rank goes down with each step. -/
theorem loopless_of_rank (rank : Value → Nat)
    (hobject : ∀ o, ∀ p ∈ s.object o, rank p.2 < rank (.object o))
    (harray : ∀ a, ∀ v ∈ s.array a, rank v < rank (.array a)) (v : Value) : s.Loopless v := by
  have hstep : ∀ v step x, s.reach? v [step] = some x → rank x < rank v := by
    intro v step x hx
    cases step with
    | property key =>
      rw [reach?_single_property] at hx
      cases v with
      | object o => exact hobject o _ (Assoc.mem_of_get? hx)
      | _ => cases hx
    | element index =>
      rw [reach?_single_element] at hx
      cases v with
      | array a => exact harray a _ (List.mem_of_getElem? hx)
      | _ => cases hx
  -- each step lowers the rank, so a way is no longer than the rank it starts from
  have hway : ∀ more v x, s.reach? v more = some x → rank x + more.length ≤ rank v := by
    intro more
    induction more with
    | nil =>
      intro v x hx
      cases hx
      exact Nat.le_refl _
    | cons step rest ih =>
      intro v x hx
      rw [reach?_cons] at hx
      obtain ⟨below, hbelow, hx⟩ := Option.bind_eq_some_iff.mp hx
      have hfirst := hstep v step below hbelow
      have hrest := ih below x hx
      rw [List.length_cons]
      omega
  intro steps x more _ hmore
  have hle := hway more x x hmore
  exact List.length_eq_zero_iff.mp (by omega)

/-- What is reached through properties alone. -/
theorem Descends.exists_steps {os : List (Handle .object)} (hs : s.WellFormed)
    (h : s.Descends v os) : ∀ o ∈ os, ∃ steps, s.reach? v steps = some (.object o) := by
  induction h with
  | last o =>
    intro other ho
    obtain rfl := List.mem_singleton.mp ho
    exact ⟨[], rfl⟩
  | @down o p path hp below ih =>
    refine List.forall_mem_cons.mpr ⟨⟨[], rfl⟩, fun other hother => ?_⟩
    obtain ⟨steps, hsteps⟩ := ih other hother
    refine ⟨.property p.1 :: steps, ?_⟩
    rw [reach?_cons, hs.reach?_of_mem hp]
    exact hsteps

/-- Where no container lies below itself, no object does. -/
theorem Loopless.acyclic (h : s.Loopless v) (hs : s.WellFormed) : s.Acyclic v := by
  intro path hpath
  induction hpath with
  | last o => exact List.nodup_singleton o
  | @down o p path hp below ih =>
    refine List.nodup_cons.mpr ⟨fun hmem => ?_, ih (h.below (hs.reach?_of_mem hp))⟩
    obtain ⟨steps, hsteps⟩ := below.exists_steps hs o hmem
    have hcycle : s.reach? (.object o) (.property p.1 :: steps) = some (.object o) := by
      rw [reach?_cons, hs.reach?_of_mem hp]
      exact hsteps
    cases h [] _ _ rfl hcycle

theorem Loopless.within (h : s.Loopless v) (hs : s.WellFormed) (hv : s.Has v) (hst : s.Within t) :
    t.Loopless v := by
  intro steps x more hx hmore
  rw [hst.reach?_eq hs hv] at hx
  rw [hst.reach?_eq hs (hs.has_of_reach? hv hx)] at hmore
  exact h steps x more hx hmore

/-! ### Equality by contents -/

/-- Equality by contents: containers are equal when they are the same, or when they have the same keys,
or the same length, and equal things there. -/
inductive Equal (s : Store) : Value → Value → Prop
  | same {v w : Value} (h : v.same w = true) : Equal s v w
  | object {a b : Handle .object}
      (hkeys : ∀ key, key ∈ Assoc.keys (s.object a) ↔ key ∈ Assoc.keys (s.object b))
      (h : ∀ key v w, Assoc.get? (s.object a) key = some v → Assoc.get? (s.object b) key = some w →
        Equal s v w) : Equal s (.object a) (.object b)
  | array {a b : Handle .array} (hlength : (s.array a).length = (s.array b).length)
      (h : ∀ (index : Nat) v w, (s.array a)[index]? = some v → (s.array b)[index]? = some w →
        Equal s v w) : Equal s (.array a) (.array b)

theorem Equal.symm (h : s.Equal v w) : s.Equal w v := by
  induction h with
  | same h => exact .same (Value.same_symm h)
  | object hkeys _ ih =>
    exact .object (fun key => (hkeys key).symm) fun key w v hw hv => ih key v w hv hw
  | array hlength _ ih =>
    exact .array hlength.symm fun index w v hw hv => ih index v w hv hw

/-- A key that only one of two objects has is excluded, so that what stands between two equal things is
always there. -/
theorem Equal.trans (h : s.Equal u v) (h' : s.Equal v w) : s.Equal u w := by
  induction h generalizing w with
  | @same u v h =>
    -- one container on both sides, or two values that are none
    rcases (Value.same_iff u v).mp h with ⟨x, y, rfl, rfl, -⟩ | ⟨rfl, -⟩
    · cases h' with
      | same h' => exact .same (Value.same_trans h h')
    · exact h'
  | @object a b hkeys hbelow ih =>
    cases h' with
    | same h' =>
      rw [Value.eq_of_same (by simp [Value.kind]) h']
      exact .object hkeys hbelow
    | @object _ c hkeys' hbelow' =>
      refine .object (fun key => (hkeys key).trans (hkeys' key)) fun key v w hv hw => ?_
      have hmem : key ∈ Assoc.keys (s.object b) := (hkeys key).mp ((Assoc.mem_keys_iff _ key).mpr ⟨v, hv⟩)
      obtain ⟨between, hbetween⟩ := (Assoc.mem_keys_iff _ key).mp hmem
      exact ih key v between hv hbetween (hbelow' key between w hbetween hw)
  | @array a b hlength hbelow ih =>
    cases h' with
    | same h' =>
      rw [Value.eq_of_same (by simp [Value.kind]) h']
      exact .array hlength hbelow
    | @array _ c hlength' hbelow' =>
      refine .array (hlength.trans hlength') fun index v w hv hw => ?_
      obtain ⟨hindex, -⟩ := List.getElem?_eq_some_iff.mp hv
      have hbetween := List.getElem?_eq_getElem (hlength ▸ hindex)
      exact ih index v _ hv hbetween (hbelow' index _ w hbetween hw)

/-! ### The comparison decides the relation -/

theorem agree_iff (test : Value → Value → Bool) (as bs : List Value) :
    agree test as bs = true ↔ as.length = bs.length ∧
      ∀ (index : Nat) v w, as[index]? = some v → bs[index]? = some w → test v w = true := by
  induction as generalizing bs with
  | nil => cases bs <;> simp [agree]
  | cons a as ih =>
    cases bs with
    | nil => simp [agree]
    | cons b bs =>
      rw [agree, Bool.and_eq_true, ih bs]
      constructor
      · rintro ⟨hfirst, hlength, hrest⟩
        refine ⟨by simp [hlength], fun index v w hv hw => ?_⟩
        cases index with
        | zero =>
          cases hv
          cases hw
          exact hfirst
        | succ index => exact hrest index v w hv hw
      · -- the first position is the head, and the others are one further in both lists
        rintro ⟨hlength, hall⟩
        refine ⟨hall 0 a b rfl rfl, Nat.succ.inj hlength, fun index v w hv hw => ?_⟩
        exact hall (index + 1) v w hv hw

theorem covered_iff (test : Value → Value → Bool) (other entries : Assoc String Value) :
    covered test other entries = true ↔
      ∀ p ∈ entries, ∃ w, Assoc.get? other p.1 = some w ∧ test p.2 w = true := by
  induction entries with
  | nil => simp [covered]
  | cons p rest ih =>
    rw [covered, Bool.and_eq_true, ih, List.forall_mem_cons]
    refine and_congr_left fun _ => ?_
    rcases Assoc.get? other p.1 with _ | w <;> simp

/-- Of two maps of one length the keys are the same when those of the first are among those of the
second: the comparison looks in one direction only. -/
theorem mem_keys_iff_of_subset {m n : Assoc String Value} (hm : (Assoc.keys m).Nodup)
    (hlength : m.length = n.length) (hsubset : Assoc.keys m ⊆ Assoc.keys n) (key : String) :
    key ∈ Assoc.keys m ↔ key ∈ Assoc.keys n := by
  have hle : (Assoc.keys n).length ≤ (Assoc.keys m).length := by simp [Assoc.keys, hlength]
  exact ((List.subperm_of_subset hm hsubset).perm_of_length_le hle).mem_iff

theorem length_eq_of_mem_keys_iff {m n : Assoc String Value} (hm : (Assoc.keys m).Nodup)
    (hn : (Assoc.keys n).Nodup) (hkeys : ∀ key, key ∈ Assoc.keys m ↔ key ∈ Assoc.keys n) :
    m.length = n.length := by
  have hperm := ((List.perm_ext_iff_of_nodup hm hn).mpr hkeys).length_eq
  simpa [Assoc.keys] using hperm

/-- What is found equal has equal contents, whatever the bound. -/
theorem equal_of_structuralEqAt (hkeys : ∀ o, (Assoc.keys (s.object o)).Nodup) {fuel : Nat}
    (h : s.structuralEqAt fuel v w = true) : s.Equal v w := by
  induction fuel generalizing v w with
  | zero => exact .same h
  | succ fuel ih =>
    cases v with
    | object a =>
      cases w with
      | object b =>
        rcases Bool.or_eq_true_iff.mp h with hsame | hcontents
        · exact .same hsame
        obtain ⟨hlength, hcovered⟩ := Bool.and_eq_true_iff.mp hcontents
        rw [covered_iff] at hcovered
        -- the test runs over the keys of the left side only; with as many keys on the right they are all
        have hsubset : Assoc.keys (s.object a) ⊆ Assoc.keys (s.object b) := by
          intro key hkey
          obtain ⟨p, hp, rfl⟩ := List.mem_map.mp hkey
          obtain ⟨w, hw, -⟩ := hcovered p hp
          exact (Assoc.mem_keys_iff _ p.1).mpr ⟨w, hw⟩
        refine .object (mem_keys_iff_of_subset (hkeys a) (beq_iff_eq.mp hlength) hsubset) ?_
        intro key v w hv hw
        obtain ⟨w', hw', heq⟩ := hcovered (key, v) (Assoc.mem_of_get? hv)
        obtain rfl : w' = w := Option.some.inj (hw'.symm.trans hw)
        exact ih heq
      | _ => exact .same h
    | array a =>
      cases w with
      | array b =>
        rcases Bool.or_eq_true_iff.mp h with hsame | hcontents
        · exact .same hsame
        obtain ⟨-, hagree⟩ := Bool.and_eq_true_iff.mp hcontents
        obtain ⟨hlength, hall⟩ := (agree_iff _ _ _).mp hagree
        exact .array hlength fun index v w hv hw => ih (hall index v w hv hw)
      | _ => exact .same h
    | _ => exact .same h

/-- What is the same is found equal at once. -/
theorem structuralEqAt_of_same (h : v.same w = true) (fuel : Nat) :
    s.structuralEqAt fuel v w = true := by
  cases fuel with
  | zero => exact h
  | succ fuel =>
    cases v with
    | object a =>
      rw [Value.eq_of_same (by simp [Value.kind]) h]
      simp [structuralEqAt]
    | array a =>
      rw [Value.eq_of_same (by simp [Value.kind]) h]
      simp [structuralEqAt]
    | _ => exact h

/-- Equal contents are found equal when the walk goes down further than the first value does. -/
theorem structuralEqAt_of_equal (hkeys : ∀ o, (Assoc.keys (s.object o)).Nodup) (h : s.Equal v w)
    {fuel : Nat} (hdepth : ∀ steps x, s.reach? v steps = some x → steps.length < fuel) :
    s.structuralEqAt fuel v w = true := by
  induction h generalizing fuel with
  | same h => exact structuralEqAt_of_same h fuel
  | @object a b hmem _ ih =>
    obtain ⟨fuel, rfl⟩ := Nat.exists_eq_succ_of_ne_zero (Nat.ne_of_gt (hdepth [] _ rfl))
    have hlength := length_eq_of_mem_keys_iff (hkeys a) (hkeys b) hmem
    have hcovered : covered (s.structuralEqAt fuel) (s.object b) (s.object a) = true := by
      rw [covered_iff]
      intro p hp
      have hfound : Assoc.get? (s.object a) p.1 = some p.2 := Assoc.get?_of_mem (hkeys a) hp
      obtain ⟨w, hw⟩ := (Assoc.mem_keys_iff _ p.1).mp ((hmem p.1).mp (Assoc.mem_keys_of_mem hp))
      refine ⟨w, hw, ih p.1 p.2 w hfound hw fun steps x hx => ?_⟩
      -- a way from a property is one step shorter than the way from the object
      have hway : s.reach? (.object a) (.property p.1 :: steps) = some x := by
        rw [reach?, property?, entries, hfound]
        exact hx
      exact Nat.lt_of_succ_lt_succ (hdepth _ x hway)
    simp [structuralEqAt, hlength, hcovered]
  | @array a b hlength _ ih =>
    obtain ⟨fuel, rfl⟩ := Nat.exists_eq_succ_of_ne_zero (Nat.ne_of_gt (hdepth [] _ rfl))
    have hagree : agree (s.structuralEqAt fuel) (s.array a) (s.array b) = true := by
      rw [agree_iff]
      refine ⟨hlength, fun index v w hv hw => ih index v w hv hw fun steps x hx => ?_⟩
      have hway : s.reach? (.array a) (.element index :: steps) = some x := by
        rw [reach?, element?, elements, hv]
        exact hx
      exact Nat.lt_of_succ_lt_succ (hdepth _ x hway)
    simp [structuralEqAt, hlength, hagree]

/-- The comparison decides equality by contents when the first value is not too deep. -/
theorem structuralEq_iff_of_depth (hkeys : ∀ o, (Assoc.keys (s.object o)).Nodup)
    (hdepth : ∀ steps x, s.reach? v steps = some x → steps.length < s.nesting) :
    s.structuralEq v w = true ↔ s.Equal v w := by
  refine ⟨equal_of_structuralEqAt hkeys, fun h => structuralEqAt_of_equal hkeys h fun steps x hx => ?_⟩
  have hle : s.nesting ≤ s.nesting * s.nesting := Nat.le_mul_self s.nesting
  exact Nat.lt_of_lt_of_le (hdepth steps x hx) hle

/-- So it does when the first value has no cycles. -/
theorem structuralEq_iff_equal (hs : s.WellFormed) (hv : s.Has v) (hloop : s.Loopless v) :
    s.structuralEq v w = true ↔ s.Equal v w :=
  structuralEq_iff_of_depth hs.nodup_keys fun _ _ hx => hloop.length_lt hs hv hx

end Store

end ClassComposition
