import ClassComposition.Proofs.Store.Copies

/-!
# The contents of values

Objects made by different runs have different handles, so they are compared by what they hold: under each
key the contents of the property, down to the values that are no objects.  How those are read is a
parameter, because an array is sometimes meant by its handle and sometimes by its elements.  A value has
contents exactly when no object lies below itself.

## Main definitions

* `Contents` — what a value holds.
* `Contents.overlay` — contents laid over contents.
* `Store.Shows`, `Store.ShowsAll` — the contents of a value, its objects being among some.

## Main results

* `Store.Shows.congr` — contents stay where the objects keep their properties.
* `Store.Acyclic.exists_shows`, `Store.Shows.acyclic` — the values with contents are the acyclic ones.
* `Store.Shows.depth_le` — contents are no deeper than there are objects.
* `Store.shows_deepCopyAt` — a copy has the contents of the original.
-/

namespace ClassComposition

/-- What a value holds: itself, as it is read, or contents under keys in order. -/
inductive Contents (α : Type)
  | leaf (a : α)
  | object (properties : List (String × Contents α))

variable {α β : Type}

namespace Contents

mutual

/-- How many objects lie one below the other. -/
def depth : Contents α → Nat
  | leaf _ => 0
  | object properties => depthAll properties + 1
termination_by structural c => c

/-- The greatest depth of some contents. -/
def depthAll : List (String × Contents α) → Nat
  | [] => 0
  | (_, c) :: rest => max (depth c) (depthAll rest)
termination_by structural properties => properties

end

mutual

/-- The contents with what is read at the leaves changed. -/
def map (f : α → β) : Contents α → Contents β
  | leaf a => leaf (f a)
  | object properties => object (mapAll f properties)
termination_by structural c => c

/-- The same for several contents under keys. -/
def mapAll (f : α → β) : List (String × Contents α) → List (String × Contents β)
  | [] => []
  | (key, c) :: rest => (key, map f c) :: mapAll f rest
termination_by structural properties => properties

end

mutual

/-- Contents laid over contents: where both are objects, the properties are laid over one another, else
those laid over take the place. -/
def overlay : Contents α → Contents α → Contents α
  | _, leaf a => leaf a
  | leaf _, object above => object above
  | object below, object above => object (overlayAll below above)
termination_by structural _ source => source

/-- Properties laid over properties, one after the other. -/
def overlayAll :
    List (String × Contents α) → List (String × Contents α) → List (String × Contents α)
  | target, [] => target
  | target, (key, above) :: rest =>
    overlayAll (Assoc.insert target key (match Assoc.get? target key with
      | some below => overlay below above
      | none => above)) rest
termination_by structural _ source => source

end

/-! ### Depths -/

theorem depth_le_depthAll {properties : List (String × Contents α)} {p : String × Contents α}
    (hp : p ∈ properties) : p.2.depth ≤ depthAll properties := by
  induction properties with
  | nil => cases hp
  | cons q rest ih =>
    rw [depthAll]
    rcases List.mem_cons.mp hp with rfl | hmem
    · omega
    · have := ih hmem
      omega

end Contents

/-! ### Contents of values -/

namespace Store

mutual

/-- A value has these contents, and its objects are among some. -/
inductive Shows (s : Store) (among : Handle .object → Prop) (read : Value → α) :
    Value → Contents α → Prop
  | leaf {v : Value} (h : v.kind ≠ .object) : Shows s among read v (.leaf (read v))
  | object {o : Handle .object} {properties : List (String × Contents α)} (ho : among o)
      (h : ShowsAll s among read (s.object o) properties) :
      Shows s among read (.object o) (.object properties)

/-- Entries have these contents under their keys. -/
inductive ShowsAll (s : Store) (among : Handle .object → Prop) (read : Value → α) :
    Assoc String Value → List (String × Contents α) → Prop
  | nil : ShowsAll s among read [] []
  | cons {key : String} {v : Value} {rest : Assoc String Value} {c : Contents α}
      {others : List (String × Contents α)} (first : Shows s among read v c)
      (below : ShowsAll s among read rest others) :
      ShowsAll s among read ((key, v) :: rest) ((key, c) :: others)

end

variable {s t : Store} {among others : Handle .object → Prop} {read : Value → α} {v : Value}
  {c d : Contents α} {o : Handle .object} {entries : Assoc String Value}
  {properties : List (String × Contents α)}

/-- The contents of an object are those of its properties. -/
theorem Shows.exists_properties (h : s.Shows among read (.object o) c) :
    ∃ properties, c = .object properties ∧ among o ∧ s.ShowsAll among read (s.object o) properties := by
  cases h with
  | leaf hleaf => exact absurd rfl hleaf
  | object ho below => exact ⟨_, rfl, ho, below⟩

/-- The contents of a value that is no object are the value as it is read. -/
theorem Shows.eq_leaf (h : s.Shows among read v c) (hv : v.kind ≠ .object) : c = .leaf (read v) := by
  cases h with
  | leaf _ => rfl
  | object => exact absurd rfl hv

mutual

theorem Shows.congr (h : ∀ o, among o → others o ∧ t.object o = s.object o) {v : Value}
    {c : Contents α} : s.Shows among read v c → t.Shows others read v c
  | .leaf hleaf => .leaf hleaf
  | .object ho below => by
    obtain ⟨hother, hsame⟩ := h _ ho
    have hall := below.congr h
    rw [← hsame] at hall
    exact .object hother hall

theorem ShowsAll.congr (h : ∀ o, among o → others o ∧ t.object o = s.object o)
    {entries : Assoc String Value} {properties : List (String × Contents α)} :
    s.ShowsAll among read entries properties → t.ShowsAll others read entries properties
  | .nil => .nil
  | .cons first below => .cons (first.congr h) (below.congr h)

end

/-- Contents stay when the store grows. -/
theorem Shows.within (h : s.Shows s.objects.Has read v c) (hst : s.Within t) :
    t.Shows t.objects.Has read v c :=
  h.congr fun _ ho => ⟨hst.objects.has ho, hst.object_eq ho⟩

theorem ShowsAll.within (h : s.ShowsAll s.objects.Has read entries properties) (hst : s.Within t) :
    t.ShowsAll t.objects.Has read entries properties :=
  h.congr fun _ ho => ⟨hst.objects.has ho, hst.object_eq ho⟩

theorem Shows.mono (h : s.Shows among read v c) (hmore : ∀ o, among o → others o) :
    s.Shows others read v c := h.congr fun o ho => ⟨hmore o ho, rfl⟩

mutual

/-- A value has one contents. -/
theorem Shows.unique {v : Value} {c d : Contents α} :
    s.Shows among read v c → s.Shows others read v d → c = d
  | .leaf hleaf, hd => (hd.eq_leaf hleaf).symm
  | .object _ below, hd => by
    obtain ⟨properties, rfl, -, hproperties⟩ := hd.exists_properties
    rw [below.unique hproperties]

theorem ShowsAll.unique {entries : Assoc String Value} {properties ps : List (String × Contents α)} :
    s.ShowsAll among read entries properties → s.ShowsAll others read entries ps → properties = ps
  | .nil, hps => by
    cases hps
    rfl
  | .cons first below, hps => by
    cases hps with
    | cons first' below' => rw [first.unique first', below.unique below']

end

mutual

/-- Values of a well-formed store are made of its objects. -/
theorem Shows.has (hs : s.WellFormed) {v : Value} {c : Contents α} (hv : s.Has v) :
    s.Shows among read v c → s.Shows s.objects.Has read v c
  | .leaf hleaf => .leaf hleaf
  | .object _ below => .object hv (below.has hs (hs.has_property _))

theorem ShowsAll.has (hs : s.WellFormed) {entries : Assoc String Value}
    {properties : List (String × Contents α)} (hentries : ∀ p ∈ entries, s.Has p.2) :
    s.ShowsAll among read entries properties → s.ShowsAll s.objects.Has read entries properties
  | .nil => .nil
  | .cons first below => by
    rw [List.forall_mem_cons] at hentries
    exact .cons (first.has hs hentries.1) (below.has hs hentries.2)

end

mutual

/-- The leaves of a value may be read in another way that agrees on what the store has. -/
theorem Shows.reread {other : Value → α} (hread : ∀ v, s.Has v → other v = read v) (hs : s.WellFormed)
    {v : Value} {c : Contents α} (hv : s.Has v) :
    s.Shows among read v c → s.Shows among other v c
  | .leaf hleaf => by
    rw [← hread v hv]
    exact .leaf hleaf
  | .object ho below => .object ho (below.reread hread hs (hs.has_property _))

theorem ShowsAll.reread {other : Value → α} (hread : ∀ v, s.Has v → other v = read v)
    (hs : s.WellFormed) {entries : Assoc String Value} {properties : List (String × Contents α)}
    (hentries : ∀ p ∈ entries, s.Has p.2) :
    s.ShowsAll among read entries properties → s.ShowsAll among other entries properties
  | .nil => .nil
  | .cons first below => by
    rw [List.forall_mem_cons] at hentries
    exact .cons (first.reread hread hs hentries.1) (below.reread hread hs hentries.2)

end

mutual

/-- The objects of a value are those that it spans. -/
theorem Shows.of_spans {os : List (Handle .object)} {v : Value} {c : Contents α} :
    s.Shows among read v c → s.Spans v os → s.Shows (· ∈ os) read v c
  | .leaf hleaf, _ => .leaf hleaf
  | .object _ below, hspans => by
    obtain ⟨os', rfl, hall⟩ := hspans.exists_below
    refine .object List.mem_cons_self ((below.of_spans hall).congr ?_)
    exact fun o ho => ⟨List.mem_cons_of_mem _ ho, rfl⟩

theorem ShowsAll.of_spans {os : List (Handle .object)} {entries : Assoc String Value}
    {properties : List (String × Contents α)} :
    s.ShowsAll among read entries properties → s.SpansAll entries os →
      s.ShowsAll (· ∈ os) read entries properties
  | .nil, _ => .nil
  | .cons first below, hspans => by
    obtain ⟨firsts, later, rfl, hfirst, hlater⟩ := hspans.exists_first
    refine .cons ((first.of_spans hfirst).mono ?_) ((below.of_spans hlater).congr ?_)
    · exact fun o ho => List.mem_append_left _ ho
    · exact fun o ho => ⟨List.mem_append_right _ ho, rfl⟩

end

mutual

/-- What is read at the leaves may be changed. -/
theorem Shows.map (f : α → β) {v : Value} {c : Contents α} :
    s.Shows among read v c → s.Shows among (fun v => f (read v)) v (c.map f)
  | .leaf hleaf => .leaf hleaf
  | .object ho below => .object ho (below.map f)

theorem ShowsAll.map (f : α → β) {entries : Assoc String Value}
    {properties : List (String × Contents α)} :
    s.ShowsAll among read entries properties →
      s.ShowsAll among (fun v => f (read v)) entries (Contents.mapAll f properties)
  | .nil => .nil
  | .cons first below => .cons (first.map f) (below.map f)

end

theorem ShowsAll.keys_eq (h : s.ShowsAll among read entries properties) :
    Assoc.keys properties = Assoc.keys entries := by
  induction entries generalizing properties with
  | nil =>
    cases h
    rfl
  | cons p rest ih =>
    cases h with
    | cons first below => exact congrArg (_ :: ·) (ih below)

theorem ShowsAll.exists_of_mem (h : s.ShowsAll among read entries properties) {p : String × Value}
    (hp : p ∈ entries) : ∃ q ∈ properties, s.Shows among read p.2 q.2 := by
  induction entries generalizing properties with
  | nil => cases hp
  | cons e rest ih =>
    cases h with
    | @cons key v _ c others first below =>
      rcases List.mem_cons.mp hp with rfl | hmem
      · exact ⟨(key, c), List.mem_cons_self, first⟩
      · obtain ⟨q, hq, hshows⟩ := ih below hmem
        exact ⟨q, List.mem_cons_of_mem _ hq, hshows⟩

/-! ### Acyclic values -/

theorem exists_showsAll {n : Nat}
    (h : ∀ p ∈ entries, ∃ c, s.Shows among read p.2 c ∧ c.depth ≤ n) :
    ∃ properties, s.ShowsAll among read entries properties ∧ Contents.depthAll properties ≤ n := by
  induction entries with
  | nil => exact ⟨[], .nil, by simp [Contents.depthAll]⟩
  | cons p rest ih =>
    rw [List.forall_mem_cons] at h
    obtain ⟨⟨c, hfirst, hdepth⟩, hrest⟩ := h
    obtain ⟨properties, hall, hdepths⟩ := ih hrest
    refine ⟨(p.1, c) :: properties, .cons hfirst hall, ?_⟩
    rw [Contents.depthAll]
    omega

/-- A value with no way down that is longer than some bound has contents that are no deeper. -/
theorem exists_shows {n : Nat} (h : ∀ path, s.Descends v path → path.length ≤ n) :
    ∃ c, s.Shows (fun _ => True) read v c ∧ c.depth ≤ n := by
  induction n generalizing v with
  | zero =>
    -- an object makes a way of length one, longer than what is allowed
    have hleaf : v.kind ≠ .object := by
      cases v with
      | object o =>
        have hlength := h [o] (.last o)
        simp at hlength
      | _ => simp [Value.kind]
    exact ⟨_, .leaf hleaf, by simp [Contents.depth]⟩
  | succ n ih =>
    cases v with
    | object o =>
      have hbelow : ∀ p ∈ s.object o, ∃ c, s.Shows (fun _ => True) read p.2 c ∧ c.depth ≤ n := by
        intro p hp
        apply ih
        intro path hpath
        have hlength := h (o :: path) (.down hp hpath)
        rw [List.length_cons] at hlength
        omega
      obtain ⟨properties, hall, hdepth⟩ := exists_showsAll hbelow
      refine ⟨.object properties, .object trivial hall, ?_⟩
      rw [Contents.depth]
      omega
    | _ => exact ⟨_, .leaf (by simp [Value.kind]), by simp [Contents.depth]⟩

/-- An acyclic value has contents, no deeper than there are objects. -/
theorem Acyclic.exists_shows (hacyclic : s.Acyclic v) (hs : s.WellFormed) (hv : s.Has v)
    (read : Value → α) :
    ∃ c, s.Shows s.objects.Has read v c ∧ c.depth ≤ s.objects.size := by
  obtain ⟨c, hc, hdepth⟩ : ∃ c, s.Shows (fun _ => True) read v c ∧ c.depth ≤ s.objects.size :=
    Store.exists_shows fun path hpath => hpath.length_le hs hv (hacyclic path hpath)
  exact ⟨c, hc.has hs hv, hdepth⟩

/-- Every object on a way down has contents, no deeper than those of the value, and none of them is passed
twice, for what lies below an object is less deep than the object itself. -/
theorem Descends.nodup_of_shows {os : List (Handle .object)} (h : s.Descends v os)
    (hc : s.Shows among read v c) :
    os.Nodup ∧ ∀ o ∈ os, ∃ d, s.Shows among read (.object o) d ∧ d.depth ≤ c.depth := by
  induction h generalizing c with
  | last o =>
    refine ⟨List.nodup_singleton o, ?_⟩
    intro other ho
    obtain rfl := List.mem_singleton.mp ho
    exact ⟨c, hc, Nat.le_refl _⟩
  | @down o p path hp below ih =>
    have hshows := hc
    obtain ⟨properties, rfl, -, hall⟩ := hc.exists_properties
    obtain ⟨q, hq, hbelow⟩ := hall.exists_of_mem hp
    obtain ⟨hnodup, hpath⟩ := ih hbelow
    have hdepth := Contents.depth_le_depthAll hq
    have hless : q.2.depth < (Contents.object properties).depth := by
      rw [Contents.depth]
      omega
    refine ⟨List.nodup_cons.mpr ⟨fun hmem => ?_, hnodup⟩, ?_⟩
    · -- an object met again below itself would be less deep than itself
      obtain ⟨d, hd, hle⟩ := hpath o hmem
      rw [hd.unique hshows] at hle
      omega
    · refine List.forall_mem_cons.mpr ⟨⟨_, hshows, Nat.le_refl _⟩, fun other hother => ?_⟩
      obtain ⟨d, hd, hle⟩ := hpath other hother
      exact ⟨d, hd, by omega⟩

/-- Only an acyclic value has contents. -/
theorem Shows.acyclic (h : s.Shows among read v c) : s.Acyclic v :=
  fun _ hpath => (hpath.nodup_of_shows h).1

/-- No object comes to lie below itself where things are only added. -/
theorem Acyclic.within (h : s.Acyclic v) (hs : s.WellFormed) (hv : s.Has v) (hst : s.Within t) :
    t.Acyclic v := by
  obtain ⟨c, hc, -⟩ := h.exists_shows hs hv id
  exact (hc.within hst).acyclic

/-- Contents are no deeper than there are objects. -/
theorem Shows.depth_le (h : s.Shows among read v c) (hs : s.WellFormed) (hv : s.Has v) :
    c.depth ≤ s.objects.size := by
  obtain ⟨d, hd, hdepth⟩ := h.acyclic.exists_shows hs hv read
  rw [h.unique hd]
  exact hdepth

/-- In any store they are no deeper than a walk goes. -/
theorem Shows.depth_le_nesting (h : s.Shows among read v c) : c.depth ≤ s.nesting := by
  obtain ⟨d, hd, hdepth⟩ : ∃ d, s.Shows (fun _ => True) read v d ∧ d.depth ≤ s.objects.size + 1 :=
    Store.exists_shows fun path hpath => hpath.length_le_succ (h.acyclic path hpath)
  rw [h.unique hd]
  unfold nesting
  omega

theorem ShowsAll.depthAll_le_nesting (h : s.ShowsAll among read entries properties) :
    Contents.depthAll properties ≤ s.nesting := by
  induction entries generalizing properties with
  | nil =>
    cases h
    exact Nat.zero_le _
  | cons p rest ih =>
    cases h with
    | cons first others =>
      rw [Contents.depthAll]
      exact Nat.max_le.mpr ⟨first.depth_le_nesting, ih others⟩

/-! ### Copies -/

/-- Where every value that is copied keeps its contents, so do several one after the other. -/
theorem showsAll_mapEntries {step : Value → Store → Value × Store}
    (hstep : ∀ {v s c}, s.WellFormed → s.Has v → s.Shows s.objects.Has read v c →
      s.Continues (step v s).2 ∧
        (step v s).2.Shows (step v s).2.objects.Has read (step v s).1 c)
    (hs : s.WellFormed) (hentries : ∀ p ∈ entries, s.Has p.2)
    (h : s.ShowsAll s.objects.Has read entries properties) :
    s.Within (mapEntries step entries s).2 ∧
      (mapEntries step entries s).2.ShowsAll (mapEntries step entries s).2.objects.Has read
        (mapEntries step entries s).1 properties := by
  induction entries generalizing s properties with
  | nil =>
    cases h
    exact ⟨.refl s, .nil⟩
  | cons p rest ih =>
    cases h with
    | cons first below =>
      rw [List.forall_mem_cons] at hentries
      obtain ⟨hgrown, hfirst⟩ := hstep hs hentries.1 first
      have hlater := fun p hp => hgrown.within.has (hentries.2 p hp)
      obtain ⟨hthen, hrest⟩ := ih hgrown.wellFormed hlater (below.within hgrown.within)
      exact ⟨hgrown.within.trans hthen, .cons (hfirst.within hthen) hrest⟩

/-- A copy has the contents of the original. -/
theorem shows_deepCopyAt {fuel : Nat} (hs : s.WellFormed) (hv : s.Has v)
    (h : s.Shows s.objects.Has read v c) :
    (deepCopyAt fuel v s).2.Shows (deepCopyAt fuel v s).2.objects.Has read (deepCopyAt fuel v s).1 c := by
  induction fuel generalizing v s c with
  | zero => cases v <;> exact h
  | succ fuel ih =>
    cases v with
    | object o =>
      obtain ⟨properties, rfl, -, hall⟩ := h.exists_properties
      have hstep : ∀ {v : Value} {s : Store} {c : Contents α}, s.WellFormed → s.Has v →
          s.Shows s.objects.Has read v c → s.Continues (deepCopyAt fuel v s).2 ∧
            (deepCopyAt fuel v s).2.Shows (deepCopyAt fuel v s).2.objects.Has read
              (deepCopyAt fuel v s).1 c :=
        fun hs hv h => ⟨(continues_deepCopyAt hs hv).1, ih hs hv h⟩
      -- the properties are copied one after the other, each into the store the last one left
      obtain ⟨-, hcopied⟩ := showsAll_mapEntries hstep hs (hs.has_property o) hall
      rcases hmapped : mapEntries (deepCopyAt fuel) (s.object o) s with ⟨made, t⟩
      rw [hmapped] at hcopied
      have hcopy : deepCopyAt (fuel + 1) (.object o) s = t.newObject made := by
        rw [deepCopyAt, hmapped]
      have hmade : (t.newObject made).2.object ⟨t.objects.size⟩ = made :=
        Pool.get_alloc_self t.objects made
      have hhas := (fresh_newObject t made).has _ List.mem_cons_self
      rw [hcopy]
      refine .object hhas ?_
      show (t.newObject made).2.ShowsAll _ read ((t.newObject made).2.object ⟨t.objects.size⟩) _
      rw [hmade]
      exact hcopied.within (within_newObject t made)
    | _ => exact h

end Store

end ClassComposition
