import ClassComposition.Proofs.Class.OverlayContents

/-!
# What an overlay comes to

An overlay goes down along its target, into an object only where the target has one, and takes everything
else from the source as it stands there.  So it comes to an end whenever no object of the target lies
below itself, whatever the source may look like, and what it leaves can be told from the contents of the
target and one look at the source for each of the target's objects.

## Main definitions

* `Contents.under` — what contents become under a value that is laid over them.
* `Store.StandsFor` — a value has these contents, where a leaf may be any value by its handle.
* `Overlays` — an overlay that comes to an end, with no bound on how deep it goes.

## Main results

* `Contents.layered_cons` — properties are laid over one after the other.
* `laysUnder` — an overlay whose target is new and not too deep ends with the contents of the target under
  the source.
-/

namespace ClassComposition

/-! ### Contents under a value -/

namespace Contents

/-- The properties that come behind those that are there. -/
def added (below : List (String × Contents Value)) (above : Assoc String Value) :
    List (String × Contents Value) :=
  (above.filter fun p => !Assoc.contains below p.1).map fun p => (p.1, leaf p.2)

mutual

/-- What contents become under a value of a store: where both are objects, each property is laid under the
one of its key, and then come the other properties of the value as they are; else it is the value. -/
def under (s : Store) : Contents Value → Value → Contents Value
  | object below, v =>
    match v with
    | .object o => object (underAll s below (s.object o) ++ added below (s.object o))
    | v => leaf v
  | leaf _, v => leaf v
termination_by structural c => c

/-- The properties with those that have a key of the value's laid under what it has there. -/
def underAll (s : Store) :
    List (String × Contents Value) → Assoc String Value → List (String × Contents Value)
  | [], _ => []
  | (key, c) :: rest, above =>
    (key, match Assoc.get? above key with
      | some v => under s c v
      | none => c) :: underAll s rest above
termination_by structural properties => properties

end

/-- Properties under other ones. -/
def layered (s : Store) (below : List (String × Contents Value)) (above : Assoc String Value) :
    List (String × Contents Value) :=
  underAll s below above ++ added below above

/-- What is under one key when a value is laid over it. -/
def under? (s : Store) (below? : Option (Contents Value)) (v : Value) : Contents Value :=
  match below? with
  | some c => under s c v
  | none => leaf v

variable {s : Store} {below : List (String × Contents Value)} {above rest : Assoc String Value}
  {key : String} {c : Contents Value} {v : Value}

theorem under_leaf (a v : Value) : (leaf a).under s v = leaf v := rfl

theorem under_object (below : List (String × Contents Value)) (o : Handle .object) :
    (object below).under s (.object o) = object (layered s below (s.object o)) := rfl

theorem under_of_ne (c : Contents Value) (hv : v.kind ≠ .object) : c.under s v = leaf v := by
  cases c with
  | leaf _ => rfl
  | object below =>
    cases v with
    | object o => exact absurd rfl hv
    | _ => rfl

theorem underAll_eq_map (below : List (String × Contents Value)) (above : Assoc String Value) :
    underAll s below above = below.map fun p => (p.1, match Assoc.get? above p.1 with
      | some v => under s p.2 v
      | none => p.2) := by
  induction below with
  | nil => rfl
  | cons p rest ih => exact congrArg (_ :: ·) ih

theorem layered_nil (below : List (String × Contents Value)) : layered s below [] = below := by
  rw [layered, underAll_eq_map]
  simp [added, Assoc.get?]

/-- A key that is there adds nothing behind. -/
theorem added_cons_of_mem (hmem : key ∈ Assoc.keys below) (hkey : key ∉ Assoc.keys rest)
    (c : Contents Value) : added below ((key, v) :: rest) = added (Assoc.insert below key c) rest := by
  have hcontains : Assoc.contains below key = true := (Assoc.contains_iff below key).mpr hmem
  unfold added
  rw [List.filter_cons_of_neg (by simp [hcontains])]
  refine congrArg _ (List.filter_congr fun p hp => ?_)
  have hne : key ≠ p.1 := fun heq => hkey (heq ▸ Assoc.mem_keys_of_mem hp)
  unfold Assoc.contains
  rw [Assoc.get?_insert_of_ne _ _ hne]

/-- A key that is new comes before what else is new. -/
theorem added_cons_of_notMem (hmem : key ∉ Assoc.keys below) (hkey : key ∉ Assoc.keys rest) :
    added below ((key, v) :: rest) = (key, leaf v) :: added (below ++ [(key, leaf v)]) rest := by
  have hcontains : Assoc.contains below key = false := by
    rw [Bool.eq_false_iff]
    exact fun h => hmem ((Assoc.contains_iff below key).mp h)
  unfold added
  rw [List.filter_cons_of_pos (by simp [hcontains]), List.map_cons]
  refine congrArg (_ :: List.map _ ·) (List.filter_congr fun p hp => ?_)
  have hne : key ≠ p.1 := fun heq => hkey (heq ▸ Assoc.mem_keys_of_mem hp)
  unfold Assoc.contains
  rw [Assoc.get?_append]
  simp [Assoc.get?, hne]

/-- Of properties that are laid over, the first may be laid over alone and the others after it. -/
theorem layered_cons (hbelow : (Assoc.keys below).Nodup) (hkey : key ∉ Assoc.keys rest) :
    layered s below ((key, v) :: rest)
      = layered s (Assoc.insert below key (under? s (Assoc.get? below key) v)) rest := by
  have hrest : Assoc.get? rest key = none := (Assoc.get?_eq_none_iff rest key).mpr hkey
  by_cases hmem : key ∈ Assoc.keys below
  · -- the key stays where it is
    rw [layered, layered, added_cons_of_mem hmem hkey, underAll_eq_map, underAll_eq_map,
      Assoc.insert_eq_map hbelow hmem, List.map_map]
    refine congrArg (· ++ _) (List.map_congr_left fun p hp => ?_)
    by_cases hp : p.1 = key
    · subst hp
      have hfound := Assoc.get?_of_mem hbelow hp
      simp [Assoc.get?, hrest, hfound, under?]
    · simp [Assoc.get?, hp, Ne.symm hp]
  · -- the key comes behind, and nothing after it has this key again
    have hnone : Assoc.get? below key = none := (Assoc.get?_eq_none_iff below key).mpr hmem
    rw [Assoc.insert_of_notMem hmem, hnone, under?, layered, layered, added_cons_of_notMem hmem hkey,
      underAll_eq_map, underAll_eq_map, List.map_append, List.append_assoc]
    refine congrArg₂ (· ++ ·) (List.map_congr_left fun p hp => ?_) ?_
    · have hother : key ≠ p.1 := fun heq => hmem (heq ▸ Assoc.mem_keys_of_mem hp)
      simp [Assoc.get?, hother]
    · simp [hrest]

end Contents

/-! ### What values stand for -/

namespace Store

mutual

/-- A value has these contents, and the objects that they are made of are among some.  A leaf may be any
value, an object by its handle included. -/
inductive StandsFor (s : Store) (among : Handle .object → Prop) : Value → Contents Value → Prop
  | leaf (v : Value) : StandsFor s among v (.leaf v)
  | object {o : Handle .object} {properties : List (String × Contents Value)} (ho : among o)
      (below : StandsForAll s among (s.object o) properties) :
      StandsFor s among (.object o) (.object properties)

/-- Entries have these contents under their keys. -/
inductive StandsForAll (s : Store) (among : Handle .object → Prop) :
    Assoc String Value → List (String × Contents Value) → Prop
  | nil : StandsForAll s among [] []
  | cons {key : String} {v : Value} {rest : Assoc String Value} {c : Contents Value}
      {others : List (String × Contents Value)} (first : StandsFor s among v c)
      (below : StandsForAll s among rest others) :
      StandsForAll s among ((key, v) :: rest) ((key, c) :: others)

end

variable {s t : Store} {among others : Handle .object → Prop} {v : Value} {c : Contents Value}
  {entries : Assoc String Value} {properties : List (String × Contents Value)}

mutual

theorem StandsFor.congr (h : ∀ o, among o → others o ∧ t.object o = s.object o) {v : Value}
    {c : Contents Value} : s.StandsFor among v c → t.StandsFor others v c
  | .leaf v => .leaf v
  | .object ho below => by
    obtain ⟨hother, hsame⟩ := h _ ho
    have hall := below.congr h
    rw [← hsame] at hall
    exact .object hother hall

theorem StandsForAll.congr (h : ∀ o, among o → others o ∧ t.object o = s.object o)
    {entries : Assoc String Value} {properties : List (String × Contents Value)} :
    s.StandsForAll among entries properties → t.StandsForAll others entries properties
  | .nil => .nil
  | .cons first below => .cons (first.congr h) (below.congr h)

end

theorem StandsFor.mono (h : s.StandsFor among v c) (hmore : ∀ o, among o → others o) :
    s.StandsFor others v c := h.congr fun o ho => ⟨hmore o ho, rfl⟩

/-- Changes to objects leave what a value stands for that is made of others. -/
theorem StandsFor.changedAt {os own : List (Handle .object)} (h : s.StandsFor (· ∈ own) v c)
    (hst : ChangedAt os s t) (hdisjoint : os.Disjoint own) : t.StandsFor (· ∈ own) v c :=
  h.congr fun o ho => ⟨ho, hst.object_eq o fun hmem => hdisjoint hmem ho⟩

theorem Shows.changedAt_own {os own : List (Handle .object)} (h : s.Shows (· ∈ own) id v c)
    (hst : ChangedAt os s t) (hdisjoint : os.Disjoint own) : t.Shows (· ∈ own) id v c :=
  h.congr fun o ho => ⟨ho, hst.object_eq o fun hmem => hdisjoint hmem ho⟩

mutual

/-- A value stands for its contents. -/
theorem Shows.standsFor {v : Value} {c : Contents Value} :
    s.Shows among id v c → s.StandsFor among v c
  | .leaf _ => .leaf _
  | .object ho below => .object ho below.standsFor

theorem ShowsAll.standsFor {entries : Assoc String Value} {properties : List (String × Contents Value)} :
    s.ShowsAll among id entries properties → s.StandsForAll among entries properties
  | .nil => .nil
  | .cons first below => .cons first.standsFor below.standsFor

end

theorem standsForAll_of_beside
    (h : Assoc.Beside (fun _ v c => s.StandsFor among v c) entries properties) :
    s.StandsForAll among entries properties := by
  induction h with
  | nil => exact .nil
  | @cons p q rest others first below ih =>
    obtain ⟨k, v⟩ := p
    obtain ⟨k', c⟩ := q
    obtain ⟨rfl, hstands⟩ := first
    exact .cons hstands ih

end Store

/-! ### Overlays that come to an end -/

mutual

/-- Laying the properties of an object over a target comes to an end and leaves the second store. -/
inductive Overlays : Value → Value → Store → Store → Prop
  | source {target source : Value} {s t : Store} (entries : OverlaysAll target (s.entries source) s t) :
      Overlays target source s t

/-- So does laying properties over it one after the other. -/
inductive OverlaysAll : Value → Assoc String Value → Store → Store → Prop
  | nil {target : Value} {s : Store} : OverlaysAll target [] s s
  | cons {target : Value} {key : String} {v : Value} {rest : Assoc String Value} {s t u : Store}
      (first : OverlaysOne target key v s t) (later : OverlaysAll target rest t u) :
      OverlaysAll target ((key, v) :: rest) s u

/-- One property is laid over the target's of its key where both are objects, and else written. -/
inductive OverlaysOne : Value → String → Value → Store → Store → Prop
  | down {target : Value} {key : String} {below above : Handle .object} {s t : Store}
      (found : s.property? target key = some (.object below))
      (overlays : Overlays (.object below) (.object above) s t) :
      OverlaysOne target key (.object above) s t
  | write {target : Value} {key : String} {v : Value} {s : Store}
      (neither : ∀ below above, s.property? target key = some (.object below) → v ≠ .object above) :
      OverlaysOne target key v s (s.setProperty target key v)

end

section Results

variable {s₀ s : Store} {fuel : Nat} {os : List (Handle .object)} {target source : Handle .object}
  {properties : List (String × Contents Value)}

/-- Overlays that go some levels down come to an end before they are cut off, on a target that is no
deeper, and leave its contents under the source.  The source was there, and the objects of the target are
new and pairwise different. -/
def LaysUnder (s₀ : Store) (fuel : Nat) : Prop :=
  ∀ {target source : Handle .object} {s : Store} {os : List (Handle .object)} {c : Contents Value},
    s₀.Has (.object source) → s₀.Within s → s.WellFormed → s.Has (.object target) →
    s.Spans (.object target) os → os.Nodup → (∀ o ∈ os, ¬ s₀.objects.Has o) →
    s.Shows (· ∈ os) id (.object target) c → c.depth ≤ fuel →
    (overlayAt fuel (.object target) (.object source) s).StandsFor (· ∈ os) (.object target)
        (c.under s₀ (.object source)) ∧
      Overlays (.object target) (.object source) s
        (overlayAt fuel (.object target) (.object source) s)

/-- What stands under a key of a target: it is made of the key's own objects, and as long as the turn of
the key is still to come it is as it was copied, and no deeper than the walk goes. -/
def Underlies (s : Store) (own : String → List (Handle .object)) (keys : List String) (fuel : Nat)
    (name : String) (x : Value) (c : Contents Value) : Prop :=
  s.StandsFor (· ∈ own name) x c ∧
    (name ∈ keys → s.Shows (· ∈ own name) id x c ∧ c.depth ≤ fuel)

/-- What stands under another key stays when something else is changed. -/
theorem Underlies.changedAt {t : Store} {own : String → List (Handle .object)} {keys : List String}
    {key name : String} {x : Value} {c : Contents Value} (h : Underlies s own (key :: keys) fuel name x c)
    (hst : s.ChangedAt os t) (hdisjoint : os.Disjoint (own name)) : Underlies t own keys fuel name x c := by
  obtain ⟨hstands, hturn⟩ := h
  refine ⟨hstands.changedAt hst hdisjoint, fun hname => ?_⟩
  obtain ⟨hshows, hdepth⟩ := hturn (List.mem_cons_of_mem _ hname)
  exact ⟨hshows.changedAt_own hst hdisjoint, hdepth⟩

/-- One property of a source, laid over a target, puts what stands under its key under the property, when
the overlays one level down do. -/
theorem standsFor_overlayEntry {own : String → List (Handle .object)} {key : String} {v : Value}
    {rest : List String} (hs₀ : s₀.WellFormed) (hbelow : LaysUnder s₀ fuel)
    (hnew : ∀ o ∈ os, ¬ s₀.objects.Has o) (hown : ∀ key, own key ⊆ os) (hv : s₀.Has v)
    (hkey : key ∉ rest) (hs : s₀.Within s) (hwell : s.WellFormed) (hgood : s.Has (.object target))
    (hseparate : s.Separate target (key :: rest) own)
    (hproperties : Assoc.Beside (Underlies s own (key :: rest) fuel) (s.object target) properties) :
    Assoc.Beside (Underlies (overlayEntry fuel (.object target) s (key, v)) own rest fuel)
        ((overlayEntry fuel (.object target) s (key, v)).object target)
        (Assoc.insert properties key (Contents.under? s₀ (Assoc.get? properties key) v)) ∧
      OverlaysOne (.object target) key v s (overlayEntry fuel (.object target) s (key, v)) := by
  have hkeys : (Assoc.keys (s.object target)).Nodup := hwell.nodup_keys target
  have hdone : ∀ {t : Store} {x : Value} {c : Contents Value},
      t.StandsFor (· ∈ own key) x c → Underlies t own rest fuel key x c :=
    fun hstands => ⟨hstands, fun hmem => absurd hmem hkey⟩
  rcases overlayEntry_cases fuel (.object target) s key v with
    ⟨below, above, hproperty, rfl, hentry⟩ | ⟨hneither, hentry⟩
  · -- the object under the key is laid over in place, and nothing else is touched
    have hfound : Assoc.get? (s.object target) key = some (.object below) := hproperty
    obtain ⟨c, hc, hshows, hdepth⟩ : ∃ c, Assoc.get? properties key = some c ∧
        s.Shows (· ∈ own key) id (.object below) c ∧ c.depth ≤ fuel := by
      rcases hproperties.get? key with ⟨x, c, hx, hc, hunderlies⟩ | ⟨hnone, -⟩
      · rw [hfound] at hx
        cases hx
        exact ⟨c, hc, hunderlies.2 List.mem_cons_self⟩
      · rw [hfound] at hnone
        cases hnone
    have hspans := hseparate.spans key List.mem_cons_self below hproperty
    have hnewOwn : ∀ o ∈ own key, ¬ s₀.objects.Has o := fun o ho => hnew o (hown key ho)
    have hbelowGood : s.Has (.object below) := hwell.has_property target _ (Assoc.mem_of_get? hfound)
    obtain ⟨hinner, hends⟩ :=
      hbelow hv hs hwell hbelowGood hspans (hseparate.nodup key) hnewOwn hshows hdepth
    have hchanged : s.ChangedAt (own key) (overlayAt fuel (.object below) (.object above) s) :=
      changedAt_overlayAt hs₀ hv hs hspans (hseparate.nodup key) hnewOwn
    have hsame := hchanged.object_eq target (hseparate.notMem key)
    rw [hentry, hc, hsame, ← Assoc.insert_of_get? hfound]
    refine ⟨hproperties.insert hkeys ?_ (hdone hinner), .down hproperty hends⟩
    intro other x d hne hunderlies
    exact hunderlies.changedAt hchanged (hseparate.disjoint key other hne.symm)
  · -- the property is written, and the objects under other keys are not the target
    have hchanged := Store.changedAt_setProperty s target key v
    have hobject : (s.setProperty (.object target) key v).object target
        = Assoc.insert (s.object target) key v := Pool.get_set_self s.objects target _ hgood
    have hwritten : Contents.under? s₀ (Assoc.get? properties key) v = .leaf v := by
      rcases hproperties.get? key with ⟨x, c, hx, hc, hunderlies⟩ | ⟨-, hnone⟩
      · rw [hc, Contents.under?]
        cases v with
        | object above =>
          have hleaf : x.kind ≠ .object := by
            intro hkind
            cases x with
            | object below => exact hneither below above hx rfl
            | _ => cases hkind
          rw [(hunderlies.2 List.mem_cons_self).1.eq_leaf hleaf, Contents.under_leaf]
        | _ => exact c.under_of_ne (by simp [Value.kind])
      · rw [hnone, Contents.under?]
    rw [hentry, hobject, hwritten]
    refine ⟨hproperties.insert hkeys ?_ (hdone (.leaf v)), .write hneither⟩
    intro other x d _ hunderlies
    refine hunderlies.changedAt hchanged fun o ho hmem => ?_
    obtain rfl := List.mem_singleton.mp ho
    exact hseparate.notMem other hmem

/-- Properties of a source, laid over a target one after the other, put its properties under them, when the
overlays one level down do. -/
theorem standsFor_foldl {own : String → List (Handle .object)} {entries : Assoc String Value}
    (hs₀ : s₀.WellFormed) (hbelow : LaysUnder s₀ fuel) (hnew : ∀ o ∈ os, ¬ s₀.objects.Has o)
    (htarget : target ∈ os) (hown : ∀ key, own key ⊆ os) (hhas : ∀ p ∈ entries, s₀.Has p.2)
    (hkeys : (Assoc.keys entries).Nodup) (hs : s₀.Within s) (hwell : s.WellFormed)
    (hgood : s.Has (.object target)) (hseparate : s.Separate target (Assoc.keys entries) own)
    (hproperties : Assoc.Beside (Underlies s own (Assoc.keys entries) fuel) (s.object target)
      properties) :
    Assoc.Beside (Underlies (entries.foldl (overlayEntry fuel (.object target)) s) own [] fuel)
        ((entries.foldl (overlayEntry fuel (.object target)) s).object target)
        (Contents.layered s₀ properties entries) ∧
      OverlaysAll (.object target) entries s (entries.foldl (overlayEntry fuel (.object target)) s) := by
  induction entries generalizing s properties with
  | nil =>
    rw [Contents.layered_nil]
    exact ⟨hproperties, .nil⟩
  | cons p rest ih =>
    obtain ⟨key, v⟩ := p
    obtain ⟨hkey, hrest⟩ := List.nodup_cons.mp hkeys
    rw [List.forall_mem_cons] at hhas
    -- one property at a time; what is under the keys still to come is as deep as it was
    obtain ⟨hstep, hfirst⟩ := standsFor_overlayEntry hs₀ hbelow hnew hown hhas.1 hkey hs hwell hgood
      hseparate hproperties
    obtain ⟨hchanged, hlater⟩ := changedAt_overlayEntry (changedAt_overlayAt hs₀) hnew htarget hown
      hhas.1 hkey hs hseparate
    obtain ⟨hwellStep, hkept⟩ : (overlayEntry fuel (.object target) s (key, v)).WellFormed ∧
        ∀ x, s.Has x → (overlayEntry fuel (.object target) s (key, v)).Has x :=
      wellFormed_overlayEntry key wellFormed_overlayAt hwell (hs.has hhas.1)
    have hnodup : (Assoc.keys properties).Nodup := hproperties.keys_eq ▸ hwell.nodup_keys target
    obtain ⟨hlaid, hothers⟩ := ih hhas.2 hrest (hs.changedAt hchanged hnew) hwellStep (hkept _ hgood)
      hlater hstep
    rw [List.foldl_cons, Contents.layered_cons hnodup hkey]
    exact ⟨hlaid, .cons hfirst hothers⟩

/-- What an overlay makes of a target that is not too deep. -/
theorem laysUnder (hs₀ : s₀.WellFormed) : LaysUnder s₀ fuel := by
  induction fuel with
  | zero =>
    intro target source s os c _ _ _ _ _ _ _ hc hdepth
    obtain ⟨properties, rfl, -, -⟩ := hc.exists_properties
    rw [Contents.depth] at hdepth
    omega
  | succ fuel ih =>
    intro target source s os c hsource hs hwell hgood hspans hnodup hnew hc hdepth
    obtain ⟨properties, rfl, hmem, hproperties⟩ := hc.exists_properties
    obtain ⟨below, rfl, hspansAll⟩ := hspans.exists_below
    obtain ⟨hnotMem, hbelowNodup⟩ := List.nodup_cons.mp hnodup
    obtain ⟨own, hown, hportions, hdisjoint⟩ := hspansAll.exists_own hbelowNodup
    have hportion : ∀ key, own key ⊆ target :: below :=
      fun key o ho => List.mem_cons_of_mem _ ((hportions key).2 ho)
    have hapart : s.Separate target (Assoc.keys (s₀.object source)) own :=
      ⟨fun key _ below hbelow => hown key below hbelow, fun key => (hportions key).1, hdisjoint,
        fun key hmem => hnotMem ((hportions key).2 hmem)⟩
    rw [Contents.depth] at hdepth
    -- before the first property is laid over, what stands under a key is made of the objects of that key
    have hstart : Assoc.Beside (Underlies s own (Assoc.keys (s₀.object source)) fuel) (s.object target)
        properties := by
      refine hproperties.beside.mono fun name x d hx hd hshows => ?_
      have hcontents : s.Shows (· ∈ own name) id x d := by
        cases hshows with
        | leaf hleaf => exact .leaf hleaf
        | object ho hall =>
          have hfound := Assoc.get?_of_mem (hwell.nodup_keys target) hx
          exact (Store.Shows.object ho hall).of_spans (hown name _ hfound)
      have hless : d.depth ≤ Contents.depthAll properties := Contents.depth_le_depthAll hd
      exact ⟨hcontents.standsFor, fun _ => ⟨hcontents, by omega⟩⟩
    have hentries : s.entries (.object source) = s₀.object source := hs.object_eq hsource
    obtain ⟨hlaid, hends⟩ := standsFor_foldl hs₀ ih hnew List.mem_cons_self hportion
      (hs₀.has_property source) (hs₀.nodup_keys source) hs hwell hgood hapart hstart
    rw [overlayAt_succ, hentries, Contents.under_object]
    refine ⟨.object hmem (Store.standsForAll_of_beside (hlaid.mono fun name x d _ _ hunderlies => ?_)),
      .source ?_⟩
    · exact hunderlies.1.mono fun o ho => hportion name ho
    · rw [hentries]
      exact hends

end Results

end ClassComposition
