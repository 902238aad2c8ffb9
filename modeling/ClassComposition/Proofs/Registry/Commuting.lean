import ClassComposition.Proofs.Registry.Mirroring
import ClassComposition.Proofs.Registry.Renaming
import ClassComposition.Proofs.Store.Exchange

/-!
# Independent definitions commute

A definition reads the classes that its body names and the place of its path, and in the store what its body
and the shared members of its parent hold.  Another definition changes none of this, when neither body names
the path of the other and neither path is below the other one.  So the two may be made in either order: both
come to the same outcome, and all that is not the same afterwards is the order in which new things were
made.

## Main definitions

* `Registry.defineIn` — a definition as a step, with its answer and what it leaves.
* `ClassBody.Names`, `Independent` — definitions that do not concern each other.
* `Registry.Alongside` — what a definition makes of two registries.

## Main results

* `Independent.matches_later` — a definition comes to the same after another one.
* `Registry.Reachable.define_comm` — independent definitions commute.
-/

namespace ClassComposition

open ClassPath (Below)

/-! ### Definitions that do not concern each other -/

/-- A body names a path as that of its parent or of one of its mixins. -/
def ClassBody.Names (b : ClassBody) (s : Store) (path : String) : Prop :=
  b.get? Directive.parent.name = some (.text path) ∨
    b.get? Directive.mixins.name = some (.text path) ∨
    ∃ a, b.get? Directive.mixins.name = some (.array a) ∧ .text path ∈ s.array a

namespace Directives

variable {s : Store} {path name : String} {b : ClassBody} {directives : Directives}

theorem mem_of_texts? {items : List Value} {texts : List String} (h : texts? items = some texts)
    (hname : name ∈ texts) : .text name ∈ items := by
  induction items generalizing texts with
  | nil =>
    cases h
    cases hname
  | cons v rest ih =>
    cases v with
    | text t =>
      obtain ⟨others, hothers, rfl⟩ := Option.map_eq_some_iff.mp h
      rcases List.mem_cons.mp hname with rfl | hname
      · exact List.mem_cons_self
      · exact List.mem_cons_of_mem _ (ih hothers hname)
    | _ => cases h

/-- The directives of a body say no other parent and no other mixins than it names. -/
theorem names_of_parse (h : parse s path b = .ok directives)
    (hname : directives.parent? = some name ∨ name ∈ directives.mixins) : b.Names s name := by
  obtain ⟨-, hparent, hmixins, -⟩ := parse_eq_ok h
  rcases hname with hname | hname
  · rw [hname] at hparent
    exact .inl (get?_parent hparent)
  · right
    -- mixins are absent, one text or an array of texts
    unfold names at hmixins
    split at hmixins
    · rw [← Except.ok.inj hmixins] at hname
      cases hname
    · next text htext =>
      rw [← Except.ok.inj hmixins] at hname
      obtain rfl := List.mem_singleton.mp hname
      exact .inl htext
    · next a harray =>
      split at hmixins
      · next texts htexts =>
        rw [← Except.ok.inj hmixins] at hname
        exact .inr ⟨a, harray, mem_of_texts? htexts hname⟩
      · cases hmixins
    · cases hmixins

end Directives

/-- Two definitions do not concern each other: they are of two paths, neither of them below the other one,
and neither body names the path of the other. -/
structure Independent (s : Store) (path : String) (body : ClassBody) (path' : String) (body' : ClassBody) :
    Prop where
  ne : path ≠ path'
  not_below : ¬ Below path path'
  not_below' : ¬ Below path' path
  not_names : ¬ body.Names s path'
  not_names' : ¬ body'.Names s path

theorem Independent.symm {s : Store} {path path' : String} {body body' : ClassBody}
    (h : Independent s path body path' body') : Independent s path' body' path body :=
  ⟨h.ne.symm, h.not_below', h.not_below, h.not_names', h.not_names⟩

namespace Registry

variable {config : Config} {ρ σ τ : Renaming} {r r₁ r₂ : Registry} {path path' : String}
  {body body' : ClassBody} {w : World} {s : Store}

/-- A definition as a step of a program: its answer, and the registry and the world that it leaves. -/
def defineIn (r : Registry) (w : World) (path : String) (body : ClassBody) :
    Except ClassError Constructor × Registry × World :=
  match (r.define path body).run w with
  | (.ok (k, after), w') => (.ok k, after, w')
  | (.error e, w') => (.error e, r, w')

theorem defineIn_eq (r : Registry) (w : World) (path : String) (body : ClassBody) :
    r.defineIn w path body = (((r.define path body).run w).1.map Prod.fst,
      r.perform w (.define path body), ((r.define path body).run w).2) := by
  rw [defineIn, perform]
  rcases (r.define path body).run w with ⟨e | ⟨k, after⟩, w'⟩ <;> rfl

/-! ### After another definition -/

theorem definition?_perform_of_ne (hne : path ≠ path') :
    (r.perform w (.define path body)).definition? path' = r.definition? path' := by
  rw [perform]
  rcases hrun : (r.define path body).run w with ⟨e | ⟨k, after⟩, w'⟩
  · rfl
  · obtain ⟨c, root, space, below, -, -, -, -, -, rfl, hpath⟩ := views_of_define hrun
    dsimp only
    rw [definition?_publish, hpath, if_neg hne]

theorem place_perform (hne : path ≠ path') (hbelow : ¬ Below path path') :
    Agree SamePlace (r.place path') ((r.perform w (.define path body)).place path') := by
  rw [perform]
  rcases hrun : (r.define path body).run w with ⟨e | ⟨k, after⟩, w'⟩
  · exact samePlace_refl _
  · obtain ⟨c, root, space, below, hsegments, hroot, -, -, -, rfl, rfl⟩ := views_of_define hrun
    exact place_publish hsegments hroot hne hbelow

theorem parentOf?_perform (hind : Independent s path body path' body') :
    (r.perform w (.define path' body')).parentOf? body = r.parentOf? body := by
  unfold parentOf?
  split
  · next parentPath hparent =>
    refine definition?_perform_of_ne ?_
    rintro rfl
    exact hind.not_names (.inl hparent)
  · rfl

/-- After an independent definition, the store has what a definition needs. -/
theorem Ready.perform_define (hr : r.Reachable config) (hlives : r.LivesIn w.store)
    (h : r.Ready body w.store) (h' : r.Ready body' w.store)
    (hind : Independent w.store path body path' body') :
    (r.perform w (.define path' body')).Ready body ((r.define path' body').run w).2.store := by
  obtain ⟨hgrown, -⟩ := h'.grows_define path' hr hlives
  have hwithin := hgrown.continues.within
  refine ⟨hgrown.continues.wellFormed, fun p hp => hwithin.has (h.has_entries p hp), ?_⟩
  intro parent hparent p hp hcontains
  rw [parentOf?_perform hind] at hparent
  obtain ⟨hhas, hacyclic⟩ := h.redeclared parent hparent p hp hcontains
  exact ⟨hwithin.has hhas, hacyclic.within h.wellFormed hhas hwithin⟩

/-- A definition that is not cut off comes to the same after an independent one, and what it makes stands
behind what that one has made. -/
theorem Ready.matches_later (hr : r.Reachable config) (hlives : r.LivesIn w.store)
    (h : r.Ready body w.store) (h' : r.Ready body' w.store)
    (hind : Independent w.store path body path' body')
    (hended : ∀ e, ((r.define path body).run w).1 = .error e → e.isCyclic = false) :
    Store.Follows (.past w.store ((r.define path' body').run w).2.store)
        ((r.define path body).run w).2.store
        (((r.perform w (.define path' body')).define path body).run
          ((r.define path' body').run w).2).2.store ∧
      Agree (PublishedAs (.past w.store ((r.define path' body').run w).2.store) r
          (r.perform w (.define path' body')) path)
        ((r.define path body).run w).1
        (((r.perform w (.define path' body')).define path body).run
          ((r.define path' body').run w).2).1 := by
  obtain ⟨hgrown, -⟩ := h'.grows_define path' hr hlives
  have hfollows := hgrown.follows h.wellFormed hlives.slots
  have hconfig : (r.perform w (.define path' body')).config = r.config :=
    (hr.perform w (.define path' body')).config_eq.trans hr.config_eq.symm
  have hclasses : ∀ directives, Directives.parse w.store path body = .ok directives →
      ∀ p, directives.parent? = some p ∨ p ∈ directives.mixins →
        (r.perform w (.define path' body')).definition? p = r.definition? p := by
    intro directives hparsed p hp
    refine definition?_perform_of_ne ?_
    rintro rfl
    exact hind.not_names (Directives.names_of_parse hparsed hp)
  obtain ⟨⟨-, hlater⟩, hanswers⟩ := h.matches_renamed path hr hlives (Store.keeps_past w.store _) hfollows
    hconfig (place_perform hind.ne.symm hind.not_below') (fun directives hparsed =>
      ⟨fun p hp => hclasses directives hparsed p (.inl hp),
        fun p hp => hclasses directives hparsed p (.inr hp)⟩) hended
  exact ⟨hlater, hanswers⟩

/-! ### Two registries after one definition -/

/-- What a definition makes of two registries: both stay as they are, or the class is published in both,
renamed in the second one. -/
inductive Alongside (σ : Renaming) (path : String) (r r' : Registry) : Registry → Registry → Prop
  | failed : Alongside σ path r r' r r'
  | defined {c : ClassDefinition} {k : Constructor} {root : String} {space space' : Namespace}
      {below : List String} (path_eq : c.path = path)
      (segments : ClassPath.segments path = root :: below) (root_eq : r.root? root = some space)
      (root_eq' : r'.root? root = some space') :
      Alongside σ path r r' (r.publish c k root space below)
        (r'.publish (σ.definition c) (σ.constructor k) root space' below)

theorem alongside_of_agree {r' : Registry} {w' : World}
    (h : Agree (PublishedAs σ r r' path) ((r.define path body).run w).1 ((r'.define path body).run w').1) :
    Alongside σ path r r' (r.perform w (.define path body)) (r'.perform w' (.define path body)) := by
  rw [perform, perform]
  rcases hrun : (r.define path body).run w with ⟨outcome, u⟩
  rcases hrun' : (r'.define path body).run w' with ⟨outcome', u'⟩
  rw [hrun, hrun'] at h
  cases h with
  | error e => exact .failed
  | @ok answer answer' hpublished =>
    obtain ⟨k, after⟩ := answer
    obtain ⟨k', after'⟩ := answer'
    obtain ⟨hk, c, c', root, space, space', below, hpath, hc, hplace, hplace', hafter, hafter'⟩ :=
      hpublished
    dsimp only at hk hafter hafter' ⊢
    subst hafter hafter'
    obtain rfl := Renaming.eq_constructor hk
    obtain rfl := Renaming.eq_definition hc
    obtain ⟨hsegments, hroot⟩ := place_eq_ok hplace
    exact .defined hpath hsegments hroot (place_eq_ok hplace').2

/-- A renaming that keeps the store keeps the constructors of the registry. -/
theorem LivesIn.constructor_eq (h : r.LivesIn s) (hρ : ρ.Keeps s) {k : Constructor}
    (hk : Assoc.get? r.constructors path = some k) : ρ.constructor k = k :=
  hρ.constructor_eq (h.constructors path k ((constructor?_none r path).trans hk))

/-- A registry shows the same when its store is kept. -/
theorem LivesIn.mirrors (hr : r.Reachable config) (h : r.LivesIn s) (hρ : ρ.Keeps s) :
    r.Mirrors ρ r where
  definition?_eq p := by
    cases hc : r.definition? p with
    | none => rfl
    | some c => rw [Option.map_some, hρ.definition_eq (h.classes p c hc)]
  get?_eq p := by
    cases hk : Assoc.get? r.constructors p with
    | none => rfl
    | some k => rw [Option.map_some, h.constructor_eq hρ hk]
  node?_eq name segments := by
    rcases hnode : r.node? name segments with _ | _ | k
    · rfl
    · rfl
    · rw [Option.map_some, Option.map_some, h.constructor_eq hρ (hr.agrees.of_node hnode)]

/-- A store that has what the registry refers to has what has just been published. -/
theorem LivesIn.of_publish {c : ClassDefinition} {k : Constructor} {root : String} {space : Namespace}
    {below : List String} (h : (r.publish c k root space below).LivesIn s) :
    c.LivesIn s ∧ k.LivesIn s := by
  refine ⟨h.classes c.path c ?_, h.constructors c.path k ?_⟩
  · rw [definition?_publish, if_pos rfl]
  · rw [constructor?_none, get?_constructors_publish, if_pos rfl]

/-- When both definitions are made in both orders, both registries show the same in the end: what is made
second is renamed by `σ` or `τ`, and `ρ` brings together what these do. -/
theorem Alongside.mirrors {a b : Registry} {t t' : Store} (hfirst : Alongside σ path r r₂ r₁ b)
    (hsecond : Alongside τ path' r r₁ r₂ a) (hbase : r.Mirrors ρ r) (hlives : r₁.LivesIn t)
    (hlives' : r₂.LivesIn t') (heq : ρ.EqOn σ t) (hkeeps : (ρ.comp τ).Keeps t')
    (hne : path ≠ path') (hbelow : ¬ Below path path') (hbelow' : ¬ Below path' path) :
    a.Mirrors ρ b := by
  cases hsecond with
  | failed =>
    cases hfirst with
    | failed => exact hbase
    | defined hpath hsegments hroot hroot' =>
      obtain ⟨hc, hk⟩ := hlives.of_publish
      rw [← heq.definition_eq hc, ← heq.constructor_eq hk]
      exact hbase.publish hroot hroot'
  | @defined d l first tree tree' rest hpath' hsegments' hfirstRoot hfirstRoot' =>
    -- the class that is published second is the same again, once renamed by `τ` and `ρ`
    obtain ⟨hd, hl⟩ := hlives'.of_publish
    have hd := hkeeps.definition_eq hd
    have hl := hkeeps.constructor_eq hl
    rw [Renaming.definition_comp] at hd
    rw [Renaming.constructor_comp] at hl
    cases hfirst with
    | failed =>
      have hpublished : (r.publish (τ.definition d) (τ.constructor l) first tree' rest).Mirrors ρ
          (r.publish (ρ.definition (τ.definition d)) (ρ.constructor (τ.constructor l)) first tree rest) :=
        hbase.publish hfirstRoot' hfirstRoot
      rw [hd, hl] at hpublished
      exact hpublished
    | @defined c k root space space' below hpath hsegments hroot hroot' =>
      obtain ⟨hc, hk⟩ := hlives.of_publish
      rw [← heq.definition_eq hc, ← heq.constructor_eq hk]
      obtain ⟨treeRenamed, htree⟩ : ∃ tree, (r.publish (ρ.definition c) (ρ.constructor k) root space
          below).root? first = some tree := by
        rw [root?_publish]
        split
        · exact ⟨_, rfl⟩
        · exact ⟨tree, hfirstRoot⟩
      have hpublished : ((r.publish c k root space below).publish (τ.definition d) (τ.constructor l) first
            tree' rest).Mirrors ρ
          ((r.publish (ρ.definition c) (ρ.constructor k) root space below).publish
            (ρ.definition (τ.definition d)) (ρ.constructor (τ.constructor l)) first treeRenamed rest) :=
        (hbase.publish hroot hroot).publish hfirstRoot' htree
      rw [hd, hl] at hpublished
      subst hpath hpath'
      exact hpublished.publish_comm hroot hfirstRoot hroot' htree hsegments hsegments' hne hbelow hbelow'

/-- A store that has what the registry refers to has what a definition has just answered. -/
theorem LivesIn.of_define (h : (r.perform w (.define path body)).LivesIn s) {k : Constructor}
    (hk : ((r.define path body).run w).1.map Prod.fst = .ok k) : k.LivesIn s := by
  rw [perform] at h
  rcases hrun : (r.define path body).run w with ⟨e | ⟨k', after⟩, w'⟩
  · rw [hrun] at hk
    cases hk
  · rw [hrun] at hk h
    obtain ⟨c, root, space, below, -, -, -, -, -, rfl, -⟩ := views_of_define hrun
    cases hk
    exact h.of_publish.2

/-- What two definitions answer is the same, renamed. -/
theorem answer_eq_of_agree {x x' : Except ClassError (Constructor × Registry)} {r' : Registry}
    (h : Agree (PublishedAs σ r r' path) x x') :
    x'.map Prod.fst = (x.map Prod.fst).map σ.constructor := by
  cases h with
  | error e => rfl
  | ok hpublished => exact congrArg Except.ok (Renaming.eq_constructor hpublished.corresponds)

/-- Independent definitions commute.  Two classes are defined in a registry one after the other, in either
order; neither path is below the other one, and neither body names the path of the other as that of its
parent or of a mixin.  The store has what the registry refers to and what both bodies hold, and neither
definition follows a member for ever that contains itself.  Then each definition comes to the same outcome
in both orders, a constructor or one and the same error.  Afterwards each path has the same class, the same
constructor and the same nodes in the namespaces, and each object holds the same, under a renaming that
keeps everything that was there before.  So only the identity of what the definitions have made depends
on the order, and the order in which the classes are listed. -/
theorem Reachable.define_comm {first second first' second' : Except ClassError Constructor}
    {after after' : Registry} {w₁ w₂ u u' : World} (hr : r.Reachable config) (hlives : r.LivesIn w.store)
    (h : r.Ready body w.store) (h' : r.Ready body' w.store)
    (hind : Independent w.store path body path' body')
    (hfirst : r.defineIn w path body = (first, r₁, w₁))
    (hsecond : r₁.defineIn w₁ path' body' = (second, after, u))
    (hsecond' : r.defineIn w path' body' = (second', r₂, w₂))
    (hfirst' : r₂.defineIn w₂ path body = (first', after', u'))
    (hended : ∀ e, first = .error e → e.isCyclic = false)
    (hended' : ∀ e, second' = .error e → e.isCyclic = false) :
    ∃ ρ : Renaming, ρ.Bijective ∧ ρ.Keeps w.store ∧ first' = first.map ρ.constructor ∧
      second' = second.map ρ.constructor ∧ after.SameUnder ρ after' ∧
      Store.Follows ρ u.store u'.store := by
  rw [defineIn_eq] at hfirst hsecond hsecond' hfirst'
  cases hfirst
  cases hsecond
  cases hsecond'
  cases hfirst'
  have hends : ∀ {p b}, (∀ e, ((r.define p b).run w).1.map Prod.fst = .error e → e.isCyclic = false) →
      ∀ e, ((r.define p b).run w).1 = .error e → e.isCyclic = false := by
    intro p b hended e he
    refine hended e ?_
    rw [he]
    rfl
  -- what each definition leaves when it comes first, and then when it comes second
  obtain ⟨hgrown, hslots⟩ := h.grows_define path hr hlives
  obtain ⟨hgrown', hslots'⟩ := h'.grows_define path' hr hlives
  have hlives₁ := hlives.perform_define path hr h
  have hlives₂ := hlives.perform_define path' hr h'
  obtain ⟨hlater, -⟩ := (h'.perform_define hr hlives h hind.symm).grows_define path'
    (hr.perform w (.define path body)) hlives₁
  obtain ⟨hlater', -⟩ := (h.perform_define hr hlives h' hind).grows_define path
    (hr.perform w (.define path' body')) hlives₂
  obtain ⟨hfollows, hagree⟩ := h.matches_later hr hlives h' hind (hends hended)
  obtain ⟨hfollows', hagree'⟩ := h'.matches_later hr hlives h hind.symm (hends hended')
  have heq := Renaming.eqOn_exchange ((r.define path' body').run w).2.store hgrown
  have hkeeps := Renaming.keeps_exchange_comp ((r.define path body).run w).2.store hgrown'
  have hbase := hlives.mirrors hr (Renaming.keeps_exchange w.store ((r.define path body).run w).2.store
    ((r.define path' body').run w).2.store)
  have hmirrors := (alongside_of_agree hagree).mirrors (alongside_of_agree hagree') hbase hlives₁ hlives₂
    heq hkeeps hind.ne hind.not_below hind.not_below'
  refine ⟨.exchange w.store ((r.define path body).run w).2.store
    ((r.define path' body').run w).2.store, Renaming.bijective_exchange _ _ _,
    Renaming.keeps_exchange _ _ _, ?_, ?_, ?_, ?_⟩
  · rw [answer_eq_of_agree hagree]
    rcases hanswer : ((r.define path body).run w).1.map Prod.fst with e | k
    · rfl
    · exact congrArg Except.ok (heq.constructor_eq (hlives₁.of_define hanswer)).symm
  · rw [answer_eq_of_agree hagree']
    rcases hanswer : ((r.define path' body').run w).1.map Prod.fst with e | l
    · rfl
    · have hl := hkeeps.constructor_eq (hlives₂.of_define hanswer)
      rw [Renaming.constructor_comp] at hl
      exact congrArg Except.ok hl.symm
  · exact hmirrors.sameUnder
      ((hr.perform w (.define path body)).perform _ (.define path' body')).compiled.nodup_keys
      ((hr.perform w (.define path' body')).perform _ (.define path body)).compiled.nodup_keys
  · exact hgrown.follows_exchange hgrown' hlater hlater' hfollows' hfollows hslots hslots'

end Registry

/-! ### A sample

Two classes extend the one that shares an object, and each lays an object of its own over a copy of it. -/

namespace Sample

/-- The registry without classes. -/
def rooted : Registry := (Registry.empty .standard).perform world (.addRoot "Ns")

/-- The world in which the class that shares an object has been defined. -/
def shared : World :=
  ((rooted.define "Ns.Store" ⟨[("Shared", .text "options"), ("options", .object ⟨0⟩)]⟩).run world).2

/-- A body that lays an object over the shared one. -/
def laying (index : Nat) : ClassBody :=
  ⟨[("Extends", .text "Ns.Store"), ("options", .object ⟨index⟩)]⟩

theorem rooted_livesIn : rooted.LivesIn world.store :=
  ⟨fun _ _ hc => (nomatch hc), fun _ _ hk => (nomatch hk), fun _ _ hp => (nomatch hp)⟩

theorem rooted_ready :
    rooted.Ready ⟨[("Shared", .text "options"), ("options", .object ⟨0⟩)]⟩ world.store := by
  refine ⟨world_wellFormed, ?_, fun parent hparent => nomatch hparent⟩
  intro p hp
  rcases List.mem_cons.mp hp with rfl | hp
  · trivial
  · obtain rfl := List.mem_singleton.mp hp
    exact Nat.zero_lt_succ 2

theorem laying_ready {index : Nat} (hindex : index < 3) : sharing.Ready (laying index) shared.store := by
  have hreachable : rooted.Reachable .standard := Registry.Reachable.empty.perform _ _
  obtain ⟨hgrown, -⟩ := rooted_ready.grows_define "Ns.Store" hreachable rooted_livesIn
  have hwithin : world.store.Within shared.store := hgrown.continues.within
  refine ⟨hgrown.continues.wellFormed, ?_, ?_⟩
  · intro p hp
    rcases List.mem_cons.mp hp with rfl | hp
    · trivial
    · obtain rfl := List.mem_singleton.mp hp
      exact hwithin.objects.has hindex
  · intro parent hparent p hp _
    cases hparent
    obtain rfl := List.mem_singleton.mp hp
    have hhas : world.store.Has (.object ⟨0⟩) := Nat.zero_lt_succ 2
    exact ⟨hwithin.has hhas, world_acyclic.within world_wellFormed hhas hwithin⟩

theorem laying_independent :
    Independent shared.store "Ns.Left" (laying 1) "Ns.Right" (laying 2) := by
  have hnames : ∀ index name, (laying index).Names shared.store name → name = "Ns.Store" := by
    rintro index name (h | h | ⟨a, h, -⟩)
    · cases h
      rfl
    · cases h
    · cases h
  refine ⟨by decide, fun h => ?_, fun h => ?_, fun h => ?_, fun h => ?_⟩
  · have hprefix := ClassPath.isPrefix_segments_iff.mpr (.inr h)
    revert hprefix
    decide
  · have hprefix := ClassPath.isPrefix_segments_iff.mpr (.inr h)
    revert hprefix
    decide
  · exact absurd (hnames _ _ h) (by decide)
  · exact absurd (hnames _ _ h) (by decide)

end Sample

namespace Registry

/-- Both classes of the sample are defined in either order.  The one that comes first shares the object that
is made first, and nothing but that tells the orders apart. -/
theorem Reachable.define_comm_laying :
    ∃ (ρ : Renaming) (k l k' l' : Constructor) (r₁ r₂ after after' : Registry) (w₁ w₂ u u' : World),
      Sample.sharing.defineIn Sample.shared "Ns.Left" (Sample.laying 1) = (.ok k, r₁, w₁) ∧
      r₁.defineIn w₁ "Ns.Right" (Sample.laying 2) = (.ok l, after, u) ∧
      Sample.sharing.defineIn Sample.shared "Ns.Right" (Sample.laying 2) = (.ok l', r₂, w₂) ∧
      r₂.defineIn w₂ "Ns.Left" (Sample.laying 1) = (.ok k', after', u') ∧
      (after.definition? "Ns.Left").map ClassDefinition.shared = some [("options", .object ⟨3⟩)] ∧
      (after'.definition? "Ns.Left").map ClassDefinition.shared = some [("options", .object ⟨4⟩)] ∧
      k' = ρ.constructor k ∧ l' = ρ.constructor l ∧ after.SameUnder ρ after' ∧
      ρ.object 3 = 4 ∧ u'.store.object ⟨4⟩ = ρ.entries (u.store.object ⟨3⟩) := by
  have hrooted : Sample.rooted.Reachable .standard := Reachable.empty.perform _ _
  have hlives : Sample.sharing.LivesIn Sample.shared.store :=
    Sample.rooted_livesIn.perform_define "Ns.Store" hrooted Sample.rooted_ready
  obtain ⟨k, r₁, w₁, hfirst⟩ : ∃ k r₁ w₁, Sample.sharing.defineIn Sample.shared "Ns.Left"
      (Sample.laying 1) = (.ok k, r₁, w₁) := ⟨_, _, _, rfl⟩
  obtain ⟨l', r₂, w₂, hsecond'⟩ : ∃ l' r₂ w₂, Sample.sharing.defineIn Sample.shared "Ns.Right"
      (Sample.laying 2) = (.ok l', r₂, w₂) := ⟨_, _, _, rfl⟩
  obtain ⟨l, after, u, hsecond, hleft⟩ : ∃ l after u,
      r₁.defineIn w₁ "Ns.Right" (Sample.laying 2) = (.ok l, after, u) ∧
      (after.definition? "Ns.Left").map ClassDefinition.shared = some [("options", .object ⟨3⟩)] := by
    cases hfirst
    exact ⟨_, _, _, rfl, rfl⟩
  obtain ⟨k', after', u', hfirst', hleft'⟩ : ∃ k' after' u',
      r₂.defineIn w₂ "Ns.Left" (Sample.laying 1) = (.ok k', after', u') ∧
      (after'.definition? "Ns.Left").map ClassDefinition.shared = some [("options", .object ⟨4⟩)] := by
    cases hsecond'
    exact ⟨_, _, _, rfl, rfl⟩
  obtain ⟨ρ, -, -, hk, hl, hsame, hfollows⟩ :=
    (hrooted.perform _ _).define_comm hlives (Sample.laying_ready (by decide))
      (Sample.laying_ready (by decide)) Sample.laying_independent hfirst hsecond hsecond' hfirst'
      (fun e he => nomatch he) fun e he => nomatch he
  -- the shared options pin the renaming down: what one order made third the other made fourth
  have hrenamed : ρ.object 3 = 4 := by
    have hshared := hsame.definition?_eq "Ns.Left"
    obtain ⟨c, hc, hobject⟩ := Option.map_eq_some_iff.mp hleft
    rw [hc] at hshared
    rw [hshared, Option.map_some, Option.map_some, Renaming.definition, hobject] at hleft'
    simpa [Renaming.entries, Renaming.value] using hleft'
  refine ⟨ρ, k, l, k', l', r₁, r₂, after, after', w₁, w₂, u, u', hfirst, hsecond, hsecond', hfirst', hleft,
    hleft', Except.ok.inj hk, Except.ok.inj hl, hsame, hrenamed, ?_⟩
  have hobject := hfollows.object_eq 3
  rw [hrenamed] at hobject
  exact hobject

end Registry

end ClassComposition
