import ClassComposition.Proofs.Class.Renaming
import ClassComposition.Proofs.Registry.Matching
import ClassComposition.Proofs.Registry.Replay

/-!
# A definition that comes later

A class is defined in a world that has more in it than another one, and in a registry in which its path has
the same place and the classes that its body names are the same.  It comes to the same outcome there, and
what is made is the same under a renaming.

## Main definitions

* `Registry.LivesIn` — a store has what the classes and constructors of a registry refer to.

## Main results

* `Registry.Ready.matches_renamed` — a definition and the same one made later.
* `Registry.Ready.grows_define` — what was there stays as it was, and the store only grows.
* `Registry.LivesIn.perform_define` — a store goes on having what the registry refers to.
-/

namespace ClassComposition

open ClassComposition.Action

namespace Registry

variable {config : Config} {ρ : Renaming} {r r' : Registry} {path : String} {body : ClassBody}
  {c : ClassDefinition} {k : Constructor} {w w' : World} {s t : Store}

/-- A store has what the classes and the constructors of a registry refer to, and the objects that stand in
its prototypes. -/
structure LivesIn (r : Registry) (s : Store) : Prop where
  classes : ∀ path c, r.definition? path = some c → c.LivesIn s
  constructors : ∀ path k, r.constructor? path none = some k → k.LivesIn s
  slots : s.SlotsHeld

/-- Two answers to a definition are the same under a renaming. -/
abbrev PublishedAs (ρ : Renaming) (r r' : Registry) (path : String) :
    Constructor × Registry → Constructor × Registry → Prop :=
  Published ρ.Renames (fun i i' => i' = ρ.routine i) (fun h h' => h' = ρ.handle h) r r' path

variable (path) in
/-- A definition that is not cut off comes to the same outcome in a store that follows, and in a registry
in which its path has the same place and the classes that the body names are the same. -/
theorem Ready.matches_renamed (hr : r.Reachable config) (h : r.Ready body w.store)
    (hlives : r.LivesIn w.store) (hρ : ρ.Keeps w.store) (hfollows : Store.Follows ρ w.store w'.store)
    (hconfig : r'.config = r.config)
    (hplace : Agree SamePlace (r.place path) (r'.place path))
    (hclasses : ∀ directives, Directives.parse w.store path body = .ok directives →
      (∀ p, directives.parent? = some p → r'.definition? p = r.definition? p) ∧
      ∀ p ∈ directives.mixins, r'.definition? p = r.definition? p) :
    Matches (fun e => e.isCyclic = false)
      (fun u u' => w.store.Grows u ∧ Store.Follows ρ u u') (PublishedAs ρ r r' path)
      (r.define path body) w (r'.define path body) w' := by
  have hentry : ∀ {name v}, body.get? name = some v → w.store.Has v :=
    fun hv => h.has_entries _ (Assoc.mem_of_get? hv)
  refine matches_define ⟨h.wellFormed.grows, hfollows⟩ hconfig hplace hclasses ?_ ?_ ?_ ?_ ?_ ?_
  · exact Directives.parse_congr path fun p hp =>
      hfollows.sameBelow hρ h.wellFormed (.refl _) (h.has_entries p hp)
  · exact fun name v hv => (hρ.value_eq (hentry hv).hasObject).symm
  · rintro parent hparent p hp u u' ⟨hu, hu'⟩
    obtain ⟨parentPath, hget⟩ := exists_of_parentOf? hparent
    have hhas : w.store.Has p.2 := hlives.classes parentPath parent hget p hp
    refine SharedMembers.matches_inheritOne hρ h.wellFormed hhas (fun hsome => ?_) (fun v => hentry) hu hu'
    exact (h.redeclared parent hparent p hp hsome).2.shallow h.wellFormed hhas
  · rintro u u' names table outcome t ⟨hu, hu'⟩ hrun hended
    exact Classifying.run_skeleton_of_sameBelow
      (fun p hp => hu'.sameBelow hρ h.wellFormed hu.continues.within (h.has_entries p hp))
      hu'.nesting_le hrun hended
  · rintro c c' u ps v v' hcompiled hc hps ⟨hv, hv'⟩
    -- the slots hold what the table of the class holds for methods and patterns
    obtain ⟨composition, rfl, -⟩ := ClassDefinition.exists_composition hcompiled
    have hsound := composition.referencesSound fun p c hc => hr.compiled.referencesSound hc
    have hslots : ρ.entries ps.slots = ps.slots := Renaming.entries_slots hsound.2 hps
    obtain rfl := Renaming.eq_definition hc
    rw [← Renaming.slotsOf_prototypeOf hslots]
    obtain ⟨hmade, hhandle⟩ := hv'.newPrototype (Constructor.prototypeOf composition.definition ps.slots)
    exact ⟨⟨hv.newPrototype _, hmade⟩, hhandle⟩
  · rintro u u' ⟨hu, hu'⟩
    exact ⟨⟨hu.newRoutine, hu'.newRoutine.1⟩, hu'.newRoutine.2⟩

/-! ### What a definition leaves -/

variable (path) in
theorem Ready.grows_compile (h : r.Ready body s) :
    (ClassDefinition.compile r.config r.classes path body).Preserves
      fun u => s.Grows u ∧ u.prototypes = s.prototypes := by
  refine ClassDefinition.preserves_compile fun parentPath parent hnamed hget p hp => ?_
  have hparent : r.parentOf? body = some parent := (parentOf?_eq hnamed).trans hget
  refine SharedMembers.grows_inheritOne h.wellFormed (fun hsome => ?_)
    fun v hv => h.has_entries _ (Assoc.mem_of_get? hv)
  obtain ⟨hhas, hacyclic⟩ := h.redeclared parent hparent p hp hsome
  exact ⟨hhas, hacyclic.shallow h.wellFormed hhas⟩

/-- What the class shares is there once it has been compiled. -/
theorem Ready.livesIn_of_compile (h : r.Ready body w.store) (hlives : r.LivesIn w.store)
    (hcompile : (ClassDefinition.compile r.config r.classes path body).run w = (.ok c, w')) :
    c.LivesIn w'.store := by
  have hgrown := h.grows_compile path w ⟨h.wellFormed.grows, rfl⟩
  rw [hcompile] at hgrown
  obtain ⟨composition, rfl, hstore⟩ := ClassDefinition.exists_composition hcompile
  rw [hstore] at hgrown ⊢
  refine composition.livesIn hgrown.1.continues.within h.has_entries fun parent hparent => ?_
  exact composition.holds_of_parent hlives.classes hparent

variable (path) in
/-- A definition makes the store grow, whatever comes of it, and the store has what stands in its
prototypes. -/
theorem Ready.grows_define (hr : r.Reachable config) (h : r.Ready body w.store)
    (hlives : r.LivesIn w.store) :
    w.store.Grows ((r.define path body).run w).2.store ∧
      ((r.define path body).run w).2.store.SlotsHeld := by
  unfold define
  rw [Action.run_ofExcept_bind]
  rcases r.place path with e | ⟨root, space, below⟩
  · exact ⟨h.wellFormed.grows, hlives.slots⟩
  dsimp only
  have hcompiled := h.grows_compile path w ⟨h.wellFormed.grows, rfl⟩
  rw [Action.run_bind]
  rcases hcompile : (ClassDefinition.compile r.config r.classes path body).run w with ⟨e | c, w₁⟩
  · rw [hcompile] at hcompiled
    exact ⟨hcompiled.1, hlives.slots.of_prototypes_eq hcompiled.1.continues.within hcompiled.2⟩
  · have hc := h.livesIn_of_compile hlives hcompile
    obtain ⟨composition, rfl, -⟩ := ClassDefinition.exists_composition hcompile
    -- the new slots hold entries of the table, shared values or routines, all of them already there
    have hsound := composition.referencesSound fun p c hc => hr.compiled.referencesSound hc
    rw [hcompile] at hcompiled
    have hbuild : (Constructor.build r.config composition.definition).Preserves
        fun u => w.store.Grows u ∧ u.SlotsHeld ∧ composition.definition.LivesIn u := by
      refine Constructor.preserves_build (fun ps u hps hu => ?_) fun u hu => ?_
      · obtain ⟨hgrown, hslots, hshared⟩ := hu
        refine ⟨hgrown.newPrototype _, hslots.newPrototype ?_, hshared.within (u.within_newPrototype _)⟩
        exact Constructor.hasObject_prototypeOf hsound.2 hps hshared
      · exact ⟨hu.1.newRoutine, hu.2.1, hu.2.2⟩
    refine And.imp_right And.left (Action.preserves_bind hbuild (fun k => ?_) w₁ ⟨hcompiled.1, ?_, hc⟩)
    · exact Action.preserves_bind (Action.preserves_record _) fun _ => Action.preserves_pure _
    · exact hlives.slots.of_prototypes_eq hcompiled.1.continues.within hcompiled.2

variable (path) in
/-- After a definition, the store has what the registry refers to. -/
theorem LivesIn.perform_define (hr : r.Reachable config) (hlives : r.LivesIn w.store)
    (h : r.Ready body w.store) :
    (r.perform w (.define path body)).LivesIn ((r.define path body).run w).2.store := by
  obtain ⟨hgrown, hslots⟩ := h.grows_define path hr hlives
  have hwithin := hgrown.continues.within
  rw [perform]
  rcases hrun : (r.define path body).run w with ⟨e | ⟨k, after⟩, w'⟩
  · rw [hrun] at hgrown hslots hwithin
    exact ⟨fun p c hc => (hlives.classes p c hc).within hwithin,
      fun p k hk => (hlives.constructors p k hk).grows hgrown, hslots⟩
  · rw [hrun] at hgrown hslots hwithin
    obtain ⟨root, space, below, c, w₁, w₂, -, hcompile, hbuild, rfl, hstore⟩ := define_eq_ok hrun
    have hcompiled := h.grows_compile path w ⟨h.wellFormed.grows, rfl⟩
    rw [hcompile] at hcompiled
    have hbuilt := Constructor.continues_build r.config c w₁ hcompiled.1.continues.wellFormed.continues
    rw [hbuild] at hbuilt
    -- the new class lives where the build ended, the old ones live on where they did
    refine ⟨fun p d hd => ?_, fun p k' hk' => ?_, hslots⟩
    · rw [definition?_publish] at hd
      split at hd
      · cases hd
        rw [hstore]
        exact (h.livesIn_of_compile hlives hcompile).within hbuilt.within
      · exact (hlives.classes p d hd).within hwithin
    · rw [constructor?_none, get?_constructors_publish] at hk'
      split at hk'
      · cases hk'
        rw [hstore]
        exact Constructor.livesIn_of_build hbuild
      · exact (hlives.constructors p k' (constructor?_none r p ▸ hk')).grows hgrown

end Registry

end ClassComposition
