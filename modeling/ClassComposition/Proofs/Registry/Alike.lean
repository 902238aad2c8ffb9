import ClassComposition.Proofs.Class.InstanceAlike
import ClassComposition.Proofs.Registry.Sharing

/-!
# Registries in two runs

Two registries are alike when they have classes that are alike under the same paths in order, constructors
under the same paths, and namespaces in which the same segments are vacant.  Defining a class with a body
that is the same in both comes to the same outcome, and leaves registries that are alike.

## Main definitions

* `Registry.SharesCopy` — a class has a copy under a name that it shares.
* `Registry.Alike` — registries of two runs.

## Main results

* `Registry.Alike.place`, `Registry.define_alike` — a definition in both.
* `Registry.Alike.perform_define` — what it leaves, whatever comes of it.
-/

namespace ClassComposition

namespace Registry

/-! ### Copies among shared members -/

/-- A class has a copy under a name: it redeclares an object that its parent shares, or it has nothing for
the name and its parent has a copy. -/
inductive SharesCopy (r : Registry) (name : String) : String → Prop
  | redeclared {parentPath path : String} {c parent : ClassDefinition} {o : Handle .object}
      (found : r.definition? path = some c) (extended : c.parent? = some parentPath)
      (above : r.definition? parentPath = some parent) (shared : name ∈ Assoc.keys parent.shared)
      (declared : c.body.get? name = some (.object o)) : SharesCopy r name path
  | handedDown {parentPath path : String} {c : ClassDefinition} (above : SharesCopy r name parentPath)
      (found : r.definition? path = some c) (extended : c.parent? = some parentPath)
      (undeclared : c.body.get? name = none) : SharesCopy r name path

variable {r r' after : Registry} {s s' t t' : Store} {path name : String} {body : ClassBody} {w w' : World}

/-- A copy stays one as long as no class is lost. -/
theorem SharesCopy.mono (h : r.SharesCopy name path)
    (hkept : ∀ p c, r.definition? p = some c → after.definition? p = some c) :
    after.SharesCopy name path := by
  induction h with
  | redeclared found extended above shared declared =>
    exact .redeclared (hkept _ _ found) extended (hkept _ _ above) shared declared
  | handedDown above found extended undeclared ih =>
    exact .handedDown ih (hkept _ _ found) extended undeclared

/-! ### Registries -/

/-- Registries of two runs: they differ in what their classes differ in, and in their constructors. -/
structure Alike (r r' : Registry) (s s' : Store) : Prop where
  classes : ClassesAlike (fun path name => r.SharesCopy name path) s s' r.classes r'.classes
  constructors : Assoc.keys r.constructors = Assoc.keys r'.constructors
  roots : Assoc.Beside (fun _ n n' => ∀ segments, n.isVacant segments = n'.isVacant segments)
    r.roots r'.roots

namespace Alike

theorem empty {config config' : Config} : Alike (.empty config) (.empty config') s s' := ⟨.nil, rfl, .nil⟩

theorem within (h : r.Alike r' s s') (hs : s.Within t) (hs' : s'.Within t') : r.Alike r' t t' :=
  ⟨Assoc.Beside.mono h.classes fun _ _ _ _ _ hc => hc.within hs hs', h.constructors, h.roots⟩

theorem hasClass_eq (h : r.Alike r' s s') (path : String) : r.hasClass path = r'.hasClass path := by
  rw [hasClass, hasClass, Bool.eq_iff_iff, Assoc.contains_iff, Assoc.contains_iff, h.classes.keys_eq]

theorem hasConstructor_eq (h : r.Alike r' s s') (path : String) :
    r.hasConstructor path = r'.hasConstructor path := by
  rw [hasConstructor, hasConstructor, Bool.eq_iff_iff, Assoc.contains_iff, Assoc.contains_iff,
    h.constructors]

theorem exists_definition (h : r.Alike r' s s') {c : ClassDefinition}
    (hc : r.definition? path = some c) :
    ∃ c', r'.definition? path = some c' ∧ c.Alike (fun name => r.SharesCopy name path) s s' c' := by
  rcases h.classes.get? path with ⟨d, c', hd, hc', hsame⟩ | ⟨hd, -⟩
  · rw [definition?, hd] at hc
    cases hc
    exact ⟨c', hc', hsame⟩
  · rw [definition?, hd] at hc
    cases hc

theorem exists_definition' (h : r.Alike r' s s') {c' : ClassDefinition}
    (hc' : r'.definition? path = some c') :
    ∃ c, r.definition? path = some c ∧ c.Alike (fun name => r.SharesCopy name path) s s' c' := by
  rcases h.classes.get? path with ⟨c, d, hc, hd, hsame⟩ | ⟨-, hd⟩
  · rw [definition?, hd] at hc'
    cases hc'
    exact ⟨c, hc, hsame⟩
  · rw [definition?, hd] at hc'
    cases hc'

theorem addRoot (h : r.Alike r' s s') (name : String) : (r.addRoot name).Alike (r'.addRoot name) s s' := by
  have hroot : Assoc.contains r.roots name = Assoc.contains r'.roots name := by
    rw [Bool.eq_iff_iff, Assoc.contains_iff, Assoc.contains_iff, h.roots.keys_eq]
  have hmore : ∀ p n, r.SharesCopy n p → (r.addRoot name).SharesCopy n p := by
    intro p n hcopy
    refine hcopy.mono fun q c hc => ?_
    rw [definition?, classes_addRoot]
    exact hc
  constructor
  · rw [classes_addRoot, classes_addRoot]
    exact Assoc.Beside.mono h.classes fun p _ _ _ _ hc => hc.mono (hmore p)
  · rw [constructors_addRoot, constructors_addRoot]
    exact h.constructors
  · unfold Registry.addRoot
    rw [hroot]
    split
    · exact h.roots
    · exact h.roots.write fun _ => rfl

theorem place (h : r.Alike r' s s') (path : String) :
    SameOutcome (fun p p' => p.1 = p'.1 ∧ p.2.2 = p'.2.2 ∧
        ∀ segments, p.2.1.isVacant segments = p'.2.1.isVacant segments)
      (r.place path) (r'.place path) := by
  unfold Registry.place
  rw [h.hasClass_eq, h.hasConstructor_eq]
  split
  · exact .error rfl
  · refine (SameOutcome.of_eq rfl).bind ?_
    rintro segments _ rfl
    dsimp only [root?]
    rcases h.roots.get? (segments.headD "") with ⟨space, space', hget, hget', hspace⟩ | ⟨hget, hget'⟩
    · rw [hget, hget']
      dsimp only
      rw [hspace]
      split
      · exact .ok ⟨rfl, rfl, hspace⟩
      · exact .error rfl
    · rw [hget, hget']
      exact .error rfl

/-- What a class shares of its parent's comes from a parent that is there. -/
theorem exists_parent_of_mem_parentShared {c : ClassDefinition}
    (h : name ∈ Assoc.keys (c.parentShared r.classes)) :
    ∃ parentPath parent, c.parent? = some parentPath ∧ r.definition? parentPath = some parent ∧
      name ∈ Assoc.keys parent.shared := by
  unfold ClassDefinition.parentShared at h
  rcases hnamed : c.parent? with _ | parentPath
  · rw [hnamed] at h
    cases h
  · rw [hnamed, Option.bind_some] at h
    rcases hget : Assoc.get? r.classes parentPath with _ | parent
    · rw [hget] at h
      cases h
    · rw [hget] at h
      exact ⟨parentPath, parent, rfl, hget, h⟩

/-- A class that is alike is published in both at the same place. -/
theorem publish (h : r.Alike r' s s') {c c' : ClassDefinition} {k k' : Constructor} {root : String}
    {space space' : Namespace} {below : List String} (hfresh : Assoc.get? r.classes c.path = none)
    (hc : c.Alike (c.body.Copies (c.parentShared r.classes) fun name =>
      ∃ p, c.parent? = some p ∧ r.SharesCopy name p) s s' c')
    (hspace : ∀ segments, space.isVacant segments = space'.isVacant segments) :
    (r.publish c k root space below).Alike (r'.publish c' k' root space' below) s s' := by
  -- the path is new on both sides, so both registries grow at the end
  have hnew : c.path ∉ Assoc.keys r.classes := (Assoc.get?_eq_none_iff _ _).mp hfresh
  have hnew' : c.path ∉ Assoc.keys r'.classes := h.classes.keys_eq ▸ hnew
  have hkept : ∀ p d, r.definition? p = some d →
      (r.publish c k root space below).definition? p = some d := by
    intro p d hd
    have hne : c.path ≠ p := by
      rintro rfl
      rw [definition?, hfresh] at hd
      cases hd
    rw [definition?_publish, if_neg hne]
    exact hd
  have hlast : (r.publish c k root space below).definition? c.path = some c := by
    rw [definition?_publish, if_pos rfl]
  have hcopies : ∀ n, c.body.Copies (c.parentShared r.classes)
      (fun name => ∃ p, c.parent? = some p ∧ r.SharesCopy name p) n →
      (r.publish c k root space below).SharesCopy n c.path := by
    -- a name copied for the new class is redeclared in its body or handed down from its parent
    rintro n (⟨hshared, o, ho⟩ | ⟨hundeclared, p, hparent, hcopy⟩)
    · obtain ⟨parentPath, parent, hnamed, hfound, hmem⟩ := exists_parent_of_mem_parentShared hshared
      exact .redeclared hlast hnamed (hkept _ _ hfound) hmem ho
    · exact .handedDown (hcopy.mono hkept) hlast hparent hundeclared
  have hbefore : ClassesAlike (fun path name => (r.publish c k root space below).SharesCopy name path)
      s s' r.classes r'.classes :=
    Assoc.Beside.mono h.classes fun _ _ _ _ _ hd => hd.mono fun _ hcopy => hcopy.mono hkept
  constructor
  · show ClassesAlike _ s s' (Assoc.insert r.classes c.path c) (Assoc.insert r'.classes c'.path c')
    rw [hc.path_eq, Assoc.insert_of_notMem hnew, Assoc.insert_of_notMem hnew']
    exact Assoc.Beside.snoc hbefore (hc.mono hcopies)
  · show Assoc.keys (Assoc.insert r.constructors c.path k)
      = Assoc.keys (Assoc.insert r'.constructors c'.path k')
    rw [Assoc.keys_insert, Assoc.keys_insert, hc.path_eq, h.constructors]
  · refine h.roots.write fun segments => ?_
    rw [Namespace.isVacant_insert, Namespace.isVacant_insert, hspace]

end Alike

/-! ### Definitions -/

/-- Defining a class with a body that is the same in both comes to the same outcome. -/
theorem define_alike {inlineSimple : Bool}
    (hconfig : r'.config = { r.config with inlineSimpleArrays := inlineSimple })
    (hs : w.store.WellFormed) (hs' : w'.store.WellFormed) (hbody : body.SameIn w.store w'.store)
    (h : r.Alike r' w.store w'.store) (path : String) :
    Action.Alike (fun a u a' u' => a.2.Alike a'.2 u u') (r.define path body) w (r'.define path body)
      w' := by
  unfold define
  -- the four steps of a definition are followed side by side; the option is read by the second only
  refine Action.alike_ofExcept_bind (h.place path) ?_
  rintro ⟨root, space, below⟩ ⟨root', space', below'⟩ hplaced _ ⟨hroot, hbelow, hspace⟩
  obtain rfl : root = root' := hroot
  obtain rfl : below = below' := hbelow
  obtain ⟨hfresh, -⟩ := fresh_of_place hplaced
  dsimp only
  rw [hconfig]
  refine Action.alike_bind
    (ClassDefinition.compile_alike r.config inlineSimple path hs hs' hbody h.classes) ?_
  rintro c c' u u' ⟨hu, hu', rfl, rfl, hc⟩
  have hbuilt := (Constructor.build_alike r.config { r.config with inlineSimpleArrays := inlineSimple }
    rfl rfl hc).and_preserved (Constructor.continues_build _ c) (Constructor.continues_build _ c')
    hu.wellFormed.continues hu'.wellFormed.continues
  refine Action.alike_bind hbuilt ?_
  rintro k k' v v' ⟨-, hv, hv'⟩
  refine Action.alike_record_bind fun x x' hx hx' => Action.alike_pure ?_
  rw [hx, hx']
  exact (h.within (hu.trans hv).within (hu'.trans hv').within).publish hfresh
    (hc.within hv.within hv'.within) hspace

/-- The parent of a body is one of the classes. -/
theorem exists_of_parentOf? {parent : ClassDefinition} (h : r.parentOf? body = some parent) :
    ∃ parentPath, r.definition? parentPath = some parent := by
  unfold parentOf? at h
  split at h
  · exact ⟨_, h⟩
  · cases h

/-- What there was is left as it was in both. -/
theorem Alike.preserves_define (hs : w.store.WellFormed) (hs' : w'.store.WellFormed)
    (hbody : body.SameIn w.store w'.store) (h : r.Alike r' w.store w'.store) (path : String) :
    (r.define path body).Preserves w.store.Continues ∧
      (r'.define path body).Preserves w'.store.Continues := by
  constructor
  · refine Registry.preserves_define hs hbody.has fun parent hparent => ?_
    obtain ⟨parentPath, hfound⟩ := exists_of_parentOf? hparent
    obtain ⟨parent', -, hsame⟩ := h.exists_definition hfound
    exact hsame.shared.has_shallow hs
  · refine Registry.preserves_define hs' hbody.has' fun parent hparent => ?_
    obtain ⟨parentPath, hfound⟩ := exists_of_parentOf? hparent
    obtain ⟨parent', -, hsame⟩ := h.exists_definition' hfound
    exact hsame.shared.has_shallow' hs'

/-- A definition leaves registries that are alike, whatever comes of it. -/
theorem Alike.perform_define {inlineSimple : Bool}
    (hconfig : r'.config = { r.config with inlineSimpleArrays := inlineSimple })
    (hs : w.store.WellFormed) (hs' : w'.store.WellFormed) (hbody : body.SameIn w.store w'.store)
    (h : r.Alike r' w.store w'.store) (path : String) :
    (r.perform w (.define path body)).Alike (r'.perform w' (.define path body))
        ((r.define path body).run w).2.store ((r'.define path body).run w').2.store ∧
      w.store.Continues ((r.define path body).run w).2.store ∧
      w'.store.Continues ((r'.define path body).run w').2.store := by
  obtain ⟨hpreserves, hpreserves'⟩ := h.preserves_define hs hs' hbody path
  have hthen := hpreserves w hs.continues
  have hthen' := hpreserves' w' hs'.continues
  refine ⟨?_, hthen, hthen'⟩
  have hdefined := define_alike hconfig hs hs' hbody h path
  unfold Action.Alike at hdefined
  rw [perform, perform]
  rcases hrun : (r.define path body).run w with ⟨outcome, u⟩
  rcases hrun' : (r'.define path body).run w' with ⟨outcome', u'⟩
  rw [hrun] at hthen
  rw [hrun'] at hthen'
  rw [hrun, hrun'] at hdefined
  cases hdefined with
  -- a refused definition leaves both registries as they were, over worlds that went on
  | error => exact h.within hthen.within hthen'.within
  | ok hafter => exact hafter

end Registry

end ClassComposition
