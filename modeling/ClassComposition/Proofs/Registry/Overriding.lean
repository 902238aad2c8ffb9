import ClassComposition.Proofs.Registry.Chain

/-!
# Overriding along a chain

Classes of an inheritance chain override a method of the classes above them.  What is overridden is kept
under the name of the parent, whichever class above it the function comes from, and all classes below inherit
the alias.  So the functions that the declaring classes have can be reached from one another, from the class
at the bottom of the chain up to the topmost one that declares the method.

## Main definitions

* `declaring` — the classes of a chain that declare a method.
* `keptOwner?` — the name under which a class keeps what it overrides.
* `Overriding` — the functions that the classes of a chain declare, with what is asked of their code.

## Main results

* `Registry.Chain.callee_kept` — what a class of a chain overrides is called under the alias of its parent.
* `Registry.Chain.exists_method` — the methods of the declaring classes, from any class of a chain upwards.
-/

namespace ClassComposition

/-! ### Declaring classes -/

section Declaring

variable {name : String} {c : ClassDefinition} {above : List ClassDefinition}

/-- The classes of a chain that declare the method. -/
def declaring (name : String) (chain : List ClassDefinition) : List ClassDefinition :=
  chain.filter (·.body.contains name)

/-- The name under which a class that overrides the method keeps the implementation from the classes above
it, if one of them declares the method: that of its parent, which stands first among them. -/
def keptOwner? (name : String) : List ClassDefinition → Option String
  | [] => none
  | parent :: above => if declaring name (parent :: above) = [] then none else some parent.name

theorem declaring_cons_of_absent (h : c.body.get? name = none) :
    declaring name (c :: above) = declaring name above := by
  refine List.filter_cons_of_neg ?_
  rw [ClassBody.contains, Assoc.contains, ← ClassBody.get?, h]
  exact Bool.false_ne_true

theorem declaring_cons_of_present {v : Value} (h : c.body.get? name = some v) :
    declaring name (c :: above) = c :: declaring name above := by
  refine List.filter_cons_of_pos ?_
  rw [ClassBody.contains, Assoc.contains, ← ClassBody.get?, h]
  rfl

/-- Where the parent declares the method itself, what it has is kept under its name. -/
theorem keptOwner?_of_present {v : Value} (h : c.body.get? name = some v) :
    keptOwner? name (c :: above) = some c.name := by
  rw [keptOwner?, declaring_cons_of_present h, if_neg (List.cons_ne_nil _ _)]

end Declaring

/-- Each class of a chain either does not declare the method, or declares a function whose code is as asked of
the class, given the name under which it keeps what it overrides. -/
inductive Overriding (code : ClassDefinition → Option String → Handle .function → Prop) (name : String) :
    List ClassDefinition → Prop
  | nil : Overriding code name []
  | silent {c : ClassDefinition} {above : List ClassDefinition} (absent : c.body.get? name = none)
      (others : Overriding code name above) : Overriding code name (c :: above)
  | declared {c : ClassDefinition} {above : List ClassDefinition} {f : Handle .function}
      (present : c.body.get? name = some (.function f)) (met : code c (keptOwner? name above) f)
      (others : Overriding code name above) : Overriding code name (c :: above)

namespace Registry

variable {config : Config} {r : Registry} {c d : ClassDefinition} {above below chain : List ClassDefinition}
  {s : Store} {i : Handle .inst} {name : String}

/-- A method that is declared in a chain has no separator in its name. -/
theorem Chain.free_of_declaring (h : r.Chain chain) (hdeclared : declaring name chain ≠ []) :
    MemberKey.separator ∉ name.toList := by
  obtain ⟨c, hc⟩ := List.exists_mem_of_ne_nil _ hdeclared
  obtain ⟨hmem, hcontains⟩ := List.mem_filter.mp hc
  exact (h.plain_of_mem hmem).members_free name ((Assoc.contains_iff _ _).mp hcontains)

/-- Where an instance reads the methods of the class at the bottom of a chain, it has under the alias of its
parent what a class of the chain overrides: the class keeps the parent's method, and the class at the bottom
inherits the alias. -/
theorem Chain.callee_kept (hr : r.Reachable config) (h : r.Chain (d :: below)) (hname : name ≠ "")
    (hcallee : ∀ {member f}, d.Resolves (.parse member) f → s.callee i member = .ok f)
    {p : ClassDefinition} (hsuffix : c :: p :: above <:+ d :: below) {f g : Handle .function}
    (hdeclared : c.body.get? name = some (.function f)) (hg : p.Resolves (.parse name) g) :
    s.callee i (MemberKey.aliased p.name name).display = .ok g := by
  have hc := h.of_suffix hsuffix
  have hkept := hr.compiled.resolves_kept hc.found hc.parent?_eq hc.of_cons.found hdeclared hg
  have hbottom := Chain.resolves_alias hr h hsuffix List.mem_cons_self hkept
  have howner := hr.name_ne_empty hc.of_cons.found
  have hread := MemberKey.parse_display_aliased.mpr ⟨howner, hc.of_cons.plain.name_free, hname⟩
  rw [← hread] at hbottom
  exact hcallee hbottom

/-- Where an instance reads the methods of the class at the bottom of a chain, what holds of the topmost
declaring class with its function, and is handed down from one declaring class to the next, holds of all
classes that declare the method from any class upwards, with the function that this class has. -/
theorem Chain.exists_method {code : ClassDefinition → Option String → Handle .function → Prop}
    {P : List ClassDefinition → Handle .function → Prop} (hr : r.Reachable config)
    (h : r.Chain (d :: below)) (hname : name ≠ "")
    (hcallee : ∀ {member f}, d.Resolves (.parse member) f → s.callee i member = .ok f)
    (hsuffix : c :: above <:+ d :: below) (hoverriding : Overriding code name (c :: above))
    (hdeclared : declaring name (c :: above) ≠ []) (first : ∀ {c f}, code c none f → P [c] f)
    (next : ∀ {c owner f g declarers}, code c (some owner) f →
      s.callee i (MemberKey.aliased owner name).display = .ok g → P declarers g →
      P (c :: declarers) f) :
    ∃ f, c.Resolves (.parse name) f ∧ P (declaring name (c :: above)) f := by
  -- from the highest class down: what a class keeps is the method already found above it
  induction above generalizing c with
  | nil =>
    cases hoverriding with
    | silent absent =>
      rw [declaring_cons_of_absent absent] at hdeclared
      exact absurd rfl hdeclared
    | declared present met =>
      have hc := h.of_suffix hsuffix
      refine ⟨_, hr.compiled.resolves_declared hc.found hc.plain.members_nodup present, ?_⟩
      rw [declaring_cons_of_present present]
      exact first met
  | cons p rest ih =>
    have hc := h.of_suffix hsuffix
    have habove : p :: rest <:+ d :: below := (List.suffix_cons c (p :: rest)).trans hsuffix
    cases hoverriding with
    | silent absent others =>
      rw [declaring_cons_of_absent absent] at hdeclared ⊢
      obtain ⟨f, hf, hholds⟩ := ih habove others hdeclared
      have hfree := hc.of_cons.free_of_declaring hdeclared
      have hundeclared : name ∉ Assoc.keys c.body.entries := (Assoc.get?_eq_none_iff _ _).mp absent
      exact ⟨f, Chain.resolves_inherited hr hc hfree hundeclared hf, hholds⟩
    | @declared _ _ f present met others =>
      refine ⟨f, hr.compiled.resolves_declared hc.found hc.plain.members_nodup present, ?_⟩
      rw [declaring_cons_of_present present]
      by_cases hfirst : declaring name (p :: rest) = []
      · rw [keptOwner?, if_pos hfirst] at met
        rw [hfirst]
        exact first met
      · obtain ⟨g, hg, hholds⟩ := ih habove others hfirst
        rw [keptOwner?, if_neg hfirst] at met
        exact next met (Chain.callee_kept hr h hname hcallee hsuffix present hg) hholds

end Registry

end ClassComposition
