import ClassComposition.Proofs.Registry.Patching

/-!
# The name of a patched slot

A patch answers with the key of the slot that it has replaced, and a program gets to see the text of that
key.  An instance that is asked for this name reads it again.  A plain name may be written like an alias,
and an alias may name a class with a separator in it: then what is read is the key of another slot, which
the patch has left alone.

## Main results

* `ClassDefinition.patchSlot_cases` — the slot is the method's own or that of an alias.
* `Registry.Patched.member?_target` — what an instance has under the name of the slot.
* `Registry.Course.patchedName_reads_iff` — when it has the replacement there, and calls it.
-/

namespace ClassComposition

/-- A patch replaces the slot of the method, or that of an alias which names a class of the chain. -/
theorem ClassDefinition.patchSlot_cases (c : ClassDefinition) (p : Prototype) (owner method : String) :
    c.patchSlot p owner method = .plain method ∨
      ∃ name ∈ c.ancestorNames, c.patchSlot p owner method = .aliased name method := by
  unfold patchSlot
  rcases hfound : ((c.ancestorNames.dropWhile (· != owner)).map fun name =>
      MemberKey.aliased name method).find? fun key => Assoc.contains c.skeleton key && p.isLive key
    with _ | key
  · exact .inl rfl
  · obtain ⟨name, hname, rfl⟩ := List.mem_map.mp (List.mem_of_find?_eq_some hfound)
    exact .inr ⟨name, (List.dropWhile_suffix _).subset hname, rfl⟩

namespace Registry

variable {config : Config} {r : Registry} {w w' : World} {path : String} {c : ClassDefinition}
  {k : Constructor} {h : Handle .prototype} {i : Handle .inst} {target : MemberKey}
  {owner method replacement : String}

/-- A patch by a class of the chain replaces the slot that a scan of the chain finds. -/
theorem Course.exists_patched (hw : Course config r w) (hc : r.definition? path = some c)
    (hk : Assoc.get? r.constructors path = some k) (hh : k.prototype? = some h)
    (hi : (w.store.instanceAt i).prototype = h) (howner : owner ∈ c.ancestorNames)
    (method replacement : String) :
    ∃ w', (ClassComposition.patch i owner method replacement).run w =
        (.ok (c.patchSlot (w.store.prototype h) owner method), w') ∧
      Patched r path h (c.patchSlot (w.store.prototype h) owner method) (MemberKey.parse replacement)
        w w' := by
  subst hi
  obtain ⟨-, hbuilt⟩ := hw.housed path c k _ hc hk hh
  have hclasses := hw.reachable.compiled
  rw [← hbuilt.ancestorNames_eq] at howner
  rw [← hbuilt.patchTarget_eq (hclasses.overrideChains_eq hc) (hclasses.nodup_ancestorNames hc)
    (hclasses.distinct hc).1]
  exact ⟨_, run_patch howner, hw.housed.patched hclasses hc hk hh _ _ _⟩

/-- So a patch that succeeds has replaced this slot. -/
theorem Course.patched_of_run (hw : Course config r w) (hc : r.definition? path = some c)
    (hk : Assoc.get? r.constructors path = some k) (hh : k.prototype? = some h)
    (hi : (w.store.instanceAt i).prototype = h)
    (hrun : (ClassComposition.patch i owner method replacement).run w = (.ok target, w')) :
    target = c.patchSlot (w.store.prototype h) owner method ∧
      Patched r path h target (MemberKey.parse replacement) w w' := by
  have howner : owner ∈ c.ancestorNames := by
    by_contra hnotMem
    obtain ⟨-, hbuilt⟩ := hw.housed path c k h hc hk hh
    rw [← hbuilt.ancestorNames_eq, ← hi] at hnotMem
    rw [run_patch_of_notMem hnotMem] at hrun
    cases hrun
  obtain ⟨after, hpatch, hpatched⟩ := hw.exists_patched hc hk hh hi howner method replacement
  rw [hpatch] at hrun
  cases hrun
  exact ⟨rfl, hpatched⟩

/-- An instance without a field of that name has the replacement under the name of the patched slot if the
name is read back; otherwise it has what it had before. -/
theorem Patched.member?_target (hpatched : Patched r path h target (MemberKey.parse replacement) w w')
    (hi : (w.store.instanceAt i).prototype = h) (hname : target.display ≠ replacement)
    (hfield : w.store.ownsField i target.display = false) :
    w'.store.member? i target.display =
      if MemberKey.parse target.display = target then
        some (((w.store.prototype h).slot? (MemberKey.parse replacement)).getD .null)
      else (w.store.prototype h).slot? (MemberKey.parse target.display) := by
  have hnone : Assoc.get? (w'.store.instanceAt i).fields target.display = none := by
    rw [Store.ownsField, Assoc.contains, Option.isSome_eq_false_iff, Option.isNone_iff_eq_none] at hfield
    rw [hpatched.instances i, hfield]
  -- the name is not that of the slot which the replacement was taken from
  have hsource : MemberKey.parse target.display ≠ MemberKey.parse replacement :=
    fun heq => hname (MemberKey.parse_injective heq)
  have hprototype : w'.store.prototypeOf i = w'.store.prototype h := by
    rw [Store.prototypeOf, hpatched.instances i, hi]
  rw [Store.member?, hnone]
  dsimp only
  rw [hprototype, hpatched.slots, if_neg hsource]

/-- The name that a patch answers with is that of the method or of an alias for it.  An instance that owns
no field of this name has the replacement under it, or null if there was none, exactly if the name is read
back as the key of the slot that was patched, or if the slot that it is read as happens to hold the same;
and then it calls the replacement. -/
theorem Course.patchedName_reads_iff (hw : Course config r w) (hc : r.definition? path = some c)
    (hk : Assoc.get? r.constructors path = some k) (hh : k.prototype? = some h)
    (hi : (w.store.instanceAt i).prototype = h)
    (hrun : (ClassComposition.patch i owner method replacement).run w = (.ok target, w'))
    (hname : target.display ≠ replacement) (hfield : w.store.ownsField i target.display = false) :
    (target = .plain method ∨ ∃ name ∈ c.ancestorNames, target = .aliased name method) ∧
    ((w'.store.member? i target.display =
          some (((w.store.prototype h).slot? (MemberKey.parse replacement)).getD .null) ∧
        ∀ f, (w.store.prototype h).slot? (MemberKey.parse replacement) = some (.function f) →
          ∀ depth args,
            (callMember depth i target.display args).run w' = (invoke depth f i args).run w') ↔
      target.Readable ∨ (w.store.prototype h).slot? (MemberKey.parse target.display) =
        some (((w.store.prototype h).slot? (MemberKey.parse replacement)).getD .null)) := by
  obtain ⟨htarget, hpatched⟩ := hw.patched_of_run hc hk hh hi hrun
  have hmember := hpatched.member?_target hi hname hfield
  constructor
  · rw [htarget]
    exact c.patchSlot_cases _ owner method
  -- readers parse the name they are given, which is the written slot or another one
  by_cases hread : MemberKey.parse target.display = target
  · rw [if_pos hread] at hmember
    refine iff_of_true ⟨hmember, ?_⟩ (.inl (MemberKey.parse_display_iff.mp hread))
    intro f hf depth args
    have hcallee : w'.store.callee i target.display = .ok f := by
      rw [Store.callee, hmember, hf]
      rfl
    exact run_callMemberWith hcallee
  · rw [if_neg hread] at hmember
    rw [hmember, ← MemberKey.parse_display_iff]
    constructor
    · rintro ⟨hsame, -⟩
      exact .inr hsame
    · -- the slot read was not written, so the replacement answers only when it was there before
      rintro (hreadable | hsame)
      · exact absurd hreadable hread
      · refine ⟨hsame, fun f hf depth args => ?_⟩
        have hcallee : w'.store.callee i target.display = .ok f := by
          rw [Store.callee, hmember, hsame, hf]
          rfl
        exact run_callMemberWith hcallee

end Registry

/-! ### Two patches of one instance

The class of the sample overrides a method of its parent, which is kept under an alias.  A patch by the
parent replaces the kept implementation and answers with the text of the alias.  A patch that gives this
text as the name of the method replaces another slot, and answers with the same text. -/

namespace Sample

/-- The world after the class has patched what it calls by the text of the alias. -/
def patchedByText : World := ((patch ⟨0⟩ "Heir" "Base$run" "next").run withInstance).2

end Sample

namespace Registry

/-- The instance has the replacement under the text of the alias, and calls it there. -/
theorem Course.patchedName_reads_alias :
    ∃ w', (ClassComposition.patch ⟨0⟩ "Base" "run" "next").run Sample.withInstance =
        (.ok (.aliased "Base" "run"), w') ∧
      w'.store.member? ⟨0⟩ "Base$run" = some (.function ⟨2⟩) ∧
      ∀ depth args, (callMember depth ⟨0⟩ "Base$run" args).run w' =
        (invoke depth ⟨2⟩ ⟨0⟩ args).run w' := by
  have hc : Sample.atHeir.1.definition? "Ns.Heir" = some Sample.heirClass := rfl
  have hk : Assoc.get? Sample.atHeir.1.constructors "Ns.Heir" = some Sample.heirConstructor := rfl
  have hh : Sample.heirConstructor.prototype? = some ⟨1⟩ := rfl
  have hi : (Sample.withInstance.store.instanceAt ⟨0⟩).prototype = ⟨1⟩ := rfl
  have howner : "Base" ∈ Sample.heirClass.ancestorNames := by
    rw [show Sample.heirClass.ancestorNames = ["Base", "Heir"] from rfl]
    decide
  obtain ⟨w', hrun, -⟩ := Sample.course_withInstance.exists_patched hc hk hh hi howner "run" "next"
  have hslot : Sample.heirClass.patchSlot (Sample.withInstance.store.prototype ⟨1⟩) "Base" "run" =
      .aliased "Base" "run" := rfl
  rw [hslot] at hrun
  have hheld : (Sample.withInstance.store.prototype ⟨1⟩).slot? (MemberKey.parse "next") =
      some (.function ⟨2⟩) := rfl
  obtain ⟨-, hreads⟩ := Sample.course_withInstance.patchedName_reads_iff hc hk hh hi hrun (by decide) rfl
  obtain ⟨hmember, hcalls⟩ := hreads.mpr (.inl ⟨by decide, by decide, by decide⟩)
  rw [hheld] at hmember
  exact ⟨w', hrun, hmember, hcalls ⟨2⟩ hheld⟩

/-- The class is patched under a plain name that is written like the alias.  The instance owns no field of
the name that the patch answers with, and still has the parent's method under it. -/
theorem Course.patchedName_misses_plain :
    Course .standard Sample.atHeir.1 Sample.withInstance ∧
      Sample.atHeir.1.definition? "Ns.Heir" = some Sample.heirClass ∧
      Assoc.get? Sample.atHeir.1.constructors "Ns.Heir" = some Sample.heirConstructor ∧
      Sample.heirConstructor.prototype? = some ⟨1⟩ ∧
      (Sample.withInstance.store.instanceAt ⟨0⟩).prototype = ⟨1⟩ ∧
      (ClassComposition.patch ⟨0⟩ "Heir" "Base$run" "next").run Sample.withInstance =
        (.ok (.plain "Base$run"), Sample.patchedByText) ∧
      (MemberKey.plain "Base$run").display ≠ "next" ∧
      Sample.withInstance.store.ownsField ⟨0⟩ "Base$run" = false ∧
      (Sample.withInstance.store.prototype ⟨1⟩).slot? (MemberKey.parse "next") =
        some (.function ⟨2⟩) ∧
      Sample.patchedByText.store.member? ⟨0⟩ "Base$run" = some (.function ⟨0⟩) ∧
      ∀ depth args, (callMember depth ⟨0⟩ "Base$run" args).run Sample.patchedByText =
        (invoke depth ⟨0⟩ ⟨0⟩ args).run Sample.patchedByText := by
  have hcallee : Sample.patchedByText.store.callee ⟨0⟩ "Base$run" = .ok ⟨0⟩ := rfl
  refine ⟨Sample.course_withInstance, rfl, rfl, rfl, rfl, rfl, by decide, rfl, rfl, rfl, ?_⟩
  exact fun depth args => run_callMemberWith hcallee

end Registry

end ClassComposition
