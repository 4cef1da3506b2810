import HybridBuild.Proofs.Variant.Recursion

/-!
# Faults that lie in the modules

Whether a variant has a command, declares outputs and finds a variant of each dependency is
settled by the modules. Answers about Bazel's targets, or the want of them, change what the
variants of a plan yield, but never which variants it has. So with any facts a pass comes upon
the same faults of the modules, as long as the same modules are delegated.
-/
namespace HybridBuild

namespace ModuleDecl

variable {m : ModuleDecl} {facts facts' : Facts} {outDir : Path} {arch : Arch} {outputs : Outputs}

theorem delegatedTo?_congr (h : facts'.enabled = facts.enabled) :
    m.delegatedTo? facts' = m.delegatedTo? facts := by
  rw [delegatedTo?, delegatedTo?, h]

/-- What a module needs for its variant under an architecture to be built from its sources. -/
structure Buildable (modules : List ModuleDecl) (m : ModuleDecl) (arch : Arch) : Prop where
  deps : ∀ d ∈ modules, d.name ∈ m.deps → arch ∈ d.archs ∨ .common ∈ d.archs
  step : m.kind = .filegroup ∨ (∃ cmd, m.cmd = some cmd) ∧ m.outs ≠ []

/-- A variant is planned from its sources when the outputs of all its dependencies are found,
and it is a file group or has a command and declares outputs. -/
theorem exists_planNative_iff : (∃ c, m.planNative outDir outputs arch = .ok c) ↔
    (∀ dep ∈ m.deps, ∃ paths, lookup outputs arch dep = some paths) ∧
      (m.kind = .filegroup ∨ (∃ cmd, m.cmd = some cmd) ∧ m.outs ≠ []) := by
  have hinputs : (∃ lists, m.deps.mapM (m.depOutputs arch outputs) = .ok lists) ↔
      ∀ dep ∈ m.deps, ∃ paths, lookup outputs arch dep = some paths := by
    simp only [exists_mapM_ok_iff, depOutputs_eq_ok_iff]
  rw [← hinputs]
  unfold planNative inputs
  cases m.deps.mapM (m.depOutputs arch outputs) with
  | error e => simp
  | ok lists =>
    by_cases hkind : m.kind = .filegroup
    · simp [hkind]
    · cases hcmd : m.cmd with
      | none => simp [hkind]
      | some cmd => by_cases houts : m.outs = [] <;> simp [hkind, houts]

end ModuleDecl

open ModuleDecl

namespace Pass

variable {facts facts' : Facts} {outDir : Path} {modules : List ModuleDecl} {g : ModuleGraph}
  {p : Plan} {m : ModuleDecl} {arch : Arch} {e : PlanError}

/-- Outputs are found for a dependency when it declares a variant that would do. -/
theorem Solves.exists_lookup_iff (h : Solves facts outDir modules p) {d : ModuleDecl}
    (hd : d ∈ modules) :
    (∃ paths, lookup p.outputs arch d.name = some paths) ↔ arch ∈ d.archs ∨ .common ∈ d.archs := by
  constructor
  · rintro ⟨paths, hpaths⟩
    rw [h.lookup_eq hd] at hpaths
    have hseen : d.seenFor arch ∈ p.outputs :=
      Std.TreeMap.mem_iff_isSome_getElem?.mpr (hpaths ▸ rfl)
    have hdeclared := (h.variant_mem_outputs_iff hd).mp hseen
    by_cases harch : arch ∈ d.archs
    · exact .inl harch
    · rw [if_neg harch] at hdeclared
      exact .inr hdeclared
  · intro harch
    by_contra hnone
    have hnone' : lookup p.outputs arch d.name = none :=
      Option.eq_none_iff_forall_ne_some.mpr fun paths hpaths => hnone ⟨paths, hpaths⟩
    obtain ⟨hseen, hcommon⟩ := h.notMem_archs_of_lookup_eq_none hd hnone'
    exact harch.elim hseen hcommon

/-- Against a solution of its dependencies a variant can be planned from its sources exactly
when the modules allow it. -/
theorem Solves.exists_planNative_iff (h : Solves facts outDir modules p)
    (hdeps : ∀ dep ∈ m.deps, ∃ d ∈ modules, d.name = dep) :
    (∃ c, m.planNative outDir p.outputs arch = .ok c) ↔ m.Buildable modules arch := by
  rw [ModuleDecl.exists_planNative_iff]
  constructor
  · rintro ⟨hfound, hstep⟩
    exact ⟨fun d hd hdep => (h.exists_lookup_iff hd).mp (hfound d.name hdep), hstep⟩
  · rintro ⟨hdeclared, hstep⟩
    refine ⟨fun dep hdep => ?_, hstep⟩
    obtain ⟨d, hd, rfl⟩ := hdeps dep hdep
    exact (h.exists_lookup_iff hd).mpr (hdeclared d hd hdep)

/-- When a pass succeeds, the modules allow what it plans from sources. -/
theorem buildable_of_ofGraph (hok : (ofGraph facts outDir g).result = .ok p) (hm : m ∈ g.modules)
    (harch : arch ∈ m.archs) (hnative : m.delegatedTo? facts = none) :
    m.Buildable g.modules arch := by
  have h := result_ofGraph_eq_ok_iff.mp hok
  have hm' : m ∈ g.waves.flatten := ModuleGraph.mem_flatten_waves.mpr hm
  obtain ⟨c, hc, -⟩ := h.exists_planVariant hm' harch
  rw [planVariant_of_native hnative] at hc
  have hbuildable := (h.exists_planNative_iff (h.deps m hm')).mp ⟨c, hc⟩
  exact ⟨fun d hd => hbuildable.deps d (ModuleGraph.mem_flatten_waves.mpr hd), hbuildable.step⟩

/-- When a pass comes upon a fault of the modules, they do not allow a variant that is to be
planned from its sources. -/
theorem exists_not_buildable_of_ofGraph (he : (ofGraph facts outDir g).result = .error e)
    (hfault : e.IsStructural) :
    ∃ m ∈ g.modules, ∃ arch ∈ m.archs, m.delegatedTo? facts = none ∧
      ¬ m.Buildable g.modules arch := by
  have hwaves : g.waves = [] ++ g.waves := (List.nil_append g.waves).symm
  obtain ⟨done, q, hq, hdone, m, hm, arch, harch, hdeps, hplan⟩ :=
    exists_of_ofWaves_eq_error hwaves .empty he
  cases hd : m.delegatedTo? facts with
  | some label =>
    rw [planVariant_of_delegated hd] at hplan
    exact absurd hfault (not_isStructural_of_planDelegated hplan)
  | none =>
    rw [planVariant_of_native hd] at hplan
    refine ⟨m, hm, arch, harch, hd, fun hbuildable => ?_⟩
    have hbuildable' : m.Buildable done arch :=
      ⟨fun d hd => hbuildable.deps d (hdone d hd), hbuildable.step⟩
    obtain ⟨c, hc⟩ := (hq.exists_planNative_iff hdeps).mpr hbuildable'
    rw [hplan] at hc
    cases hc

/-- Once a pass has succeeded, no pass that delegates the same modules comes upon a fault of
the modules, whatever the facts. -/
theorem not_isStructural_of_ofGraph (henabled : facts'.enabled = facts.enabled)
    (hok : (ofGraph facts outDir g).result = .ok p)
    (he : (ofGraph facts' outDir g).result = .error e) : ¬ e.IsStructural := by
  intro hfault
  obtain ⟨m, hm, arch, harch, hnative, hnot⟩ := exists_not_buildable_of_ofGraph he hfault
  rw [delegatedTo?_congr henabled] at hnative
  exact hnot (buildable_of_ofGraph hok hm harch hnative)

end Pass

end HybridBuild
