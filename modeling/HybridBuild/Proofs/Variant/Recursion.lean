import HybridBuild.Proofs.Variant.Solution

/-!
# The outputs of variants, by recursion

What a variant yields is said by recursion over the dependencies of its module. Bazel's
outputs are copied, or nothing is there yet; a file group passes on its sources and what
its dependencies yield; any other module writes its own files. A pass over a module graph
gives every variant just that, whatever the order of the modules, and when it misses a
variant of a dependency, the dependency does not declare one that would do.
-/
namespace HybridBuild

/-- A fault that lies in the modules, whatever is known about Bazel's targets. -/
def PlanError.IsStructural : PlanError → Prop
  | noCommand _ | noOutputs _ | missingVariant _ _ => True
  | query _ _ | outputCollision _ _ _ _ => False

namespace ModuleDecl

/-- The Bazel target that a module is planned from, when facts may be used. -/
def delegatedTo? (m : ModuleDecl) (facts : Facts) : Option String :=
  if facts.enabled then m.delegate? else none

/-- The variant of a dependency that a variant sees. -/
def seenFor (d : ModuleDecl) (arch : Arch) : Variant :=
  d.variant (if arch ∈ d.archs then arch else .common)

/-- The directory below which Bazel's files lie. -/
def bazelRoot (facts : Facts) : Path := (facts.outputBase.map execroot).getD ⟨""⟩

def outPath (m : ModuleDecl) (outDir : Path) (arch : Arch) (file : String) : String :=
  ((m.variantDir outDir arch).join file).text

end ModuleDecl

/-- What the variants of some modules yield. -/
inductive HasOutputs (facts : Facts) (outDir : Path) (modules : List ModuleDecl) :
    Variant → List String → Prop where
  /-- The files of the target, each copied to its place below the variant's directory. -/
  | copied {m : ModuleDecl} {arch : Arch} {label : String} {files : List String} :
    m ∈ modules → arch ∈ m.archs → m.delegatedTo? facts = some label →
      m.bazelOutputs facts label arch = .ok (some files) →
        HasOutputs facts outDir modules (m.variant arch)
          (files.map fun file => m.outPath outDir arch (bazelRelative file))
  /-- Nothing, as long as the files of the target are not known. -/
  | unanswered {m : ModuleDecl} {arch : Arch} {label : String} :
    m ∈ modules → arch ∈ m.archs → m.delegatedTo? facts = some label →
      m.bazelOutputs facts label arch = .ok none →
        HasOutputs facts outDir modules (m.variant arch) []
  /-- The sources of a file group, then what its dependencies yield, in their order. -/
  | gathered {m : ModuleDecl} {arch : Arch} {outs : String → List String} :
    m ∈ modules → arch ∈ m.archs → m.delegatedTo? facts = none → m.kind = .filegroup →
      (∀ d ∈ modules, d.name ∈ m.deps →
        HasOutputs facts outDir modules (d.seenFor arch) (outs d.name)) →
        HasOutputs facts outDir modules (m.variant arch) (m.srcs ++ m.deps.flatMap outs)
  /-- The files that any other module writes. -/
  | written {m : ModuleDecl} {arch : Arch} :
    m ∈ modules → arch ∈ m.archs → m.delegatedTo? facts = none → m.kind ≠ .filegroup →
      HasOutputs facts outDir modules (m.variant arch) (m.outs.map (m.outPath outDir arch))

namespace ModuleDecl

variable {m : ModuleDecl} {facts : Facts} {outDir : Path} {arch : Arch} {outputs : Outputs}
  {c : Contribution}

def lookup (outputs : Outputs) (arch : Arch) (dep : String) : Option (List String) :=
  outputs[Variant.mk dep arch]?.or outputs[Variant.mk dep .common]?

theorem depOutputs_eq (dep : String) : m.depOutputs arch outputs dep =
    match lookup outputs arch dep with
    | some paths => .ok paths
    | none => .error (.missingVariant (m.variant arch) dep) := rfl

theorem depOutputs_eq_ok_iff {dep : String} {paths : List String} :
    m.depOutputs arch outputs dep = .ok paths ↔ lookup outputs arch dep = some paths := by
  rw [depOutputs_eq]
  cases lookup outputs arch dep <;> simp

theorem depOutputs_eq_error_iff {dep : String} {e : PlanError} :
    m.depOutputs arch outputs dep = .error e ↔
      lookup outputs arch dep = none ∧ .missingVariant (m.variant arch) dep = e := by
  rw [depOutputs_eq]
  cases lookup outputs arch dep <;> simp

theorem planVariant_of_delegated {label : String} (h : m.delegatedTo? facts = some label) :
    (m.planVariant facts outDir outputs arch).2 = m.planDelegated facts outDir label arch := by
  unfold delegatedTo? at h
  split at h
  next henabled => simp [planVariant, h, henabled]
  next => cases h

theorem planVariant_of_native (h : m.delegatedTo? facts = none) :
    (m.planVariant facts outDir outputs arch).2 = m.planNative outDir outputs arch := by
  unfold delegatedTo? at h
  unfold planVariant
  cases hd : m.delegate? with
  | none => rfl
  | some label =>
    have henabled : ¬ facts.enabled := fun henabled => by simp [henabled, hd] at h
    simp only [if_neg henabled]

def copiesOf (m : ModuleDecl) (facts : Facts) (outDir : Path) (arch : Arch) (files : List String) :
    List FileCopy :=
  files.map (FileCopy.ofFile (bazelRoot facts) (m.variantDir outDir arch))

/-- What a delegated variant contributes: nothing yet while the files of its target are not
known, nothing at all when there are none, and otherwise a rule that copies them. -/
theorem of_planDelegated_eq_ok {label : String}
    (h : m.planDelegated facts outDir label arch = .ok c) :
    (m.bazelOutputs facts label arch = .ok none ∧ c = .provisional) ∨
    (m.bazelOutputs facts label arch = .ok (some []) ∧ c = .ready none []) ∨
    ∃ files, m.bazelOutputs facts label arch = .ok (some files) ∧
      c = .ready
        (some (FileCopy.rule (m.variant arch).ruleName ("bazel output " ++ m.name)
          (m.copiesOf facts outDir arch files)))
        ((m.copiesOf facts outDir arch files).map FileCopy.target) := by
  unfold planDelegated at h
  split at h
  · cases h
  next hnone => exact .inl ⟨hnone, (Except.ok.inj h).symm⟩
  next files hfiles =>
    unfold planCopies at h
    by_cases hempty : files.isEmpty
    · rw [if_pos hempty] at h
      rw [List.isEmpty_iff.mp hempty] at hfiles
      exact .inr (.inl ⟨hfiles, (Except.ok.inj h).symm⟩)
    · rw [if_neg hempty] at h
      dsimp only at h
      split at h
      · cases h
      · exact .inr (.inr ⟨files, hfiles, (Except.ok.inj h).symm⟩)

/-- A delegated variant yields the files of its target, none while these are unknown. -/
theorem outputs_of_planDelegated {label : String}
    (h : m.planDelegated facts outDir label arch = .ok c) :
    ∃ files?, m.bazelOutputs facts label arch = .ok files? ∧
      c.outputs = (files?.getD []).map fun file => m.outPath outDir arch (bazelRelative file) := by
  rcases of_planDelegated_eq_ok h with ⟨hnone, rfl⟩ | ⟨hempty, rfl⟩ | ⟨files, hfiles, rfl⟩
  · exact ⟨none, hnone, rfl⟩
  · exact ⟨some [], hempty, rfl⟩
  · refine ⟨some files, hfiles, ?_⟩
    simp [Contribution.outputs, copiesOf, FileCopy.ofFile, outPath, Function.comp_def]

/-- The outputs of all dependencies, when something is found for each. -/
theorem mapM_depOutputs_eq_ok {lists : List (List String)}
    (h : m.deps.mapM (m.depOutputs arch outputs) = .ok lists) :
    (∀ dep ∈ m.deps, ∃ paths, lookup outputs arch dep = some paths) ∧
      lists = m.deps.map fun dep => (lookup outputs arch dep).getD [] := by
  have hfound : ∀ dep ∈ m.deps, ∃ paths, lookup outputs arch dep = some paths := by
    intro dep hdep
    obtain ⟨paths, hpaths⟩ := exists_mapM_ok_iff.mp ⟨lists, h⟩ dep hdep
    exact ⟨paths, depOutputs_eq_ok_iff.mp hpaths⟩
  refine ⟨hfound, Except.ok.inj (h.symm.trans (mapM_eq_ok_iff.mpr ?_))⟩
  rw [List.map_map]
  refine List.map_congr_left fun dep hdep => depOutputs_eq_ok_iff.mpr ?_
  obtain ⟨paths, hpaths⟩ := hfound dep hdep
  simp [hpaths]

/-- What a variant built from its sources contributes: a file group passes its inputs on, and
any other module has a rule that reads them. -/
theorem of_planNative_eq_ok (h : m.planNative outDir outputs arch = .ok c) :
    ∃ inputs, m.inputs arch outputs = .ok inputs ∧
      ((m.kind = .filegroup ∧ c = .ready none inputs) ∨
        (m.kind ≠ .filegroup ∧ ∃ rule : Rule, rule.name = (m.variant arch).ruleName ∧
          rule.inputs = inputs ∧ rule.outputs = m.outs.map (m.outPath outDir arch) ∧
          c = .ready (some rule) rule.outputs)) := by
  unfold planNative at h
  split at h
  · cases h
  next inputs hinputs =>
    refine ⟨inputs, hinputs, ?_⟩
    by_cases hkind : m.kind = .filegroup
    · rw [if_pos hkind] at h
      exact .inl ⟨hkind, (Except.ok.inj h).symm⟩
    · rw [if_neg hkind] at h
      split at h
      · cases h
      · split at h
        · cases h
        · exact .inr ⟨hkind, _, rfl, rfl, rfl, (Except.ok.inj h).symm⟩

/-- The inputs of a variant, when something is found for each dependency. -/
theorem of_inputs_eq_ok {inputs : List String} (h : m.inputs arch outputs = .ok inputs) :
    (∀ dep ∈ m.deps, ∃ paths, lookup outputs arch dep = some paths) ∧
      inputs = m.srcs ++ m.deps.flatMap fun dep => (lookup outputs arch dep).getD [] := by
  unfold ModuleDecl.inputs at h
  cases hlists : m.deps.mapM (m.depOutputs arch outputs) with
  | error e => simp [hlists] at h
  | ok lists =>
    obtain ⟨hfound, heq⟩ := mapM_depOutputs_eq_ok hlists
    simp only [hlists] at h
    refine ⟨hfound, ?_⟩
    rw [← Except.ok.inj h, List.flatMap_def, ← heq]

/-- A variant that is built from its sources finds the outputs of all its dependencies. -/
theorem outputs_of_planNative (h : m.planNative outDir outputs arch = .ok c) :
    (∀ dep ∈ m.deps, ∃ paths, lookup outputs arch dep = some paths) ∧
      c.outputs = if m.kind = .filegroup
        then m.srcs ++ m.deps.flatMap fun dep => (lookup outputs arch dep).getD []
        else m.outs.map (m.outPath outDir arch) := by
  obtain ⟨inputs, hinputs, hc⟩ := of_planNative_eq_ok h
  obtain ⟨hfound, heq⟩ := of_inputs_eq_ok hinputs
  refine ⟨hfound, ?_⟩
  rcases hc with ⟨hkind, rfl⟩ | ⟨hkind, rule, -, -, houtputs, rfl⟩
  · rw [if_pos hkind]
    exact heq
  · rw [if_neg hkind]
    exact houtputs

/-- A delegated variant fails only for what Bazel answers. -/
theorem not_isStructural_of_planDelegated {label : String} {e : PlanError}
    (h : m.planDelegated facts outDir label arch = .error e) : ¬ e.IsStructural := by
  unfold planDelegated at h
  split at h
  next e' he =>
    obtain rfl := Except.error.inj h
    unfold bazelOutputs at he
    split at he
    · split at he
      · obtain rfl := Except.error.inj he
        exact id
      · cases he
    · cases he
  next => cases h
  next =>
    unfold planCopies at h
    split at h
    · cases h
    · dsimp only at h
      split at h
      · obtain rfl := Except.error.inj h
        exact id
      · cases h

/-- A variant that is built from its sources misses only variants of dependencies for which
no outputs are found. -/
theorem of_planNative_eq_missingVariant {v : Variant} {dep : String}
    (h : m.planNative outDir outputs arch = .error (.missingVariant v dep)) :
    m.variant arch = v ∧ dep ∈ m.deps ∧ lookup outputs arch dep = none := by
  unfold planNative inputs at h
  cases hlists : m.deps.mapM (m.depOutputs arch outputs) with
  | ok lists =>
    simp only [hlists] at h
    split at h
    · cases h
    · split at h
      · cases h
      · split at h <;> cases h
  | error e =>
    simp only [hlists, Except.error.injEq] at h
    obtain rfl := h
    obtain ⟨before, dep', after, hdeps, -, hdep⟩ := mapM_eq_error_iff.mp hlists
    obtain ⟨hnone, heq⟩ := depOutputs_eq_error_iff.mp hdep
    obtain ⟨rfl, rfl⟩ := PlanError.missingVariant.inj heq
    exact ⟨rfl, by simp [hdeps], hnone⟩

end ModuleDecl

open ModuleDecl

namespace Pass

variable {facts : Facts} {outDir : Path} {modules : List ModuleDecl} {p : Plan} {d : ModuleDecl}
  {arch : Arch}

namespace Solves

variable (h : Solves facts outDir modules p)
include h

theorem mem_outputs_iff {v : Variant} :
    v ∈ p.outputs ↔ ∃ m ∈ modules, ∃ arch ∈ m.archs, m.variant arch = v := by
  rw [Std.TreeMap.mem_iff_isSome_getElem?, Option.isSome_iff_exists]
  constructor
  · rintro ⟨paths, hpaths⟩
    obtain ⟨m, hm, arch, harch, hv, -⟩ := h.getElem?_iff.mp hpaths
    exact ⟨m, hm, arch, harch, hv⟩
  · rintro ⟨m, hm, arch, harch, rfl⟩
    obtain ⟨c, -, hc⟩ := h.exists_planVariant hm harch
    exact ⟨c.outputs, hc⟩

theorem variant_mem_outputs_iff (hd : d ∈ modules) : d.variant arch ∈ p.outputs ↔ arch ∈ d.archs := by
  rw [h.mem_outputs_iff]
  constructor
  · rintro ⟨m, hm, arch', harch, heq⟩
    obtain rfl := eq_of_name_eq h.names hm hd (congrArg Variant.module heq)
    obtain rfl : arch' = arch := congrArg Variant.arch heq
    exact harch
  · exact fun harch => ⟨d, hd, arch, harch, rfl⟩

/-- What is found for a dependency are the outputs of the variant that is seen. -/
theorem lookup_eq (hd : d ∈ modules) : lookup p.outputs arch d.name = p.outputs[d.seenFor arch]? := by
  change (p.outputs[d.variant arch]?.or p.outputs[d.variant .common]?) = _
  unfold seenFor
  by_cases harch : arch ∈ d.archs
  · obtain ⟨c, -, hc⟩ := h.exists_planVariant hd harch
    rw [if_pos harch, hc, Option.some_or]
  · have hnone : p.outputs[d.variant arch]? = none :=
      Std.TreeMap.getElem?_eq_none fun hmem => harch ((h.variant_mem_outputs_iff hd).mp hmem)
    rw [if_neg harch, hnone, Option.none_or]

/-- No outputs are found for a dependency only when it does not declare a variant that
would do. -/
theorem notMem_archs_of_lookup_eq_none (hd : d ∈ modules)
    (hnone : lookup p.outputs arch d.name = none) : arch ∉ d.archs ∧ .common ∉ d.archs := by
  obtain ⟨hseen, hcommon⟩ : p.outputs[d.variant arch]? = none ∧
      p.outputs[d.variant .common]? = none := Option.or_eq_none_iff.mp hnone
  rw [← h.variant_mem_outputs_iff hd, ← h.variant_mem_outputs_iff hd,
    Std.TreeMap.mem_iff_isSome_getElem?, Std.TreeMap.mem_iff_isSome_getElem?, hseen, hcommon]
  exact ⟨nofun, nofun⟩

/-- Once all dependencies are solved, only a variant that is built from its sources misses a
variant, one that the dependency does not declare. -/
theorem of_missingVariant {m : ModuleDecl} (hdeps : ∀ dep ∈ m.deps, ∃ d ∈ modules, d.name = dep)
    {v : Variant} {dep : String}
    (he : (m.planVariant facts outDir p.outputs arch).2 = .error (.missingVariant v dep)) :
    m.variant arch = v ∧ m.delegatedTo? facts = none ∧ dep ∈ m.deps ∧
      ∃ d ∈ modules, d.name = dep ∧ arch ∉ d.archs ∧ .common ∉ d.archs := by
  cases hd : m.delegatedTo? facts with
  | some label =>
    rw [planVariant_of_delegated hd] at he
    exact absurd trivial (not_isStructural_of_planDelegated he)
  | none =>
    rw [planVariant_of_native hd] at he
    obtain ⟨hv, hdep, hnone⟩ := of_planNative_eq_missingVariant he
    obtain ⟨d, hmem, rfl⟩ := hdeps dep hdep
    exact ⟨hv, rfl, hdep, d, hmem, rfl, h.notMem_archs_of_lookup_eq_none hmem hnone⟩

end Solves

variable {g : ModuleGraph} (h : Solves facts outDir g.modules p)
include h

/-- In a solution every variant yields what the recursion says: by induction over the
dependencies of its module. -/
theorem Solves.hasOutputs : ∀ m ∈ g.modules, ∀ arch ∈ m.archs, ∀ c,
    (m.planVariant facts outDir p.outputs arch).2 = .ok c →
      HasOutputs facts outDir g.modules (m.variant arch) c.outputs := by
  refine g.forall_of_deps fun m hm ih arch harch c hc => ?_
  cases hd : m.delegatedTo? facts with
  | some label =>
    rw [planVariant_of_delegated hd] at hc
    obtain ⟨files?, hfiles, hout⟩ := outputs_of_planDelegated hc
    rw [hout]
    cases files? with
    | none => exact .unanswered hm harch hd hfiles
    | some files => exact .copied hm harch hd hfiles
  | none =>
    rw [planVariant_of_native hd] at hc
    obtain ⟨hfound, hout⟩ := outputs_of_planNative hc
    rw [hout]
    split
    next hkind =>
      refine .gathered hm harch hd hkind fun d hmem hdep => ?_
      obtain ⟨paths, hpaths⟩ := hfound d.name hdep
      rw [hpaths]
      rw [h.lookup_eq hmem] at hpaths
      obtain ⟨d', hd', arch', harch', hv, c', hc', rfl⟩ := h.getElem?_iff.mp hpaths
      have hname : d'.name = d.name := congrArg Variant.module hv
      obtain rfl := eq_of_name_eq h.names hd' hmem hname
      rw [← hv]
      exact ih d' hd' hdep arch' harch' c' hc'
    next hkind => exact .written hm harch hd hkind

/-- What the recursion says of a variant is what a solution has. -/
theorem Solves.getElem?_of_hasOutputs {v : Variant} {paths : List String}
    (hv : HasOutputs facts outDir g.modules v paths) : p.outputs[v]? = some paths := by
  induction hv with
  | @copied m arch label files hm harch hd hfiles =>
    obtain ⟨c, hc, hlookup⟩ := h.exists_planVariant hm harch
    rw [planVariant_of_delegated hd] at hc
    obtain ⟨files?, hfiles', hout⟩ := outputs_of_planDelegated hc
    obtain rfl : some files = files? := Except.ok.inj (hfiles.symm.trans hfiles')
    rw [hlookup, hout, Option.getD_some]
  | @unanswered m arch label hm harch hd hnone =>
    obtain ⟨c, hc, hlookup⟩ := h.exists_planVariant hm harch
    rw [planVariant_of_delegated hd] at hc
    obtain ⟨files?, hfiles, hout⟩ := outputs_of_planDelegated hc
    obtain rfl : none = files? := Except.ok.inj (hnone.symm.trans hfiles)
    rw [hlookup, hout, Option.getD_none, List.map_nil]
  | @gathered m arch outs hm harch hd hkind hdeps ih =>
    obtain ⟨c, hc, hlookup⟩ := h.exists_planVariant hm harch
    rw [planVariant_of_native hd] at hc
    obtain ⟨-, hout⟩ := outputs_of_planNative hc
    have houts : ∀ dep ∈ m.deps, (lookup p.outputs arch dep).getD [] = outs dep := by
      intro dep hdep
      obtain ⟨d, hd, rfl⟩ := h.deps m hm dep hdep
      rw [h.lookup_eq hd, ih d hd hdep, Option.getD_some]
    rw [hlookup, hout, if_pos hkind, List.flatMap_congr houts]
  | @written m arch hm harch hd hkind =>
    obtain ⟨c, hc, hlookup⟩ := h.exists_planVariant hm harch
    rw [planVariant_of_native hd] at hc
    obtain ⟨-, hout⟩ := outputs_of_planNative hc
    rw [hlookup, hout, if_neg hkind]

theorem Solves.getElem?_eq_some_iff {v : Variant} {paths : List String} :
    p.outputs[v]? = some paths ↔ HasOutputs facts outDir g.modules v paths := by
  refine ⟨fun hv => ?_, h.getElem?_of_hasOutputs⟩
  obtain ⟨m, hm, arch, harch, rfl, c, hc, rfl⟩ := h.getElem?_iff.mp hv
  exact h.hasOutputs m hm arch harch c hc

omit h

/-- A pass that succeeds has the outputs of a solution of the modules in their own order. -/
theorem exists_solves_of_ofGraph (hp : (ofGraph facts outDir g).result = .ok p) :
    ∃ q, Solves facts outDir g.modules q ∧ ∀ v : Variant, q.outputs[v]? = p.outputs[v]? := by
  obtain ⟨q, hq, houtputs, -⟩ := (result_ofGraph_eq_ok_iff.mp hp).perm g.flatten_waves_perm
  exact ⟨q, hq, houtputs⟩

/-- Modules in another order are accepted as well, and the pass over them comes to the same
outputs. -/
theorem exists_ofGraph_of_perm (hperm : modules.Perm g.modules) :
    ∃ g', ModuleGraph.ofModules modules = .ok g' ∧
      ∀ p, (ofGraph facts outDir g).result = .ok p →
        ∃ q, (ofGraph facts outDir g').result = .ok q ∧ q.outputs.toList = p.outputs.toList ∧
          q.rules.Perm p.rules ∧ q.provisional.Perm p.provisional := by
  have haccepted : Accepted modules := g.accepted.perm hperm.symm
  let g' : ModuleGraph := ⟨modules, check_eq_ok_iff.mpr haccepted⟩
  refine ⟨g', ModuleGraph.ofModules_eq_ok haccepted, fun p hp => ?_⟩
  have hwaves : g.waves.flatten.Perm g'.waves.flatten :=
    (g.flatten_waves_perm.trans hperm.symm).trans g'.flatten_waves_perm.symm
  obtain ⟨q, hq, houtputs, hrules, hprovisional⟩ := (result_ofGraph_eq_ok_iff.mp hp).perm hwaves
  have hequiv := Std.TreeMap.Equiv.of_forall_constGet?_eq houtputs
  exact ⟨q, result_ofGraph_eq_ok_iff.mpr hq, Std.TreeMap.equiv_iff_toList_eq.mp hequiv, hrules,
    hprovisional⟩

/-- The outputs of a pass are those of the recursion over dependencies: its variants are
those that the modules declare, and each yields what the recursion says. A variant is missed
only when a dependency does not declare it. Permuted modules come to the same outputs, and to
the same rules and provisional variants up to order. -/
theorem ofGraph_eq_recursion (facts : Facts) (outDir : Path) (g : ModuleGraph) :
    (∀ p, (ofGraph facts outDir g).result = .ok p →
      (∀ v, v ∈ p.outputs ↔ ∃ m ∈ g.modules, ∃ arch ∈ m.archs, m.variant arch = v) ∧
        ∀ (v : Variant) paths,
          p.outputs[v]? = some paths ↔ HasOutputs facts outDir g.modules v paths) ∧
    (∀ v dep, (ofGraph facts outDir g).result = .error (.missingVariant v dep) →
      ∃ m ∈ g.modules, ∃ arch ∈ m.archs, m.variant arch = v ∧ m.delegatedTo? facts = none ∧
        dep ∈ m.deps ∧ ∃ d ∈ g.modules, d.name = dep ∧ arch ∉ d.archs ∧ .common ∉ d.archs) ∧
    ∀ modules, modules.Perm g.modules → ∃ g', ModuleGraph.ofModules modules = .ok g' ∧
      ∀ p, (ofGraph facts outDir g).result = .ok p →
        ∃ q, (ofGraph facts outDir g').result = .ok q ∧ q.outputs.toList = p.outputs.toList ∧
          q.rules.Perm p.rules ∧ q.provisional.Perm p.provisional := by
  refine ⟨fun p hp => ?_, fun v dep he => ?_, fun modules => exists_ofGraph_of_perm⟩
  · obtain ⟨q, hq, houtputs⟩ := exists_solves_of_ofGraph hp
    refine ⟨fun v => ?_, fun v paths => ?_⟩
    · rw [← hq.mem_outputs_iff, Std.TreeMap.mem_iff_isSome_getElem?,
        Std.TreeMap.mem_iff_isSome_getElem?, houtputs]
    · rw [← houtputs, hq.getElem?_eq_some_iff]
  · have hwaves : g.waves = [] ++ g.waves := (List.nil_append g.waves).symm
    obtain ⟨done, q, hq, hdone, m, hm, arch, harch, hdeps, hplan⟩ :=
      exists_of_ofWaves_eq_error hwaves .empty he
    obtain ⟨hv, hnative, hdep, d, hd, hname, harchs⟩ := hq.of_missingVariant hdeps hplan
    exact ⟨m, hm, arch, harch, hv, hnative, hdep, d, hdone d hd, hname, harchs⟩

end Pass

end HybridBuild
