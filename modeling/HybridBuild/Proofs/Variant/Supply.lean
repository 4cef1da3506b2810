import HybridBuild.Proofs.Variant.Recursion

/-!
# Where the files of a variant go

The files of a delegated variant are copied by a rule of the variant's name. Whatever draws
on the variant finds the copies among its inputs: a variant draws on those that it sees for
its dependencies, and on those that a file group draws on which it sees.
-/
namespace HybridBuild

namespace ModuleDecl

/-- A module draws on a variant, under an architecture: it sees the variant for a dependency,
or it sees a file group for one that draws on the variant. -/
inductive DrawsOn (modules : List ModuleDecl) : ModuleDecl → Arch → Variant → Prop where
  | direct {m d : ModuleDecl} {arch : Arch} : d ∈ modules → d.name ∈ m.deps →
      DrawsOn modules m arch (d.seenFor arch)
  | through {m d : ModuleDecl} {arch : Arch} {v : Variant} : d ∈ modules → d.name ∈ m.deps →
      d.delegate? = none → d.kind = .filegroup → DrawsOn modules d (d.seenFor arch).arch v →
      DrawsOn modules m arch v

theorem DrawsOn.mono {modules modules' : List ModuleDecl} (hsub : modules ⊆ modules')
    {m : ModuleDecl} {arch : Arch} {v : Variant} (h : DrawsOn modules m arch v) :
    DrawsOn modules' m arch v := by
  induction h with
  | direct hd hdep => exact .direct (hsub hd) hdep
  | through hd hdep hnative hkind _ ih => exact .through (hsub hd) hdep hnative hkind ih

variable {m : ModuleDecl} {facts : Facts} {outDir : Path} {arch : Arch} {outputs : Outputs}
  {c : Contribution} {inputs : List String}

theorem delegatedTo?_eq_none (h : m.delegate? = none) (facts : Facts) :
    m.delegatedTo? facts = none := by
  simp [delegatedTo?, h]

theorem delegatedTo?_of_enabled (h : facts.enabled) : m.delegatedTo? facts = m.delegate? := by
  simp [delegatedTo?, h]

/-- The rule that copies the files of a target reads each of them below Bazel's directory, and
writes it below that of the variant. -/
theorem exists_copy_of_planDelegated {label file : String} {files : List String}
    (hfiles : m.bazelOutputs facts label arch = .ok (some files)) (hfile : file ∈ files)
    (h : m.planDelegated facts outDir label arch = .ok c) :
    ∃ rule ∈ c.rules, rule.name = (m.variant arch).ruleName ∧
      ((bazelRoot facts).join file).text ∈ rule.implicitInputs ∧
      m.outPath outDir arch (bazelRelative file) ∈ rule.outputs := by
  have hcopy : FileCopy.ofFile (bazelRoot facts) (m.variantDir outDir arch) file ∈
      m.copiesOf facts outDir arch files := List.mem_map_of_mem hfile
  rcases of_planDelegated_eq_ok h with ⟨hnone, -⟩ | ⟨hempty, -⟩ | ⟨files', hfiles', rfl⟩
  · cases hfiles.symm.trans hnone
  · cases hfiles.symm.trans hempty
    cases hfile
  · cases hfiles.symm.trans hfiles'
    refine ⟨_, List.mem_singleton_self _, rfl, ?_, ?_⟩
    · exact List.mem_map_of_mem hcopy
    · exact List.mem_map_of_mem hcopy

/-- A file group passes its inputs on. -/
theorem inputs_of_planNative_filegroup (h : m.planNative outDir outputs arch = .ok c)
    (hkind : m.kind = .filegroup) : m.inputs arch outputs = .ok c.outputs := by
  obtain ⟨inputs, hinputs, ⟨-, rfl⟩ | ⟨hother, -⟩⟩ := of_planNative_eq_ok h
  · exact hinputs
  · exact absurd hkind hother

/-- Any other module has a rule that reads its inputs. -/
theorem exists_rule_of_planNative (h : m.planNative outDir outputs arch = .ok c)
    (hkind : m.kind ≠ .filegroup) :
    ∃ rule ∈ c.rules, rule.name = (m.variant arch).ruleName ∧
      m.inputs arch outputs = .ok rule.inputs := by
  obtain ⟨inputs, hinputs, ⟨hgroup, -⟩ | ⟨-, rule, hname, hreads, -, rfl⟩⟩ := of_planNative_eq_ok h
  · exact absurd hgroup hkind
  · exact ⟨rule, List.mem_singleton_self _, hname, hreads ▸ hinputs⟩

theorem exists_lookup_of_inputs (h : m.inputs arch outputs = .ok inputs) {dep : String}
    (hdep : dep ∈ m.deps) : ∃ paths, lookup outputs arch dep = some paths ∧ paths ⊆ inputs := by
  obtain ⟨hfound, heq⟩ := of_inputs_eq_ok h
  obtain ⟨paths, hpaths⟩ := hfound dep hdep
  refine ⟨paths, hpaths, fun path hpath => ?_⟩
  rw [heq]
  refine List.mem_append_right _ (List.mem_flatMap.mpr ⟨dep, hdep, ?_⟩)
  simpa [hpaths] using hpath

end ModuleDecl

open ModuleDecl

namespace Pass

variable {facts : Facts} {outDir : Path} {modules : List ModuleDecl} {p : Plan}

theorem Solves.mem_rules_iff (h : Solves facts outDir modules p) {rule : Rule} :
    rule ∈ p.rules ↔ ∃ m ∈ modules, ∃ arch ∈ m.archs, ∃ c,
      (m.planVariant facts outDir p.outputs arch).2 = .ok c ∧ rule ∈ c.rules := by
  obtain ⟨cs, hcs, hrules⟩ := h.exists_contributions
  rw [hrules, List.mem_flatMap]
  constructor
  · intro ⟨c, hc, hrule⟩
    obtain ⟨m, hm, arch, harch, -, hplan⟩ := (mem_contributions_iff hcs).mp hc
    exact ⟨m, hm, arch, harch, c.2, hplan, hrule⟩
  · intro ⟨m, hm, arch, harch, c, hplan, hrule⟩
    exact ⟨(m.variant arch, c), (mem_contributions_iff hcs).mpr ⟨m, hm, arch, harch, rfl, hplan⟩,
      hrule⟩

/-- What a module draws on is found among its inputs: by induction on the file groups between
them. -/
theorem Solves.mem_inputs_of_drawsOn (h : Solves facts outDir modules p) {m : ModuleDecl}
    {arch : Arch} {v : Variant} (hdraws : DrawsOn modules m arch v) {inputs paths : List String}
    (hinputs : m.inputs arch p.outputs = .ok inputs) (hpaths : p.outputs[v]? = some paths)
    {path : String} (hpath : path ∈ paths) : path ∈ inputs := by
  induction hdraws generalizing inputs with
  | @direct m d arch hd hdep =>
    obtain ⟨seen, hseen, hsub⟩ := exists_lookup_of_inputs hinputs hdep
    rw [h.lookup_eq hd, hpaths] at hseen
    have heq := Option.some.inj hseen
    exact hsub (heq ▸ hpath)
  | @through m d arch v hd hdep hnative hkind _ ih =>
    obtain ⟨seen, hseen, hsub⟩ := exists_lookup_of_inputs hinputs hdep
    rw [h.lookup_eq hd] at hseen
    obtain ⟨d', hd', arch', harch', hv, c, hc, hout⟩ := h.getElem?_iff.mp hseen
    have hname : d' = d := eq_of_name_eq h.names hd' hd (congrArg Variant.module hv)
    have harch : arch' = (d.seenFor arch).arch := congrArg Variant.arch hv
    subst hname harch
    rw [planVariant_of_native (delegatedTo?_eq_none hnative facts)] at hc
    have hgroup := inputs_of_planNative_filegroup hc hkind
    exact hsub (hout ▸ ih hgroup hpaths)

end Pass

end HybridBuild
