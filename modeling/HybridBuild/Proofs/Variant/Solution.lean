import HybridBuild.Proofs.Module.Accepted
import HybridBuild.Proofs.Traverse
import HybridBuild.Variant.Plan

/-!
# Plans as solutions

A variant is planned against the outputs of other variants. A plan solves some modules
when planning each of their variants against the outputs of the plan itself gives that
plan again. The pass over a module graph finds a solution whenever there is one: what a
variant is planned against are the outputs of earlier waves, and no later wave changes
those. Whether a plan is a solution does not depend on the order of the modules, except
for the order of its rules.
-/
namespace HybridBuild

namespace Contribution

def outputs : Contribution → List String
  | ready _ outputs => outputs
  | provisional => []

def rules : Contribution → List Rule
  | ready rule _ => rule.toList
  | provisional => []

/-- The variant itself, when it waits for an answer. -/
def waiting (v : Variant) : Contribution → List Variant
  | ready _ _ => []
  | provisional => [v]

end Contribution

namespace Plan

variable {p : Plan} {c : Variant × Contribution} {cs : List (Variant × Contribution)}

theorem add_eq : p.add c = ⟨p.rules ++ c.2.rules, p.outputs.insert c.1 c.2.outputs,
    p.provisional ++ c.2.waiting c.1⟩ := by
  obtain ⟨v, _ | _⟩ := c <;> simp [add, Contribution.rules, Contribution.outputs, Contribution.waiting]

theorem rules_foldl_add : (cs.foldl add p).rules = p.rules ++ cs.flatMap (·.2.rules) := by
  induction cs generalizing p with
  | nil => simp
  | cons c cs ih => rw [List.foldl_cons, ih, add_eq, List.append_assoc, List.flatMap_cons]

theorem provisional_foldl_add : (cs.foldl add p).provisional =
    p.provisional ++ cs.flatMap fun c => c.2.waiting c.1 := by
  induction cs generalizing p with
  | nil => simp
  | cons c cs ih => rw [List.foldl_cons, ih, add_eq, List.append_assoc, List.flatMap_cons]

theorem getElem?_outputs_add (v : Variant) : (p.add c).outputs[v]? =
    if c.1 = v then some c.2.outputs else p.outputs[v]? := by
  simp only [add_eq, Std.TreeMap.getElem?_insert, Std.LawfulEqOrd.compare_eq_iff_eq]

theorem getElem?_outputs_foldl_add_of_ne {v : Variant} (h : ∀ c ∈ cs, c.1 ≠ v) :
    (cs.foldl add p).outputs[v]? = p.outputs[v]? := by
  induction cs generalizing p with
  | nil => rfl
  | cons c cs ih =>
    rw [List.forall_mem_cons] at h
    rw [List.foldl_cons, ih h.2, getElem?_outputs_add, if_neg h.1]

/-- Contributions of one variant that agree, in whatever order they are added. -/
theorem getElem?_outputs_foldl_add_of_eq {v : Variant} {paths : List String}
    (hall : ∀ c ∈ cs, c.1 = v → c.2.outputs = paths)
    (hone : p.outputs[v]? = some paths ∨ ∃ c ∈ cs, c.1 = v) :
    (cs.foldl add p).outputs[v]? = some paths := by
  induction cs generalizing p with
  | nil => simpa using hone
  | cons c cs ih =>
    rw [List.forall_mem_cons] at hall
    refine ih hall.2 ?_
    rw [getElem?_outputs_add]
    by_cases hc : c.1 = v
    · exact .inl (by rw [if_pos hc, hall.1 hc])
    · simpa [hc] using hone

end Plan

namespace ModuleDecl

variable {m : ModuleDecl} {facts : Facts} {outDir : Path} {arch : Arch} {outputs outputs' : Outputs}

/-- Two maps have the same outputs for the variants of some modules. -/
def AgreeOn (names : List String) (outputs outputs' : Outputs) : Prop :=
  ∀ name ∈ names, ∀ arch, outputs[Variant.mk name arch]? = outputs'[Variant.mk name arch]?

/-- A variant is planned against the outputs of its dependencies only. -/
theorem planVariant_congr (h : AgreeOn m.deps outputs outputs') :
    m.planVariant facts outDir outputs arch = m.planVariant facts outDir outputs' arch := by
  have hdeps : m.deps.mapM (m.depOutputs arch outputs) = m.deps.mapM (m.depOutputs arch outputs') :=
    mapM_congr fun dep hdep => by rw [depOutputs, depOutputs, h dep hdep, h dep hdep]
  have hnative : m.planNative outDir outputs arch = m.planNative outDir outputs' arch := by
    rw [planNative, planNative, inputs, inputs, hdeps]
  rw [planVariant, planVariant, hnative]

end ModuleDecl

open ModuleDecl

namespace Pass

variable {facts : Facts} {outDir : Path} {outputs outputs' : Outputs}
  {modules done wave : List ModuleDecl} {p q : Plan}

/-- What a variant adds to a plan when it is planned against some outputs. -/
def contribution (facts : Facts) (outDir : Path) (outputs : Outputs) (v : ModuleDecl × Arch) :
    Except PlanError (Variant × Contribution) :=
  (v.1.planVariant facts outDir outputs v.2).2.map (v.1.variant v.2, ·)

theorem contribution_eq_ok_iff {m : ModuleDecl} {arch : Arch} {c : Variant × Contribution} :
    contribution facts outDir outputs (m, arch) = .ok c ↔
      m.variant arch = c.1 ∧ (m.planVariant facts outDir outputs arch).2 = .ok c.2 := by
  obtain ⟨v, c⟩ := c
  rw [contribution, except_map_eq_ok_iff]
  simp [and_comm]

theorem result_ofVariants (vs : List (ModuleDecl × Arch)) :
    (ofVariants facts outDir outputs vs).result = vs.mapM (contribution facts outDir outputs) := by
  induction vs with
  | nil => rfl
  | cons v rest ih =>
    obtain ⟨m, arch⟩ := v
    unfold ofVariants
    rcases hv : m.planVariant facts outDir outputs arch with ⟨asked, e | c⟩
    · have hc : contribution facts outDir outputs (m, arch) = .error e := by
        simp [contribution, hv, Except.map]
      exact (mapM_cons_error hc).symm
    · have hc : contribution facts outDir outputs (m, arch) = .ok (m.variant arch, c) := by
        simp [contribution, hv, Except.map]
      rw [mapM_cons_ok hc, ← ih]

theorem result_ofWaves_cons (rest : List (List ModuleDecl)) :
    (ofWaves facts outDir p (wave :: rest)).result =
      (variantsOf wave).mapM (contribution facts outDir p.outputs) >>= fun cs =>
        (ofWaves facts outDir (cs.foldl Plan.add p) rest).result := by
  rw [← result_ofVariants, ofWaves]
  rcases ofVariants facts outDir p.outputs (variantsOf wave) with ⟨asked, e | cs⟩ <;> rfl

theorem mem_variantsOf {m : ModuleDecl} {arch : Arch} :
    (m, arch) ∈ variantsOf modules ↔ m ∈ modules ∧ arch ∈ m.archs := by
  simp [variantsOf]

theorem mapM_contribution_congr
    (h : ∀ m ∈ modules, AgreeOn m.deps outputs outputs') :
    (variantsOf modules).mapM (contribution facts outDir outputs) =
      (variantsOf modules).mapM (contribution facts outDir outputs') := by
  refine mapM_congr fun v hv => ?_
  rw [contribution, contribution, planVariant_congr (h v.1 (mem_variantsOf.mp hv).1)]

/-- The plan of some modules when every variant is planned against the same outputs. -/
def planAgainst (facts : Facts) (outDir : Path) (outputs : Outputs) (modules : List ModuleDecl) :
    Except PlanError Plan :=
  ((variantsOf modules).mapM (contribution facts outDir outputs)).map (·.foldl Plan.add .empty)

theorem planAgainst_congr (h : ∀ m ∈ modules, AgreeOn m.deps outputs outputs') :
    planAgainst facts outDir outputs modules = planAgainst facts outDir outputs' modules := by
  rw [planAgainst, planAgainst, mapM_contribution_congr h]

theorem planAgainst_append_eq_ok_iff : planAgainst facts outDir outputs (done ++ wave) = .ok q ↔
    ∃ p, planAgainst facts outDir outputs done = .ok p ∧
      ∃ cs, (variantsOf wave).mapM (contribution facts outDir outputs) = .ok cs ∧
        cs.foldl Plan.add p = q := by
  simp only [planAgainst, except_map_eq_ok_iff, variantsOf, List.flatMap_append,
    mapM_append_eq_ok_iff]
  constructor
  · rintro ⟨_, ⟨ds, cs, hds, hcs, rfl⟩, rfl⟩
    exact ⟨_, ⟨ds, hds, rfl⟩, cs, hcs, List.foldl_append.symm⟩
  · rintro ⟨_, ⟨ds, hds, rfl⟩, cs, hcs, rfl⟩
    exact ⟨_, ⟨ds, cs, hds, hcs, rfl⟩, List.foldl_append⟩

/-- What some modules contribute comes from their variants. -/
theorem mem_contributions_iff {cs : List (Variant × Contribution)}
    (hcs : (variantsOf modules).mapM (contribution facts outDir outputs) = .ok cs)
    {c : Variant × Contribution} :
    c ∈ cs ↔ ∃ m ∈ modules, ∃ arch ∈ m.archs, m.variant arch = c.1 ∧
      (m.planVariant facts outDir outputs arch).2 = .ok c.2 := by
  rw [mem_of_mapM_eq_ok hcs]
  simp only [Prod.exists, mem_variantsOf, contribution_eq_ok_iff, and_assoc, exists_and_left]

/-- What a wave adds leaves the outputs of the modules before it alone. -/
theorem agreeOn_foldl_add (hnames : ((done ++ wave).map name).Nodup) {deps : List String}
    (hdeps : ∀ dep ∈ deps, ∃ d ∈ done, d.name = dep) {cs : List (Variant × Contribution)}
    (hcs : (variantsOf wave).mapM (contribution facts outDir outputs) = .ok cs) :
    AgreeOn deps p.outputs (cs.foldl Plan.add p).outputs := by
  intro dep hdep arch
  obtain ⟨d, hd, rfl⟩ := hdeps dep hdep
  refine (Plan.getElem?_outputs_foldl_add_of_ne fun c hc heq => ?_).symm
  obtain ⟨m, hm, arch', -, hvariant, -⟩ := (mem_contributions_iff hcs).mp hc
  have hname : d.name = m.name := congrArg Variant.module (heq.symm.trans hvariant.symm)
  rw [List.map_append, List.nodup_append] at hnames
  exact hnames.2.2 d.name (List.mem_map_of_mem hd) m.name (List.mem_map_of_mem hm) hname

/-- A variant has the outputs that it was planned to have, since no other variant has its
name and architecture. -/
theorem getElem?_planAgainst_of_mem (hnames : (modules.map name).Nodup)
    (h : planAgainst facts outDir outputs modules = .ok p) {m : ModuleDecl} (hm : m ∈ modules)
    {arch : Arch} (harch : arch ∈ m.archs) {c : Contribution}
    (hc : (m.planVariant facts outDir outputs arch).2 = .ok c) :
    p.outputs[m.variant arch]? = some c.outputs := by
  obtain ⟨cs, hcs, rfl⟩ := except_map_eq_ok_iff.mp h
  refine Plan.getElem?_outputs_foldl_add_of_eq (fun c' hc' heq => ?_) (.inr ?_)
  · obtain ⟨m', hm', arch', -, hvariant, hplan⟩ := (mem_contributions_iff hcs).mp hc'
    have hsame := hvariant.trans heq
    obtain rfl := eq_of_name_eq hnames hm' hm (congrArg Variant.module hsame)
    obtain rfl : arch' = arch := congrArg Variant.arch hsame
    rw [Except.ok.inj (hplan.symm.trans hc)]
  · exact ⟨(m.variant arch, c), (mem_contributions_iff hcs).mpr ⟨m, hm, arch, harch, rfl, hc⟩, rfl⟩

/-- The outputs of a plan are those that its variants were planned to have. -/
theorem getElem?_planAgainst_iff (hnames : (modules.map name).Nodup)
    (h : planAgainst facts outDir outputs modules = .ok p) {v : Variant} {paths : List String} :
    p.outputs[v]? = some paths ↔ ∃ m ∈ modules, ∃ arch ∈ m.archs, m.variant arch = v ∧
      ∃ c, (m.planVariant facts outDir outputs arch).2 = .ok c ∧ c.outputs = paths := by
  constructor
  · intro hpaths
    obtain ⟨cs, hcs, rfl⟩ := except_map_eq_ok_iff.mp h
    by_cases hsome : ∃ c ∈ cs, c.1 = v
    · obtain ⟨c, hc, rfl⟩ := hsome
      obtain ⟨m, hm, arch, harch, hvariant, hplan⟩ := (mem_contributions_iff hcs).mp hc
      rw [← hvariant, getElem?_planAgainst_of_mem hnames h hm harch hplan] at hpaths
      exact ⟨m, hm, arch, harch, hvariant, c.2, hplan, Option.some.inj hpaths⟩
    · rw [Plan.getElem?_outputs_foldl_add_of_ne fun c hc heq => hsome ⟨c, hc, heq⟩] at hpaths
      simp [Plan.empty] at hpaths
  · rintro ⟨m, hm, arch, harch, rfl, c, hc, rfl⟩
    exact getElem?_planAgainst_of_mem hnames h hm harch hc

/-- A plan solves some modules, among them all dependencies, when planning their variants
against its outputs gives the plan again. -/
structure Solves (facts : Facts) (outDir : Path) (modules : List ModuleDecl) (p : Plan) : Prop where
  names : (modules.map name).Nodup
  deps : ∀ m ∈ modules, ∀ dep ∈ m.deps, ∃ d ∈ modules, d.name = dep
  eq : planAgainst facts outDir p.outputs modules = .ok p

theorem Solves.getElem?_iff (h : Solves facts outDir modules p) {v : Variant}
    {paths : List String} :
    p.outputs[v]? = some paths ↔ ∃ m ∈ modules, ∃ arch ∈ m.archs, m.variant arch = v ∧
      ∃ c, (m.planVariant facts outDir p.outputs arch).2 = .ok c ∧ c.outputs = paths :=
  getElem?_planAgainst_iff h.names h.eq

theorem Solves.exists_planVariant (h : Solves facts outDir modules p) {m : ModuleDecl}
    (hm : m ∈ modules) {arch : Arch} (harch : arch ∈ m.archs) :
    ∃ c, (m.planVariant facts outDir p.outputs arch).2 = .ok c ∧
      p.outputs[m.variant arch]? = some c.outputs := by
  obtain ⟨cs, hcs, -⟩ := except_map_eq_ok_iff.mp h.eq
  obtain ⟨c, hc⟩ := exists_mapM_ok_iff.mp ⟨cs, hcs⟩ (m, arch) (mem_variantsOf.mpr ⟨hm, harch⟩)
  have hplan := (contribution_eq_ok_iff.mp hc).2
  exact ⟨c.2, hplan, getElem?_planAgainst_of_mem h.names h.eq hm harch hplan⟩

/-- The rules of a solution are those that its variants contribute, in order. -/
theorem Solves.exists_contributions (h : Solves facts outDir modules p) :
    ∃ cs, (variantsOf modules).mapM (contribution facts outDir p.outputs) = .ok cs ∧
      p.rules = cs.flatMap (·.2.rules) := by
  obtain ⟨cs, hcs, hp⟩ := except_map_eq_ok_iff.mp h.eq
  refine ⟨cs, hcs, ?_⟩
  rw [← hp, Plan.rules_foldl_add]
  rfl

theorem Solves.provisional_eq_nil (h : Solves facts outDir modules p)
    (hplanned : ∀ m ∈ modules, ∀ arch ∈ m.archs,
      (m.planVariant facts outDir p.outputs arch).2 ≠ .ok .provisional) : p.provisional = [] := by
  obtain ⟨cs, hcs, hp⟩ := except_map_eq_ok_iff.mp h.eq
  rw [← hp, Plan.provisional_foldl_add, Plan.empty, List.nil_append, List.flatMap_eq_nil_iff]
  rintro ⟨v, c⟩ hc
  obtain ⟨m, hm, arch, harch, -, hplan⟩ := (mem_contributions_iff hcs).mp hc
  cases c with
  | ready rule outputs => rfl
  | provisional => exact absurd hplan (hplanned m hm arch harch)

theorem Solves.empty : Solves facts outDir [] .empty := ⟨List.nodup_nil, nofun, rfl⟩

/-- A wave whose dependencies are solved extends the solution. -/
theorem Solves.append (h : Solves facts outDir done p)
    (hnames : ((done ++ wave).map name).Nodup)
    (hdeps : ∀ m ∈ wave, ∀ dep ∈ m.deps, ∃ d ∈ done, d.name = dep)
    {cs : List (Variant × Contribution)}
    (hcs : (variantsOf wave).mapM (contribution facts outDir p.outputs) = .ok cs) :
    Solves facts outDir (done ++ wave) (cs.foldl Plan.add p) := by
  have hall : ∀ m ∈ done ++ wave, ∀ dep ∈ m.deps, ∃ d ∈ done, d.name = dep :=
    List.forall_mem_append.mpr ⟨h.deps, hdeps⟩
  have hagree : ∀ m ∈ done ++ wave, AgreeOn m.deps p.outputs (cs.foldl Plan.add p).outputs :=
    fun m hm => agreeOn_foldl_add hnames (hall m hm) hcs
  refine ⟨hnames, fun m hm dep hdep => ?_, ?_⟩
  · obtain ⟨d, hd, hname⟩ := hall m hm dep hdep
    exact ⟨d, List.mem_append_left wave hd, hname⟩
  · rw [← planAgainst_congr hagree]
    exact planAgainst_append_eq_ok_iff.mpr ⟨p, h.eq, cs, hcs, rfl⟩

/-- Modules in another order have the same solution, up to the order of its rules. -/
theorem Solves.perm (h : Solves facts outDir modules p) {modules' : List ModuleDecl}
    (hperm : modules.Perm modules') :
    ∃ q, Solves facts outDir modules' q ∧ (∀ v : Variant, q.outputs[v]? = p.outputs[v]?) ∧
      q.rules.Perm p.rules ∧ q.provisional.Perm p.provisional := by
  obtain ⟨cs, hcs, hp⟩ := except_map_eq_ok_iff.mp h.eq
  have hvariants : (variantsOf modules).Perm (variantsOf modules') := hperm.flatMap_right _
  obtain ⟨ds, hds, hsame⟩ := exists_mapM_ok_of_perm hvariants hcs
  have hnames : (modules'.map name).Nodup := (hperm.map name).nodup_iff.mp h.names
  have hq : planAgainst facts outDir p.outputs modules' = .ok (ds.foldl Plan.add .empty) :=
    except_map_eq_ok_iff.mpr ⟨ds, hds, rfl⟩
  have houtputs : ∀ v : Variant, (ds.foldl Plan.add .empty).outputs[v]? = p.outputs[v]? := by
    intro v
    refine Option.ext fun paths => ?_
    rw [getElem?_planAgainst_iff hnames hq, h.getElem?_iff]
    simp only [hperm.mem_iff]
  refine ⟨ds.foldl Plan.add .empty, ⟨hnames, fun m hm dep hdep => ?_, ?_⟩, houtputs, ?_, ?_⟩
  · obtain ⟨d, hd, hname⟩ := h.deps m (hperm.mem_iff.mpr hm) dep hdep
    exact ⟨d, hperm.mem_iff.mp hd, hname⟩
  · rw [planAgainst_congr fun m _ name _ arch => houtputs ⟨name, arch⟩, hq]
  · rw [← hp, Plan.rules_foldl_add, Plan.rules_foldl_add]
    exact (hsame.symm.flatMap_right _).append_left _
  · rw [← hp, Plan.provisional_foldl_add, Plan.provisional_foldl_add]
    exact (hsame.symm.flatMap_right _).append_left _

variable {g : ModuleGraph} {before waves : List (List ModuleDecl)}

/-- The next wave, planned against a solution of the waves before. -/
theorem Solves.append_wave (h : Solves facts outDir before.flatten p)
    (hwaves : g.waves = before ++ wave :: waves) {cs : List (Variant × Contribution)}
    (hcs : (variantsOf wave).mapM (contribution facts outDir p.outputs) = .ok cs) :
    Solves facts outDir (before ++ [wave]).flatten (cs.foldl Plan.add p) := by
  have hnames : (g.waves.flatten.map name).Nodup :=
    (g.flatten_waves_perm.map name).nodup_iff.mpr g.accepted.names
  rw [List.flatten_concat]
  refine h.append (hnames.sublist (List.Sublist.map name ?_)) (g.exists_dep_before hwaves) hcs
  rw [hwaves, List.flatten_append, List.flatten_cons]
  exact (List.sublist_append_left wave waves.flatten).append_left before.flatten

theorem solves_of_ofWaves (hwaves : g.waves = before ++ waves)
    (hp : Solves facts outDir before.flatten p)
    (hq : (ofWaves facts outDir p waves).result = .ok q) :
    Solves facts outDir g.waves.flatten q := by
  induction waves generalizing before p with
  | nil =>
    obtain rfl : p = q := Except.ok.inj hq
    rwa [hwaves, List.append_nil]
  | cons wave rest ih =>
    rw [result_ofWaves_cons] at hq
    cases hcs : (variantsOf wave).mapM (contribution facts outDir p.outputs) with
    | error e =>
      rw [hcs] at hq
      cases hq
    | ok cs =>
      rw [hcs] at hq
      exact ih (by rw [hwaves, List.append_cons]) (hp.append_wave hwaves hcs) hq

/-- If there is a solution, the pass finds it: the part of the solution that belongs to
some waves is what the pass has after these waves. -/
theorem ofWaves_of_solves (hwaves : g.waves = before ++ waves)
    (hq : Solves facts outDir g.waves.flatten q)
    (hp : planAgainst facts outDir q.outputs before.flatten = .ok p) :
    (ofWaves facts outDir p waves).result = .ok q := by
  have hnames := hq.names
  have heq := hq.eq
  induction waves generalizing before p with
  | nil =>
    rw [hwaves, List.append_nil, hp] at heq
    exact heq
  | cons wave rest ih =>
    rw [hwaves, List.flatten_append] at hnames heq
    obtain ⟨p', hp', cs, hcs, hadd⟩ := planAgainst_append_eq_ok_iff.mp heq
    obtain rfl : p = p' := Except.ok.inj (hp.symm.trans hp')
    have hagree : ∀ m ∈ wave, AgreeOn m.deps p.outputs q.outputs := fun m hm =>
      hadd ▸ agreeOn_foldl_add hnames (g.exists_dep_before hwaves m hm) hcs
    rw [List.flatten_cons, variantsOf, List.flatMap_append, mapM_append_eq_ok_iff] at hcs
    obtain ⟨ds, -, hds, -, -⟩ := hcs
    rw [result_ofWaves_cons, mapM_contribution_congr hagree, variantsOf, hds]
    refine ih (by rw [hwaves, List.append_cons]) ?_
    rw [List.flatten_concat]
    exact planAgainst_append_eq_ok_iff.mpr ⟨p, hp, ds, hds, rfl⟩

/-- A pass over a module graph succeeds exactly with the solutions of its modules. -/
theorem result_ofGraph_eq_ok_iff :
    (ofGraph facts outDir g).result = .ok p ↔ Solves facts outDir g.waves.flatten p :=
  have hwaves : g.waves = [] ++ g.waves := (List.nil_append g.waves).symm
  ⟨solves_of_ofWaves hwaves .empty, fun h => ofWaves_of_solves hwaves h rfl⟩

/-- A pass fails at a variant for which the dependencies of its module, at least, are
solved. -/
theorem exists_of_ofWaves_eq_error (hwaves : g.waves = before ++ waves)
    (hp : Solves facts outDir before.flatten p) {e : PlanError}
    (he : (ofWaves facts outDir p waves).result = .error e) :
    ∃ done q, Solves facts outDir done q ∧ (∀ d ∈ done, d ∈ g.modules) ∧
      ∃ m ∈ g.modules, ∃ arch ∈ m.archs, (∀ dep ∈ m.deps, ∃ d ∈ done, d.name = dep) ∧
        (m.planVariant facts outDir q.outputs arch).2 = .error e := by
  induction waves generalizing before p with
  | nil => cases he
  | cons wave rest ih =>
    rw [result_ofWaves_cons] at he
    cases hcs : (variantsOf wave).mapM (contribution facts outDir p.outputs) with
    | ok cs =>
      rw [hcs] at he
      exact ih (by rw [hwaves, List.append_cons]) (hp.append_wave hwaves hcs) he
    | error e' =>
      rw [hcs] at he
      obtain rfl : e' = e := Except.error.inj he
      obtain ⟨vs, ⟨m, arch⟩, vs', hvs, -, hv⟩ := mapM_eq_error_iff.mp hcs
      have hmem : (m, arch) ∈ variantsOf wave := by simp [hvs]
      obtain ⟨hm, harch⟩ := mem_variantsOf.mp hmem
      have hwave : ∀ layer ∈ before ++ wave :: rest, ∀ d ∈ layer, d ∈ g.modules := by
        intro layer hlayer d hd
        rw [← ModuleGraph.mem_flatten_waves, hwaves]
        exact List.mem_flatten_of_mem hlayer hd
      refine ⟨before.flatten, p, hp, fun d hd => ?_, m, hwave wave (by simp) m hm, arch, harch,
        g.exists_dep_before hwaves m hm, except_map_eq_error_iff.mp hv⟩
      obtain ⟨layer, hlayer, hd⟩ := List.mem_flatten.mp hd
      exact hwave layer (List.mem_append_left _ hlayer) d hd

end Pass

end HybridBuild
