import HybridBuild.Proofs.Variant.Solution

/-!
# The requests of a pass

Which requests a pass makes does not depend on the answers: each delegated variant makes
one, in the order of the waves, until a variant fails. When all of them have answers, no
variant is provisional.
-/
namespace HybridBuild

namespace ModuleDecl

variable {m : ModuleDecl} {facts : Facts} {arch : Arch}

def requestsFor (m : ModuleDecl) (arch : Arch) : List Request :=
  (m.delegate?.map fun label => m.outputsRequest label arch).toList

theorem mem_requestsFor {r : Request} :
    r ∈ m.requestsFor arch ↔ ∃ label, m.delegate? = some label ∧ r = m.outputsRequest label arch := by
  simp [requestsFor, eq_comm]

/-- Native code is asked about its compile and link facts, anything else about its files. -/
theorem outputsRequest_eq (m : ModuleDecl) (label : String) (arch : Arch) :
    m.outputsRequest label arch =
      ⟨label, if m.kind.isNativeCode then "getCcInfo" else "getOutputFiles", arch⟩ := by
  unfold outputsRequest
  split <;> rfl

theorem planVariant_asked (h : facts.enabled) (outDir : Path) (outputs : Outputs) :
    (m.planVariant facts outDir outputs arch).1 = m.requestsFor arch := by
  unfold planVariant requestsFor
  cases m.delegate? with
  | none => rfl
  | some label =>
    simp only [if_pos h]
    rfl

theorem planVariant_asked_of_disabled (h : facts.enabled = false) (outDir : Path)
    (outputs : Outputs) : (m.planVariant facts outDir outputs arch).1 = [] := by
  unfold planVariant
  cases m.delegate? <;> simp [h]

theorem bazelOutputs_ne_none {label : String}
    (h : (facts.answer? (m.outputsRequest label arch)).isSome) :
    m.bazelOutputs facts label arch ≠ .ok none := by
  obtain ⟨raw, hraw⟩ := Option.isSome_iff_exists.mp h
  unfold bazelOutputs
  unfold outputsRequest at hraw
  split at hraw
  next hnative =>
    rw [if_pos hnative, Facts.ccInfo, hraw]
    dsimp only
    cases CcInfo.ofAnswer raw with
    | error e => simp [Except.map]
    | ok info => simp [Except.map]
  next hnative =>
    rw [if_neg hnative, Facts.outputFiles, hraw]
    simp

theorem planNative_ne_provisional (outDir : Path) (outputs : Outputs) :
    m.planNative outDir outputs arch ≠ .ok .provisional := by
  unfold planNative
  repeat' split
  all_goals simp

theorem planCopies_ne_provisional (outDir : Path) (files : List String) :
    m.planCopies facts outDir arch files ≠ .ok .provisional := by
  unfold planCopies
  split
  · simp
  · dsimp only
    split
    · simp
    · simp

theorem planVariant_ne_provisional
    (h : ∀ r ∈ m.requestsFor arch, (facts.answer? r).isSome) (outDir : Path) (outputs : Outputs) :
    (m.planVariant facts outDir outputs arch).2 ≠ .ok .provisional := by
  unfold planVariant
  cases hd : m.delegate? with
  | none => exact planNative_ne_provisional outDir outputs
  | some label =>
    have hanswer := h _ (mem_requestsFor.mpr ⟨label, hd, rfl⟩)
    dsimp only
    split
    · dsimp only [planDelegated]
      split
      next => simp
      next hnone => exact absurd hnone (bazelOutputs_ne_none hanswer)
      next => exact planCopies_ne_provisional outDir _
    · exact planNative_ne_provisional outDir outputs

end ModuleDecl

namespace Pass

variable {α β : Type} {facts : Facts}

/-- A pass makes some requests in turn, and leaves some out only when it fails. -/
structure Asks (pass : Pass α) (requests : List Request) : Prop where
  starts : pass.asked <+: requests
  complete : ∀ a, pass.result = .ok a → pass.asked = requests

/-- A pass that goes on with another. -/
theorem Asks.append {later : Pass α} {requests : List Request} (h : later.Asks requests)
    (asked : List Request) (f : Except PlanError α → Except PlanError β)
    (hf : ∀ e, ∃ e', f (.error e) = .error e') :
    Asks ⟨asked ++ later.asked, f later.result⟩ (asked ++ requests) where
  starts := (List.prefix_append_right_inj asked).mpr h.starts
  complete b hb := by
    cases hresult : later.result with
    | error e =>
      obtain ⟨e', he'⟩ := hf e
      rw [hresult, he'] at hb
      cases hb
    | ok a => exact congrArg (asked ++ ·) (h.complete a hresult)

def requestsOf (variants : List (ModuleDecl × Arch)) : List Request :=
  variants.flatMap fun v => v.1.requestsFor v.2

theorem asks_ofVariants (h : facts.enabled) (outDir : Path) (outputs : Outputs)
    (variants : List (ModuleDecl × Arch)) :
    (ofVariants facts outDir outputs variants).Asks (requestsOf variants) := by
  induction variants with
  | nil => exact ⟨List.prefix_rfl, fun _ _ => rfl⟩
  | cons v rest ih =>
    obtain ⟨m, arch⟩ := v
    have hasked : (m.planVariant facts outDir outputs arch).1 = m.requestsFor arch :=
      ModuleDecl.planVariant_asked h outDir outputs
    unfold ofVariants
    rcases hv : m.planVariant facts outDir outputs arch with ⟨asked, e | c⟩
    · rw [hv] at hasked
      exact ⟨⟨_, congrArg (· ++ _) hasked⟩, fun _ ha => by cases ha⟩
    · rw [hv] at hasked
      rw [requestsOf, List.flatMap_cons, ← hasked]
      exact ih.append asked _ fun e => ⟨e, rfl⟩

theorem requestsOf_variantsOf_cons (wave : List ModuleDecl) (rest : List (List ModuleDecl)) :
    requestsOf (variantsOf (wave :: rest).flatten) =
      requestsOf (variantsOf wave) ++ requestsOf (variantsOf rest.flatten) := by
  simp [requestsOf, variantsOf]

/-- What a wave asks does not depend on the outputs so far, so the plan is any plan. -/
theorem asks_ofWaves (h : facts.enabled) (outDir : Path) (p : Plan)
    (waves : List (List ModuleDecl)) :
    (ofWaves facts outDir p waves).Asks (requestsOf (variantsOf waves.flatten)) := by
  induction waves generalizing p with
  | nil => exact ⟨List.prefix_rfl, fun _ _ => rfl⟩
  | cons wave rest ih =>
    have hwave := asks_ofVariants h outDir p.outputs (variantsOf wave)
    unfold ofWaves
    rw [requestsOf_variantsOf_cons]
    rcases hv : ofVariants facts outDir p.outputs (variantsOf wave) with ⟨asked, e | cs⟩
    · rw [hv] at hwave
      exact ⟨hwave.starts.trans (List.prefix_append _ _), fun _ ha => by cases ha⟩
    · rw [hv] at hwave
      rw [← hwave.complete cs rfl]
      exact (ih (cs.foldl Plan.add p)).append asked id fun e => ⟨e, rfl⟩

theorem asked_ofVariants_of_disabled (h : facts.enabled = false) (outDir : Path)
    (outputs : Outputs) (variants : List (ModuleDecl × Arch)) :
    (ofVariants facts outDir outputs variants).asked = [] := by
  induction variants with
  | nil => rfl
  | cons v rest ih =>
    obtain ⟨m, arch⟩ := v
    have hasked : (m.planVariant facts outDir outputs arch).1 = [] :=
      ModuleDecl.planVariant_asked_of_disabled h outDir outputs
    unfold ofVariants
    rcases hv : m.planVariant facts outDir outputs arch with ⟨asked, e | c⟩
    · simpa [hv] using hasked
    · have hnil : asked = [] := by simpa [hv] using hasked
      simp [hnil, ih]

theorem asked_ofWaves_of_disabled (h : facts.enabled = false) (outDir : Path) (p : Plan)
    (waves : List (List ModuleDecl)) : (ofWaves facts outDir p waves).asked = [] := by
  induction waves generalizing p with
  | nil => rfl
  | cons wave rest ih =>
    have hwave := asked_ofVariants_of_disabled h outDir p.outputs (variantsOf wave)
    unfold ofWaves
    rcases hv : ofVariants facts outDir p.outputs (variantsOf wave) with ⟨asked, e | cs⟩
    · simpa [hv] using hwave
    · have hnil : asked = [] := by simpa [hv] using hwave
      simp [hnil, ih]

end Pass

/-- The requests of all delegated variants of a module graph. -/
def ModuleGraph.requests (g : ModuleGraph) : List Request :=
  Pass.requestsOf (Pass.variantsOf g.waves.flatten)

theorem ModuleGraph.mem_requests {g : ModuleGraph} {r : Request} :
    r ∈ g.requests ↔ ∃ m ∈ g.modules, ∃ label, m.delegate? = some label ∧
      ∃ arch ∈ m.archs, r = m.outputsRequest label arch := by
  simp only [requests, Pass.requestsOf, Pass.variantsOf, List.mem_flatMap, List.mem_map,
    ModuleDecl.mem_requestsFor, mem_flatten_waves]
  constructor
  · rintro ⟨_, ⟨m, hm, arch, harch, rfl⟩, label, hlabel, rfl⟩
    exact ⟨m, hm, label, hlabel, arch, harch, rfl⟩
  · rintro ⟨m, hm, label, hlabel, arch, harch, rfl⟩
    exact ⟨_, ⟨m, hm, arch, harch, rfl⟩, label, hlabel, rfl⟩

theorem Pass.asks_ofGraph {facts : Facts} (h : facts.enabled) (outDir : Path) (g : ModuleGraph) :
    (ofGraph facts outDir g).Asks g.requests :=
  asks_ofWaves h outDir .empty g.waves

/-- A pass that finds all answers leaves nothing provisional. -/
theorem Pass.provisional_ofGraph {facts : Facts} {outDir : Path} {g : ModuleGraph} {p : Plan}
    (h : ∀ r ∈ g.requests, (facts.answer? r).isSome)
    (hok : (ofGraph facts outDir g).result = .ok p) : p.provisional = [] := by
  refine (result_ofGraph_eq_ok_iff.mp hok).provisional_eq_nil fun m hm arch harch => ?_
  refine ModuleDecl.planVariant_ne_provisional (fun r hr => h r ?_) outDir p.outputs
  obtain ⟨label, hlabel, rfl⟩ := ModuleDecl.mem_requestsFor.mp hr
  exact ModuleGraph.mem_requests.mpr
    ⟨m, ModuleGraph.mem_flatten_waves.mp hm, label, hlabel, arch, harch, rfl⟩

end HybridBuild
