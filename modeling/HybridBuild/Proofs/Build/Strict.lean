import HybridBuild.Proofs.Build.Outcome

/-!
# Strict builds

A plan reads what its source knows and notes afterwards what it would have asked. A strict
build asks its source whenever it wants to know something, and ends at the first use that the
source does not allow. There is no such use in any build, so both come to the same result and
leave the same source behind.
-/
namespace HybridBuild.Strict

open Build

/-- A computation with a source, which ends at the first misuse. -/
abbrev Using (α : Type) := StateT FactSource (Except Misuse) α

def ask {α : Type} (use : FactSource → Except Misuse α × FactSource) : Using α := fun src =>
  match use src with
  | (.error m, _) => .error m
  | (.ok a, src) => .ok (a, src)

/-- Has the source settle its waiting requests. -/
def invoke (files : FileTree) : Using (Except InvokeError Unit × FileTree) := fun src =>
  match src.invoke files with
  | (.error (.misuse m), _, _) => .error m
  | (.error (.invoke e), src, files) => .ok ((.error e, files), src)
  | (.ok (), src, files) => .ok ((.ok (), files), src)

def bazelOutputs (m : ModuleDecl) (label : String) (arch : Arch) :
    Using (Except PlanError (Option (List String))) :=
  if m.kind.isNativeCode then do
    match ← ask (·.ccInfo label arch) with
    | .error e => return .error (.query (m.variant arch) e)
    | .ok info => return .ok (info.map CcInfo.outputFiles)
  else do
    let files ← ask (·.outputFiles label arch)
    return .ok files

def planVariant (m : ModuleDecl) (outDir : Path) (outputs : Outputs) (arch : Arch) :
    Using (Except PlanError Contribution) := do
  let src ← get
  match m.delegate? with
  | some label =>
    if src.enabled then
      match ← bazelOutputs m label arch with
      | .error e => return .error e
      | .ok none => return .ok .provisional
      | .ok (some files) => return m.planCopies src.facts outDir arch files
    else return m.planNative outDir outputs arch
  | none => return m.planNative outDir outputs arch

def planVariants (outDir : Path) (outputs : Outputs) :
    List (ModuleDecl × Arch) → Using (Except PlanError (List (Variant × Contribution)))
  | [] => return .ok []
  | (m, arch) :: rest => do
    match ← planVariant m outDir outputs arch with
    | .error e => return .error e
    | .ok c =>
      let later ← planVariants outDir outputs rest
      return later.map ((m.variant arch, c) :: ·)

def planWaves (outDir : Path) (p : Plan) : List (List ModuleDecl) → Using (Except PlanError Plan)
  | [] => return .ok p
  | wave :: rest => do
    match ← planVariants outDir p.outputs (Pass.variantsOf wave) with
    | .error e => return .error e
    | .ok contributions => planWaves outDir (contributions.foldl Plan.add p) rest

def plan (g : ModuleGraph) (outDir : Path) : Using (Except PlanError Plan) :=
  planWaves outDir .empty g.waves

/-- The second half of a build. -/
def finish (g : ModuleGraph) (options : BuildOptions) (files : FileTree) :
    Using (Except BuildError ActionGraph) := do
  match ← plan g options.outDir with
  | .error e => return .error (.plan e)
  | .ok p =>
    let src ← get
    match src.pending with
    | [] => return assemble p src files options.moduleList
    | requests => return .error (.unsettledRequests requests)

def run (g : ModuleGraph) (options : BuildOptions) (files : FileTree) :
    Using (Except BuildError ActionGraph × FileTree) := do
  let src ← get
  if src.enabled then
    match ← plan g options.outDir with
    | .error e => return (.error (.plan e), files)
    | .ok _ =>
      match ← invoke files with
      | (.error e, left) => return (.error (.source (.invoke e)), left)
      | (.ok (), left) => return (← finish g options left, left)
  else return (← finish g options files, files)

variable {src last : FactSource}

theorem bind_eq {α β : Type} {x : Using α} {a : α} (h : x src = .ok (a, last))
    (next : α → Using β) : (x >>= next) src = next a last := by
  show (x src >>= fun step => next step.1 step.2) = next a last
  rw [h]
  rfl

theorem get_eq {β : Type} (next : FactSource → Using β) : (get >>= next) src = next src src := rfl

/-- A source that may be used can be asked everything. -/
theorem ask_consult {α : Type} (henabled : src.enabled) (r : Request) (read : Facts → α) :
    ask (·.consult r read) src = .ok (read src.facts, src.note [r]) := by
  cases src with
  | disabled => cases henabled
  | fixed f => rfl
  | session s => rfl

theorem bazelOutputs_eq (henabled : src.enabled) (m : ModuleDecl) (label : String) (arch : Arch) :
    bazelOutputs m label arch src =
      .ok (m.bazelOutputs src.facts label arch, src.note [m.outputsRequest label arch]) := by
  by_cases hnative : m.kind.isNativeCode
  · have hask := ask_consult henabled (Facts.ccInfoRequest label arch) (·.ccInfo label arch)
    rw [bazelOutputs, if_pos hnative, ModuleDecl.bazelOutputs, if_pos hnative,
      ModuleDecl.outputsRequest, if_pos hnative]
    refine (bind_eq hask _).trans ?_
    cases src.facts.ccInfo label arch with
    | error e => rfl
    | ok info => rfl
  · have hask := ask_consult henabled (Facts.outputFilesRequest label arch)
      (·.outputFiles label arch)
    rw [bazelOutputs, if_neg hnative, ModuleDecl.bazelOutputs, if_neg hnative,
      ModuleDecl.outputsRequest, if_neg hnative]
    exact bind_eq hask _

theorem planVariant_eq (m : ModuleDecl) (outDir : Path) (outputs : Outputs) (arch : Arch) :
    planVariant m outDir outputs arch src =
      .ok ((m.planVariant src.facts outDir outputs arch).2,
        src.note (m.planVariant src.facts outDir outputs arch).1) := by
  rw [planVariant, get_eq, ModuleDecl.planVariant]
  cases m.delegate? with
  | none =>
    simp only [FactSource.note_nil]
    rfl
  | some label =>
    cases henabled : src.facts.enabled with
    | false =>
      have hsrc : src.enabled = false := henabled
      simp only [hsrc, Bool.false_eq_true, if_false, FactSource.note_nil]
      rfl
    | true =>
      have hsrc : src.enabled = true := henabled
      simp only [hsrc, if_true, ModuleDecl.planDelegated]
      refine (bind_eq (bazelOutputs_eq hsrc m label arch) _).trans ?_
      rcases m.bazelOutputs src.facts label arch with e | ⟨_ | files⟩
      · rfl
      · rfl
      · rfl

theorem planVariants_eq (outDir : Path) (outputs : Outputs) (vs : List (ModuleDecl × Arch)) :
    planVariants outDir outputs vs src =
      .ok ((Pass.ofVariants src.facts outDir outputs vs).result,
        src.note (Pass.ofVariants src.facts outDir outputs vs).asked) := by
  induction vs generalizing src with
  | nil =>
    simp only [Pass.ofVariants, FactSource.note_nil]
    rfl
  | cons v vs ih =>
    obtain ⟨m, arch⟩ := v
    rw [planVariants, Pass.ofVariants]
    refine (bind_eq (planVariant_eq m outDir outputs arch) _).trans ?_
    rcases m.planVariant src.facts outDir outputs arch with ⟨asked, e | c⟩
    · rfl
    · refine (bind_eq ih _).trans ?_
      simp only [FactSource.facts_note, FactSource.note_note]
      rfl

theorem planWaves_eq (outDir : Path) (p : Plan) (waves : List (List ModuleDecl)) :
    planWaves outDir p waves src =
      .ok ((Pass.ofWaves src.facts outDir p waves).result,
        src.note (Pass.ofWaves src.facts outDir p waves).asked) := by
  induction waves generalizing src p with
  | nil =>
    simp only [Pass.ofWaves, FactSource.note_nil]
    rfl
  | cons wave rest ih =>
    rw [planWaves, Pass.ofWaves]
    refine (bind_eq (planVariants_eq outDir p.outputs (Pass.variantsOf wave)) _).trans ?_
    rcases Pass.ofVariants src.facts outDir p.outputs (Pass.variantsOf wave) with
      ⟨asked, e | contributions⟩
    · rfl
    · refine (ih _).trans ?_
      simp only [FactSource.facts_note, FactSource.note_note]

theorem plan_eq (g : ModuleGraph) (outDir : Path) :
    plan g outDir src = .ok (Build.plan g outDir src) :=
  planWaves_eq outDir .empty g.waves

theorem finish_eq (g : ModuleGraph) (options : BuildOptions) (files : FileTree) :
    finish g options files src = .ok (Build.finish g options src files) := by
  rcases hplan : Build.plan g options.outDir src with ⟨e | p, asked⟩
  · have hstrict := (plan_eq g options.outDir).trans (congrArg Except.ok hplan)
    simp only [Build.finish, hplan]
    exact bind_eq hstrict _
  · have hstrict := (plan_eq g options.outDir).trans (congrArg Except.ok hplan)
    simp only [Build.finish, hplan]
    refine (bind_eq hstrict _).trans ((get_eq _).trans ?_)
    cases asked.pending with
    | nil => rfl
    | cons r rs => rfl

/-- A source that may be used can be invoked. -/
theorem invoke_cases (henabled : src.enabled) (files : FileTree) :
    (∃ last left, src.invoke files = (.ok (), last, left) ∧
      invoke files src = .ok ((.ok (), left), last)) ∨
    ∃ e last left, src.invoke files = (.error (.invoke e), last, left) ∧
      invoke files src = .ok ((.error e, left), last) := by
  cases src with
  | disabled => cases henabled
  | fixed f => exact .inl ⟨.fixed f, files, rfl, rfl⟩
  | session s =>
    rcases hs : s.invoke files with ⟨e | ⟨⟩, t, left⟩
    · have hinvoke : (FactSource.session s).invoke files =
          (.error (.invoke e), .session t, left) := by simp only [FactSource.invoke, hs]
      refine .inr ⟨e, .session t, left, hinvoke, ?_⟩
      simp only [invoke, hinvoke]
    · have hinvoke : (FactSource.session s).invoke files = (.ok (), .session t, left) := by
        simp only [FactSource.invoke, hs]
      refine .inl ⟨.session t, left, hinvoke, ?_⟩
      simp only [invoke, hinvoke]

/-- No build comes to a misuse of its source: a strict build has the result of the build, and
leaves the same source and the same files. -/
theorem run_eq (g : ModuleGraph) (options : BuildOptions) (src : FactSource) (files : FileTree) :
    ∃ result last left, Build.run g options src files = (result, last, left) ∧
      run g options files src = .ok ((result, left), last) := by
  cases henabled : src.enabled with
  | false =>
    rcases hfinish : Build.finish g options src files with ⟨result, last⟩
    refine ⟨result, last, files, ?_, ?_⟩
    · simp only [Build.run, henabled, Bool.false_eq_true, if_false, hfinish]
    · have hstrict := (finish_eq g options files).trans (congrArg Except.ok hfinish)
      refine (get_eq _).trans ?_
      simp only [henabled, Bool.false_eq_true, if_false]
      exact bind_eq hstrict _
  | true =>
    rcases hplan : Build.plan g options.outDir src with ⟨result, asked⟩
    have hstrict := (plan_eq g options.outDir).trans (congrArg Except.ok hplan)
    have hasked : asked.enabled := (enabled_of_plan hplan).trans henabled
    cases result with
    | error e =>
      refine ⟨.error (.plan e), asked, files, ?_, ?_⟩
      · simp only [Build.run, henabled, if_true, hplan]
      · refine (get_eq _).trans ?_
        simp only [henabled, if_true]
        exact bind_eq hstrict _
    | ok p =>
      obtain ⟨settled, left, hinvoke, hinvoke'⟩ | ⟨e, settled, left, hinvoke, hinvoke'⟩ :=
        invoke_cases hasked files
      · rcases hfinish : Build.finish g options settled left with ⟨result, last⟩
        have hstrict' := (finish_eq g options left).trans (congrArg Except.ok hfinish)
        refine ⟨result, last, left, ?_, ?_⟩
        · simp only [Build.run, henabled, if_true, hplan, hinvoke, hfinish]
        · refine (get_eq _).trans ?_
          simp only [henabled, if_true]
          exact (bind_eq hstrict _).trans ((bind_eq hinvoke' _).trans (bind_eq hstrict' _))
      · refine ⟨.error (.source (.invoke e)), settled, left, ?_, ?_⟩
        · simp only [Build.run, henabled, if_true, hplan, hinvoke]
        · refine (get_eq _).trans ?_
          simp only [henabled, if_true]
          exact (bind_eq hstrict _).trans (bind_eq hinvoke' _)

end HybridBuild.Strict
