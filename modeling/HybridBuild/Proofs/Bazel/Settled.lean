import HybridBuild.Proofs.Bazel.Files
import HybridBuild.Proofs.Bazel.Uses
import HybridBuild.Proofs.Query.Settling

/-!
# What a settled session knows

After an invocation with success nothing waits, and the requests made before it have
the answers that the query gave last. Those answers never change, and no request made
later ever gets one.
-/
namespace HybridBuild.Session

/-- An invocation with success is the first of its session, and settles it. -/
theorem invoked_of_ok {s t : Session} {files left : FileTree}
    (hok : s.invoke files = (.ok (), t, left)) :
    s.phase = .collecting ∧ t.phase = .settled ∧
      ∃ u, { s with phase := .invoking }.Invoked files (.ok (), u, left) ∧ t.ledger = u.ledger := by
  by_cases hphase : s.phase = .collecting
  · obtain ⟨result, u, left', hend, heq⟩ := invoke_of_collecting hphase files
    rw [hok] at heq
    simp only [Prod.mk.injEq] at heq
    obtain ⟨rfl, rfl, rfl⟩ := heq
    exact ⟨hphase, rfl, u, hend, rfl⟩
  · rw [invoke_of_ne hphase] at hok
    simp at hok

/-- After an invocation with success nothing waits, and what waited has an answer. -/
theorem isSome_of_invoke {s t : Session} {files left : FileTree}
    (hok : s.invoke files = (.ok (), t, left)) :
    t.ledger.pending = [] ∧ ∀ r ∈ s.ledger.pending, (t.ledger.answer? r).isSome := by
  obtain ⟨-, -, u, hend, hledger⟩ := invoked_of_ok hok
  obtain ⟨hpending, hanswers⟩ := hend.settled
  rw [hledger]
  refine ⟨hpending, fun r hr => ?_⟩
  have h := hanswers r
  rw [if_pos hr] at h
  obtain ⟨_, _, _, _, detail, -, -, -, hdetail⟩ := h
  rw [hdetail]
  rfl

/-- Asking a session for a fact after an invocation reads the answer that it left. -/
theorem perform_fact_after {t : Session} (hphase : t.phase ≠ .collecting) (later : List Call)
    (files : FileTree) (r : Request) :
    ((t.after later).perform files (.fact r)).1 = .fact (t.ledger.answer? r) := by
  rw [after_of_onlyAsks fun _ _ => .inl hphase]
  exact congrArg Reply.fact (Ledger.answer?_askAll (requests later))

section Fresh

variable {paths : BazelPaths} {registry : QueryRegistry} {runner : Runner}

theorem mem_pending_askAll_fresh {rs : List Request} {r : Request} :
    r ∈ ((fresh paths registry runner).askAll rs).ledger.pending ↔ r ∈ rs := by
  show r ∈ ((∅ : Ledger).askAll rs).pending ↔ r ∈ rs
  simp [Ledger.mem_pending_askAll]

theorem answer?_askAll_fresh (rs : List Request) (r : Request) :
    ((fresh paths registry runner).askAll rs).ledger.answer? r = none :=
  Ledger.answer?_askAll rs

/-- The answers that an invocation with success leaves: those to the requests before it. -/
theorem answer?_of_invoke {before : List Call} {files left : FileTree} {t : Session}
    (hok : ((fresh paths registry runner).after before).invoke files = (.ok (), t, left))
    (r : Request) :
    if r ∈ requests before then
      ∃ scripts written output after detail,
        ((fresh paths registry runner).after before).writeScripts files = (.ok scripts, written) ∧
        runner.answer written [] paths (cquery paths) = (.ok output, after) ∧
        lastDetail? output.stdout r.answerKey = some detail ∧
        t.ledger.answer? r = some detail
    else t.ledger.answer? r = none := by
  obtain ⟨hphase, -, u, hend, hledger⟩ := invoked_of_ok hok
  rw [after_of_collecting hphase] at hend ⊢
  have hwaited : r ∈ ((fresh paths registry runner).askAll (requests before)).ledger.pending ↔
      r ∈ requests before := mem_pending_askAll_fresh
  have hanswer := hend.settled.2 r
  rw [hledger]
  by_cases hr : r ∈ requests before
  · rw [if_pos (hwaited.mpr hr)] at hanswer
    rw [if_pos hr]
    exact hanswer
  · rw [if_neg fun hmem => hr (hwaited.mp hmem)] at hanswer
    rw [if_neg hr, hanswer]
    exact answer?_askAll_fresh (requests before) r

/-- In every run, an invocation with success leaves nothing waiting. From then on each
request made before it has the detail that the query's output gave it last, each other
request has no answer, and exactly the other requests wait once they are made. -/
theorem answers_after_invoke {before : List Call} {files left : FileTree} {t : Session}
    (hok : ((fresh paths registry runner).after before).invoke files = (.ok (), t, left)) :
    t.ledger.pending = [] ∧
    (∀ r ∈ requests before, ∃ scripts written output after detail,
      ((fresh paths registry runner).after before).writeScripts files = (.ok scripts, written) ∧
      runner.answer written [] paths (cquery paths) = (.ok output, after) ∧
      lastDetail? output.stdout r.answerKey = some detail ∧
      ∀ later files', ((t.after later).perform files' (.fact r)).1 = .fact (some detail)) ∧
    (∀ r ∉ requests before, ∀ later files',
      ((t.after later).perform files' (.fact r)).1 = .fact none) ∧
    ∀ later r, r ∈ (t.after later).ledger.pending ↔ r ∈ requests later ∧ r ∉ requests before := by
  have hne : t.phase ≠ .collecting := by simp [(invoked_of_ok hok).2.1]
  have hnothing := (isSome_of_invoke hok).1
  have hanswer := answer?_of_invoke hok
  refine ⟨hnothing, fun r hr => ?_, fun r hr later files' => ?_, fun later r => ?_⟩
  · have h := hanswer r
    rw [if_pos hr] at h
    obtain ⟨scripts, written, output, after, detail, hwrite, hquery, hlast, hdetail⟩ := h
    refine ⟨scripts, written, output, after, detail, hwrite, hquery, hlast, fun later files' => ?_⟩
    rw [perform_fact_after hne, hdetail]
  · have h := hanswer r
    rw [if_neg hr] at h
    rw [perform_fact_after hne, h]
  · rw [after_of_onlyAsks fun _ _ => .inl hne]
    show r ∈ (t.ledger.askAll (requests later)).pending ↔ _
    have h := hanswer r
    rw [Ledger.mem_pending_askAll, hnothing]
    by_cases hr : r ∈ requests before
    · rw [if_pos hr] at h
      obtain ⟨_, _, _, _, detail, -, -, -, hdetail⟩ := h
      simp [hr, hdetail]
    · rw [if_neg hr] at h
      simp [hr, h]

end Fresh

/-- One target is asked for before the only invocation. -/
def oneTarget : List Call := [⟨.fact ⟨"//a:b", "getOutputFiles", .common⟩, .onlyWorkDir []⟩]

/-- The session of that run, and a Bazel that knows the target. -/
def oneTargetSession : Session :=
  let paths : BazelPaths := ⟨⟨"/home"⟩, ⟨"/bazel"⟩, ⟨"/base"⟩, ⟨"/work"⟩, ⟨"out"⟩, ⟨"/metrics"⟩⟩
  let output : CommandOutput := ⟨"@sourceroot//a:b|x86_64>>getOutputFiles>>x, y\n", ""⟩
  fresh paths .builtin (.prepared [((cquery paths).command, output)] [])

def targetAnswer : CommandOutput := ⟨"@sourceroot//a:b|x86_64>>getOutputFiles>>x, y\n", ""⟩

/-- The empty tree, once the directory of the scripts has been made in it. -/
def madeTree : FileTree := ((FileTree.onlyWorkDir []).makeDirs ⟨"/work/out/bazel"⟩).1

theorem makeDirs_emptyTree :
    (FileTree.onlyWorkDir []).makeDirs ⟨"/work/out/bazel"⟩ = (madeTree, true) := by
  have hmade : ((FileTree.onlyWorkDir []).makeDirs ⟨"/work/out/bazel"⟩).2 = true := by
    decide +kernel
  unfold madeTree
  rcases hmake : (FileTree.onlyWorkDir []).makeDirs ⟨"/work/out/bazel"⟩ with ⟨made, success⟩
  rw [hmake] at hmade
  obtain rfl : success = true := hmade
  rfl

theorem takes_madeTree : ∀ name ∈ writtenNames, madeTree.Takes ⟨"/work/out/bazel"⟩ name := by
  have hplain : madeTree.find? ⟨"/work/out/bazel"⟩ = some ["work", "out", "bazel"] ∧
      madeTree.at? ["work", "out", "bazel"] = some .dir ∧ ∀ name ∈ writtenNames,
        FileTree.Lookable ((Path.mk "/work/out/bazel").join name) ∧
          name.utf8ByteSize ≤ FileTree.maxNameSize ∧
          madeTree.at? ["work", "out", "bazel", name] = none := by decide +kernel
  obtain ⟨hfind, hdir, hnames⟩ := hplain
  intro name hname
  obtain ⟨hlookable, hshort, hnone⟩ := hnames name hname
  refine ⟨hlookable, _, hfind, ⟨hdir, hshort⟩, fun e he => ?_⟩
  cases hnone.symm.trans he

/-- Into an empty tree the scripts that ask for this target are written, and then whatever the
query answers. -/
theorem exists_writeScripts_emptyTree {s : Session} (hdir : s.filesDir = ⟨"/work/out/bazel"⟩)
    (hregistry : s.registry = .builtin)
    (hpending : ∀ r ∈ s.ledger.pending, r = ⟨"//a:b", "getOutputFiles", .common⟩) :
    ∃ written, s.writeScripts (.onlyWorkDir []) = (.ok (ScriptSet.paths s.filesDir), written) ∧
      ∀ text, ∃ kept, written.writeText? s.cqueryOutput text = some kept := by
  have hlinks := FileTree.hasNoLinks_onlyWorkDir []
  have hchecked : ∀ r ∈ s.ledger.pending,
      Scripts.isAmbiguous r.label = false ∧ (s.registry.get? r.kind).isSome := by
    intro r hr
    rw [hpending r hr, hregistry]
    decide +kernel
  have hmade := makeDirs_emptyTree
  have htakes := takes_madeTree
  rw [← hdir] at hmade htakes
  obtain ⟨written, hwrite, hkeeps⟩ := exists_writeScripts hlinks hmade
    (fun name hname => htakes name (List.mem_append_left _ hname)) hchecked
  refine ⟨written, hwrite, fun text => ?_⟩
  have hwrites := onlyWrites_writeScripts (s := s) hlinks
  rw [hwrite] at hwrites
  have htake := hkeeps outputName (htakes outputName (by decide))
  exact (FileTree.exists_write?_join_iff (hwrites.hasNoLinks hlinks) s.endsInName_filesDir
    (by decide +kernel) (Utf8.encode text)).mpr htake

/-- The answer resolves what waits, as long as that is the target alone. -/
theorem exists_answered_targetAnswer {s : Session} {written kept : FileTree}
    (hpending : ∀ r ∈ s.ledger.pending, r = ⟨"//a:b", "getOutputFiles", .common⟩)
    (hquery : s.runner.answer written s.issued s.paths (cquery s.paths) = (.ok targetAnswer, written))
    (hkeep : written.writeText? s.cqueryOutput targetAnswer.stdout = some kept) :
    ∃ ledger, s.Answered written targetAnswer ledger kept := by
  have hanswered : ∀ r ∈ s.ledger.pending, IsAnswered targetAnswer.stdout r.answerKey := by
    intro r hr
    rw [hpending r hr]
    decide +kernel
  obtain ⟨count, ledger, hsettle⟩ := Ledger.exists_settle_iff.mpr hanswered
  exact ⟨ledger, ⟨written, hquery, hkeep⟩, count, hsettle⟩

theorem exists_invoke_oneTargetSession (requests : List Request)
    (hone : ∀ r ∈ requests, r = ⟨"//a:b", "getOutputFiles", .common⟩) :
    ∃ t left, (oneTargetSession.askAll requests).invoke (.onlyWorkDir []) = (.ok (), t, left) := by
  let s : Session := { oneTargetSession.askAll requests with phase := .invoking }
  have hdir : oneTargetSession.filesDir = ⟨"/work/out/bazel"⟩ := by decide
  have hpending : ∀ r ∈ s.ledger.pending, r = ⟨"//a:b", "getOutputFiles", .common⟩ :=
    fun r hr => hone r (mem_pending_askAll_fresh.mp hr)
  obtain ⟨written, hwrite, hkeep⟩ := exists_writeScripts_emptyTree (s := s) hdir rfl hpending
  by_cases hnothing : s.ledger.pending = []
  · exact ⟨_, _, invoke_of_invoked rfl (.idle hwrite hnothing)⟩
  · obtain ⟨kept, hkept⟩ := hkeep targetAnswer.stdout
    obtain ⟨ledger, hanswered⟩ := exists_answered_targetAnswer (s := s) hpending rfl hkept
    exact ⟨_, _, invoke_of_invoked rfl (.asked hwrite hnothing (.done hanswered rfl rfl rfl))⟩

/-- The target of that run is answered for good. -/
theorem answers_after_invoke_oneTarget :
    ∃ t left, (oneTargetSession.after oneTarget).invoke (.onlyWorkDir []) = (.ok (), t, left) ∧
      t.ledger.pending = [] ∧
      ∃ detail, ∀ later files', ((t.after later).perform files'
        (.fact ⟨"//a:b", "getOutputFiles", .common⟩)).1 = .fact (some detail) := by
  obtain ⟨t, left, hrun⟩ : ∃ t left,
      (oneTargetSession.after oneTarget).invoke (.onlyWorkDir []) = (.ok (), t, left) :=
    exists_invoke_oneTargetSession (requests oneTarget) fun r hr => List.mem_singleton.mp hr
  obtain ⟨hpending, hanswers, -⟩ := answers_after_invoke hrun
  obtain ⟨-, -, -, -, detail, -, -, -, hdetail⟩ := hanswers _ List.mem_cons_self
  exact ⟨t, left, hrun, hpending, detail, hdetail⟩

end HybridBuild.Session
