import HybridBuild.Bazel.Session
import HybridBuild.Proofs.Request.Ledger

/-!
# All that an invocation can do

An invocation ends in one of nine ways. Each is described once, with what was run,
what it answered and what is left, and every property of invocations is read off these
descriptions.
-/
namespace HybridBuild.Session

/-- The session after the query has been run. -/
def queried (s : Session) : Session :=
  { s with issued := s.issued ++ [cquery s.paths] }

@[simp] theorem ledger_queried (s : Session) : s.queried.ledger = s.ledger := rfl

@[simp] theorem cqueryOutput_queried (s : Session) : s.queried.cqueryOutput = s.cqueryOutput := rfl

/-- The session after the query has been answered and the report has been run. -/
def reported (s : Session) (ledger : Ledger) : Session :=
  { s with ledger, issued := s.issued ++ [cquery s.paths, aquery] }

/-- The session after the report has been read and the last run has been made. -/
def built (s : Session) (ledger : Ledger) (statements : List Statement) : Session :=
  { s with ledger, statements, issued := s.issued ++ [cquery s.paths, aquery, phonyBuild] }

/-- The query's output was kept, and it answers every waiting request. -/
structure Answered (s : Session) (files : FileTree) (output : CommandOutput) (ledger : Ledger)
    (kept : FileTree) : Prop where
  queried : ∃ left, s.runner.answer files s.issued s.paths (cquery s.paths) = (.ok output, left) ∧
    left.writeText? s.cqueryOutput output.stdout = some kept
  settled : ∃ count, s.ledger.settle output = .ok (count, ledger)

/-- What the report's run answers, after the query. -/
def report (s : Session) (files : FileTree) : Except RunnerError CommandOutput × FileTree :=
  s.runner.answer files (s.issued ++ [cquery s.paths]) s.paths aquery

/-- What the last run answers, after the query and the report. -/
def layout (s : Session) (files : FileTree) : Except RunnerError CommandOutput × FileTree :=
  s.runner.answer files (s.issued ++ [cquery s.paths, aquery]) s.paths phonyBuild

/-- How asking Bazel ends: with which result, session and files. -/
inductive Asked (s : Session) (files : FileTree) :
    Except InvokeError Unit × Session × FileTree → Prop
  | queryFailed {e : RunnerError} {left : FileTree}
      (query : s.runner.answer files s.issued s.paths (cquery s.paths) = (.error e, left)) :
      Asked s files (.error (.runner e), s.queried, left)
  | outputLost {output : CommandOutput} {left : FileTree}
      (query : s.runner.answer files s.issued s.paths (cquery s.paths) = (.ok output, left))
      (lost : left.writeText? s.cqueryOutput output.stdout = none) :
      Asked s files (.error (.writeFile s.cqueryOutput), s.queried, left)
  | unanswered {output : CommandOutput} {left kept : FileTree} {u : Unanswered}
      (query : s.runner.answer files s.issued s.paths (cquery s.paths) = (.ok output, left))
      (keep : left.writeText? s.cqueryOutput output.stdout = some kept)
      (missing : s.ledger.settle output = .error u) :
      Asked s files (.error (.unanswered u), s.queried, kept)
  | reportFailed {output : CommandOutput} {ledger : Ledger} {kept left : FileTree}
      {e : RunnerError} (answered : s.Answered files output ledger kept)
      (report : s.report kept = (.error e, left)) :
      Asked s files (.error (.runner e), s.reported ledger, left)
  | reportUnread {output report : CommandOutput} {ledger : Ledger} {kept left : FileTree}
      {e : ActionError} (answered : s.Answered files output ledger kept)
      (reported : s.report kept = (.ok report, left))
      (unread : Statement.listOfDocument (Utf8.encode report.stdout) = .error e) :
      Asked s files (.error (.actions e), s.reported ledger, left)
  | layoutFailed {output report : CommandOutput} {ledger : Ledger} {kept left last : FileTree}
      {statements : List Statement} {e : RunnerError}
      (answered : s.Answered files output ledger kept)
      (reported : s.report kept = (.ok report, left))
      (read : Statement.listOfDocument (Utf8.encode report.stdout) = .ok statements)
      (layout : s.layout left = (.error e, last)) :
      Asked s files (.error (.runner e), s.built ledger statements, last)
  | done {output report layout : CommandOutput} {ledger : Ledger} {kept left last : FileTree}
      {statements : List Statement} (answered : s.Answered files output ledger kept)
      (reported : s.report kept = (.ok report, left))
      (read : Statement.listOfDocument (Utf8.encode report.stdout) = .ok statements)
      (laidOut : s.layout left = (.ok layout, last)) :
      Asked s files (.ok (), s.built ledger.clearPending statements, last)

/-- How an invocation ends: the scripts cannot be written, nothing waits, or Bazel is
asked. -/
inductive Invoked (s : Session) (files : FileTree) :
    Except InvokeError Unit × Session × FileTree → Prop
  | unwritten {e : ScriptError} {left : FileTree}
      (write : s.writeScripts files = (.error e, left)) :
      Invoked s files (.error (.scripts e), s, left)
  | idle {paths : List Path} {left : FileTree} (write : s.writeScripts files = (.ok paths, left))
      (nothing : s.ledger.pending = []) :
      Invoked s files (.ok (), s, left)
  | asked {paths : List Path} {left : FileTree} {ending : Except InvokeError Unit × Session × FileTree}
      (write : s.writeScripts files = (.ok paths, left)) (something : s.ledger.pending ≠ [])
      (asked : s.Asked left ending) :
      Invoked s files ending

section Issue

variable {s : Session} {files kept left last : FileTree} {ledger : Ledger}
  {statements : List Statement} {output : CommandOutput}
  {result : Except RunnerError CommandOutput}

theorem issue_eq {i : Invocation} (h : s.runner.answer files s.issued s.paths i = (result, left)) :
    s.issue files i = (result, { s with issued := s.issued ++ [i] }, left) := by
  rw [issue, h]

theorem issue_cquery
    (h : s.runner.answer files s.issued s.paths (cquery s.paths) = (result, left)) :
    s.issue files (cquery s.paths) = (result, s.queried, left) := issue_eq h

theorem issue_aquery (h : s.report kept = (result, left)) :
    { s.queried with ledger }.issue kept aquery = (result, s.reported ledger, left) := by
  rw [issue_eq h]
  simp [queried, reported]

theorem issue_phonyBuild (h : s.layout left = (result, last)) :
    { s.reported ledger with statements }.issue left phonyBuild =
      (result, s.built ledger statements, last) := by
  rw [issue_eq h]
  simp [reported, built]

theorem Answered.askBazel_eq (h : s.Answered files output ledger kept) :
    s.askBazel files = { s.queried with ledger }.takeActions kept := by
  obtain ⟨⟨left, hquery, hkeep⟩, count, hsettle⟩ := h
  simp only [askBazel, issue_cquery hquery, cqueryOutput_queried, hkeep, ledger_queried, hsettle]

/-- Once the waiting requests are answered, asking goes on with the report. -/
theorem asked_takeActions (answered : s.Answered files output ledger kept) :
    s.Asked files ({ s.queried with ledger }.takeActions kept) := by
  unfold takeActions
  rcases hr : s.report kept with ⟨e | report, left⟩
  · rw [issue_aquery hr]
    exact .reportFailed answered hr
  · rw [issue_aquery hr]
    dsimp only
    cases hu : Statement.listOfDocument (Utf8.encode report.stdout) with
    | error e => exact .reportUnread answered hr hu
    | ok statements =>
      rcases hl : s.layout left with ⟨e | layout, last⟩
      · dsimp only
        rw [issue_phonyBuild hl]
        exact .layoutFailed answered hr hu hl
      · dsimp only
        rw [issue_phonyBuild hl]
        exact .done answered hr hu hl

end Issue

theorem asked_askBazel (s : Session) (files : FileTree) : s.Asked files (s.askBazel files) := by
  rcases hq : s.runner.answer files s.issued s.paths (cquery s.paths) with ⟨result, left⟩
  unfold askBazel
  rw [issue_cquery hq]
  cases result with
  | error e => exact .queryFailed hq
  | ok output =>
    simp only [ledger_queried, cqueryOutput_queried]
    cases hk : left.writeText? s.cqueryOutput output.stdout with
    | none => exact .outputLost hq hk
    | some kept =>
      cases hs : s.ledger.settle output with
      | error u => exact .unanswered hq hk hs
      | ok settled =>
        obtain ⟨count, ledger⟩ := settled
        exact asked_takeActions ⟨⟨left, hq, hk⟩, ⟨count, hs⟩⟩

/-- An invocation ends in one of the nine ways. -/
theorem invoked_pipeline (s : Session) (files : FileTree) :
    s.Invoked files (s.pipeline files) := by
  unfold pipeline
  rcases hw : s.writeScripts files with ⟨e | paths, left⟩
  · exact .unwritten hw
  · dsimp only
    split
    next h => exact .idle hw (List.isEmpty_iff.mp h)
    next h => exact .asked hw (by simpa using h) (asked_askBazel s left)

/-- The description of an ending leaves no choice. -/
theorem Asked.eq_askBazel {s : Session} {files : FileTree}
    {ending : Except InvokeError Unit × Session × FileTree} (h : s.Asked files ending) :
    s.askBazel files = ending := by
  cases h with
  | queryFailed query => simp only [askBazel, issue_cquery query]
  | outputLost query lost => simp only [askBazel, issue_cquery query, cqueryOutput_queried, lost]
  | unanswered query keep missing =>
    simp only [askBazel, issue_cquery query, cqueryOutput_queried, keep, ledger_queried, missing]
  | reportFailed answered report => rw [answered.askBazel_eq, takeActions, issue_aquery report]
  | reportUnread answered reported unread =>
    simp only [answered.askBazel_eq, takeActions, issue_aquery reported, unread]
  | layoutFailed answered reported read layout =>
    simp only [answered.askBazel_eq, takeActions, issue_aquery reported, read,
      issue_phonyBuild layout]
  | done answered reported read laidOut =>
    simp only [answered.askBazel_eq, takeActions, issue_aquery reported, read,
      issue_phonyBuild laidOut]
    rfl

theorem Invoked.eq_pipeline {s : Session} {files : FileTree}
    {ending : Except InvokeError Unit × Session × FileTree} (h : s.Invoked files ending) :
    s.pipeline files = ending := by
  cases h with
  | unwritten write => rw [pipeline, write]
  | idle write nothing => simp only [pipeline, write, nothing, List.isEmpty_nil, if_true]
  | asked write something asked =>
    have hempty : s.ledger.pending.isEmpty = false := List.isEmpty_eq_false_iff.mpr something
    simp only [pipeline, write, hempty, Bool.false_eq_true, if_false, asked.eq_askBazel]

def runs (paths : BazelPaths) : List Invocation := [cquery paths, aquery, phonyBuild]

theorem nodup_runs (paths : BazelPaths) : (runs paths).Nodup := by
  have hrun : ((runs paths).map Invocation.run).Nodup := by
    change [RunName.cqueryBuildroot, .aqueryBuildroot, .buildPhonyRoot].Nodup
    decide
  exact List.Pairwise.of_map Invocation.run (fun _ _ hne h => hne (congrArg Invocation.run h)) hrun

section Ending

variable {s : Session} {files : FileTree} {ending : Except InvokeError Unit × Session × FileTree}

/-- The runs that are made come first among those of an invocation. -/
theorem Asked.issued (h : s.Asked files ending) :
    ∃ k, ending.2.1.issued = s.issued ++ (runs s.paths).take k := by
  cases h with
  | queryFailed => exact ⟨1, rfl⟩
  | outputLost => exact ⟨1, rfl⟩
  | unanswered => exact ⟨1, rfl⟩
  | reportFailed => exact ⟨2, rfl⟩
  | reportUnread => exact ⟨2, rfl⟩
  | layoutFailed => exact ⟨3, rfl⟩
  | done => exact ⟨3, rfl⟩

/-- Asking Bazel changes neither what the session was set up with nor its phase. -/
theorem Asked.frame (h : s.Asked files ending) :
    ending.2.1.paths = s.paths ∧ ending.2.1.registry = s.registry ∧
      ending.2.1.runner = s.runner ∧ ending.2.1.phase = s.phase := by
  cases h <;> exact ⟨rfl, rfl, rfl, rfl⟩

/-- When Bazel has been asked with success nothing waits, the requests that waited have
the last details of the query's output, and no other answer has changed. -/
theorem Asked.settled {s' : Session} {left : FileTree}
    (h : s.Asked files (.ok (), s', left)) :
    s'.ledger.pending = [] ∧ ∃ output after,
      s.runner.answer files s.issued s.paths (cquery s.paths) = (.ok output, after) ∧
      ∀ r, if r ∈ s.ledger.pending then
          ∃ detail, lastDetail? output.stdout r.answerKey = some detail ∧
            s'.ledger.answer? r = some detail
        else s'.ledger.answer? r = s.ledger.answer? r := by
  cases h with
  | done answered _ _ _ =>
    obtain ⟨⟨after, hquery, -⟩, ⟨count, hsettle⟩⟩ := answered
    refine ⟨rfl, _, after, hquery, fun r => ?_⟩
    simp only [built, Ledger.answer?_clearPending]
    split
    next hr => exact Ledger.answer?_of_settle hsettle hr
    next hr => exact Ledger.answer?_of_settle_of_notMem hsettle hr

/-- The runs of an invocation; there are none when nothing waits. -/
theorem Invoked.issued (h : s.Invoked files ending) :
    ∃ k, ending.2.1.issued = s.issued ++ (runs s.paths).take k ∧
      (s.ledger.pending = [] → k = 0) := by
  cases h with
  | unwritten => exact ⟨0, (List.append_nil _).symm, fun _ => rfl⟩
  | idle => exact ⟨0, (List.append_nil _).symm, fun _ => rfl⟩
  | asked _ something asked =>
    obtain ⟨k, hk⟩ := asked.issued
    exact ⟨k, hk, fun nothing => absurd nothing something⟩

theorem Invoked.frame (h : s.Invoked files ending) :
    ending.2.1.paths = s.paths ∧ ending.2.1.registry = s.registry ∧
      ending.2.1.runner = s.runner ∧ ending.2.1.phase = s.phase := by
  cases h with
  | unwritten => exact ⟨rfl, rfl, rfl, rfl⟩
  | idle => exact ⟨rfl, rfl, rfl, rfl⟩
  | asked _ _ asked => exact asked.frame

/-- After an invocation with success nothing waits. The requests that waited have the
last details of the output that the query gave when the scripts were written, and no
other answer has changed. -/
theorem Invoked.settled {s' : Session} {left : FileTree}
    (h : s.Invoked files (.ok (), s', left)) :
    s'.ledger.pending = [] ∧
      ∀ r, if r ∈ s.ledger.pending then
          ∃ paths written output after detail,
            s.writeScripts files = (.ok paths, written) ∧
            s.runner.answer written s.issued s.paths (cquery s.paths) = (.ok output, after) ∧
            lastDetail? output.stdout r.answerKey = some detail ∧
            s'.ledger.answer? r = some detail
        else s'.ledger.answer? r = s.ledger.answer? r := by
  cases h with
  | idle write nothing =>
    exact ⟨nothing, fun r => by simp [nothing]⟩
  | @asked paths written _ write _ asked =>
    obtain ⟨hpending, output, after, hquery, hanswers⟩ := asked.settled
    refine ⟨hpending, fun r => ?_⟩
    have hr := hanswers r
    split at hr
    next hmem =>
      obtain ⟨detail, hdetail, hanswer⟩ := hr
      rw [if_pos hmem]
      exact ⟨paths, written, output, after, detail, write, hquery, hdetail, hanswer⟩
    next hmem => rwa [if_neg hmem]

end Ending

/-- The phase in which an invocation leaves a session. -/
def phaseAfter : Except InvokeError Unit → Phase
  | .ok () => .settled
  | .error _ => .failed

theorem phaseAfter_ne (result : Except InvokeError Unit) : phaseAfter result ≠ .collecting := by
  cases result <;> simp [phaseAfter]

/-- A session that has been invoked refuses, and nothing changes. -/
theorem invoke_of_ne {s : Session} (h : s.phase ≠ .collecting) (files : FileTree) :
    s.invoke files = (.error (.alreadyInvoked s.phase), s, files) := by
  rw [invoke, if_pos h]

/-- The ending of a pipeline is that of the invocation, up to the phase. -/
theorem invoke_of_invoked {s t : Session} {files left : FileTree} {result : Except InvokeError Unit}
    (h : s.phase = .collecting)
    (hend : { s with phase := .invoking }.Invoked files (result, t, left)) :
    s.invoke files = (result, { t with phase := phaseAfter result }, left) := by
  rw [invoke, if_neg (by simp [h]), hend.eq_pipeline]
  cases result <;> rfl

/-- A session that collects runs the pipeline, and ends settled or failed. -/
theorem invoke_of_collecting {s : Session} (h : s.phase = .collecting) (files : FileTree) :
    ∃ result t left, { s with phase := .invoking }.Invoked files (result, t, left) ∧
      s.invoke files = (result, { t with phase := phaseAfter result }, left) :=
  have hend := invoked_pipeline { s with phase := .invoking } files
  ⟨_, _, _, hend, invoke_of_invoked h hend⟩

end HybridBuild.Session
