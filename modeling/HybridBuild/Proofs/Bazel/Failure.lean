import HybridBuild.Proofs.Bazel.Settled
import HybridBuild.Proofs.Query.Settling
import HybridBuild.Proofs.Traverse

/-!
# What a failed invocation leaves

An invocation can fail at eight places, and what it did in front of that place stays done. The
requests go on waiting in any case. Their answers are recorded together, right before the report
is run, so a failure leaves none of them or all of them. Statements are there only when the whole
report could be read.
-/
namespace HybridBuild

/-- A fault of the requests themselves: a label or a kind that no script can be made for. -/
inductive ScriptError.IsRefusal : ScriptError → Prop
  | labels (labels : List String) : IsRefusal (.invalidLabels labels)
  | kind (kind : String) : IsRefusal (.unknownKind kind)

/-- A fault that can come before the waiting requests are resolved, or in resolving them. -/
inductive InvokeError.IsEarly : InvokeError → Prop
  | scripts (e : ScriptError) : IsEarly (.scripts e)
  | query (e : RunnerError) : IsEarly (.runner e)
  | output (path : Path) : IsEarly (.writeFile path)
  | unanswered (u : Unanswered) : IsEarly (.unanswered u)

/-- A fault that can come after the waiting requests are resolved. -/
inductive InvokeError.IsLate : InvokeError → Prop
  | runner (e : RunnerError) : IsLate (.runner e)
  | report (e : ActionError) : IsLate (.actions e)

namespace ScriptSet

variable {scripts : ScriptSet} {dir : Path} {files : FileTree} {e : ScriptError}

theorem not_isRefusal_of_writeFiles {written : List (String × String)}
    (h : (writeFiles dir files written).1 = .error e) : ¬ e.IsRefusal := by
  induction written generalizing files with
  | nil => cases h
  | cons file rest ih =>
    unfold writeFiles at h
    split at h
    · cases h
      nofun
    · exact ih h

/-- Scripts that are made fail to be written only for the sake of a file or its directory. -/
theorem not_isRefusal_of_write (h : (scripts.write dir files).1 = .error e) : ¬ e.IsRefusal := by
  unfold write at h
  split at h
  · cases h
    nofun
  next made _ =>
    have hwritten := except_map_eq_error_iff.mp h
    exact not_isRefusal_of_writeFiles hwritten

end ScriptSet

namespace Session

variable {s t : Session} {files left kept : FileTree} {e : InvokeError} {output : CommandOutput}
  {statements : List Statement}

/-- The waiting requests can be resolved: the scripts are written, something waits, and the query
gives an output that can be kept, in `kept`, and that answers every waiting request. -/
def Resolves (s : Session) (files : FileTree) (output : CommandOutput) (kept : FileTree) : Prop :=
  ∃ scripts written found, s.writeScripts files = (.ok scripts, written) ∧ s.ledger.pending ≠ [] ∧
    s.runner.answer written s.issued s.paths (cquery s.paths) = (.ok output, found) ∧
    found.writeText? s.cqueryOutput output.stdout = some kept ∧
    ∀ r ∈ s.ledger.pending, IsAnswered output.stdout r.answerKey

/-- The waiting requests can be resolved, and the report of actions that is run then is read
completely. -/
def Reads (s : Session) (files : FileTree) (statements : List Statement) : Prop :=
  ∃ output kept report found, s.Resolves files output kept ∧ s.report kept = (.ok report, found) ∧
    Statement.listOfDocument (Utf8.encode report.stdout) = .ok statements

theorem resolves_iff : s.Resolves files output kept ↔
    ∃ scripts written ledger, s.writeScripts files = (.ok scripts, written) ∧
      s.ledger.pending ≠ [] ∧ s.Answered written output ledger kept := by
  constructor
  · rintro ⟨scripts, written, found, hwrite, hwaits, hquery, hkeep, hanswered⟩
    obtain ⟨count, ledger, hsettle⟩ := Ledger.exists_settle_iff.mpr hanswered
    exact ⟨scripts, written, ledger, hwrite, hwaits, ⟨found, hquery, hkeep⟩, count, hsettle⟩
  · rintro ⟨scripts, written, ledger, hwrite, hwaits, ⟨found, hquery, hkeep⟩, count, hsettle⟩
    exact ⟨scripts, written, found, hwrite, hwaits, hquery, hkeep,
      Ledger.exists_settle_iff.mp ⟨count, ledger, hsettle⟩⟩

/-- One output at most resolves the waiting requests, and it is kept in one tree. -/
theorem Resolves.unique {output' : CommandOutput} {kept' : FileTree}
    (h : s.Resolves files output kept) (h' : s.Resolves files output' kept') :
    output' = output ∧ kept' = kept := by
  obtain ⟨_, written, found, hwrite, -, hquery, hkeep, -⟩ := h
  obtain ⟨_, written', found', hwrite', -, hquery', hkeep', -⟩ := h'
  obtain rfl : written' = written := (Prod.mk.inj (hwrite'.symm.trans hwrite)).2
  obtain ⟨houtput, rfl⟩ := Prod.mk.inj (hquery'.symm.trans hquery)
  obtain rfl := Except.ok.inj houtput
  exact ⟨rfl, Option.some.inj (hkeep'.symm.trans hkeep)⟩

theorem Reads.unique {statements' : List Statement} (h : s.Reads files statements)
    (h' : s.Reads files statements') : statements' = statements := by
  obtain ⟨_, _, report, _, hresolves, hreport, hread⟩ := h
  obtain ⟨_, _, report', _, hresolves', hreport', hread'⟩ := h'
  obtain ⟨-, rfl⟩ := hresolves.unique hresolves'
  obtain rfl := Except.ok.inj (Prod.mk.inj (hreport'.symm.trans hreport)).1
  exact Except.ok.inj (hread'.symm.trans hread)

/-- A failure in front of the report: nothing is recorded. -/
structure FailsUnresolved (s : Session) (files : FileTree) (e : InvokeError) (t : Session) :
    Prop where
  isEarly : e.IsEarly
  unresolved : ∀ output kept, ¬ s.Resolves files output kept
  ledger : t.ledger = s.ledger
  statements : t.statements = s.statements
  issued : ∃ k, k ≤ 1 ∧ t.issued = s.issued ++ (runs s.paths).take k

/-- A failure from the report on: the answers are recorded, and the statements if the report is
read. -/
structure FailsResolved (s : Session) (files : FileTree) (e : InvokeError) (t : Session)
    (output : CommandOutput) (kept : FileTree) : Prop where
  isLate : e.IsLate
  resolved : s.Resolves files output kept
  settled : s.ledger.SettledBy output.stdout t.ledger
  statements : (t.statements = s.statements ∧ ∀ statements, ¬ s.Reads files statements) ∨
    s.Reads files t.statements
  issued : ∃ k, 2 ≤ k ∧ t.issued = s.issued ++ (runs s.paths).take k

/-- Asking Bazel fails in front of the report or from it on. -/
theorem Asked.of_error {scripts : List Path} {written : FileTree}
    (hwrite : s.writeScripts files = (.ok scripts, written)) (hwaits : s.ledger.pending ≠ [])
    (h : s.Asked written (.error e, t, left)) :
    s.FailsUnresolved files e t ∨ ∃ output kept, s.FailsResolved files e t output kept := by
  have hanswered {output : CommandOutput} {kept : FileTree}
      (hresolves : s.Resolves files output kept) :
      ∃ ledger, s.Answered written output ledger kept := by
    obtain ⟨_, written', ledger, hwrite', -, hanswered⟩ := resolves_iff.mp hresolves
    obtain rfl : written' = written := (Prod.mk.inj (hwrite'.symm.trans hwrite)).2
    exact ⟨ledger, hanswered⟩
  have hresolved {output : CommandOutput} {kept : FileTree} {ledger : Ledger}
      (h : s.Answered written output ledger kept) :
      s.Resolves files output kept ∧ s.ledger.SettledBy output.stdout ledger :=
    ⟨resolves_iff.mpr ⟨scripts, written, ledger, hwrite, hwaits, h⟩,
      Ledger.settledBy_of_settle h.settled.choose_spec⟩
  cases h with
  | queryFailed query =>
    refine .inl ⟨.query _, fun output kept hresolves => ?_, rfl, rfl, 1, le_rfl, rfl⟩
    obtain ⟨ledger, ⟨found, hquery, -⟩, -⟩ := hanswered hresolves
    cases query.symm.trans hquery
  | outputLost query lost =>
    refine .inl ⟨.output _, fun output kept hresolves => ?_, rfl, rfl, 1, le_rfl, rfl⟩
    obtain ⟨ledger, ⟨found, hquery, hkeep⟩, -⟩ := hanswered hresolves
    cases query.symm.trans hquery
    cases lost.symm.trans hkeep
  | unanswered query keep missing =>
    refine .inl ⟨.unanswered _, fun output kept hresolves => ?_, rfl, rfl, 1, le_rfl, rfl⟩
    obtain ⟨ledger, ⟨found, hquery, -⟩, count, hsettle⟩ := hanswered hresolves
    cases query.symm.trans hquery
    cases missing.symm.trans hsettle
  | reportFailed answered report =>
    obtain ⟨hresolves, hsettled⟩ := hresolved answered
    refine .inr ⟨_, _, .runner _, hresolves, hsettled, .inl ⟨rfl, fun statements hreads => ?_⟩, 2,
      le_rfl, rfl⟩
    obtain ⟨_, _, _, _, hresolves', hreport, -⟩ := hreads
    obtain ⟨-, rfl⟩ := hresolves.unique hresolves'
    cases report.symm.trans hreport
  | reportUnread answered reported unread =>
    obtain ⟨hresolves, hsettled⟩ := hresolved answered
    refine .inr ⟨_, _, .report _, hresolves, hsettled, .inl ⟨rfl, fun statements hreads => ?_⟩, 2,
      le_rfl, rfl⟩
    obtain ⟨_, _, _, _, hresolves', hreport, hread⟩ := hreads
    obtain ⟨-, rfl⟩ := hresolves.unique hresolves'
    cases reported.symm.trans hreport
    cases unread.symm.trans hread
  | layoutFailed answered reported read =>
    obtain ⟨hresolves, hsettled⟩ := hresolved answered
    exact .inr ⟨_, _, .runner _, hresolves, hsettled, .inr ⟨_, _, _, _, hresolves, reported, read⟩,
      3, by decide, rfl⟩

/-- A refusal comes before anything is written. -/
theorem eq_of_writeScripts_refusal {refusal : ScriptError}
    (h : s.writeScripts files = (.error refusal, left)) (hrefusal : refusal.IsRefusal) :
    left = files := by
  unfold writeScripts at h
  split at h
  · exact (Prod.mk.inj h).2.symm
  · exact absurd hrefusal (ScriptSet.not_isRefusal_of_write (congrArg Prod.fst h))

theorem Asked.ne_scripts {written : FileTree} (h : s.Asked written (.error e, t, left))
    (fault : ScriptError) : e ≠ .scripts fault := by
  cases h <;> nofun

/-- How an invocation fails, and that a refusal comes before anything is written or run. -/
theorem Invoked.of_error (h : s.Invoked files (.error e, t, left)) :
    (s.FailsUnresolved files e t ∨ ∃ output kept, s.FailsResolved files e t output kept) ∧
      ∀ refusal : ScriptError, e = .scripts refusal → refusal.IsRefusal →
        left = files ∧ t.issued = s.issued := by
  cases h with
  | unwritten write =>
    refine ⟨.inl ⟨.scripts _, fun output kept hresolves => ?_, rfl, rfl, 0, by decide, by simp⟩, ?_⟩
    · obtain ⟨_, _, _, hwrite, -⟩ := hresolves
      cases write.symm.trans hwrite
    · rintro refusal ⟨⟩ hrefusal
      exact ⟨eq_of_writeScripts_refusal write hrefusal, rfl⟩
  | asked write something asked =>
    exact ⟨asked.of_error write something, fun refusal heq => absurd heq (asked.ne_scripts refusal)⟩

theorem FailsUnresolved.aquery_notMem (h : s.FailsUnresolved files e t) (hnone : s.issued = []) :
    aquery ∉ t.issued := by
  obtain ⟨k, hk, hissued⟩ := h.issued
  have hinit : (runs s.paths).take k <+: [cquery s.paths] := List.take_prefix_take_left hk
  intro hmem
  rw [hissued, hnone, List.nil_append] at hmem
  have heq : aquery = cquery s.paths := List.mem_singleton.mp (hinit.subset hmem)
  cases congrArg Invocation.run heq

theorem FailsResolved.aquery_mem (h : s.FailsResolved files e t output kept) :
    aquery ∈ t.issued := by
  obtain ⟨k, hk, hissued⟩ := h.issued
  have hinit : (runs s.paths).take 2 <+: (runs s.paths).take k := List.take_prefix_take_left hk
  have hmem : aquery ∈ (runs s.paths).take 2 := List.mem_cons_of_mem _ List.mem_cons_self
  rw [hissued]
  exact List.mem_append_right _ (hinit.subset hmem)

/-- The same of an invocation as a whole, which changes the phase besides. -/
theorem of_invoke_eq_error (hcollecting : s.phase = .collecting)
    (hfail : s.invoke files = (.error e, t, left)) :
    (s.FailsUnresolved files e t ∨ ∃ output kept, s.FailsResolved files e t output kept) ∧
      ∀ refusal : ScriptError, e = .scripts refusal → refusal.IsRefusal →
        left = files ∧ t.issued = s.issued := by
  obtain ⟨result, u, found, hend, heq⟩ := invoke_of_collecting hcollecting files
  obtain ⟨rfl, rfl, rfl⟩ : .error e = result ∧ t = { u with phase := phaseAfter result } ∧
      left = found := by simpa using hfail.symm.trans heq
  obtain ⟨h | ⟨output, kept, h⟩, hrefusal⟩ := hend.of_error
  · exact ⟨.inl ⟨h.isEarly, h.unresolved, h.ledger, h.statements, h.issued⟩, hrefusal⟩
  · exact ⟨.inr ⟨output, kept, h.isLate, h.resolved, h.settled, h.statements, h.issued⟩, hrefusal⟩

/-- What an invocation that fails leaves of a session that still collects. What waits is as
before. When a label or a kind is at fault, no file is touched and nothing is run. As long as the
waiting requests cannot be resolved, the ledger is as before and the report is not run. When they
can be resolved, the report is run, and the ledger has gained the answers to exactly the requests
that wait. There are no statements unless the report is read completely, and then there are all
statements of it. -/
theorem left_by_failure {paths : BazelPaths} {registry : QueryRegistry} {runner : Runner}
    {calls : List Call} (hs : (fresh paths registry runner).after calls = s)
    (hcollecting : s.phase = .collecting) (hfail : s.invoke files = (.error e, t, left)) :
    t.ledger.pending = s.ledger.pending ∧
    (∀ refusal : ScriptError, e = .scripts refusal → refusal.IsRefusal →
      left = files ∧ t.issued = []) ∧
    ((∀ output kept, ¬ s.Resolves files output kept) →
      e.IsEarly ∧ t.ledger = s.ledger ∧ aquery ∉ t.issued) ∧
    (∀ output kept, s.Resolves files output kept →
      e.IsLate ∧ s.ledger.SettledBy output.stdout t.ledger ∧ aquery ∈ t.issued) ∧
    ((∀ statements, ¬ s.Reads files statements) → t.statements = []) ∧
    ∀ statements, s.Reads files statements → t.statements = statements := by
  obtain ⟨hissued, hstatements⟩ : s.issued = [] ∧ s.statements = [] := by
    have hasked := after_of_collecting (s := fresh paths registry runner) (hs ▸ hcollecting)
    rw [← hs, hasked]
    exact ⟨rfl, rfl⟩
  obtain ⟨hfails, hrefusal⟩ := of_invoke_eq_error hcollecting hfail
  rw [hissued] at hrefusal
  rcases hfails with h | ⟨output, kept, h⟩
  · have hunread : ∀ statements, ¬ s.Reads files statements :=
      fun _ ⟨output, kept, _, _, hresolves, _⟩ => h.unresolved output kept hresolves
    exact ⟨congrArg Ledger.pending h.ledger, hrefusal,
      fun _ => ⟨h.isEarly, h.ledger, h.aquery_notMem hissued⟩,
      fun output kept hresolves => absurd hresolves (h.unresolved output kept),
      fun _ => h.statements.trans hstatements,
      fun statements hreads => absurd hreads (hunread statements)⟩
  · refine ⟨h.settled.pending, hrefusal, fun hnone => absurd h.resolved (hnone output kept),
      fun output' kept' hresolves => ?_, fun hunread => ?_, fun statements hreads => ?_⟩
    · obtain ⟨rfl, -⟩ := h.resolved.unique hresolves
      exact ⟨h.isLate, h.settled, h.aquery_mem⟩
    · rcases h.statements with ⟨hsame, -⟩ | hreads
      · exact hsame.trans hstatements
      · exact absurd hreads (hunread t.statements)
    · rcases h.statements with ⟨-, hunread⟩ | hreads'
      · exact absurd hreads (hunread statements)
      · exact hreads.unique hreads'

/-- A target is asked for, reported with an action, and its directories cannot be laid out. -/
def unbuiltSession : Session :=
  let paths : BazelPaths := ⟨⟨"/home"⟩, ⟨"/bazel"⟩, ⟨"/base"⟩, ⟨"/work"⟩, ⟨"out"⟩, ⟨"/metrics"⟩⟩
  let answer : CommandOutput := ⟨"@sourceroot//a:b|x86_64>>getOutputFiles>>x, y\n", ""⟩
  let report : CommandOutput :=
    ⟨"[[[1, 1]], [[\"\", \"Touch\", [\"touch\", \"x\"], [], [], [1]]], [], [[1, \"x\"]]]", ""⟩
  fresh paths .builtin (.prepared [((cquery paths).command, answer), (aquery.command, report)]
    [(phonyBuild.command, (1, "no space left"))])

def touchStatement : Statement :=
  { mnemonic := "Touch", command := "touch x", inputs := [], outputs := ["x"], depfile := none,
    env := [] }

theorem listOfDocument_touchReport : Statement.listOfDocument (Utf8.encode
    "[[[1, 1]], [[\"\", \"Touch\", [\"touch\", \"x\"], [], [], [1]]], [], [[1, \"x\"]]]") =
      .ok [touchStatement] := by
  decide +kernel

/-- It goes on waiting, and has its answer; the action is there. -/
theorem left_by_failure_unbuilt :
    ∃ e t left, (unbuiltSession.after oneTarget).invoke (.onlyWorkDir []) = (.error e, t, left) ∧
      t.ledger.pending = [⟨"//a:b", "getOutputFiles", .common⟩] ∧
      (∃ output kept, (unbuiltSession.after oneTarget).Resolves (.onlyWorkDir []) output kept ∧
        (unbuiltSession.after oneTarget).ledger.SettledBy output.stdout t.ledger) ∧
      ∃ statements, (unbuiltSession.after oneTarget).Reads (.onlyWorkDir []) statements ∧
        t.statements = statements ∧ statements.map Statement.outputs = [["x"]] := by
  let s : Session := unbuiltSession.after oneTarget
  have hpending : s.ledger.pending = [⟨"//a:b", "getOutputFiles", .common⟩] := by decide +kernel
  have hone : ∀ r ∈ s.ledger.pending, r = ⟨"//a:b", "getOutputFiles", .common⟩ := by
    rw [hpending]
    exact fun r hr => List.mem_singleton.mp hr
  have hwaits : s.ledger.pending ≠ [] := by simp [hpending]
  obtain ⟨written, hwrite, hkeep⟩ := exists_writeScripts_emptyTree (s := s) (by decide) rfl hone
  obtain ⟨kept, hkept⟩ := hkeep targetAnswer.stdout
  obtain ⟨ledger, hanswered⟩ := exists_answered_targetAnswer (s := s) hone rfl hkept
  have hresolves : s.Resolves (.onlyWorkDir []) targetAnswer kept :=
    resolves_iff.mpr ⟨_, written, ledger, hwrite, hwaits, hanswered⟩
  have hreads : s.Reads (.onlyWorkDir []) [touchStatement] :=
    ⟨_, kept, _, kept, hresolves, rfl, listOfDocument_touchReport⟩
  have hend : { s with phase := .invoking }.Invoked (.onlyWorkDir []) _ :=
    .asked hwrite hwaits (.layoutFailed ⟨hanswered.queried, hanswered.settled⟩ rfl
      listOfDocument_touchReport rfl)
  have hrun := invoke_of_invoked (s := s) rfl hend
  obtain ⟨hsame, -, -, hresolved, -, hread⟩ := left_by_failure (s := s) rfl rfl hrun
  exact ⟨_, _, _, hrun, hsame.trans hpending,
    ⟨_, kept, hresolves, (hresolved _ _ hresolves).2.1⟩, _, hreads, hread _ hreads, rfl⟩

end Session

end HybridBuild
