import HybridBuild.Facts.Source
import HybridBuild.Proofs.Bazel.Invocation

/-!
# Runs of a session

A session is used any number of times: facts are asked for, the scripts are made or
written, and Bazel is invoked. Between two uses the files may change. Only the first
invocation does more than ask, so a run is what it asks before that invocation, the
invocation, and what it asks afterwards.
-/
namespace HybridBuild.Session

/-- A use of a session. -/
inductive Use where
  | fact (r : Request)
  | outputFiles (label : String) (arch : Arch)
  | ccInfo (label : String) (arch : Arch)
  | scripts
  | writeScripts
  | invoke
  deriving DecidableEq, Repr

/-- What a use gives back. -/
inductive Reply where
  | fact (answer : Option String)
  | outputFiles (files : Option (List String))
  | ccInfo (result : Except QueryError (Option CcInfo))
  | scripts (result : Except ScriptError ScriptSet)
  | written (result : Except ScriptError (List Path))
  | invoked (result : Except InvokeError Unit)

/-- The request that a use makes. -/
def Use.asks : Use → List Request
  | fact r => [r]
  | outputFiles label arch => [Facts.outputFilesRequest label arch]
  | ccInfo label arch => [Facts.ccInfoRequest label arch]
  | scripts | writeScripts | invoke => []

def facts (s : Session) : Facts := (FactSource.session s).facts

def perform (s : Session) (files : FileTree) : Use → Reply × Session × FileTree
  | .fact r => (.fact (s.facts.answer? r), s.askAll [r], files)
  | .outputFiles label arch =>
    (.outputFiles (s.facts.outputFiles label arch),
      s.askAll [Facts.outputFilesRequest label arch], files)
  | .ccInfo label arch =>
    (.ccInfo (s.facts.ccInfo label arch), s.askAll [Facts.ccInfoRequest label arch], files)
  | .scripts => (.scripts s.scripts, s, files)
  | .writeScripts =>
    let (result, files) := s.writeScripts files
    (.written result, s, files)
  | .invoke =>
    let (result, s, files) := s.invoke files
    (.invoked result, s, files)

theorem fact_session (s : Session) (files : FileTree) (r : Request) :
    ∃ answer t, s.perform files (.fact r) = (.fact answer, t, files) ∧
      (FactSource.session s).fact r = (.ok answer, .session t) :=
  ⟨_, _, rfl, rfl⟩

theorem outputFiles_session (s : Session) (files : FileTree) (label : String) (arch : Arch) :
    ∃ paths t, s.perform files (.outputFiles label arch) = (.outputFiles paths, t, files) ∧
      (FactSource.session s).outputFiles label arch = (.ok paths, .session t) :=
  ⟨_, _, rfl, rfl⟩

theorem ccInfo_session (s : Session) (files : FileTree) (label : String) (arch : Arch) :
    ∃ result t, s.perform files (.ccInfo label arch) = (.ccInfo result, t, files) ∧
      (FactSource.session s).ccInfo label arch = (.ok result, .session t) :=
  ⟨_, _, rfl, rfl⟩

/-- A session that nobody has used. -/
def fresh (paths : BazelPaths) (registry : QueryRegistry) (runner : Runner) : Session :=
  (start paths runner).withRegistry registry

structure Call where
  use : Use
  files : FileTree

/-- The session after some calls. -/
def after (s : Session) (calls : List Call) : Session :=
  calls.foldl (fun s c => (s.perform c.files c.use).2.1) s

def requests (calls : List Call) : List Request := calls.flatMap (·.use.asks)

@[simp] theorem after_cons (s : Session) (c : Call) (calls : List Call) :
    s.after (c :: calls) = ((s.perform c.files c.use).2.1).after calls := rfl

theorem after_append (s : Session) (before later : List Call) :
    s.after (before ++ later) = (s.after before).after later := List.foldl_append

@[simp] theorem requests_cons (c : Call) (calls : List Call) :
    requests (c :: calls) = c.use.asks ++ requests calls := List.flatMap_cons

@[simp] theorem phase_askAll (s : Session) (rs : List Request) :
    (s.askAll rs).phase = s.phase := rfl

theorem askAll_askAll (s : Session) (rs qs : List Request) :
    (s.askAll rs).askAll qs = s.askAll (rs ++ qs) := by
  simp only [askAll, Ledger.askAll_append]

/-- The uses that only ask: all but the first invocation. -/
def OnlyAsks (s : Session) (use : Use) : Prop := s.phase ≠ .collecting ∨ use ≠ .invoke

/-- A use that only asks changes nothing but the ledger. -/
theorem perform_of_onlyAsks {s : Session} {use : Use} (h : s.OnlyAsks use) (files : FileTree) :
    (s.perform files use).2.1 = s.askAll use.asks := by
  cases use with
  | fact => rfl
  | outputFiles => rfl
  | ccInfo => rfl
  | scripts => rfl
  | writeScripts => rfl
  | invoke =>
    have hphase : s.phase ≠ .collecting := h.resolve_right fun hne => hne rfl
    simp only [perform, invoke_of_ne hphase]
    rfl

theorem after_of_onlyAsks {s : Session} {calls : List Call}
    (h : ∀ c ∈ calls, s.OnlyAsks c.use) : s.after calls = s.askAll (requests calls) := by
  induction calls generalizing s with
  | nil => rfl
  | cons c calls ih =>
    have hc : s.OnlyAsks c.use := h c List.mem_cons_self
    have hrest : ∀ d ∈ calls, (s.askAll c.use.asks).OnlyAsks d.use := fun d hd =>
      h d (List.mem_cons_of_mem c hd)
    rw [after_cons, perform_of_onlyAsks hc, ih hrest, askAll_askAll, requests_cons]

/-- An invocation always leaves a session that no longer collects. -/
theorem phase_invoke_ne (s : Session) (files : FileTree) :
    (s.invoke files).2.1.phase ≠ .collecting := by
  by_cases h : s.phase = .collecting
  · obtain ⟨result, t, left, -, heq⟩ := invoke_of_collecting h files
    rw [heq]
    exact phaseAfter_ne result
  · rw [invoke_of_ne h]
    exact h

/-- After an invocation calls only ask. -/
theorem after_invoke (s : Session) (files : FileTree) (later : List Call) :
    s.after (⟨.invoke, files⟩ :: later) = ((s.invoke files).2.1).askAll (requests later) :=
  after_of_onlyAsks fun _ _ => .inl (phase_invoke_ne s files)

/-- Calls either never invoke, or there is a first call that does. -/
theorem exists_first_invoke (calls : List Call) :
    (∀ c ∈ calls, c.use ≠ .invoke) ∨
      ∃ before files later, calls = before ++ ⟨.invoke, files⟩ :: later ∧
        ∀ c ∈ before, c.use ≠ .invoke := by
  induction calls with
  | nil => exact .inl fun _ h => nomatch h
  | cons c calls ih =>
    by_cases hc : c.use = .invoke
    · exact .inr ⟨[], c.files, calls, by rw [← hc]; rfl, fun _ h => nomatch h⟩
    · obtain hnone | ⟨before, files, later, rfl, hbefore⟩ := ih
      · exact .inl (List.forall_mem_cons.mpr ⟨hc, hnone⟩)
      · exact .inr ⟨c :: before, files, later, rfl, List.forall_mem_cons.mpr ⟨hc, hbefore⟩⟩

/-- A session that still collects has only been asked: after an invocation it would not collect
again, whatever else it is asked. -/
theorem after_of_collecting {s : Session} {calls : List Call}
    (h : (s.after calls).phase = .collecting) : s.after calls = s.askAll (requests calls) := by
  obtain hnone | ⟨before, files, later, rfl, -⟩ := exists_first_invoke calls
  · exact after_of_onlyAsks fun c hc => .inr (hnone c hc)
  · rw [after_append, after_invoke] at h
    exact absurd h (phase_invoke_ne _ files)

section Fresh

variable (paths : BazelPaths) (registry : QueryRegistry) (runner : Runner)

/-- Until the first invocation a fresh session is only asked. -/
theorem after_fresh {before : List Call} (h : ∀ c ∈ before, c.use ≠ .invoke) :
    (fresh paths registry runner).after before =
      (fresh paths registry runner).askAll (requests before) :=
  after_of_onlyAsks fun c hc => .inr (h c hc)

/-- The first invocation of a fresh session: what it has run, and the phase it leaves. -/
theorem invoke_askAll_fresh (rs : List Request) (files : FileTree) :
    let s := (fresh paths registry runner).askAll rs
    (∃ k, (s.invoke files).2.1.issued = (runs paths).take k ∧ (s.ledger.pending = [] → k = 0)) ∧
      (s.invoke files).2.1.phase = phaseAfter (s.invoke files).1 := by
  intro s
  have hphase : s.phase = .collecting := rfl
  obtain ⟨result, t, left, hend, heq⟩ := invoke_of_collecting hphase files
  obtain ⟨k, hk, hzero⟩ := hend.issued
  rw [heq]
  exact ⟨⟨k, hk, hzero⟩, rfl⟩

/-- The runs of a session are the first few of an invocation. -/
theorem issued_after_fresh (calls : List Call) :
    ((fresh paths registry runner).after calls).issued <+: runs paths := by
  obtain hnone | ⟨before, files, later, rfl, hbefore⟩ := exists_first_invoke calls
  · rw [after_fresh paths registry runner hnone]
    exact List.nil_prefix
  · obtain ⟨⟨k, hk, -⟩, -⟩ := invoke_askAll_fresh paths registry runner (requests before) files
    rw [after_append, after_invoke, after_fresh paths registry runner hbefore]
    show (Session.invoke _ files).2.1.issued <+: runs paths
    rw [hk]
    exact List.take_prefix k (runs paths)

end Fresh

/-- Over a whole run Bazel is run at most once for each purpose: the query, then the
report, then the layout. Nothing is run before the first invocation, nor at all when
nothing waits then. That invocation leaves the session settled or failed for good, and
all later ones refuse and change nothing. -/
theorem runs_at_most_once (paths : BazelPaths) (registry : QueryRegistry) (runner : Runner) :
    let s := fresh paths registry runner
    (∀ calls, (s.after calls).issued <+: [cquery paths, aquery, phonyBuild] ∧
      (s.after calls).issued.Nodup) ∧
    ∀ before : List Call, (∀ c ∈ before, c.use ≠ .invoke) →
      (s.after before).phase = .collecting ∧ (s.after before).issued = [] ∧
      ∀ (files : FileTree) (later : List Call),
        let result := ((s.after before).invoke files).1
        let t := s.after (before ++ ⟨.invoke, files⟩ :: later)
        ((s.after before).ledger.pending = [] → t.issued = []) ∧
        (result = .ok () ∧ t.phase = .settled ∨ (∃ e, result = .error e) ∧ t.phase = .failed) ∧
        ∀ files', t.perform files' .invoke =
          (.invoked (.error (.alreadyInvoked t.phase)), t, files') := by
  intro s
  constructor
  · intro calls
    have hmade : (s.after calls).issued <+: runs paths :=
      issued_after_fresh paths registry runner calls
    exact ⟨hmade, (nodup_runs paths).sublist hmade.sublist⟩
  · intro before hbefore
    have hs : s.after before = s.askAll (requests before) :=
      after_fresh paths registry runner hbefore
    rw [hs]
    refine ⟨rfl, rfl, fun files later => ?_⟩
    intro result t
    have ht : t = (((s.askAll (requests before)).invoke files).2.1).askAll (requests later) := by
      rw [← hs, ← after_invoke, ← after_append]
    obtain ⟨⟨k, hk, hzero⟩, hphase⟩ :=
      invoke_askAll_fresh paths registry runner (requests before) files
    have htphase : t.phase = phaseAfter result := by
      rw [ht, phase_askAll]
      exact hphase
    refine ⟨fun hnothing => ?_, ?_, fun files' => ?_⟩
    · rw [hzero hnothing, List.take_zero] at hk
      rw [ht]
      exact hk
    · rw [htphase]
      cases result with
      | ok => exact .inl ⟨rfl, rfl⟩
      | error e => exact .inr ⟨⟨e, rfl⟩, rfl⟩
    · have hne : t.phase ≠ .collecting := htphase ▸ phaseAfter_ne result
      simp only [perform, invoke_of_ne hne]

end HybridBuild.Session
