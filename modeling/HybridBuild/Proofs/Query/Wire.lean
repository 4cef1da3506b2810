import HybridBuild.Proofs.Request.Ledger
import HybridBuild.Proofs.Scripts.Checks
import HybridBuild.Proofs.Text.Lines

/-!
# Answers that are written are read

The query script writes one line for each target, and chatter may stand between these
lines. When the labels and kinds can be told apart from the separators, as is checked
before the scripts are made, every answer is read as it was written.
-/
namespace HybridBuild

/-- A text that holds no separator of answers and is part of one line. -/
def IsPlain (text : String) : Prop :=
  textContains text answerSeparator = false ∧ '\n' ∉ text.toList

/-- A line of a query's output, before it is written. -/
inductive Row where
  | answer (key : AnswerKey)
  | unasked (target : String)
  | chatter (text : String)
  deriving DecidableEq, Repr

/-- How a row is written, where each key has its detail. -/
def Row.text (details : AnswerKey → String) : Row → String
  | answer key => key.id ++ (answerSeparator ++ (key.kind ++ (answerSeparator ++ details key)))
  | unasked target => target ++ (answerSeparator ++ unaskedPayload)
  | chatter text => text

/-- An output that answers every one of some requests and no others, where the rows may
stand in any order and be repeated. -/
structure IsReport (requests : List Request) (details : AnswerKey → String) (rows : List Row)
    (stdout : String) : Prop where
  listed : Text.ListsLines stdout.toList (rows.map fun row => (row.text details).toList)
  answers : ∀ key, .answer key ∈ rows ↔ ∃ r ∈ requests, r.answerKey = key
  unasked : ∀ target, .unasked target ∈ rows → IsPlain target
  chatter : ∀ text, .chatter text ∈ rows → IsPlain text

/-- A key that is told apart from the separators of its line. -/
structure AnswerKey.IsPlain (key : AnswerKey) : Prop where
  id_free : ¬ ['>', '>'] <:+: key.id.toList ++ ['>']
  kind_free : '>' ∉ key.kind.toList
  id_line : '\n' ∉ key.id.toList
  kind_line : '\n' ∉ key.kind.toList

/-- The keys of checked requests are told apart from the separators. -/
theorem AnswerKey.isPlain_of_synthesize {workspaceDir : Path} {requests : List Request}
    {registry : QueryRegistry} {scripts : ScriptSet}
    (h : ScriptSet.synthesize workspaceDir requests registry = .ok scripts) {r : Request}
    (hr : r ∈ requests) (hlabel : '\n' ∉ r.label.toList) : r.answerKey.IsPlain := by
  obtain ⟨hambiguous, hkind⟩ := ScriptSet.checked_of_synthesize h r hr
  have hfree : textContains r.label answerSeparator = false := (Bool.or_eq_false_iff.mp hambiguous).1
  have hname : QueryKind.isName r.kind := QueryRegistry.isName_of_get? hkind
  exact {
    id_free := Request.id_free ((textContains_eq_false_iff (by decide)).mp hfree)
    kind_free := QueryKind.notMem_of_isName hname (by decide)
    id_line := Request.id_line hlabel
    kind_line := QueryKind.notMem_of_isName hname (by decide) }

theorem toList_answerSeparator : answerSeparator.toList = ['>', '>'] := by decide

namespace AnswerLine

/-- An answer is read as it was written, whatever its detail. -/
theorem ofText_answer {key : AnswerKey} (h : key.IsPlain) (detail : String) :
    ofText (key.id ++ (answerSeparator ++ (key.kind ++ (answerSeparator ++ detail)))) =
      .answer key detail := by
  have hid : ¬ answerSeparator.toList <:+: key.id.toList ++ answerSeparator.toList.dropLast := by
    simpa [toList_answerSeparator] using h.id_free
  have hkind : ¬ answerSeparator.toList <:+:
      key.kind.toList ++ answerSeparator.toList.dropLast := by
    rw [toList_answerSeparator]
    refine Text.not_pair_infix_append (fun hi => ?_) (by decide) (.inl fun hlast => ?_)
    · exact h.kind_free (hi.subset List.mem_cons_self)
    · exact h.kind_free (List.mem_of_getLast? hlast)
  have hpayload : key.kind ++ (answerSeparator ++ detail) ≠ unaskedPayload := by
    intro heq
    have hmem : '>' ∈ unaskedPayload.toList := by
      rw [← heq]
      simp [toList_answerSeparator]
    revert hmem
    decide
  rw [ofText, cutText?_append (by decide) hid]
  simp only [if_neg hpayload, cutText?_append (show answerSeparator.toList ≠ [] by decide) hkind]

theorem ofText_chatter {text : String} (h : textContains text answerSeparator = false) :
    ofText text = .chatter := by
  rw [ofText, (cutText?_eq_none_iff (by decide)).mpr ((textContains_eq_false_iff (by decide)).mp h)]

/-- A target nobody asked about is no answer. When its name ends with half a separator,
the separator is found too early and the line is malformed. -/
theorem ofText_unasked {target : String} (h : textContains target answerSeparator = false) :
    ofText (target ++ (answerSeparator ++ unaskedPayload)) = .unasked ∨
      ofText (target ++ (answerSeparator ++ unaskedPayload)) = .malformed := by
  rw [textContains_eq_false_iff (by decide), toList_answerSeparator] at h
  by_cases hlast : target.toList.getLast? = some '>'
  · right
    obtain ⟨front, hfront⟩ := List.getLast?_eq_some_iff.mp hlast
    have htext : target ++ (answerSeparator ++ unaskedPayload) =
        String.ofList front ++ (answerSeparator ++ (">" ++ unaskedPayload)) := by
      apply String.toList_injective
      simp [hfront, toList_answerSeparator]
    have hfree : ¬ answerSeparator.toList <:+:
        (String.ofList front).toList ++ answerSeparator.toList.dropLast := by
      simpa [toList_answerSeparator, hfront] using h
    have hpayload : ">" ++ unaskedPayload ≠ unaskedPayload := by decide
    have hnone : cutText? (">" ++ unaskedPayload) answerSeparator = none := by decide
    rw [htext, ofText, cutText?_append (by decide) hfree]
    simp only [if_neg hpayload, hnone]
  · left
    have hfree : ¬ answerSeparator.toList <:+:
        target.toList ++ answerSeparator.toList.dropLast := by
      rw [toList_answerSeparator]
      exact Text.not_pair_infix_append h (by decide) (.inl hlast)
    rw [ofText, cutText?_append (by decide) hfree]
    simp only [if_pos]

end AnswerLine

namespace Row

variable {details : AnswerKey → String}

/-- A row whose line is read as it was written. -/
def IsPlain (details : AnswerKey → String) : Row → Prop
  | answer key => key.IsPlain ∧ (details key).toList.getLast? ≠ some '\r'
  | unasked target => textContains target answerSeparator = false
  | chatter text => textContains text answerSeparator = false

/-- A plain row loses a carriage return at its end only when it is chatter. -/
theorem dropReturn_text {row : Row} (h : row.IsPlain details)
    (hchatter : ∀ text, row ≠ .chatter text) :
    Text.dropReturn (row.text details).toList = (row.text details).toList := by
  apply Text.dropReturn_of_ne
  cases row with
  | answer key =>
    have hdetail := h.2
    simp only [text, String.toList_append, List.getLast?_append, toList_answerSeparator]
    cases hlast : (details key).toList.getLast? with
    | none => simp
    | some c =>
      rw [hlast] at hdetail
      simpa using hdetail
  | unasked target =>
    simp [text, unaskedPayload, List.getLast?_append]
  | chatter t => exact absurd rfl (hchatter t)

/-- What a plain row says to a key, with or without a carriage return at its end; to lose one makes
no separator appear. -/
theorem detailFor?_read {row : Row} (h : row.IsPlain details) {read : List Char}
    (hread : read = (row.text details).toList ∨ read = Text.dropReturn (row.text details).toList)
    (key : AnswerKey) :
    (AnswerLine.ofText (String.ofList read)).detailFor? key =
      if row = .answer key then some (details key) else none := by
  cases row with
  | answer k =>
    rw [dropReturn_text h (by simp), or_self] at hread
    rw [hread, String.ofList_toList, text, AnswerLine.ofText_answer h.1, AnswerLine.detailFor?]
    by_cases hk : k = key
    · simp [hk]
    · simp [hk]
  | unasked target =>
    rw [dropReturn_text h (by simp), or_self] at hread
    rw [hread, String.ofList_toList, text, if_neg (by simp)]
    obtain hunasked | hmalformed := AnswerLine.ofText_unasked h
    · rw [hunasked, AnswerLine.detailFor?]
    · rw [hmalformed, AnswerLine.detailFor?]
  | chatter t =>
    have hfree : textContains (String.ofList read) answerSeparator = false := by
      rw [textContains_eq_false_iff (by decide)]
      have ht := (textContains_eq_false_iff (by decide)).mp h
      obtain rfl | rfl := hread
      · rw [String.ofList_toList]
        exact ht
      · intro hi
        rw [String.toList_ofList] at hi
        exact ht (hi.trans (Text.dropReturn_prefix _).isInfix)
    rw [AnswerLine.ofText_chatter hfree, AnswerLine.detailFor?, if_neg (by simp)]

end Row

/-- Reading rows that were written finds the answers among them. -/
theorem filterMap_detailFor?_read {details : AnswerKey → String} {rows : List Row}
    {reads : List (List Char)} (hplain : ∀ row ∈ rows, row.IsPlain details)
    (hreads : List.Forall₂ (fun read line => read = line ∨ read = Text.dropReturn line) reads
      (rows.map fun row => (row.text details).toList)) (key : AnswerKey) :
    (reads.map String.ofList).filterMap (fun line => (AnswerLine.ofText line).detailFor? key) =
      rows.filterMap fun row => if row = .answer key then some (details key) else none := by
  induction rows generalizing reads with
  | nil =>
    cases hreads
    rfl
  | cons row rows ih =>
    cases hreads with
    | cons hread hrest =>
      have hrow := Row.detailFor?_read (hplain row List.mem_cons_self) hread key
      have hrows := ih (fun r hr => hplain r (List.mem_cons_of_mem row hr)) hrest
      rw [List.map_cons, List.filterMap_cons, List.filterMap_cons, hrow, hrows]

/-- All answers to a key have its detail, so the last one has. -/
theorem getLast?_filterMap_of_mem {rows : List Row} {row : Row} (h : row ∈ rows)
    (detail : String) :
    (rows.filterMap fun q => if q = row then some detail else none).getLast? = some detail := by
  have hmem : detail ∈ rows.filterMap fun q => if q = row then some detail else none :=
    List.mem_filterMap.mpr ⟨row, h, if_pos rfl⟩
  have hne := List.ne_nil_of_mem hmem
  have hlast := List.getLast_mem hne
  obtain ⟨q, -, hsome⟩ := List.mem_filterMap.mp hlast
  rw [List.getLast?_eq_some_getLast hne]
  split at hsome
  next => exact hsome.symm
  next => cases hsome

/-- The rows of a report are read as they were written. -/
theorem IsReport.isPlain {workspaceDir : Path} {requests : List Request}
    {registry : QueryRegistry} {scripts : ScriptSet} {details : AnswerKey → String}
    {rows : List Row} {stdout : String}
    (h : IsReport requests details rows stdout)
    (hscripts : ScriptSet.synthesize workspaceDir requests registry = .ok scripts)
    (hlabels : ∀ r ∈ requests, '\n' ∉ r.label.toList)
    (hdetails : ∀ r ∈ requests, '\n' ∉ (details r.answerKey).toList ∧
      (details r.answerKey).toList.getLast? ≠ some '\r') :
    ∀ row ∈ rows, row.IsPlain details ∧ '\n' ∉ (row.text details).toList := by
  intro row hrow
  cases row with
  | answer key =>
    obtain ⟨r, hr, rfl⟩ := (h.answers key).mp hrow
    have hkey := AnswerKey.isPlain_of_synthesize hscripts hr (hlabels r hr)
    refine ⟨⟨hkey, (hdetails r hr).2⟩, ?_⟩
    simp [Row.text, toList_answerSeparator, hkey.id_line, hkey.kind_line, (hdetails r hr).1]
  | unasked target =>
    obtain ⟨hfree, hline⟩ := h.unasked target hrow
    refine ⟨hfree, ?_⟩
    simp [Row.text, toList_answerSeparator, unaskedPayload, hline]
  | chatter text => exact h.chatter text hrow

/-- Answers are carried from the query to the ledger unchanged. When the scripts can be
made, no label holds a line feed, and every detail is part of one line and does not end
in a carriage return, then settling from an output that reports every waiting request,
among chatter and targets nobody asked about, answers each with the detail of its key. -/
theorem settle_of_isReport {l : Ledger} {workspaceDir : Path} {registry : QueryRegistry}
    {scripts : ScriptSet} {details : AnswerKey → String} {rows : List Row}
    {output : CommandOutput}
    (hscripts : ScriptSet.synthesize workspaceDir l.pending registry = .ok scripts)
    (hlabels : ∀ r ∈ l.pending, '\n' ∉ r.label.toList)
    (hdetails : ∀ r ∈ l.pending, '\n' ∉ (details r.answerKey).toList ∧
      (details r.answerKey).toList.getLast? ≠ some '\r')
    (hreport : IsReport l.pending details rows output.stdout) :
    ∃ l', l.settle output = .ok (l.pending.length, l') ∧
      ∀ r ∈ l.pending, l'.answer? r = some (details r.answerKey) := by
  have hrows := hreport.isPlain hscripts hlabels hdetails
  have hlines : ∀ line ∈ rows.map fun row => (row.text details).toList, '\n' ∉ line := by
    intro line hline
    obtain ⟨row, hrow, rfl⟩ := List.mem_map.mp hline
    exact (hrows row hrow).2
  have hlast (r : Request) (hr : r ∈ l.pending) :
      lastDetail? output.stdout r.answerKey = some (details r.answerKey) := by
    have hread := filterMap_detailFor?_read (fun row hrow => (hrows row hrow).1)
      (hreport.listed.forall₂ hlines) r.answerKey
    have hrow : Row.answer r.answerKey ∈ rows := (hreport.answers _).mpr ⟨r, hr, rfl⟩
    rw [lastDetail?, textLines, hread]
    exact getLast?_filterMap_of_mem hrow _
  have hall (r : Request) (hr : r ∈ l.pending) :
      ((Answers.ofOutput output.stdout).detail? r).isSome := by
    rw [Answers.detail?_ofOutput, hlast r hr]
    rfl
  have hsettle := Ledger.settle_eq_ok_iff.mpr ⟨hall, rfl, rfl⟩
  refine ⟨_, hsettle, fun r hr => ?_⟩
  obtain ⟨detail, hdetail, hanswer⟩ := Ledger.answer?_of_settle hsettle hr
  rw [hanswer, ← hdetail, hlast r hr]

/-- Two requests that share an id and a kind, for a label with half a separator. -/
def twins : List Request :=
  [⟨"//a:b>", "getOutputFiles", .common⟩, ⟨"a:b>", "getOutputFiles", .x86_64⟩]

/-- A report that answers them, among other lines. -/
def twinRows : List Row :=
  [.chatter "INFO: done\r", .answer ⟨"@sourceroot//a:b>|x86_64", "getOutputFiles"⟩,
    .unasked "//other>"]

/-- The one detail, which may hold separators. -/
def twinDetails (_ : AnswerKey) : String := "x>>y|NONE"

def twinOutput : CommandOutput where
  stdout := "INFO: done\r\n" ++ "@sourceroot//a:b>|x86_64>>getOutputFiles>>x>>y|NONE\r\n" ++
    "//other>>>NONE"
  stderr := ""

theorem isReport_twinRows : IsReport twins twinDetails twinRows twinOutput.stdout where
  listed := by
    have htext : twinOutput.stdout.toList = "INFO: done\r".toList ++ '\n' ::
        ("@sourceroot//a:b>|x86_64>>getOutputFiles>>x>>y|NONE".toList ++ '\r' :: '\n' ::
          "//other>>>NONE".toList) := by decide +kernel
    have hlines : twinRows.map (fun row => (row.text twinDetails).toList) = ["INFO: done\r".toList,
        "@sourceroot//a:b>|x86_64>>getOutputFiles>>x>>y|NONE".toList, "//other>>>NONE".toList] := by
      decide +kernel
    rw [htext, hlines]
    exact .feed _ (.returnFeed _ (.last (by decide)))
  answers key := by
    constructor
    · intro h
      obtain rfl : key = ⟨"@sourceroot//a:b>|x86_64", "getOutputFiles"⟩ := by
        simpa [twinRows] using h
      exact ⟨_, List.mem_cons_self, by decide⟩
    · rintro ⟨r, hr, rfl⟩
      have hall : ∀ r ∈ twins, Row.answer r.answerKey ∈ twinRows := by decide
      exact hall r hr
  unasked target h := by
    obtain rfl : target = "//other>" := by simpa [twinRows] using h
    exact ⟨by decide, by decide⟩
  chatter text h := by
    obtain rfl : text = "INFO: done\r" := by simpa [twinRows] using h
    exact ⟨by decide, by decide⟩

/-- Both are answered. -/
theorem settle_of_isReport_twins :
    ∃ l', ((∅ : Ledger).askAll twins).settle twinOutput = .ok (2, l') ∧
      ∀ r ∈ twins, l'.answer? r = some "x>>y|NONE" := by
  have hpending : ((∅ : Ledger).askAll twins).pending = twins := by decide +kernel
  have hisOk : (ScriptSet.synthesize ⟨"/work"⟩ twins .builtin).isOk := by decide +kernel
  rcases hscripts : ScriptSet.synthesize ⟨"/work"⟩ twins .builtin with _ | scripts
  · rw [hscripts] at hisOk
    cases hisOk
  · have hlabels : ∀ r ∈ twins, '\n' ∉ r.label.toList := by decide
    have hdetails : ∀ r ∈ twins, '\n' ∉ (twinDetails r.answerKey).toList ∧
        (twinDetails r.answerKey).toList.getLast? ≠ some '\r' := by decide
    have hreport := isReport_twinRows
    rw [← hpending] at hscripts hlabels hdetails hreport
    have h := settle_of_isReport hscripts hlabels hdetails hreport
    rw [hpending] at h
    exact h

end HybridBuild
