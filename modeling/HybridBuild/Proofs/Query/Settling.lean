import HybridBuild.Proofs.Request.Ledger
import HybridBuild.Proofs.Text.Cut

/-!
# Settling is exact, and all or nothing

What a line of a query's output says is told by the first separator in it and the first
separator behind that one. The waiting requests are settled exactly when some line answers
each of them, and the last such line counts. Settling changes the ledger one answer after the
other, but only when nothing is missing; otherwise it reports every request without an answer
and every malformed line, and leaves the ledger alone.
-/
namespace HybridBuild

section Lines

variable {line stdout : String} {key : AnswerKey} {detail : String}

def Gives (line : String) (key : AnswerKey) (detail : String) : Prop :=
  ∃ payload, CutsAt line answerSeparator key.id payload ∧ payload ≠ unaskedPayload ∧
    CutsAt payload answerSeparator key.kind detail

/-- A line has an id and no kind, and is not about a target nobody asked about. -/
def IsMalformed (line : String) : Prop :=
  ∃ id payload, CutsAt line answerSeparator id payload ∧ payload ≠ unaskedPayload ∧
    ∀ kind detail, ¬ CutsAt payload answerSeparator kind detail

def IsAnswered (stdout : String) (key : AnswerKey) : Prop :=
  ∃ line ∈ textLines stdout, ∃ detail, Gives line key detail

/-- The last line of an output that answers a key gives it a detail. -/
def GivesLast (stdout : String) (key : AnswerKey) (detail : String) : Prop :=
  ∃ before line after, textLines stdout = before ++ line :: after ∧ Gives line key detail ∧
    ∀ later ∈ after, ∀ other, ¬ Gives later key other

theorem cutText?_answerSeparator_eq_some_iff {text before after : String} :
    cutText? text answerSeparator = some (before, after) ↔
      CutsAt text answerSeparator before after :=
  cutText?_eq_some_iff (by decide)

namespace AnswerLine

theorem ofText_eq_answer_iff : ofText line = .answer key detail ↔ Gives line key detail := by
  simp only [Gives, ← cutText?_answerSeparator_eq_some_iff]
  unfold ofText
  cases cutText? line answerSeparator with
  | none => simp
  | some cut =>
    obtain ⟨id, payload⟩ := cut
    by_cases hunasked : payload = unaskedPayload
    · simp [hunasked]
    · obtain ⟨keyId, kind⟩ := key
      cases hpayload : cutText? payload answerSeparator with
      | none => simp [hunasked, hpayload]
      | some cut => simp [hunasked, hpayload, Prod.ext_iff, and_assoc]

theorem ofText_eq_malformed_iff : ofText line = .malformed ↔ IsMalformed line := by
  simp only [IsMalformed, ← cutText?_answerSeparator_eq_some_iff]
  unfold ofText
  cases cutText? line answerSeparator with
  | none => simp
  | some cut =>
    obtain ⟨id, payload⟩ := cut
    by_cases hunasked : payload = unaskedPayload
    · simp [hunasked]
    · cases hpayload : cutText? payload answerSeparator with
      | none => simp [hunasked, hpayload]
      | some cut =>
        obtain ⟨kind, detail⟩ := cut
        simp [hunasked, hpayload]

theorem detailFor?_ofText_eq_some_iff :
    (ofText line).detailFor? key = some detail ↔ Gives line key detail := by
  rw [← ofText_eq_answer_iff]
  cases ofText line with
  | answer k d => by_cases hk : k = key <;> simp [detailFor?, hk]
  | chatter => simp [detailFor?]
  | unasked => simp [detailFor?]
  | malformed => simp [detailFor?]

end AnswerLine

theorem lastDetail?_eq_some_iff :
    lastDetail? stdout key = some detail ↔ GivesLast stdout key detail := by
  have hnone (line : String) : (AnswerLine.ofText line).detailFor? key = none ↔
      ∀ other, ¬ Gives line key other := by
    simp only [← AnswerLine.detailFor?_ofText_eq_some_iff, Option.eq_none_iff_forall_ne_some]
  rw [lastDetail?, List.getLast?_filterMap, List.findSome?_eq_some_iff]
  simp only [hnone, AnswerLine.detailFor?_ofText_eq_some_iff]
  constructor
  · rintro ⟨after, line, before, hlines, hgives, hlater⟩
    refine ⟨before.reverse, line, after.reverse, ?_, hgives, by simpa using hlater⟩
    rw [← List.reverse_reverse (textLines stdout), hlines]
    simp
  · rintro ⟨before, line, after, hlines, hgives, hlater⟩
    exact ⟨after.reverse, line, before.reverse, by simp [hlines], hgives, by simpa using hlater⟩

theorem isSome_lastDetail?_iff : (lastDetail? stdout key).isSome ↔ IsAnswered stdout key := by
  rw [lastDetail?, List.getLast?_filterMap, List.findSome?_isSome_iff]
  simp only [IsAnswered, List.mem_reverse, Option.isSome_iff_exists,
    AnswerLine.detailFor?_ofText_eq_some_iff]

instance : Decidable (IsAnswered stdout key) := decidable_of_iff _ isSome_lastDetail?_iff

instance : Decidable (IsMalformed line) := decidable_of_iff _ AnswerLine.ofText_eq_malformed_iff

theorem Answers.malformed_foldl_addLine (a : Answers) (lines : List String) :
    (lines.foldl addLine a).malformed = a.malformed ++ lines.filter fun line => IsMalformed line := by
  induction lines generalizing a with
  | nil => simp
  | cons line lines ih =>
    rw [List.foldl_cons, ih, List.filter_cons, addLine]
    simp only [← AnswerLine.ofText_eq_malformed_iff]
    cases h : AnswerLine.ofText line <;> simp

/-- The malformed lines are listed as they stand in the output. -/
theorem Answers.malformed_ofOutput (stdout : String) :
    (ofOutput stdout).malformed = (textLines stdout).filter fun line => IsMalformed line :=
  malformed_foldl_addLine _ _

end Lines

namespace Ledger

/-- A call on a ledger, which may fail. -/
abbrev Call (α : Type) := ExceptT Unanswered (StateM Ledger) α

/-- How a call on a ledger ends, and the ledger that it leaves. -/
def Call.on {α : Type} (call : Call α) (l : Ledger) : Except Unanswered α × Ledger :=
  Id.run (call.run.run l)

/-- Records the answer to each of some requests that has one, on the ledger itself. -/
def recordEach (answers : Answers) : List Request → Call Unit
  | [] => pure ()
  | r :: rest => do
    if let some detail := answers.detail? r then modify fun l => l.record r detail
    recordEach answers rest

/-- Answers all waiting requests on the ledger itself, and counts them. -/
def settleInPlace (output : CommandOutput) : Call Nat := do
  let answers := Answers.ofOutput output.stdout
  let pending := (← get).pending
  match (pending.filter fun r => (answers.detail? r).isNone).map (·.id) with
  | [] =>
    recordEach answers pending
    return pending.length
  | missing => throw ⟨missing, answers.malformed, output⟩

variable {α β : Type} {l l' : Ledger}

theorem on_get_bind {next : Ledger → Call β} : (get >>= next).on l = (next l).on l := rfl

theorem on_bind_ok {call : Call α} {next : α → Call β} {a : α} (h : call.on l = (.ok a, l')) :
    (call >>= next).on l = (next a).on l' := by
  have hrun : call.run.run l = (.ok a, l') := h
  unfold Call.on
  rw [ExceptT.run_bind, StateT.run_bind, hrun]
  rfl

theorem recordEach_on (answers : Answers) (requests : List Request) :
    (recordEach answers requests).on l = (.ok (), l.recordAll answers requests) := by
  induction requests generalizing l with
  | nil => rfl
  | cons r rest ih =>
    unfold recordEach recordAll
    cases h : answers.detail? r with
    | none =>
      rw [List.foldl_cons, h]
      exact ih
    | some detail =>
      rw [List.foldl_cons, h]
      exact ih

theorem settleInPlace_on (output : CommandOutput) : (settleInPlace output).on l =
    match l.settle output with
    | .ok (count, settled) => (.ok count, settled)
    | .error u => (.error u, l) := by
  rw [settleInPlace, on_get_bind, settle]
  dsimp only
  cases (l.pending.filter fun r => ((Answers.ofOutput output.stdout).detail? r).isNone).map (·.id)
    with
  | nil => exact on_bind_ok (recordEach_on _ _)
  | cons id ids => rfl

/-- What settling with success does to a ledger. -/
structure SettledBy (l : Ledger) (stdout : String) (l' : Ledger) : Prop where
  answered : ∀ r ∈ l.pending, ∃ detail, GivesLast stdout r.answerKey detail ∧
    l'.answer? r = some detail
  others : ∀ r ∉ l.pending, l'.answer? r = l.answer? r
  pending : l'.pending = l.pending

theorem settledBy_of_settle {output : CommandOutput} {count : Nat}
    (h : l.settle output = .ok (count, l')) : l.SettledBy output.stdout l' where
  answered := by
    intro r hr
    obtain ⟨detail, hlast, hanswer⟩ := answer?_of_settle h hr
    exact ⟨detail, lastDetail?_eq_some_iff.mp hlast, hanswer⟩
  others := fun r hr => answer?_of_settle_of_notMem h hr
  pending := by
    obtain ⟨-, -, rfl⟩ := settle_eq_ok_iff.mp h
    exact pending_recordAll _ _

theorem exists_settle_iff {output : CommandOutput} :
    (∃ count l', l.settle output = .ok (count, l')) ↔
      ∀ r ∈ l.pending, IsAnswered output.stdout r.answerKey := by
  simp only [settle_eq_ok_iff, Answers.detail?_ofOutput, isSome_lastDetail?_iff]
  simp

/-- The requests that are reported when settling fails, in ascending order, and the lines. -/
theorem eq_of_settle_eq_error {output : CommandOutput} {u : Unanswered}
    (h : l.settle output = .error u) : u = {
      missing := (l.pending.filter fun r => ¬ IsAnswered output.stdout r.answerKey).map (·.id)
      malformed := (textLines output.stdout).filter fun line => IsMalformed line
      output } := by
  have hanswered (r : Request) : ((Answers.ofOutput output.stdout).detail? r).isNone =
      decide ¬ IsAnswered output.stdout r.answerKey := by
    rw [Answers.detail?_ofOutput]
    simp only [← isSome_lastDetail?_iff]
    cases lastDetail? output.stdout r.answerKey <;> rfl
  unfold settle at h
  simp only [hanswered, Answers.malformed_ofOutput] at h
  split at h
  · cases h
  · exact (Except.error.inj h).symm

theorem pairwise_pending : l.pending.Pairwise fun r q => compare r q = .lt :=
  Std.TreeSet.ordered_toList

/-- Settling the waiting requests from the output of a query succeeds exactly when some line
answers each of them. It then gives each the detail of the last line that answers it, and
changes no other answer and nothing that waits. When it fails the ledger is as before, and
the report holds the ids of exactly the requests without an answer, in ascending order of the
requests, and exactly the malformed lines, in their order. -/
theorem settle_all_or_nothing (l : Ledger) (output : CommandOutput) :
    ((∃ count, ((settleInPlace output).on l).1 = .ok count) ↔
      ∀ r ∈ l.pending, IsAnswered output.stdout r.answerKey) ∧
    (∀ count l', (settleInPlace output).on l = (.ok count, l') →
      l.settle output = .ok (count, l') ∧ count = l.pending.length ∧
        l.SettledBy output.stdout l') ∧
    ∀ u l', (settleInPlace output).on l = (.error u, l') →
      l.settle output = .error u ∧ l' = l ∧ (l.pending.Pairwise fun r q => compare r q = .lt) ∧
      u.missing = (l.pending.filter fun r => ¬ IsAnswered output.stdout r.answerKey).map (·.id) ∧
      u.malformed = ((textLines output.stdout).filter fun line => IsMalformed line) ∧
      u.output = output := by
  rw [settleInPlace_on, ← exists_settle_iff]
  cases h : l.settle output with
  | error u =>
    refine ⟨by simp, nofun, ?_⟩
    rintro _ _ ⟨⟩
    obtain rfl := eq_of_settle_eq_error h
    exact ⟨rfl, rfl, pairwise_pending, rfl, rfl, rfl⟩
  | ok settled =>
    obtain ⟨count, l'⟩ := settled
    refine ⟨by simp, ?_, nofun⟩
    rintro _ _ ⟨⟩
    exact ⟨rfl, (settle_eq_ok_iff.mp h).2.1, settledBy_of_settle h⟩

end Ledger

end HybridBuild
