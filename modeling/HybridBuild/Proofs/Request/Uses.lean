import HybridBuild.Proofs.Distinct
import HybridBuild.Proofs.Query.Settling

/-!
# What a ledger says over its life

A ledger is asked for facts, told answers, and has its queue cleared. What it says of a request is
the text that it was told last, whatever else happened in between. A request waits when it was
asked for while it had no text and the queue has not been cleared since, so a request that has a
text never comes back to the queue.
-/
namespace HybridBuild.Ledger

/-- Asks for one fact: its text when it is known; otherwise the request waits for one. -/
def fact (l : Ledger) (r : Request) : Option String × Ledger :=
  match l.answers[r]? with
  | some text => (some text, l)
  | none => (none, { l with waiting := l.waiting.insert r })

/-- A use of a ledger. -/
inductive Use where
  | fact (r : Request)
  | record (r : Request) (text : String)
  | clear
  deriving DecidableEq, Repr

/-- The ledger after a use. -/
def next (l : Ledger) : Use → Ledger
  | .fact r => (l.fact r).2
  | .record r text => l.record r text
  | .clear => l.clearPending

def after (l : Ledger) (uses : List Use) : Ledger := uses.foldl next l

/-- The last text that some uses record for a request. -/
def RecordsLast (uses : List Use) (r : Request) (text : String) : Prop :=
  ∃ before later, uses = before ++ .record r text :: later ∧ ∀ other, .record r other ∉ later

variable {l l' : Ledger} {q r : Request} {text : String} {use : Use} {uses : List Use}

/-- Asking for a fact is looking for its answer, and asking. -/
theorem fact_eq (l : Ledger) (r : Request) : l.fact r = (l.answer? r, l.ask r) := by
  unfold fact ask
  rw [Std.TreeMap.contains_eq_isSome_getElem?]
  unfold answer?
  cases l.answers[r]? <;> rfl

@[simp] theorem fst_fact (l : Ledger) (r : Request) : (l.fact r).1 = l.answer? r :=
  congrArg Prod.fst (fact_eq l r)

@[simp] theorem snd_fact (l : Ledger) (r : Request) : (l.fact r).2 = l.ask r :=
  congrArg Prod.snd (fact_eq l r)

@[simp] theorem after_cons : l.after (use :: uses) = (l.next use).after uses := rfl

theorem after_append (before later : List Use) :
    l.after (before ++ later) = (l.after before).after later := List.foldl_append

@[simp] theorem answers_ask : (l.ask r).answers = l.answers := by
  unfold ask
  split <;> rfl

/-- What a ledger knows after a use hangs on nothing but what it knew. -/
theorem answers_next_congr (h : l.answers = l'.answers) :
    (l.next use).answers = (l'.next use).answers := by
  cases use with
  | fact r => simp [next, h]
  | record r text => simp [next, record, h]
  | clear => exact h

theorem answers_after_congr (h : l.answers = l'.answers) :
    (l.after uses).answers = (l'.after uses).answers := by
  induction uses generalizing l l' with
  | nil => exact h
  | cons use rest ih => exact ih (answers_next_congr h)

theorem answer?_next_of_ne (h : ∀ text, use ≠ .record q text) :
    (l.next use).answer? q = l.answer? q := by
  cases use with
  | fact r => simp [next]
  | record r text =>
    have hne : r ≠ q := fun heq => h text (by rw [heq])
    simp [next, hne]
  | clear => rfl

@[simp] theorem answer?_next_record : (l.next (.record q text)).answer? q = some text := by
  simp [next]

theorem recordsLast_cons_iff : RecordsLast (use :: uses) q text ↔
    use = .record q text ∧ (∀ other, .record q other ∉ uses) ∨ RecordsLast uses q text :=
  exists_split_cons_iff

/-- A request has the text that was recorded last, and the one that it had when none was. -/
theorem answer?_after_eq_some_iff : (l.after uses).answer? q = some text ↔
    RecordsLast uses q text ∨ (∀ other, .record q other ∉ uses) ∧ l.answer? q = some text := by
  induction uses generalizing l with
  | nil => simp [after, RecordsLast]
  | cons use rest ih =>
    rw [after_cons, ih, recordsLast_cons_iff]
    by_cases huse : ∃ first, use = .record q first
    · obtain ⟨first, rfl⟩ := huse
      have hhead : ¬ ((∀ other, Use.record q other ∉ .record q first :: rest) ∧
          l.answer? q = some text) := fun h => h.1 first List.mem_cons_self
      rw [answer?_next_record, or_iff_left hhead]
      simp [and_comm, or_comm]
    · rw [not_exists] at huse
      have hhead : (∀ other, Use.record q other ∉ use :: rest) ↔
          ∀ other, Use.record q other ∉ rest := by
        simp [List.mem_cons, fun other => Ne.symm (huse other)]
      rw [answer?_next_of_ne huse, hhead]
      simp [huse]

/-- A text never gets lost. -/
theorem isSome_answer?_next (h : (l.answer? q).isSome) : ((l.next use).answer? q).isSome := by
  by_cases huse : ∃ text, use = .record q text
  · obtain ⟨text, rfl⟩ := huse
    simp
  · rw [not_exists] at huse
    rwa [answer?_next_of_ne huse]

theorem isSome_answer?_after (h : (l.answer? q).isSome) : ((l.after uses).answer? q).isSome := by
  induction uses generalizing l with
  | nil => exact h
  | cons use rest ih => exact ih (isSome_answer?_next h)

theorem mem_pending_next : q ∈ (l.next use).pending ↔
    use ≠ .clear ∧ q ∈ l.pending ∨ use = .fact q ∧ l.answer? q = none := by
  cases use with
  | fact r =>
    rw [next, snd_fact, mem_pending_ask]
    simp [eq_comm]
  | record r text => simp [next]
  | clear => simp [next]

/-- What waits after some uses: what waited and was not cleared, and what was asked for without a
text and was not cleared since. -/
theorem mem_pending_after : q ∈ (l.after uses).pending ↔ q ∈ l.pending ∧ .clear ∉ uses ∨
    ∃ before later, uses = before ++ .fact q :: later ∧ .clear ∉ later ∧
      (l.after before).answer? q = none := by
  induction uses generalizing l with
  | nil => simp [after]
  | cons use rest ih =>
    rw [after_cons, ih, mem_pending_next, exists_split_cons_iff, List.mem_cons]
    have hstart : l.after [] = l := rfl
    by_cases hclear : use = .clear
    · simp [hclear]
    · have hne : Use.clear ≠ use := Ne.symm hclear
      simp only [after_cons, hstart, hne]
      tauto

/-- A request with a text is not queued; it waits only while nothing is cleared. -/
theorem mem_pending_after_of_isSome (h : (l.answer? q).isSome) :
    q ∈ (l.after uses).pending ↔ q ∈ l.pending ∧ .clear ∉ uses := by
  rw [mem_pending_after, or_iff_left]
  rintro ⟨before, later, -, -, hnone⟩
  have hsome : ((l.after before).answer? q).isSome := isSome_answer?_after h
  rw [hnone] at hsome
  cases hsome

theorem nodup_pending : l.pending.Nodup := nodup_toList l.waiting

end HybridBuild.Ledger
