import HybridBuild.Proofs.Request.Uses
import Mathlib.Algebra.BigOperators.Fin
import Mathlib.Algebra.Order.BigOperators.Group.Finset
import Mathlib.Logic.Relation

/-!
# A ledger that callers share

Several callers ask one ledger for facts, each its own requests in its own order, and any of them
may be the next to make a call. No call changes what the ledger knows, so each is told what it
would be told alone, and what waits in the end does not depend on whose turn it was when.
-/
namespace HybridBuild.Ledger

structure Caller where
  made : List (Request × Option String)
  left : List Request

/-- A ledger and the callers that share it. -/
structure Shared (n : ℕ) where
  ledger : Ledger
  callers : Fin n → Caller

namespace Shared

variable {n : ℕ} {l : Ledger} {asks : Fin n → List Request} {s t : Shared n}

def start (l : Ledger) (asks : Fin n → List Request) : Shared n := ⟨l, fun i => ⟨[], asks i⟩⟩

def call (s : Shared n) (i : Fin n) (r : Request) (rest : List Request) : Shared n where
  ledger := (s.ledger.fact r).2
  callers := Function.update s.callers i
    ⟨(s.callers i).made ++ [(r, (s.ledger.fact r).1)], rest⟩

/-- Some caller makes its next call. -/
inductive Step : Shared n → Shared n → Prop where
  | call {s : Shared n} {i : Fin n} {r : Request} {rest : List Request}
    (turn : (s.callers i).left = r :: rest) : Step s (s.call i r rest)

/-- Callers take turns in some order. -/
abbrev Runs : Shared n → Shared n → Prop := Relation.ReflTransGen Step

/-- No caller has anything left to ask. -/
def Finished (s : Shared n) : Prop := ∀ i, (s.callers i).left = []

variable {i j : Fin n} {q r : Request} {rest : List Request}

theorem ledger_call : (s.call i r rest).ledger = s.ledger.ask r :=
  snd_fact s.ledger r

theorem callers_call_self : (s.call i r rest).callers i =
    ⟨(s.callers i).made ++ [(r, s.ledger.answer? r)], rest⟩ := by
  rw [← fst_fact]
  exact Function.update_self _ _ _

theorem callers_call_of_ne (h : j ≠ i) : (s.call i r rest).callers j = s.callers j :=
  Function.update_of_ne h _ _

def Asked (s : Shared n) (q : Request) : Prop := ∃ i, q ∈ (s.callers i).made.map Prod.fst

theorem asked_call_iff : (s.call i r rest).Asked q ↔ s.Asked q ∨ q = r := by
  have hself : q ∈ ((s.call i r rest).callers i).made.map Prod.fst ↔
      q ∈ (s.callers i).made.map Prod.fst ∨ q = r := by
    rw [callers_call_self]
    simp
  constructor
  · rintro ⟨j, hq⟩
    by_cases hj : j = i
    · subst hj
      exact (hself.mp hq).imp_left fun hq => ⟨j, hq⟩
    · rw [callers_call_of_ne hj] at hq
      exact .inl ⟨j, hq⟩
  · rintro (⟨j, hq⟩ | hq)
    · by_cases hj : j = i
      · subst hj
        exact ⟨j, hself.mpr (.inl hq)⟩
      · exact ⟨j, by rwa [callers_call_of_ne hj]⟩
    · exact ⟨i, hself.mpr (.inr hq)⟩

/-- What holds while callers with given requests share a ledger. -/
structure Agrees (l : Ledger) (asks : Fin n → List Request) (s : Shared n) : Prop where
  order : ∀ i, (s.callers i).made.map Prod.fst ++ (s.callers i).left = asks i
  told : ∀ i, ∀ call ∈ (s.callers i).made, call.2 = l.answer? call.1
  answers : s.ledger.answers = l.answers
  waiting : ∀ q, q ∈ s.ledger.pending ↔ q ∈ l.pending ∨ s.Asked q ∧ l.answer? q = none

theorem agrees_start (l : Ledger) (asks : Fin n → List Request) :
    (start l asks).Agrees l asks where
  order := fun _ => rfl
  told := fun _ _ h => nomatch h
  answers := rfl
  waiting := by simp [start, Asked]

theorem Agrees.answer?_eq (h : s.Agrees l asks) (q : Request) :
    s.ledger.answer? q = l.answer? q := by
  unfold answer?
  rw [h.answers]

/-- Every call keeps to what holds, whoever makes it. -/
theorem Agrees.call (h : s.Agrees l asks) (turn : (s.callers i).left = r :: rest) :
    (s.call i r rest).Agrees l asks where
  order j := by
    by_cases hj : j = i
    · subst hj
      rw [callers_call_self, ← h.order, turn]
      simp
    · rw [callers_call_of_ne hj, h.order]
  told j := by
    by_cases hj : j = i
    · subst hj
      rw [callers_call_self, h.answer?_eq]
      intro call hcall
      rcases List.mem_append.mp hcall with hcall | hcall
      · exact h.told j call hcall
      · obtain rfl := List.mem_singleton.mp hcall
        rfl
    · rw [callers_call_of_ne hj]
      exact h.told j
  answers := by rw [ledger_call, answers_ask, h.answers]
  waiting q := by
    rw [ledger_call, mem_pending_ask, h.waiting, h.answer?_eq, asked_call_iff, or_and_right,
      or_assoc]

/-- In whatever order the callers take turns, every call keeps to what holds. -/
theorem Agrees.run (h : s.Agrees l asks) (hrun : Runs s t) : t.Agrees l asks := by
  induction hrun with
  | refl => exact h
  | tail _ hstep ih =>
    cases hstep with
    | call turn => exact ih.call turn

/-- In the end each caller has asked all its requests, and has the answers of the first ledger. -/
theorem Agrees.made_of_finished (h : s.Agrees l asks) (hend : s.Finished) (i : Fin n) :
    (s.callers i).made = (asks i).map fun r => (r, l.answer? r) := by
  have horder : (s.callers i).made.map Prod.fst = asks i := by
    rw [← h.order i, hend i, List.append_nil]
  rw [← horder, List.map_map]
  refine (List.map_id _).symm.trans (List.map_congr_left fun call hcall => ?_)
  exact Prod.ext rfl (h.told i call hcall)

theorem Agrees.asked_iff_of_finished (h : s.Agrees l asks) (hend : s.Finished) :
    s.Asked q ↔ ∃ i, q ∈ asks i := by
  refine exists_congr fun i => ?_
  rw [← h.order i, hend i, List.append_nil]

/-- The number of calls that are still to come. -/
def remaining (s : Shared n) : ℕ := ∑ i, (s.callers i).left.length

theorem remaining_call_lt (turn : (s.callers i).left = r :: rest) :
    (s.call i r rest).remaining < s.remaining := by
  refine Finset.sum_lt_sum (fun j _ => ?_) ⟨i, Finset.mem_univ i, ?_⟩
  · by_cases hj : j = i
    · subst hj
      simp [callers_call_self, turn]
    · rw [callers_call_of_ne hj]
  · simp [callers_call_self, turn]

/-- Callers that take turns come to an end, whatever they did so far. -/
theorem exists_finished (s : Shared n) : ∃ t, Runs s t ∧ t.Finished := by
  induction hcount : s.remaining using Nat.strongRecOn generalizing s with
  | ind count ih =>
    by_cases hend : s.Finished
    · exact ⟨s, .refl, hend⟩
    · obtain ⟨i, hi⟩ := not_forall.mp hend
      obtain ⟨r, rest, turn⟩ := List.exists_cons_of_ne_nil hi
      obtain ⟨t, hrun, ht⟩ := ih _ (hcount ▸ remaining_call_lt turn) (s.call i r rest) rfl
      exact ⟨t, .head (.call turn) hrun, ht⟩

end Shared

/-- Several callers share a ledger, and each asks for facts in its own order. They can always come
to the end of their requests, and in whatever order they take turns, each is told what it would be
told alone, what the ledger knows stays as it was, and in the end there wait the requests that
waited before and those that were asked for without an answer, the same ones for every order.
When a ledger is used in any way, it answers each request with the text that was recorded for it
last, and with the answer from before when there is none. A request with an answer waits only
while it has waited before and nothing is cleared. Clearing the queue changes no answer, and the
waiting requests are always listed in strictly ascending order, each of them once. -/
theorem requests_commute (l : Ledger) :
    (∀ (n : ℕ) (asks : Fin n → List Request),
      (∃ s, Shared.Runs (.start l asks) s ∧ s.Finished) ∧
      ∀ s : Shared n, Shared.Runs (.start l asks) s → s.Finished →
        (∀ i, (s.callers i).made = (asks i).map fun r => (r, (l.fact r).1)) ∧
        s.ledger.answers = l.answers ∧
        (∀ q, q ∈ s.ledger.pending ↔ q ∈ l.pending ∨ (∃ i, q ∈ asks i) ∧ l.answer? q = none) ∧
        ∀ t : Shared n, Shared.Runs (.start l asks) t → t.Finished →
          t.ledger.pending = s.ledger.pending) ∧
    ∀ uses : List Use,
      (∀ q text, ((l.after uses).fact q).1 = some text ↔
        RecordsLast uses q text ∨ (∀ other, .record q other ∉ uses) ∧ l.answer? q = some text) ∧
      (∀ q, (l.answer? q).isSome →
        (q ∈ (l.after uses).pending ↔ q ∈ l.pending ∧ .clear ∉ uses)) ∧
      (∀ later q, ((l.after (uses ++ .clear :: later)).fact q).1 =
        ((l.after (uses ++ later)).fact q).1) ∧
      ((l.after uses).pending.Pairwise fun r q => compare r q = .lt) ∧
      (l.after uses).pending.Nodup := by
  simp only [fst_fact]
  constructor
  · intro n asks
    refine ⟨Shared.exists_finished _, fun s hrun hend => ?_⟩
    have hs : s.Agrees l asks := (Shared.agrees_start l asks).run hrun
    refine ⟨hs.made_of_finished hend, hs.answers, fun q => ?_, fun t hrun' hend' => ?_⟩
    · rw [hs.waiting, hs.asked_iff_of_finished hend]
    · have ht : t.Agrees l asks := (Shared.agrees_start l asks).run hrun'
      refine eq_of_ascending pairwise_pending pairwise_pending fun q => ?_
      rw [ht.waiting, ht.asked_iff_of_finished hend', hs.waiting, hs.asked_iff_of_finished hend]
  · intro uses
    refine ⟨fun q text => answer?_after_eq_some_iff, fun q hq => mem_pending_after_of_isSome hq,
      fun later q => ?_, pairwise_pending, nodup_pending⟩
    have hanswers : (l.after (uses ++ .clear :: later)).answers =
        (l.after (uses ++ later)).answers := by
      rw [after_append, after_append, after_cons]
      exact answers_after_congr rfl
    unfold answer?
    rw [hanswers]

def appFiles : Request := ⟨"//pkg:app", "getOutputFiles", .arm64⟩

def libFiles : Request := ⟨"//pkg:lib", "getOutputFiles", .arm64⟩

/-- A ledger that was told an answer to a request while it waited. -/
def answeredInQueue : Ledger := ((∅ : Ledger).ask libFiles).record libFiles "lib.so"

/-- Two callers ask for the same facts in opposite orders. The request that has its answer waits
on, until the queue is cleared. -/
theorem requests_commute_twoCallers :
    (∃ s : Shared 2, Shared.Runs
        (.start answeredInQueue ![[libFiles, appFiles], [appFiles, libFiles]]) s ∧
      s.Finished ∧ (s.callers 0).made = [(libFiles, some "lib.so"), (appFiles, none)] ∧
      (s.callers 1).made = [(appFiles, none), (libFiles, some "lib.so")] ∧
      s.ledger.pending = [appFiles, libFiles]) ∧
    libFiles ∉ (answeredInQueue.after [.clear, .fact libFiles]).pending := by
  obtain ⟨hcallers, huses⟩ := requests_commute answeredInQueue
  obtain ⟨⟨s, hrun, hend⟩, hall⟩ :=
    hcallers 2 ![[libFiles, appFiles], [appFiles, libFiles]]
  obtain ⟨hmade, -, hpending, -⟩ := hall s hrun hend
  obtain ⟨-, hqueued, -⟩ := huses [.clear, .fact libFiles]
  refine ⟨⟨s, hrun, hend, (hmade 0).trans rfl, (hmade 1).trans rfl, ?_⟩, ?_⟩
  · have hordered : [appFiles, libFiles].Pairwise fun r q => compare r q = .lt := by decide
    have hwaited : answeredInQueue.pending = [libFiles] := rfl
    have hunknown : answeredInQueue.answer? appFiles = none := rfl
    refine eq_of_ascending pairwise_pending hordered fun q => ?_
    rw [hpending, hwaited, Fin.exists_fin_two]
    by_cases hq : q = appFiles
    · simp [hq, hunknown]
    · simpa [hq] using fun hlib _ => hlib
  · rw [hqueued libFiles rfl]
    simp

end HybridBuild.Ledger
