import HybridBuild.Proofs.Query.Answers

/-!
# What a ledger knows and what waits in it

Asking never changes an answer, and queues exactly the requests without one. Settling
succeeds when the output has an answer to every waiting request, and then records all
of these answers and nothing else.
-/
namespace HybridBuild.Ledger

variable {l : Ledger} {q r : Request}

theorem mem_pending : q ∈ l.pending ↔ q ∈ l.waiting := Std.TreeSet.mem_toList

@[simp] theorem pending_empty : (∅ : Ledger).pending = [] := rfl

@[simp] theorem answer?_empty : (∅ : Ledger).answer? q = none := rfl

@[simp] theorem pending_record (text : String) : (l.record r text).pending = l.pending := rfl

@[simp] theorem pending_clearPending : l.clearPending.pending = [] := rfl

theorem ask_of_isSome (h : (l.answer? r).isSome) : l.ask r = l := by
  rw [ask, if_pos (by simpa [answer?] using h)]

theorem mem_pending_ask :
    q ∈ (l.ask r).pending ↔ q ∈ l.pending ∨ q = r ∧ l.answer? q = none := by
  cases h : l.answer? r with
  | some text =>
    rw [ask_of_isSome (by simp [h])]
    constructor
    · exact .inl
    · rintro (hq | ⟨rfl, hq⟩)
      · exact hq
      · rw [h] at hq; cases hq
  | none =>
    have hc : ¬ l.answers.contains r = true := by simpa [answer?] using h
    rw [ask, if_neg hc]
    simp only [mem_pending, Std.TreeSet.mem_insert, Std.LawfulEqOrd.compare_eq_iff_eq]
    constructor
    · rintro (rfl | hq)
      · exact .inr ⟨rfl, h⟩
      · exact .inl hq
    · rintro (hq | ⟨rfl, -⟩)
      · exact .inr hq
      · exact .inl rfl

@[simp] theorem answer?_askAll (rs : List Request) : (l.askAll rs).answer? q = l.answer? q := by
  induction rs generalizing l with
  | nil => rfl
  | cons r rs ih => exact ih.trans (answer?_ask l r q)

theorem askAll_of_isSome {rs : List Request} (h : ∀ r ∈ rs, (l.answer? r).isSome) :
    l.askAll rs = l := by
  induction rs with
  | nil => rfl
  | cons r rs ih =>
    rw [askAll, List.foldl_cons, ask_of_isSome (h r List.mem_cons_self)]
    exact ih fun q hq => h q (List.mem_cons_of_mem r hq)

theorem askAll_append (rs qs : List Request) :
    l.askAll (rs ++ qs) = (l.askAll rs).askAll qs := List.foldl_append

/-- What waits after some requests: what waited, and those of them without an answer. -/
theorem mem_pending_askAll {rs : List Request} :
    q ∈ (l.askAll rs).pending ↔ q ∈ l.pending ∨ q ∈ rs ∧ l.answer? q = none := by
  induction rs generalizing l with
  | nil => simp [askAll]
  | cons r rs ih =>
    have hstep : q ∈ ((l.ask r).askAll rs).pending ↔
        (q ∈ l.pending ∨ q = r ∧ l.answer? q = none) ∨ q ∈ rs ∧ l.answer? q = none := by
      rw [ih, mem_pending_ask, answer?_ask]
    rw [List.mem_cons, or_and_right, ← or_assoc]
    exact hstep

@[simp] theorem pending_recordAll (a : Answers) (rs : List Request) :
    (l.recordAll a rs).pending = l.pending := by
  induction rs generalizing l with
  | nil => rfl
  | cons r rs ih =>
    rw [recordAll, List.foldl_cons]
    split
    · exact ih.trans (pending_record _)
    · exact ih

theorem answer?_recordAll (a : Answers) (rs : List Request) :
    (l.recordAll a rs).answer? q =
      if q ∈ rs then (a.detail? q).or (l.answer? q) else l.answer? q := by
  induction rs generalizing l with
  | nil => simp [recordAll]
  | cons r rs ih =>
    rw [recordAll, List.foldl_cons]
    change (recordAll _ a rs).answer? q = _
    rw [ih]
    by_cases hqr : q = r
    · subst hqr
      cases h : a.detail? q <;> simp
    · have hne : r ≠ q := fun h => hqr h.symm
      cases h : a.detail? r <;> simp [hqr, hne]

theorem settle_eq_ok_iff {output : CommandOutput} {count : Nat} {l' : Ledger} :
    l.settle output = .ok (count, l') ↔
      (∀ r ∈ l.pending, ((Answers.ofOutput output.stdout).detail? r).isSome) ∧
      count = l.pending.length ∧ l' = l.recordAll (Answers.ofOutput output.stdout) l.pending := by
  have hnil : (l.pending.filter fun r =>
        ((Answers.ofOutput output.stdout).detail? r).isNone).map (·.id) = [] ↔
      ∀ r ∈ l.pending, ((Answers.ofOutput output.stdout).detail? r).isSome := by
    simp only [List.map_eq_nil_iff, List.filter_eq_nil_iff, Bool.not_eq_true,
      Option.isNone_eq_false_iff]
  rw [← hnil]
  simp only [settle]
  split
  next h => simp [h, eq_comm]
  next missing h =>
    constructor
    · rintro ⟨⟩
    · exact fun hall => absurd hall.1 h

/-- A settled request has the detail that the output gives last. -/
theorem answer?_of_settle {output : CommandOutput} {count : Nat} {l' : Ledger}
    (h : l.settle output = .ok (count, l')) (hr : r ∈ l.pending) :
    ∃ detail, lastDetail? output.stdout r.answerKey = some detail ∧
      l'.answer? r = some detail := by
  obtain ⟨hall, -, rfl⟩ := settle_eq_ok_iff.mp h
  obtain ⟨detail, hd⟩ := Option.isSome_iff_exists.mp (hall r hr)
  refine ⟨detail, ?_, by simp [answer?_recordAll, hr, hd]⟩
  rw [← Answers.detail?_ofOutput, hd]

/-- Settling leaves all other requests as they were. -/
theorem answer?_of_settle_of_notMem {output : CommandOutput} {count : Nat} {l' : Ledger}
    (h : l.settle output = .ok (count, l')) (hr : r ∉ l.pending) :
    l'.answer? r = l.answer? r := by
  obtain ⟨-, -, rfl⟩ := settle_eq_ok_iff.mp h
  rw [answer?_recordAll, if_neg hr]

end HybridBuild.Ledger
