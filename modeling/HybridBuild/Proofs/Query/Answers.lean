import HybridBuild.Query.Answers

/-!
# The last answer counts

Reading an output line by line comes to looking, for each id and kind, at the last
line that answers them.
-/
namespace HybridBuild

/-- The detail that a line gives to a key. -/
def AnswerLine.detailFor? (key : AnswerKey) : AnswerLine → Option String
  | .answer k detail => if k = key then some detail else none
  | .chatter | .unasked | .malformed => none

/-- The detail of the last line of an output that answers a key. -/
def lastDetail? (stdout : String) (key : AnswerKey) : Option String :=
  ((textLines stdout).filterMap fun line => (AnswerLine.ofText line).detailFor? key).getLast?

namespace Answers

theorem details_addLine (a : Answers) (line : String) (key : AnswerKey) :
    (a.addLine line).details[key]? =
      ((AnswerLine.ofText line).detailFor? key).or a.details[key]? := by
  unfold addLine
  cases h : AnswerLine.ofText line with
  | chatter => rfl
  | unasked => rfl
  | malformed => rfl
  | answer k detail =>
    simp only [AnswerLine.detailFor?, Std.TreeMap.getElem?_insert,
      Std.LawfulEqOrd.compare_eq_iff_eq]
    split <;> rfl

/-- Lines read after others win over them. -/
theorem details_foldl_addLine (a : Answers) (lines : List String) (key : AnswerKey) :
    (lines.foldl addLine a).details[key]? =
      ((lines.filterMap fun line => (AnswerLine.ofText line).detailFor? key).getLast?).or
        a.details[key]? := by
  induction lines generalizing a with
  | nil => rfl
  | cons line lines ih =>
    rw [List.foldl_cons, ih, details_addLine, List.filterMap_cons]
    cases (AnswerLine.ofText line).detailFor? key with
    | none => rfl
    | some detail =>
      rw [List.getLast?_cons]
      cases (lines.filterMap _).getLast? <;> rfl

theorem detail?_ofOutput (stdout : String) (r : Request) :
    (ofOutput stdout).detail? r = lastDetail? stdout r.answerKey := by
  rw [detail?, ofOutput, details_foldl_addLine]
  simp [lastDetail?]

end Answers

end HybridBuild
