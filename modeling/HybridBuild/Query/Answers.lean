import HybridBuild.Query.Kind
import HybridBuild.Request.Ledger
import HybridBuild.Text.Lines
/-!
# Answers in the output of a query

Each line of interest reads `id>>kind>>detail`, and a target nobody asked about
reads `id>>NONE`. Lines without a separator are chatter; a line with an id and no
kind is malformed. The last answer to an id and kind counts. The waiting requests
of a ledger are settled together: either each of them has an answer, or nothing
is recorded.
-/
namespace HybridBuild

structure CommandOutput where
  stdout : String
  stderr : String
  deriving DecidableEq, Repr, Inhabited

/-- What an answer is given to. -/
structure AnswerKey where
  id : String
  kind : String
  deriving DecidableEq, Repr

namespace AnswerKey

/-- Answer keys are ordered by id, then kind. -/
instance : Ord AnswerKey := ⟨compareLex (compareOn id) (compareOn kind)⟩

instance : Std.TransOrd AnswerKey :=
  inferInstanceAs (Std.TransCmp (compareLex (compareOn id) (compareOn kind)))

instance : Std.LawfulEqOrd AnswerKey where
  eq_of_compare {a b} h := by
    obtain ⟨i, k⟩ := a
    obtain ⟨i', k'⟩ := b
    change compareLex (compareOn id) (compareOn kind) _ _ = .eq at h
    simp only [compareLex_eq_eq, compareOn] at h
    rw [Std.LawfulEqOrd.eq_of_compare h.1, Std.LawfulEqOrd.eq_of_compare h.2]

end AnswerKey

def Request.answerKey (r : Request) : AnswerKey := ⟨r.id, r.kind⟩

/-- One line of a query's output. -/
inductive AnswerLine where
  | chatter
  | unasked
  | malformed
  | answer (key : AnswerKey) (detail : String)
  deriving DecidableEq, Repr

/-- The payload of a target nobody asked about. -/
def unaskedPayload : String := "NONE"

def AnswerLine.ofText (line : String) : AnswerLine :=
  match cutText? line answerSeparator with
  | none => .chatter
  | some (id, payload) =>
    if payload = unaskedPayload then .unasked
    else match cutText? payload answerSeparator with
      | none => .malformed
      | some (kind, detail) => .answer ⟨id, kind⟩ detail

/-- The answers of a query's output, and its malformed lines in order. -/
structure Answers where
  details : Std.TreeMap AnswerKey String
  malformed : List String

namespace Answers

def addLine (a : Answers) (line : String) : Answers :=
  match AnswerLine.ofText line with
  | .chatter | .unasked => a
  | .malformed => { a with malformed := a.malformed ++ [line] }
  | .answer key detail => { a with details := a.details.insert key detail }

def ofOutput (stdout : String) : Answers :=
  (textLines stdout).foldl addLine ⟨∅, []⟩

/-- The detail of the last answer to a request. -/
def detail? (a : Answers) (r : Request) : Option String := a.details[r.answerKey]?

end Answers

/-- A query left requests without an answer: their ids, the malformed lines, and
all that the query wrote. -/
structure Unanswered where
  missing : List String
  malformed : List String
  output : CommandOutput
  deriving DecidableEq, Repr

def Unanswered.message (u : Unanswered) : String :=
  let missing := ", ".intercalate u.missing
  let malformed := "; ".intercalate u.malformed
  s!"missing result for bazel target(s) {missing}. malformed lines: [{malformed}], " ++
    s!"query output: [{u.output.stdout}], cquery err: [{u.output.stderr}]"

namespace Ledger

/-- Records the answer to each of some requests that has one. -/
def recordAll (l : Ledger) (answers : Answers) (requests : List Request) : Ledger :=
  requests.foldl
    (fun l r => match answers.detail? r with
      | some detail => l.record r detail
      | none => l)
    l

/-- Answers all waiting requests from the output of a query, and counts them;
they keep waiting. If one has no answer, nothing is recorded. -/
def settle (l : Ledger) (output : CommandOutput) : Except Unanswered (Nat × Ledger) :=
  let answers := Answers.ofOutput output.stdout
  match (l.pending.filter fun r => (answers.detail? r).isNone).map (·.id) with
  | [] => .ok (l.pending.length, l.recordAll answers l.pending)
  | missing => .error ⟨missing, answers.malformed, output⟩

end Ledger

end HybridBuild
