import HybridBuild.Request.Basic
/-!
# The ledger of requests

A ledger holds the answers known so far and the requests that still wait for one.
Asking for a known fact answers it; asking for any other queues the request,
once. Only recording an answer makes a fact known, and it stays known when the
queue is cleared.
-/
namespace HybridBuild

/-- Answered and waiting requests. A request may be both, when its answer was
recorded while it waited. -/
structure Ledger where
  waiting : Std.TreeSet Request
  answers : Std.TreeMap Request String

namespace Ledger

def empty : Ledger := ⟨∅, ∅⟩

instance : EmptyCollection Ledger := ⟨empty⟩

/-- The answer to a request, if it is known. -/
def answer? (l : Ledger) (r : Request) : Option String := l.answers[r]?

/-- The ledger after a request has been asked: it waits unless its answer is
known. -/
def ask (l : Ledger) (r : Request) : Ledger :=
  if l.answers.contains r then l else { l with waiting := l.waiting.insert r }

/-- The ledger after some requests have been asked in turn. -/
def askAll (l : Ledger) (requests : List Request) : Ledger := requests.foldl ask l

/-- The waiting requests in ascending order. -/
def pending (l : Ledger) : List Request := l.waiting.toList

def record (l : Ledger) (r : Request) (text : String) : Ledger :=
  { l with answers := l.answers.insert r text }

def clearPending (l : Ledger) : Ledger := { l with waiting := ∅ }

/-- Asking answers a request that is known and no other. -/
@[simp] theorem answer?_ask (l : Ledger) (r q : Request) :
    (l.ask r).answer? q = l.answer? q := by
  unfold ask; split <;> rfl

@[simp] theorem answer?_record (l : Ledger) (r q : Request) (text : String) :
    (l.record r text).answer? q = if r = q then some text else l.answer? q := by
  simp [record, answer?, Std.TreeMap.getElem?_insert]

@[simp] theorem answer?_clearPending (l : Ledger) (q : Request) :
    l.clearPending.answer? q = l.answer? q := rfl

end Ledger

end HybridBuild
