import HybridBuild.Digraph.Basic
import HybridBuild.Unmet
/-!
# Topological order

A depth-first search from every node in turn lists the nodes in the order in
which it finishes them; read backwards, that list puts every node before its
successors, unless the graph has a cycle. The search keeps its own stack, and
gives up at a node that is its own successor. A second pass then checks the
order: the first node with a predecessor that does not stand before it lies on a
cycle with that predecessor, and of such predecessors the one with the oldest
edge is reported.
-/
namespace HybridBuild.Digraph

variable {n : Nat}

/-- The nodes met and the nodes finished by a search, latest first. -/
structure Search (n : Nat) where
  met : List (Fin n)
  finished : List (Fin n)

/-- Searches on from the stack. The node on top is met: its successors that are
not yet met go on the stack above it. When it is on top again, it is finished
and leaves. A node that is its own successor ends the search. -/
def explore (g : Digraph n) (s : Search n) (stack : List (Fin n)) :
    Except (Fin n) (Search n) :=
  match stack with
  | [] => .ok s
  | v :: rest =>
    if _met : v ∈ s.met then
      explore g { s with finished := s.finished.insert v } rest
    else if v ∈ g.successors v then .error v
    else
      let met := v :: s.met
      let next := (g.successors v).filter fun w => !met.contains w
      explore g { s with met } (next.reverse ++ v :: rest)
termination_by (countUnmet (List.finRange n) s.met, stack.length)
decreasing_by
  · exact Prod.Lex.right _ (Nat.lt_succ_self _)
  · exact Prod.Lex.left _ _ (countUnmet_cons_lt (List.mem_finRange v) (by assumption))

/-- The nodes, each before the nodes that were finished before it, unless some
node is its own successor. -/
def reverseFinish (g : Digraph n) : Except (Fin n) (List (Fin n)) :=
  ((List.finRange n).foldlM (fun s v => explore g s [v]) ⟨[], []⟩).map Search.finished

/-- The first disorder in a list of nodes that follow the nodes `before`: a
predecessor of a node that stands neither before it nor in its place. -/
def misplaced? (g : Digraph n) (before : List (Fin n)) : List (Fin n) → Option (Fin n)
  | [] => none
  | v :: rest =>
    match ((g.predecessors v).filter fun w => !(v :: before).contains w).getLast? with
    | some w => some w
    | none => misplaced? g (v :: before) rest

/-- The nodes with every node before its successors, or a node on a cycle. -/
def topoSort (g : Digraph n) : Except (Fin n) (List (Fin n)) := do
  let order ← g.reverseFinish
  match g.misplaced? [] order with
  | some v => .error v
  | none => .ok order

end HybridBuild.Digraph
