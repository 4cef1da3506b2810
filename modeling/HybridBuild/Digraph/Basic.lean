/-!
# Directed graphs

The nodes of a graph are numbered, and its edges stand in the order in which they
were added; parallel edges count. Neighbours are listed from the edge added last
to the one added first, which fixes the order of every search.
-/
namespace HybridBuild

structure Digraph (n : Nat) where
  edges : List (Fin n × Fin n)

namespace Digraph

variable {n : Nat}

/-- The nodes that an edge leads to from `v`, latest edge first. -/
def successors (g : Digraph n) (v : Fin n) : List (Fin n) :=
  (g.edges.reverse.filter fun e => e.1 = v).map Prod.snd

/-- The nodes that an edge leads from to `v`, latest edge first. -/
def predecessors (g : Digraph n) (v : Fin n) : List (Fin n) :=
  (g.edges.reverse.filter fun e => e.2 = v).map Prod.fst

@[simp] theorem mem_successors {g : Digraph n} {v w : Fin n} :
    w ∈ g.successors v ↔ (v, w) ∈ g.edges := by
  simp [successors]

@[simp] theorem mem_predecessors {g : Digraph n} {v w : Fin n} :
    w ∈ g.predecessors v ↔ (w, v) ∈ g.edges := by
  simp [predecessors]

end Digraph

end HybridBuild
