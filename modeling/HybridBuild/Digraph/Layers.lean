import HybridBuild.Digraph.Basic
/-!
# Layers of a graph

Every node counts the edges that still lead to it. The nodes whose count is zero
form a layer; taking them away lowers the count of each successor once for every
edge, and the rest is layered in the same way. Nodes keep their order within a
layer. If no count is zero the rest lies behind a cycle, and there are no further
layers.
-/
namespace HybridBuild.Digraph

variable {n : Nat}

def inDegrees (g : Digraph n) : Vector Nat n :=
  Vector.ofFn fun v => (g.predecessors v).length

/-- The counts after one edge to `w` is gone. -/
def dropEdge (degrees : Vector Nat n) (w : Fin n) : Vector Nat n :=
  degrees.set w.val (degrees[w] - 1) w.isLt

/-- The counts after `v` has been taken away. -/
def release (g : Digraph n) (degrees : Vector Nat n) (v : Fin n) : Vector Nat n :=
  (g.successors v).foldl dropEdge degrees

/-- The nodes of a list that no edge leads to any more. -/
def ready (degrees : Vector Nat n) (nodes : List (Fin n)) : List (Fin n) :=
  nodes.filter fun v => degrees[v] = 0

/-- The nodes of a list that some edge still leads to. -/
def waiting (degrees : Vector Nat n) (nodes : List (Fin n)) : List (Fin n) :=
  nodes.filter fun v => degrees[v] ≠ 0

theorem length_waiting_lt {degrees : Vector Nat n} {nodes : List (Fin n)}
    (h : ready degrees nodes ≠ []) : (waiting degrees nodes).length < nodes.length := by
  obtain ⟨v, hv⟩ := List.exists_mem_of_ne_nil _ h
  rw [ready, List.mem_filter] at hv
  rw [waiting, List.length_filter_lt_length_iff_exists]
  exact ⟨v, hv.1, by simpa using hv.2⟩

/-- The layers of the nodes that remain, for the given counts. -/
def layersFrom (g : Digraph n) (degrees : Vector Nat n) (remaining : List (Fin n)) :
    List (List (Fin n)) :=
  if _some : ready degrees remaining ≠ [] then
    ready degrees remaining ::
      layersFrom g ((ready degrees remaining).foldl (release g) degrees)
        (waiting degrees remaining)
  else []
termination_by remaining.length
decreasing_by exact length_waiting_lt (by assumption)

/-- The layers of a graph, each node after all nodes that lead to it. -/
def layers (g : Digraph n) : List (List (Fin n)) :=
  g.layersFrom g.inDegrees (List.finRange n)

end HybridBuild.Digraph
