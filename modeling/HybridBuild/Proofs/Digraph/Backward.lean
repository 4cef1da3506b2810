import HybridBuild.Proofs.Digraph.TopoSort

/-!
# The second check as a search

The order of a graph is checked by searching against the edges from its nodes in turn, each
search passing over all nodes that were met before. As long as every search meets only the
node that it starts from, the nodes met are those that stand before; so the first search that
meets a second node starts at the first node with a predecessor out of place, and the second
node is the predecessor that was put on the stack last.
-/
namespace HybridBuild.Digraph

variable {n : Nat} {g : Digraph n}

/-- The nodes that a search against the edges meets from the stack, in the order in which it
meets them; the nodes `met` are passed over. -/
def backward (g : Digraph n) (met stack : List (Fin n)) : List (Fin n) :=
  match stack with
  | [] => []
  | v :: rest =>
    if _met : v ∈ met then backward g met rest
    else
      let next := (g.predecessors v).filter fun w => !(v :: met).contains w
      v :: backward g (v :: met) (next.reverse ++ rest)
termination_by (countUnmet (List.finRange n) met, stack.length)
decreasing_by
  · exact Prod.Lex.right _ (Nat.lt_succ_self _)
  · exact Prod.Lex.left _ _ (countUnmet_cons_lt (List.mem_finRange v) (by assumption))

/-- The second node that some search meets, of the searches from the nodes of a list in turn. -/
def secondMet? (g : Digraph n) (met : List (Fin n)) : List (Fin n) → Option (Fin n)
  | [] => none
  | v :: rest =>
    match backward g met [v] with
    | _ :: w :: _ => some w
    | alone => secondMet? g (alone ++ met) rest

theorem backward_of_notMem {met rest : List (Fin n)} {v : Fin n} (h : v ∉ met) :
    backward g met (v :: rest) = v :: backward g (v :: met)
      (((g.predecessors v).filter fun w => !(v :: met).contains w).reverse ++ rest) := by
  rw [backward, dif_neg h]

/-- The first node that the search meets after `v` is the predecessor put on the stack last. -/
theorem backward_start {met : List (Fin n)} {v : Fin n} (h : v ∉ met) :
    ∃ more, backward g met [v] = v :: more ∧
      more.head? = ((g.predecessors v).filter fun w => !(v :: met).contains w).getLast? := by
  refine ⟨_, backward_of_notMem h, ?_⟩
  rw [List.append_nil]
  cases hlast : ((g.predecessors v).filter fun w => !(v :: met).contains w).getLast? with
  | none =>
    rw [List.getLast?_eq_none_iff.mp hlast, List.reverse_nil, backward]
    rfl
  | some w =>
    obtain ⟨front, hfront⟩ := List.getLast?_eq_some_iff.mp hlast
    have hnew : w ∉ v :: met := by
      have hmem := List.mem_of_getLast? hlast
      simpa using (List.mem_filter.mp hmem).2
    rw [hfront, List.reverse_concat, backward_of_notMem hnew]
    rfl

/-- In a list that holds no node twice, the searches report the first disorder. -/
theorem secondMet?_eq_misplaced? {before rest : List (Fin n)} (hnd : (before ++ rest).Nodup) :
    g.secondMet? before rest = g.misplaced? before rest := by
  induction rest generalizing before with
  | nil => rfl
  | cons v rest ih =>
    have hv : v ∉ before := fun hmem =>
      (List.nodup_append.mp hnd).2.2 v hmem v List.mem_cons_self rfl
    obtain ⟨more, hsearch, hhead⟩ := backward_start (g := g) hv
    rw [secondMet?, misplaced?, ← hhead, hsearch]
    cases more with
    | cons w more => rfl
    | nil => exact ih (List.nodup_middle.mp hnd)

/-- The sort reports a node that is its own successor, as soon as the first search meets one,
or else the second node that one of the searches back from its order meets. -/
theorem topoSort_eq_error_iff {v : Fin n} : g.topoSort = .error v ↔
    g.reverseFinish = .error v ∨
      ∃ order, g.reverseFinish = .ok order ∧ g.secondMet? [] order = some v := by
  rw [topoSort_eq_error_iff_misplaced?]
  refine or_congr_right (exists_congr fun order => and_congr_right fun hr => ?_)
  have hnd : order.Nodup := (reverseFinish_ok hr).1.nodup_iff.mpr (List.nodup_finRange n)
  have hcheck : g.secondMet? [] order = g.misplaced? [] order := secondMet?_eq_misplaced? hnd
  rw [hcheck]

end HybridBuild.Digraph
