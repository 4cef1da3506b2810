import HybridBuild.Digraph.Layers
import HybridBuild.Proofs.Digraph.TopoSort
import Mathlib.Data.Fintype.EquivFin
import Mathlib.Order.WellFounded

/-!
# Layers of an acyclic graph

The count of a node is the number of edges that lead to it from the nodes that remain.
Among the nodes that remain of an acyclic graph some node has no such edge, so the
layering goes on until nothing remains, and the layers hold every node once.
-/
namespace HybridBuild.Digraph

variable {n : Nat} {g : Digraph n}

/-- A test that splits into two is passed as often as the two together. -/
theorem countP_add_countP {α : Type} {p q r : α → Bool}
    (h : ∀ a, (p a).toNat + (q a).toNat = (r a).toNat) (l : List α) :
    l.countP p + l.countP q = l.countP r := by
  induction l with
  | nil => rfl
  | cons a l ih =>
    have ha := h a
    simp only [List.countP_cons, ← ih]
    cases hp : p a <;> cases hq : q a <;> cases hr : r a <;> simp [hp, hq, hr] at ha ⊢ <;> omega

/-- The number of edges that lead to `v` from the nodes of a list. -/
def edgesInto (g : Digraph n) (nodes : List (Fin n)) (v : Fin n) : Nat :=
  g.edges.countP fun e => e.2 == v && nodes.contains e.1

theorem edgesInto_eq_zero {nodes : List (Fin n)} {v : Fin n} :
    g.edgesInto nodes v = 0 ↔ ∀ u ∈ nodes, ¬ g.Edge u v := by
  simp only [edgesInto, List.countP_eq_zero, Bool.and_eq_true, beq_iff_eq, List.contains_iff_mem,
    Edge]
  constructor
  · intro h u hu e
    exact h (u, v) e ⟨rfl, hu⟩
  · rintro h ⟨u, w⟩ e ⟨rfl, hu⟩
    exact h u hu e

theorem edgesInto_filter_add (p : Fin n → Bool) (nodes : List (Fin n)) (v : Fin n) :
    g.edgesInto (nodes.filter p) v + g.edgesInto (nodes.filter fun u => !p u) v =
      g.edgesInto nodes v := by
  refine countP_add_countP (fun e => ?_) g.edges
  cases hp : p e.1 <;> simp [hp]

theorem count_successors_add {u : Fin n} {nodes : List (Fin n)} (hu : u ∉ nodes) (v : Fin n) :
    (g.successors u).count v + g.edgesInto nodes v = g.edgesInto (u :: nodes) v := by
  have hcount : (g.successors u).count v = g.edges.countP fun e => e.1 == u && e.2 == v := by
    rw [successors, List.count, List.countP_map, List.countP_filter, List.countP_reverse]
    congr 1
    funext e
    by_cases he : e.1 = u <;> by_cases hv : e.2 = v <;> simp [he, hv]
  rw [hcount]
  refine countP_add_countP (fun e => ?_) g.edges
  by_cases he : e.1 = u
  · simp [he, hu]
  · simp [he]

/-- The successors of different nodes, each once for every edge. -/
theorem count_flatMap_successors {nodes : List (Fin n)} (hnd : nodes.Nodup) (v : Fin n) :
    (nodes.flatMap g.successors).count v = g.edgesInto nodes v := by
  induction nodes with
  | nil => simp [edgesInto]
  | cons u nodes ih =>
    obtain ⟨hu, hnd⟩ := List.nodup_cons.mp hnd
    rw [List.flatMap_cons, List.count_append, ih hnd, count_successors_add hu]

@[simp] theorem get_dropEdge (degrees : Vector Nat n) (w v : Fin n) :
    (dropEdge degrees w).get v = degrees.get v - if w = v then 1 else 0 := by
  show (degrees.set w.val (degrees[w] - 1) w.isLt)[v.val] = degrees[v.val] - _
  simp only [Fin.getElem_fin, Vector.getElem_set, Fin.val_inj]
  split
  next h => rw [h]
  next => rfl

theorem get_foldl_dropEdge (degrees : Vector Nat n) (ws : List (Fin n)) (v : Fin n) :
    (ws.foldl dropEdge degrees).get v = degrees.get v - ws.count v := by
  induction ws generalizing degrees with
  | nil => rfl
  | cons w ws ih =>
    rw [List.foldl_cons, ih, get_dropEdge, List.count_cons, Nat.sub_sub]
    simp only [beq_iff_eq]
    omega

/-- Taking nodes away lowers each count by the edges out of them. -/
theorem get_foldl_release (degrees : Vector Nat n) {nodes : List (Fin n)}
    (hnd : nodes.Nodup) (v : Fin n) :
    (nodes.foldl (release g) degrees).get v = degrees.get v - g.edgesInto nodes v := by
  have hfold : nodes.foldl (release g) degrees =
      (nodes.flatMap g.successors).foldl dropEdge degrees := by
    rw [List.foldl_flatMap]
    rfl
  rw [hfold, get_foldl_dropEdge, count_flatMap_successors hnd]

/-- The counts are those of the edges out of the nodes that remain. -/
def Counts (g : Digraph n) (degrees : Vector Nat n) (remaining : List (Fin n)) : Prop :=
  ∀ v : Fin n, degrees.get v = g.edgesInto remaining v

theorem counts_inDegrees (g : Digraph n) : g.Counts g.inDegrees (List.finRange n) := by
  intro v
  show g.inDegrees[v.val] = g.edgesInto (List.finRange n) v
  simp only [inDegrees, Vector.getElem_ofFn, predecessors, edgesInto,
    List.length_map, ← List.countP_eq_length_filter, List.countP_reverse]
  refine List.countP_congr fun e _ => ?_
  simp

theorem waiting_eq (degrees : Vector Nat n) (nodes : List (Fin n)) :
    waiting degrees nodes = nodes.filter fun v => !decide (degrees.get v = 0) := by
  simp only [waiting, ne_eq, decide_not]
  rfl

theorem ready_append_waiting_perm (degrees : Vector Nat n) (nodes : List (Fin n)) :
    (ready degrees nodes ++ waiting degrees nodes).Perm nodes := by
  rw [waiting_eq]
  exact List.filter_append_perm _ nodes

/-- Taking the ready nodes away keeps the counts right, so no count was lowered below
zero. -/
theorem Counts.step {degrees : Vector Nat n} {remaining : List (Fin n)}
    (h : g.Counts degrees remaining) (hnd : remaining.Nodup) :
    g.Counts ((ready degrees remaining).foldl (release g) degrees) (waiting degrees remaining) := by
  intro v
  have hsplit := edgesInto_filter_add (g := g) (fun u => decide (degrees.get u = 0)) remaining v
  rw [← waiting_eq] at hsplit
  change g.edgesInto (ready degrees remaining) v + _ = _ at hsplit
  have hready : (ready degrees remaining).Nodup := hnd.filter _
  rw [get_foldl_release degrees hready, h v]
  omega

/-- Some node of a list has no edge from a node of the list. -/
theorem Acyclic.exists_source (hg : g.Acyclic) {nodes : List (Fin n)} (hne : nodes ≠ []) :
    ∃ v ∈ nodes, ∀ u ∈ nodes, ¬ g.Edge u v := by
  have : IsTrans (Fin n) (Relation.TransGen g.Edge) := ⟨fun _ _ _ => Relation.TransGen.trans⟩
  have : Std.Irrefl (Relation.TransGen g.Edge) := ⟨hg⟩
  have hwf := Finite.wellFounded_of_trans_of_irrefl (Relation.TransGen g.Edge)
  obtain ⟨v, hv, hmin⟩ := hwf.has_min {v | v ∈ nodes} (List.exists_mem_of_ne_nil nodes hne)
  exact ⟨v, hv, fun u hu e => hmin u hu (.single e)⟩

theorem Counts.ready_ne_nil {degrees : Vector Nat n} {remaining : List (Fin n)}
    (h : g.Counts degrees remaining) (hg : g.Acyclic) (hne : remaining ≠ []) :
    ready degrees remaining ≠ [] := by
  obtain ⟨v, hv, hsource⟩ := hg.exists_source hne
  have hzero : degrees.get v = 0 := (h v).trans (edgesInto_eq_zero.mpr hsource)
  have hmem : v ∈ ready degrees remaining :=
    List.mem_filter.mpr ⟨hv, decide_eq_true hzero⟩
  exact List.ne_nil_of_mem hmem

theorem layersFrom_of_ready {degrees : Vector Nat n} {remaining : List (Fin n)}
    (h : ready degrees remaining ≠ []) :
    layersFrom g degrees remaining = ready degrees remaining ::
      layersFrom g ((ready degrees remaining).foldl (release g) degrees)
        (waiting degrees remaining) := by
  rw [layersFrom, dif_pos h]

theorem layersFrom_of_not_ready {degrees : Vector Nat n} {remaining : List (Fin n)}
    (h : ¬ ready degrees remaining ≠ []) : layersFrom g degrees remaining = [] := by
  rw [layersFrom, dif_neg h]

theorem layers_of_no_edges (hn : n ≠ 0) (hedges : g.edges = []) :
    g.layers = [List.finRange n] := by
  have hzero (v : Fin n) : g.inDegrees.get v = 0 := by
    rw [g.counts_inDegrees v, edgesInto, hedges, List.countP_nil]
  have hready : ready g.inDegrees (List.finRange n) = List.finRange n :=
    List.filter_eq_self.mpr fun v _ => decide_eq_true (hzero v)
  have hwaiting : waiting g.inDegrees (List.finRange n) = [] := by
    rw [waiting_eq, List.filter_eq_nil_iff]
    intro v _
    simp [hzero v]
  have hsome : ready g.inDegrees (List.finRange n) ≠ [] := by
    rw [hready]
    simpa using hn
  rw [layers, layersFrom_of_ready hsome, hwaiting, hready,
    layersFrom_of_not_ready (by simp [ready])]

/-- The layers of an acyclic graph hold the remaining nodes, each once. -/
theorem flatten_layersFrom_perm (hg : g.Acyclic) {degrees : Vector Nat n}
    {remaining : List (Fin n)} (h : g.Counts degrees remaining) (hnd : remaining.Nodup) :
    (layersFrom g degrees remaining).flatten.Perm remaining := by
  induction degrees, remaining using layersFrom.induct g with
  | case1 degrees remaining some ih =>
    rw [layersFrom_of_ready some, List.flatten_cons]
    have hrest := ih (h.step hnd) (hnd.filter _)
    exact (hrest.append_left _).trans (ready_append_waiting_perm degrees remaining)
  | case2 degrees remaining none =>
    have hnil : remaining = [] := by
      by_contra hne
      exact none (h.ready_ne_nil hg hne)
    rw [layersFrom_of_not_ready none, hnil]
    rfl

theorem flatten_layers_perm (hg : g.Acyclic) : g.layers.flatten.Perm (List.finRange n) :=
  flatten_layersFrom_perm hg g.counts_inDegrees (List.nodup_finRange n)

/-- In every layer, each entry has all entries that lead to it before its layer: in an
earlier layer or among the entries that were done at the start. -/
inductive Layered {α : Type} (leads : α → α → Prop) : List α → List (List α) → Prop where
  | nil (done : List α) : Layered leads done []
  | cons {done layer : List α} {rest : List (List α)} :
    (∀ v ∈ layer, ∀ u, leads u v → u ∈ done) → Layered leads (done ++ layer) rest →
      Layered leads done (layer :: rest)

namespace Layered

variable {α β : Type} {leads : α → α → Prop} {done : List α} {layers : List (List α)}

/-- What an entry has once all entries that lead to it have it, all entries have. -/
theorem forall_mem {P : α → Prop} (h : Layered leads done layers) (hdone : ∀ v ∈ done, P v)
    (hstep : ∀ v ∈ layers.flatten, (∀ u, leads u v → P u) → P v) : ∀ v ∈ layers.flatten, P v := by
  induction h with
  | nil done => exact fun v hv => nomatch hv
  | @cons done layer rest hfirst _ ih =>
    rw [List.flatten_cons, List.forall_mem_append] at hstep ⊢
    have hlayer : ∀ v ∈ layer, P v := fun v hv =>
      hstep.1 v hv fun u hu => hdone u (hfirst v hv u hu)
    exact ⟨hlayer, ih (List.forall_mem_append.mpr ⟨hdone, hlayer⟩) hstep.2⟩

/-- What leads to an entry of a layer was done at the start or stands in a layer before. -/
theorem mem_of_leads {before after : List (List α)} {layer : List α}
    (h : Layered leads done (before ++ layer :: after)) {u v : α} (hv : v ∈ layer)
    (huv : leads u v) : u ∈ done ++ before.flatten := by
  induction before generalizing done with
  | nil =>
    cases h with
    | cons hfirst _ => exact List.mem_append_left _ (hfirst v hv u huv)
  | cons first before ih =>
    cases h with
    | cons _ hrest => simpa using ih hrest

theorem map {leads' : β → β → Prop} (f : α → β)
    (hf : ∀ b v, leads' b (f v) → ∃ u, leads u v ∧ f u = b) (h : Layered leads done layers) :
    Layered leads' (done.map f) (layers.map (List.map f)) := by
  induction h with
  | nil done => exact .nil _
  | @cons done layer rest hfirst _ ih =>
    rw [List.map_append] at ih
    refine .cons (fun w hw b hb => ?_) ih
    obtain ⟨v, hv, rfl⟩ := List.mem_map.mp hw
    obtain ⟨u, hu, rfl⟩ := hf b v hb
    exact List.mem_map_of_mem (hfirst v hv u hu)

end Layered

theorem layered_layersFrom {degrees : Vector Nat n} {remaining done : List (Fin n)}
    (h : g.Counts degrees remaining) (hnd : remaining.Nodup)
    (hall : ∀ v, v ∈ done ∨ v ∈ remaining) :
    Layered g.Edge done (layersFrom g degrees remaining) := by
  induction degrees, remaining using layersFrom.induct g generalizing done with
  | case1 degrees remaining some ih =>
    rw [layersFrom_of_ready some]
    have hsplit := ready_append_waiting_perm degrees remaining
    refine .cons (fun v hv u e => ?_) (ih (h.step hnd) (hnd.filter _) fun v => ?_)
    · have hzero : degrees.get v = 0 := of_decide_eq_true (List.mem_filter.mp hv).2
      have hsource := edgesInto_eq_zero.mp ((h v).symm.trans hzero)
      exact (hall u).resolve_right fun hu => hsource u hu e
    · rw [List.mem_append, or_assoc, ← List.mem_append, hsplit.mem_iff]
      exact hall v
  | case2 degrees remaining none =>
    rw [layersFrom_of_not_ready none]
    exact .nil done

theorem layered_layers (g : Digraph n) : Layered g.Edge [] g.layers :=
  layered_layersFrom g.counts_inDegrees (List.nodup_finRange n) fun v =>
    .inr (List.mem_finRange v)

/-- Renumbering the nodes of a graph, in the same order, renumbers its layers. -/
theorem layers_map_cast {k : Nat} (h : n = k) {g' : Digraph k}
    (hedges : g'.edges = g.edges.map fun e => (e.1.cast h, e.2.cast h)) :
    g'.layers = g.layers.map (List.map (Fin.cast h)) := by
  subst h
  have hsame : g' = g := by
    cases g
    cases g'
    simpa using hedges
  simp [hsame]

end HybridBuild.Digraph
