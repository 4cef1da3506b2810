import HybridBuild.Proofs.Digraph.Layers
import Mathlib.Data.List.Chain
import Mathlib.Data.List.GetD
import Mathlib.Order.Bounds.Basic

/-!
# Layers by depth

The depth of a node is the number of edges in the longest chain of edges that ends at it. When
`k` layers have been taken away, the nodes that remain are those at the end of some chain of `k`
edges; so a node of an acyclic graph stands in the layer whose number is its depth. On the way no
count is lowered below zero, and as long as nodes remain some are ready.
-/
namespace HybridBuild.Digraph

section Chains

variable {α β : Type} {leads : α → α → Prop} {k : Nat} {v : α}

/-- A chain of `k` edges ends at an entry: `k` entries, each leading to the next one and the
last of them to the entry. -/
def HasChain (leads : α → α → Prop) (k : Nat) (v : α) : Prop :=
  ∃ chain : List α, chain.length = k ∧ (chain ++ [v]).IsChain leads

/-- The longest chain that ends at an entry has `k` edges. -/
def IsDepth (leads : α → α → Prop) (v : α) (k : Nat) : Prop :=
  IsGreatest {k | HasChain leads k v} k

theorem hasChain_zero : HasChain leads 0 v := ⟨[], rfl, .singleton v⟩

theorem hasChain_succ_iff : HasChain leads (k + 1) v ↔ ∃ u, leads u v ∧ HasChain leads k u := by
  constructor
  · rintro ⟨chain, hlength, hchain⟩
    rcases List.eq_nil_or_concat' chain with rfl | ⟨before, u, rfl⟩
    · simp at hlength
    · rw [List.append_assoc, List.singleton_append, List.isChain_append_cons_cons] at hchain
      exact ⟨u, hchain.2.1, before, by simpa using hlength, hchain.1⟩
  · rintro ⟨u, hleads, chain, hlength, hchain⟩
    refine ⟨chain ++ [u], by simp [hlength], ?_⟩
    rw [List.append_assoc, List.singleton_append, List.isChain_append_cons_cons]
    exact ⟨hchain, hleads, .singleton v⟩

theorem HasChain.of_succ (h : HasChain leads (k + 1) v) : HasChain leads k v := by
  obtain ⟨chain, hlength, hchain⟩ := h
  obtain ⟨first, rest, rfl⟩ := List.exists_cons_of_length_eq_add_one hlength
  exact ⟨rest, by simpa using hlength, hchain.tail⟩

theorem HasChain.of_le {j : Nat} (h : HasChain leads k v) (hle : j ≤ k) : HasChain leads j v := by
  induction hle with
  | refl => exact h
  | step _ ih => exact ih h.of_succ

theorem isDepth_iff : IsDepth leads v k ↔ HasChain leads k v ∧ ¬ HasChain leads (k + 1) v := by
  constructor
  · rintro ⟨hchain, hmax⟩
    exact ⟨hchain, fun hlonger => (hmax hlonger).not_gt k.lt_succ_self⟩
  · rintro ⟨hchain, hno⟩
    refine ⟨hchain, fun j hj => ?_⟩
    by_contra hlt
    exact hno (HasChain.of_le hj (Nat.lt_of_not_le hlt))

/-- An entry is deeper than the entries that lead to it. -/
theorem IsDepth.lt_of_leads {u : α} {j : Nat} (hv : IsDepth leads v k) (hu : IsDepth leads u j)
    (h : leads u v) : j < k :=
  hv.2 (hasChain_succ_iff.mpr ⟨u, h, hu.1⟩)

/-- Chains along a relation and along the same relation between numbers of entries. -/
theorem hasChain_apply_iff {edge : β → β → Prop} (f : β → α)
    (hedge : ∀ {i j}, edge i j ↔ leads (f i) (f j))
    (hmem : ∀ {a j}, leads a (f j) → ∃ i, f i = a) {i : β} :
    HasChain leads k (f i) ↔ HasChain edge k i := by
  induction k generalizing i with
  | zero => exact iff_of_true hasChain_zero hasChain_zero
  | succ k ih =>
    rw [hasChain_succ_iff, hasChain_succ_iff]
    constructor
    · rintro ⟨a, hleads, hchain⟩
      obtain ⟨j, rfl⟩ := hmem hleads
      exact ⟨j, hedge.mpr hleads, ih.mp hchain⟩
    · rintro ⟨j, hij, hchain⟩
      exact ⟨f j, hedge.mp hij, ih.mpr hchain⟩

end Chains

section Layers

variable {n : Nat} {g : Digraph n} {degrees : Vector Nat n} {remaining : List (Fin n)}

theorem mem_ready_iff {v : Fin n} :
    v ∈ ready degrees remaining ↔ v ∈ remaining ∧ degrees.get v = 0 := by
  rw [ready, List.mem_filter]
  exact and_congr_right fun _ => decide_eq_true_iff

theorem mem_waiting_iff {v : Fin n} :
    v ∈ waiting degrees remaining ↔ v ∈ remaining ∧ degrees.get v ≠ 0 := by
  rw [waiting, List.mem_filter]
  exact and_congr_right fun _ => decide_eq_true_iff

/-- When the nodes that remain are the ends of chains of `k` edges, the nodes that wait are the
ends of chains of one edge more. -/
theorem Counts.mem_waiting_iff_hasChain (h : g.Counts degrees remaining) {k : Nat}
    (hends : ∀ v, v ∈ remaining ↔ HasChain g.Edge k v) (v : Fin n) :
    v ∈ waiting degrees remaining ↔ HasChain g.Edge (k + 1) v := by
  have hled : degrees.get v ≠ 0 ↔ HasChain g.Edge (k + 1) v := by
    rw [h v, ne_eq, edgesInto_eq_zero, hasChain_succ_iff]
    simp only [hends, not_forall, not_not, exists_prop, and_comm]
  rw [mem_waiting_iff, hled, and_iff_right_iff_imp]
  exact fun hchain => (hends v).mpr hchain.of_succ

/-- Layers of the nodes at the ends of chains of `k` edges: the first of them holds the nodes of
depth `k`, and so on. -/
theorem mem_layersFrom_iff_isDepth (hg : g.Acyclic) (h : g.Counts degrees remaining)
    (hnd : remaining.Nodup) {k : Nat} (hends : ∀ v, v ∈ remaining ↔ HasChain g.Edge k v)
    (j : Nat) (v : Fin n) :
    v ∈ (layersFrom g degrees remaining).getD j [] ↔ IsDepth g.Edge v (k + j) := by
  induction degrees, remaining using layersFrom.induct g generalizing j k with
  | case1 degrees remaining some ih =>
    rw [layersFrom_of_ready some]
    have hwait := h.mem_waiting_iff_hasChain hends
    cases j with
    | zero =>
      rw [List.getD_cons_zero, mem_ready_iff, isDepth_iff, Nat.add_zero, ← hends, ← hwait,
        mem_waiting_iff]
      tauto
    | succ j =>
      rw [List.getD_cons_succ, ih (h.step hnd) (hnd.filter _) hwait, Nat.add_right_comm k 1 j]
      rfl
  | case2 degrees remaining none =>
    have hnil : remaining = [] := by
      by_contra hne
      exact none (h.ready_ne_nil hg hne)
    rw [layersFrom_of_not_ready none, List.getD_nil]
    refine iff_of_false List.not_mem_nil fun hdepth => ?_
    have hmem : v ∈ remaining := (hends v).mpr (hdepth.1.of_le (Nat.le_add_right k j))
    simp [hnil] at hmem

theorem mem_layers_iff_isDepth (hg : g.Acyclic) (k : Nat) (v : Fin n) :
    v ∈ g.layers.getD k [] ↔ IsDepth g.Edge v k := by
  have hends : ∀ v, v ∈ List.finRange n ↔ HasChain g.Edge 0 v := fun v =>
    iff_of_true (List.mem_finRange v) hasChain_zero
  rw [layers, mem_layersFrom_iff_isDepth hg g.counts_inDegrees (List.nodup_finRange n) hends,
    Nat.zero_add]

theorem exists_mem_getD_iff {α : Type} {layers : List (List α)} {v : α} :
    (∃ k, v ∈ layers.getD k []) ↔ v ∈ layers.flatten := by
  induction layers with
  | nil => simp
  | cons layer layers ih =>
    rw [List.flatten_cons, List.mem_append, ← ih]
    constructor
    · rintro ⟨_ | k, h⟩
      · exact .inl h
      · exact .inr ⟨k, h⟩
    · rintro (h | ⟨k, h⟩)
      · exact ⟨0, h⟩
      · exact ⟨k + 1, h⟩

/-- A layer is not empty, and its nodes stand in their order. -/
theorem of_mem_layersFrom {layer : List (Fin n)} (h : layer ∈ layersFrom g degrees remaining) :
    layer ≠ [] ∧ layer.Sublist remaining := by
  induction degrees, remaining using layersFrom.induct g with
  | case1 degrees remaining some ih =>
    rw [layersFrom_of_ready some, List.mem_cons] at h
    rcases h with rfl | h
    · exact ⟨some, List.filter_sublist⟩
    · exact ⟨(ih h).1, (ih h).2.trans List.filter_sublist⟩
  | case2 degrees remaining none =>
    rw [layersFrom_of_not_ready none] at h
    exact absurd h List.not_mem_nil

end Layers

section Checked

variable {n : Nat} {g : Digraph n} {degrees : Vector Nat n} {remaining : List (Fin n)}

/-- The counts after one edge to `w` is gone, if there was one. -/
def dropEdge? (degrees : Vector Nat n) (w : Fin n) : Option (Vector Nat n) :=
  if degrees.get w = 0 then none else some (dropEdge degrees w)

/-- The counts after `v` has been taken away, if none was zero before it was lowered. -/
def release? (g : Digraph n) (degrees : Vector Nat n) (v : Fin n) : Option (Vector Nat n) :=
  (g.successors v).foldlM dropEdge? degrees

/-- The layers of the nodes that remain, if no count was zero before it was lowered and some node
was ready as long as nodes remained. -/
def layersFrom? (g : Digraph n) (degrees : Vector Nat n) (remaining : List (Fin n)) :
    Option (List (List (Fin n))) :=
  if remaining = [] then some []
  else if _some : ready degrees remaining ≠ [] then do
    let lowered ← (ready degrees remaining).foldlM (release? g) degrees
    let rest ← layersFrom? g lowered (waiting degrees remaining)
    return ready degrees remaining :: rest
  else none
termination_by remaining.length
decreasing_by exact length_waiting_lt (by assumption)

/-- The layers of a graph, if no count was zero before it was lowered and some node was ready as
long as nodes remained. -/
def layers? (g : Digraph n) : Option (List (List (Fin n))) :=
  g.layersFrom? g.inDegrees (List.finRange n)

/-- Counts can be lowered as long as they are not used up. -/
theorem foldlM_dropEdge? {ws : List (Fin n)} (h : ∀ v, ws.count v ≤ degrees.get v) :
    ws.foldlM dropEdge? degrees = some (ws.foldl dropEdge degrees) := by
  induction ws generalizing degrees with
  | nil => rfl
  | cons w ws ih =>
    have hsome : degrees.get w ≠ 0 := by
      have hw := h w
      rw [List.count_cons_self] at hw
      exact Nat.ne_of_gt (Nat.lt_of_lt_of_le (Nat.succ_pos _) hw)
    have hrest : ∀ v, ws.count v ≤ (dropEdge degrees w).get v := by
      intro v
      have hv := h v
      simp only [List.count_cons, beq_iff_eq] at hv
      rw [get_dropEdge]
      omega
    rw [List.foldlM_cons, dropEdge?, if_neg hsome, List.foldl_cons, ← ih hrest]
    rfl

theorem foldlM_release? {nodes : List (Fin n)} (hnd : nodes.Nodup)
    (h : ∀ v, g.edgesInto nodes v ≤ degrees.get v) :
    nodes.foldlM (release? g) degrees = some (nodes.foldl (release g) degrees) := by
  induction nodes generalizing degrees with
  | nil => rfl
  | cons u nodes ih =>
    obtain ⟨hu, hnd⟩ := List.nodup_cons.mp hnd
    have hfirst : release? g degrees u = some (release g degrees u) := by
      refine foldlM_dropEdge? fun v => ?_
      have hv := h v
      rw [← count_successors_add hu] at hv
      omega
    have hrest : ∀ v, g.edgesInto nodes v ≤ (release g degrees u).get v := by
      intro v
      have hv := h v
      rw [← count_successors_add hu] at hv
      rw [release, get_foldl_dropEdge]
      omega
    rw [List.foldlM_cons, hfirst, List.foldl_cons, ← ih hnd hrest]
    rfl

/-- The ready nodes have no more edges to a node than it counts. -/
theorem Counts.edgesInto_ready_le (h : g.Counts degrees remaining) (v : Fin n) :
    g.edgesInto (ready degrees remaining) v ≤ degrees.get v := by
  have hsplit := edgesInto_filter_add (g := g) (fun u => decide (degrees.get u = 0)) remaining v
  change g.edgesInto (ready degrees remaining) v + _ = _ at hsplit
  rw [h v]
  omega

theorem layersFrom?_eq (hg : g.Acyclic) (h : g.Counts degrees remaining) (hnd : remaining.Nodup) :
    layersFrom? g degrees remaining = some (layersFrom g degrees remaining) := by
  induction degrees, remaining using layersFrom.induct g with
  | case1 degrees remaining some ih =>
    have hne : remaining ≠ [] := by
      rintro rfl
      exact some rfl
    have hready : (ready degrees remaining).Nodup := hnd.filter _
    rw [layersFrom?, if_neg hne, dif_pos some, layersFrom_of_ready some,
      foldlM_release? hready h.edgesInto_ready_le]
    simp [ih (h.step hnd) (hnd.filter _)]
  | case2 degrees remaining none =>
    have hnil : remaining = [] := by
      by_contra hne
      exact none (h.ready_ne_nil hg hne)
    rw [layersFrom?, if_pos hnil, layersFrom_of_not_ready none]

/-- Layering an acyclic graph never lowers a count below zero and never stops early. -/
theorem layers?_eq (hg : g.Acyclic) : g.layers? = some g.layers :=
  layersFrom?_eq hg g.counts_inDegrees (List.nodup_finRange n)

end Checked

end HybridBuild.Digraph
