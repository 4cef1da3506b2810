import HybridBuild.Digraph.TopoSort
import HybridBuild.Proofs.Traverse
import Mathlib.Data.List.FinRange
import Mathlib.Data.List.Perm.Basic
import Mathlib.Logic.Relation

/-!
# What the topological sort accepts

The search finishes every node that it puts on its stack, and meets no node that is
its own successor. So the order that passes the second check holds every node once,
and every edge goes forward in it. A graph with such an order has no cycle.
-/
namespace HybridBuild.Digraph

variable {n : Nat} {g : Digraph n}

/-- Some edge leads from `u` to `v`. -/
def Edge (g : Digraph n) (u v : Fin n) : Prop := (u, v) ∈ g.edges

/-- No node leads back to itself in one or more steps. -/
def Acyclic (g : Digraph n) : Prop := ∀ v, ¬ Relation.TransGen g.Edge v v

structure IsOrder (g : Digraph n) (order : List (Fin n)) : Prop where
  perm : order.Perm (List.finRange n)
  forward : ∀ {u v}, g.Edge u v → order.idxOf u < order.idxOf v

namespace IsOrder

variable {order : List (Fin n)}

/-- Positions grow along every path. -/
theorem forward_transGen (h : g.IsOrder order) {u v : Fin n}
    (huv : Relation.TransGen g.Edge u v) : order.idxOf u < order.idxOf v := by
  induction huv with
  | single e => exact h.forward e
  | tail _ e ih => exact ih.trans (h.forward e)

theorem acyclic (h : g.IsOrder order) : g.Acyclic := by
  intro v hv
  exact (h.forward_transGen hv).false

end IsOrder

/-- What a search keeps: the finished nodes are listed once and are among the nodes
met, of which none is its own successor. -/
structure Search.Sound (g : Digraph n) (s : Search n) : Prop where
  nodup : s.finished.Nodup
  met_of_finished : ∀ v ∈ s.finished, v ∈ s.met
  not_edge_self : ∀ v ∈ s.met, ¬ g.Edge v v

theorem Search.sound_start (g : Digraph n) : Search.Sound g ⟨[], []⟩ :=
  ⟨List.nodup_nil, by simp, by simp⟩

theorem Search.Sound.finish {s : Search n} (h : s.Sound g) {v : Fin n} (hv : v ∈ s.met) :
    Search.Sound g { s with finished := s.finished.insert v } where
  nodup := h.nodup.insert
  met_of_finished := by
    intro w hw
    rcases List.mem_insert_iff.mp hw with rfl | hw
    · exact hv
    · exact h.met_of_finished w hw
  not_edge_self := h.not_edge_self

theorem Search.Sound.meet {s : Search n} (h : s.Sound g) {v : Fin n} (hv : v ∉ g.successors v) :
    Search.Sound g { s with met := v :: s.met } where
  nodup := h.nodup
  met_of_finished := fun w hw => List.mem_cons_of_mem v (h.met_of_finished w hw)
  not_edge_self := by
    intro w hw
    rcases List.mem_cons.mp hw with rfl | hw
    · exact fun e => hv (mem_successors.mpr e)
    · exact h.not_edge_self w hw

/-- A search that ends has finished its whole stack, and unfinishes nothing. -/
theorem explore_ok {s t : Search n} {stack : List (Fin n)} (hs : s.Sound g)
    (h : explore g s stack = .ok t) :
    t.Sound g ∧ s.finished ⊆ t.finished ∧ stack ⊆ t.finished := by
  induction s, stack using explore.induct g with
  | case1 s =>
    rw [explore] at h
    obtain rfl := Except.ok.inj h
    exact ⟨hs, List.Subset.refl _, List.nil_subset _⟩
  | case2 s v rest hv ih =>
    rw [explore, dif_pos hv] at h
    obtain ⟨ht, hfin, hrest⟩ := ih (hs.finish hv) h
    have hvt : v ∈ t.finished := hfin (List.mem_insert_self)
    exact ⟨ht, fun w hw => hfin (List.mem_insert_of_mem hw), List.cons_subset.mpr ⟨hvt, hrest⟩⟩
  | case3 s v rest hv hloop =>
    rw [explore, dif_neg hv, if_pos hloop] at h
    cases h
  | case4 s v rest hv hloop met next ih =>
    rw [explore, dif_neg hv, if_neg hloop] at h
    obtain ⟨ht, hfin, hstack⟩ := ih (hs.meet hloop) h
    exact ⟨ht, hfin, List.Subset.trans (List.subset_append_right _ _) hstack⟩

/-- Searching from several nodes in turn finishes them all. -/
theorem foldlM_explore_ok {s t : Search n} {roots : List (Fin n)} (hs : s.Sound g)
    (h : roots.foldlM (fun s v => explore g s [v]) s = .ok t) :
    t.Sound g ∧ s.finished ⊆ t.finished ∧ roots ⊆ t.finished := by
  induction roots generalizing s with
  | nil =>
    obtain rfl := Except.ok.inj h
    exact ⟨hs, List.Subset.refl _, List.nil_subset _⟩
  | cons v roots ih =>
    rw [List.foldlM_cons, bind_eq_ok_iff] at h
    obtain ⟨u, hv, h⟩ := h
    obtain ⟨hu, hsu, hvu⟩ := explore_ok hs hv
    obtain ⟨ht, hut, hroots⟩ := ih hu h
    have hvt : v ∈ t.finished := hut (hvu (List.mem_singleton_self v))
    exact ⟨ht, List.Subset.trans hsu hut, List.cons_subset.mpr ⟨hvt, hroots⟩⟩

/-- The order of a search over all nodes holds each node once, and none is its own
successor. -/
theorem reverseFinish_ok {order : List (Fin n)} (h : g.reverseFinish = .ok order) :
    order.Perm (List.finRange n) ∧ ∀ v, ¬ g.Edge v v := by
  rw [reverseFinish, except_map_eq_ok_iff] at h
  obtain ⟨s, hs, rfl⟩ := h
  obtain ⟨hsound, _, hall⟩ := foldlM_explore_ok (Search.sound_start g) hs
  have hmem (v : Fin n) : v ∈ s.finished := hall (List.mem_finRange v)
  refine ⟨?_, fun v => hsound.not_edge_self v (hsound.met_of_finished v (hmem v))⟩
  rw [List.perm_ext_iff_of_nodup hsound.nodup (List.nodup_finRange n)]
  exact fun v => iff_of_true (hmem v) (List.mem_finRange v)

/-- In a list without disorder the nodes that lead to a node stand before it, unless
the node leads to itself. -/
theorem mem_before_of_misplaced?_eq_none {before rest : List (Fin n)}
    (h : g.misplaced? before rest = none) {front back : List (Fin n)} {u v : Fin n}
    (hrest : rest = front ++ v :: back) (e : g.Edge u v) :
    u = v ∨ u ∈ front ∨ u ∈ before := by
  induction rest generalizing before front with
  | nil => simp at hrest
  | cons w rest ih =>
    unfold misplaced? at h
    split at h
    · cases h
    next hnone =>
      cases front with
      | nil =>
        obtain ⟨rfl, rfl⟩ := List.cons.inj hrest
        rw [List.getLast?_eq_none_iff, List.filter_eq_nil_iff] at hnone
        have hu : u ≠ w → u ∈ before := by
          simpa using hnone u (mem_predecessors.mpr e)
        by_cases huw : u = w
        · exact .inl huw
        · exact .inr (.inr (hu huw))
      | cons x front =>
        obtain ⟨rfl, htail⟩ := List.cons.inj hrest
        rcases ih h htail with hu | hu | hu
        · exact .inl hu
        · exact .inr (.inl (List.mem_cons_of_mem _ hu))
        · rcases List.mem_cons.mp hu with rfl | hu
          · exact .inr (.inl List.mem_cons_self)
          · exact .inr (.inr hu)

theorem topoSort_eq_ok_iff {order : List (Fin n)} : g.topoSort = .ok order ↔
    g.reverseFinish = .ok order ∧ g.misplaced? [] order = none := by
  rw [topoSort, bind_eq_ok_iff]
  constructor
  · rintro ⟨found, hfound, h⟩
    split at h
    · cases h
    next hnone =>
      obtain rfl := Except.ok.inj h
      exact ⟨hfound, hnone⟩
  · rintro ⟨hfound, hnone⟩
    exact ⟨order, hfound, by rw [hnone]⟩

theorem topoSort_eq_error_iff_misplaced? {v : Fin n} : g.topoSort = .error v ↔
    g.reverseFinish = .error v ∨
      ∃ order, g.reverseFinish = .ok order ∧ g.misplaced? [] order = some v := by
  rw [topoSort, bind_eq_error_iff]
  refine or_congr_right (exists_congr fun order => and_congr_right fun _ => ?_)
  cases g.misplaced? [] order <;> simp

theorem isOrder_of_topoSort {order : List (Fin n)} (h : g.topoSort = .ok order) :
    g.IsOrder order := by
  obtain ⟨hr, hnone⟩ := topoSort_eq_ok_iff.mp h
  obtain ⟨hperm, hloop⟩ := reverseFinish_ok hr
  refine ⟨hperm, fun {u v} e => ?_⟩
  obtain ⟨front, back, hfound, hv⟩ :=
    List.eq_append_cons_of_mem (hperm.mem_iff.mpr (List.mem_finRange v))
  rcases mem_before_of_misplaced?_eq_none hnone hfound e with rfl | hu | hu
  · exact absurd e (hloop u)
  · rw [hfound, List.idxOf_append_of_mem hu, List.idxOf_append_of_notMem hv]
    have hlt : front.idxOf u < front.length := List.idxOf_lt_length_iff.mpr hu
    omega
  · cases hu

theorem acyclic_of_topoSort {order : List (Fin n)} (h : g.topoSort = .ok order) : g.Acyclic :=
  (isOrder_of_topoSort h).acyclic

end HybridBuild.Digraph
