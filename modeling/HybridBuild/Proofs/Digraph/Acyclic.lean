import HybridBuild.Proofs.Digraph.TopoSort

/-!
# What the topological sort refuses

A node that was met but is not finished waits on the stack, and everything above its topmost
place there was reached from it. When a node is finished, every waiting node below it has
therefore reached it. So in the finished nodes, latest first, a node that leads back to one
before it was reached from that one, and both lie on a cycle. The second check reports such a
node, and the search itself reports a node that is its own successor: a graph that is refused
has a cycle through the node that is reported, and a graph without a cycle is accepted.
-/
namespace HybridBuild.Digraph

open Relation

variable {n : Nat} {g : Digraph n}

/-- A node that was met and is not finished waits on the stack: everything above its topmost
place was reached from it, and each of its successors is met or above it. -/
structure Search.Waits (g : Digraph n) (s : Search n) (stack : List (Fin n)) (u : Fin n)
    (above below : List (Fin n)) : Prop where
  split : stack = above ++ u :: below
  topmost : u ∉ above
  reached : ∀ x ∈ above, TransGen g.Edge u x
  successors : ∀ w, g.Edge u w → w ∈ s.met ∨ w ∈ above

/-- What a search keeps: a finished node that leads to a node that is not finished, or was
finished later, was reached from it, and all nodes that were met are finished or wait. -/
structure Search.Tracks (g : Digraph n) (s : Search n) (stack : List (Fin n)) : Prop where
  back : s.finished.Pairwise fun a b => g.Edge b a → TransGen g.Edge a b
  unfinished : ∀ u ∈ s.finished, ∀ v ∉ s.finished, g.Edge u v → TransGen g.Edge v u
  waits : ∀ u ∈ s.met, u ∉ s.finished → ∃ above below, s.Waits g stack u above below

namespace Search

theorem tracks_start (g : Digraph n) : Tracks g ⟨[], []⟩ [] :=
  ⟨List.Pairwise.nil, by simp, by simp⟩

variable {s : Search n} {v : Fin n} {rest : List (Fin n)}

/-- When nothing is left on the stack, nothing waits, so another node may be put there. -/
theorem Tracks.push (h : s.Tracks g []) (v : Fin n) : s.Tracks g [v] where
  back := h.back
  unfinished := h.unfinished
  waits := by
    intro u hu hfin
    obtain ⟨above, below, hw⟩ := h.waits u hu hfin
    have hsplit := hw.split
    simp at hsplit

/-- The node on top does not wait below itself. -/
theorem Waits.above_eq_nil {above below : List (Fin n)}
    (h : s.Waits g (v :: rest) v above below) : above = [] := by
  cases above with
  | nil => rfl
  | cons x above =>
    obtain ⟨rfl, -⟩ := List.cons.inj h.split
    exact absurd List.mem_cons_self h.topmost

/-- Any other node waits below the node on top, which was reached from it. -/
theorem Waits.tail {u : Fin n} (hu : u ≠ v) {above below : List (Fin n)}
    (h : s.Waits g (v :: rest) u above below) :
    ∃ above', above = v :: above' ∧ rest = above' ++ u :: below := by
  cases above with
  | nil => exact absurd (List.cons.inj h.split).1.symm hu
  | cons x above =>
    obtain ⟨rfl, htail⟩ := List.cons.inj h.split
    exact ⟨above, rfl, htail⟩

/-- A node that waits has reached the node on top. -/
theorem Waits.reached_top {u : Fin n} (hu : u ≠ v) {above below : List (Fin n)}
    (h : s.Waits g (v :: rest) u above below) : TransGen g.Edge u v := by
  obtain ⟨above', rfl, -⟩ := h.tail hu
  exact h.reached v List.mem_cons_self

/-- When the node on top is about to be finished, all its successors were met. -/
theorem Tracks.met_of_edge (h : s.Tracks g (v :: rest)) (hv : v ∈ s.met) (hfin : v ∉ s.finished)
    {w : Fin n} (e : g.Edge v w) : w ∈ s.met := by
  obtain ⟨above, below, hwait⟩ := h.waits v hv hfin
  rcases hwait.successors w e with hw | hw
  · exact hw
  · rw [hwait.above_eq_nil] at hw
    cases hw

/-- The node on top leaves the stack and is finished. A successor of it that was met but is not
finished waits below it, and so has reached it. -/
theorem Tracks.finish (h : s.Tracks g (v :: rest)) (hv : v ∈ s.met) :
    Tracks g { s with finished := s.finished.insert v } rest := by
  refine ⟨?_, ?_, ?_⟩
  · by_cases hfin : v ∈ s.finished
    · rw [List.insert_of_mem hfin]
      exact h.back
    · rw [List.insert_of_not_mem hfin]
      exact List.pairwise_cons.mpr ⟨fun u hu => h.unfinished u hu v hfin, h.back⟩
  · intro u hu w hw e
    rw [List.mem_insert_iff, not_or] at hw
    by_cases hfin : u ∈ s.finished
    · exact h.unfinished u hfin w hw.2 e
    · obtain rfl : u = v := (List.mem_insert_iff.mp hu).resolve_right hfin
      obtain ⟨above, below, hwait⟩ := h.waits w (h.met_of_edge hv hfin e) hw.2
      exact hwait.reached_top hw.1
  · intro u hu hfin
    rw [List.mem_insert_iff, not_or] at hfin
    obtain ⟨above, below, hwait⟩ := h.waits u hu hfin.2
    obtain ⟨above', rfl, hrest⟩ := hwait.tail hfin.1
    refine ⟨above', below, hrest, fun hmem => hwait.topmost (List.mem_cons_of_mem v hmem),
      fun x hx => hwait.reached x (List.mem_cons_of_mem v hx), fun w e => ?_⟩
    rcases hwait.successors w e with hw | hw
    · exact .inl hw
    · rcases List.mem_cons.mp hw with rfl | hw
      · exact .inl hv
      · exact .inr hw

/-- The node on top is met, and its successors that were not yet met go above it. -/
theorem Tracks.meet (h : s.Tracks g (v :: rest)) (hv : v ∉ s.met) {next : List (Fin n)}
    (hnext : ∀ w, w ∈ next ↔ g.Edge v w ∧ w ∉ v :: s.met) :
    Tracks g { s with met := v :: s.met } (next ++ v :: rest) := by
  refine ⟨h.back, h.unfinished, fun u hu hfin => ?_⟩
  have hnew : u ∉ next := fun hmem => ((hnext u).mp hmem).2 hu
  by_cases huv : u = v
  · subst huv
    refine ⟨next, rest, rfl, hnew, fun x hx => .single ((hnext x).mp hx).1, fun w e => ?_⟩
    by_cases hw : w ∈ u :: s.met
    · exact .inl hw
    · exact .inr ((hnext w).mpr ⟨e, hw⟩)
  · obtain ⟨above, below, hwait⟩ := h.waits u ((List.mem_cons.mp hu).resolve_left huv) hfin
    obtain ⟨above', rfl, hrest⟩ := hwait.tail huv
    refine ⟨next ++ v :: above', below, by simp [hrest], ?_, fun x hx => ?_, fun w e => ?_⟩
    · rw [List.mem_append, not_or]
      exact ⟨hnew, hwait.topmost⟩
    · rcases List.mem_append.mp hx with hx | hx
      · exact (hwait.reached_top huv).tail ((hnext x).mp hx).1
      · exact hwait.reached x hx
    · rcases hwait.successors w e with hw | hw
      · exact .inl (List.mem_cons_of_mem v hw)
      · exact .inr (List.mem_append_right next hw)

end Search

/-- A search that ends leaves nothing on the stack. -/
theorem explore_tracks {s t : Search n} {stack : List (Fin n)} (h : s.Tracks g stack)
    (hok : explore g s stack = .ok t) : t.Tracks g [] := by
  induction s, stack using explore.induct g with
  | case1 s =>
    rw [explore] at hok
    obtain rfl := Except.ok.inj hok
    exact h
  | case2 s v rest hv ih =>
    rw [explore, dif_pos hv] at hok
    exact ih (h.finish hv) hok
  | case3 s v rest hv hloop =>
    rw [explore, dif_neg hv, if_pos hloop] at hok
    cases hok
  | case4 s v rest hv hloop met next ih =>
    rw [explore, dif_neg hv, if_neg hloop] at hok
    refine ih (h.meet hv fun w => ?_) hok
    simp [next, met, Edge]

/-- A search gives up only at a node that is its own successor. -/
theorem edge_of_explore_eq_error {s : Search n} {stack : List (Fin n)} {v : Fin n}
    (h : explore g s stack = .error v) : g.Edge v v := by
  induction s, stack using explore.induct g with
  | case1 s =>
    rw [explore] at h
    cases h
  | case2 s w rest hw ih =>
    rw [explore, dif_pos hw] at h
    exact ih h
  | case3 s w rest hw hloop =>
    rw [explore, dif_neg hw, if_pos hloop] at h
    obtain rfl := Except.error.inj h
    exact mem_successors.mp hloop
  | case4 s w rest hw hloop met next ih =>
    rw [explore, dif_neg hw, if_neg hloop] at h
    exact ih h

theorem foldlM_explore_tracks {s t : Search n} {roots : List (Fin n)} (h : s.Tracks g [])
    (hok : roots.foldlM (fun s v => explore g s [v]) s = .ok t) : t.Tracks g [] := by
  induction roots generalizing s with
  | nil =>
    obtain rfl := Except.ok.inj hok
    exact h
  | cons v roots ih =>
    rw [List.foldlM_cons, bind_eq_ok_iff] at hok
    obtain ⟨u, hv, hok⟩ := hok
    exact ih (explore_tracks (h.push v) hv) hok

theorem edge_of_foldlM_explore_eq_error {s : Search n} {roots : List (Fin n)} {v : Fin n}
    (h : roots.foldlM (fun s v => explore g s [v]) s = .error v) : g.Edge v v := by
  induction roots generalizing s with
  | nil => cases h
  | cons w roots ih =>
    rw [List.foldlM_cons, bind_eq_error_iff] at h
    rcases h with hw | ⟨u, -, h⟩
    · exact edge_of_explore_eq_error hw
    · exact ih h

/-- A node that leads back in the order of a search was reached from where it leads to. -/
theorem back_of_reverseFinish {order : List (Fin n)} (h : g.reverseFinish = .ok order) :
    order.Pairwise fun a b => g.Edge b a → TransGen g.Edge a b := by
  rw [reverseFinish, except_map_eq_ok_iff] at h
  obtain ⟨s, hs, rfl⟩ := h
  exact (foldlM_explore_tracks (Search.tracks_start g) hs).back

theorem edge_of_reverseFinish_eq_error {v : Fin n} (h : g.reverseFinish = .error v) :
    g.Edge v v := by
  rw [reverseFinish, except_map_eq_error_iff] at h
  exact edge_of_foldlM_explore_eq_error h

/-- A node out of place leads to a node that it does not stand before. -/
theorem of_misplaced?_eq_some {before rest : List (Fin n)} {w : Fin n}
    (h : g.misplaced? before rest = some w) :
    ∃ front v back, rest = front ++ v :: back ∧ g.Edge w v ∧ w ≠ v ∧ w ∉ front ∧ w ∉ before := by
  induction rest generalizing before with
  | nil => cases h
  | cons v rest ih =>
    unfold misplaced? at h
    split at h
    next w' hlast =>
      obtain rfl := Option.some.inj h
      have hmem := List.mem_of_getLast? hlast
      simp only [List.mem_filter, mem_predecessors, Bool.not_eq_true', List.contains_eq_mem,
        decide_eq_false_iff_not, List.mem_cons, not_or] at hmem
      obtain ⟨e, hne, hbefore⟩ := hmem
      exact ⟨[], v, rest, rfl, e, hne, List.not_mem_nil, hbefore⟩
    next =>
      obtain ⟨front, x, back, rfl, e, hne, hfront, hbefore⟩ := ih h
      rw [List.mem_cons, not_or] at hbefore
      refine ⟨v :: front, x, back, rfl, e, hne, ?_, hbefore.2⟩
      rw [List.mem_cons, not_or]
      exact ⟨hbefore.1, hfront⟩

/-- The node that the sort reports lies on a cycle. -/
theorem transGen_of_topoSort_eq_error {v : Fin n} (h : g.topoSort = .error v) :
    TransGen g.Edge v v := by
  rcases topoSort_eq_error_iff_misplaced?.mp h with hr | ⟨order, hr, hm⟩
  · exact .single (edge_of_reverseFinish_eq_error hr)
  · obtain ⟨front, x, back, rfl, e, hne, hfront, -⟩ := of_misplaced?_eq_some hm
    have hmem : v ∈ front ++ x :: back :=
      (reverseFinish_ok hr).1.mem_iff.mpr (List.mem_finRange v)
    have hback : v ∈ back := by simpa [hfront, hne] using hmem
    have hpairs := (List.pairwise_append.mp (back_of_reverseFinish hr)).2.1
    have hreach : TransGen g.Edge x v := (List.pairwise_cons.mp hpairs).1 v hback e
    exact .head e hreach

theorem exists_topoSort_iff : (∃ order, g.topoSort = .ok order) ↔ g.Acyclic := by
  constructor
  · rintro ⟨order, h⟩
    exact acyclic_of_topoSort h
  · intro hg
    cases h : g.topoSort with
    | ok order => exact ⟨order, rfl⟩
    | error v => exact absurd (transGen_of_topoSort_eq_error h) (hg v)

end HybridBuild.Digraph
