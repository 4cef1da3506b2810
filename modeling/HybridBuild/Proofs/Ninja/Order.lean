import HybridBuild.Proofs.Digraph.Acyclic
import HybridBuild.Proofs.Digraph.Entries
import HybridBuild.Proofs.Ninja.Registration

/-!
# The order of rules

A rule feeds another one when it writes a file that the other reads. As registered rules
share no output, the graph of a list of rules has exactly these pairs for edges. So the
rules can be ordered exactly when no rule feeds itself in any number of steps, and the
order holds every rule once, after the rules that feed it.
-/
namespace HybridBuild.ActionGraph

/-- A rule writes a file that another rule reads. -/
def Feeds (g : ActionGraph) (p r : Rule) : Prop :=
  p ∈ g.rules ∧ r ∈ g.rules ∧ ∃ path ∈ p.allOutputs, path ∈ r.allInputs

variable {g : ActionGraph}

theorem edge_digraph_iff (h : Registered g.rules) {i j : Fin g.rules.length} :
    (digraph g.rules).Edge j i ↔ g.Feeds (g.rules.get j) (g.rules.get i) := by
  have hunique : ∀ path, ∀ i j : Fin g.rules.length, g.rules[i].allOutputs.contains path →
      g.rules[j].allOutputs.contains path → i = j := fun path i j hi hj =>
    h.eq_of_mem (List.contains_iff_mem.mp hi) (List.contains_iff_mem.mp hj)
  refine (Digraph.mem_edges_iff Rule.allInputs (fun path r => r.allOutputs.contains path)
    hunique).trans ?_
  constructor
  · rintro ⟨path, hread, hwrite⟩
    exact ⟨List.getElem_mem _, List.getElem_mem _, path, List.contains_iff_mem.mp hwrite, hread⟩
  · rintro ⟨-, -, path, hwrite, hread⟩
    exact ⟨path, hread, List.contains_iff_mem.mpr hwrite⟩

theorem acyclic_digraph_iff (h : Registered g.rules) :
    (digraph g.rules).Acyclic ↔ ∀ r, ¬ Relation.TransGen g.Feeds r r :=
  Digraph.acyclic_iff h.nodup (edge_digraph_iff h) fun hfeeds => hfeeds.2.1

theorem ordered_eq_ok_iff {order : List Rule} :
    g.ordered = .ok order ↔
      ∃ places, (digraph g.rules).topoSort = .ok places ∧
        order = places.map g.rules.get := by
  unfold ordered
  cases (digraph g.rules).topoSort with
  | error i => simp
  | ok places =>
    constructor
    · intro h
      exact ⟨places, rfl, (Except.ok.inj h).symm⟩
    · rintro ⟨_, heq, rfl⟩
      rw [Except.ok.inj heq]
      rfl

theorem exists_ordered_iff :
    (∃ order, g.ordered = .ok order) ↔ ∃ places, (digraph g.rules).topoSort = .ok places := by
  constructor
  · rintro ⟨order, h⟩
    obtain ⟨places, hplaces, -⟩ := ordered_eq_ok_iff.mp h
    exact ⟨places, hplaces⟩
  · rintro ⟨places, h⟩
    exact ⟨_, ordered_eq_ok_iff.mpr ⟨places, h, rfl⟩⟩

/-- The rules can be ordered exactly when none feeds itself in any number of steps. -/
theorem exists_ordered_iff_acyclic (h : Registered g.rules) :
    (∃ order, g.ordered = .ok order) ↔ ∀ r, ¬ Relation.TransGen g.Feeds r r := by
  rw [exists_ordered_iff, Digraph.exists_topoSort_iff, acyclic_digraph_iff h]

/-- When the rules cannot be ordered, the rule that is named feeds itself. -/
theorem of_ordered_eq_error (h : Registered g.rules) {e : GraphError} (herror : g.ordered = .error e) :
    ∃ r ∈ g.rules, e = .cycle r.name ∧ Relation.TransGen g.Feeds r r := by
  unfold ordered at herror
  cases hsort : (digraph g.rules).topoSort with
  | ok places => rw [hsort] at herror; cases herror
  | error i =>
    rw [hsort] at herror
    obtain rfl := Except.error.inj herror
    have hcycle := Digraph.transGen_of_topoSort_eq_error hsort
    exact ⟨g.rules[i], List.getElem_mem _, rfl,
      Digraph.transGen_of_transGen_edge (edge_digraph_iff h) hcycle⟩

theorem ordered_perm {order : List Rule} (hok : g.ordered = .ok order) :
    order.Perm g.rules := by
  obtain ⟨places, hplaces, rfl⟩ := ordered_eq_ok_iff.mp hok
  have hall : (List.finRange g.rules.length).map (fun i => g.rules[i]) = g.rules :=
    List.map_get_finRange g.rules
  have hperm := (Digraph.isOrder_of_topoSort hplaces).perm.map fun i => g.rules[i]
  rwa [hall] at hperm

theorem lt_of_feeds {order : List Rule} (h : Registered g.rules) (hok : g.ordered = .ok order)
    {i j : Nat} (hi : i < order.length) (hj : j < order.length)
    (hfeeds : g.Feeds order[i] order[j]) : i < j := by
  obtain ⟨places, hplaces, rfl⟩ := ordered_eq_ok_iff.mp hok
  rw [List.length_map] at hi hj
  have horder := Digraph.isOrder_of_topoSort hplaces
  have hnd : places.Nodup := horder.perm.nodup_iff.mpr (List.nodup_finRange _)
  rw [List.getElem_map, List.getElem_map] at hfeeds
  have hlt := horder.forward ((edge_digraph_iff h).mpr hfeeds)
  rwa [hnd.idxOf_getElem i hi, hnd.idxOf_getElem j hj] at hlt

/-- The order comes from the rules alone. -/
theorem ordered_congr {g' : ActionGraph} (h : g.rules = g'.rules) : g.ordered = g'.ordered := by
  obtain ⟨rules, deps⟩ := g
  obtain ⟨rules', deps'⟩ := g'
  have heq : rules = rules' := h
  subst heq
  simp only [ordered]
  cases (digraph rules).topoSort <;> rfl

/-- However a graph was built by offering rules to it, its rules can be ordered exactly
when none feeds itself in any number of steps. The order then holds each rule of the
graph once, before all rules that it feeds. -/
theorem ordered_iff_acyclic (offered : List Rule) :
    let g := empty.offer offered
    ((∃ order, g.ordered = .ok order) ↔ ∀ r, ¬ Relation.TransGen g.Feeds r r) ∧
    ∀ order, g.ordered = .ok order → order.Perm g.rules ∧
      ∀ (i j : Nat) (hi : i < order.length) (hj : j < order.length),
        g.Feeds order[i] order[j] → i < j := by
  intro g
  have h : Registered g.rules := registered_offer .nil offered
  constructor
  · rw [exists_ordered_iff, Digraph.exists_topoSort_iff, acyclic_digraph_iff h]
  · intro order hok
    exact ⟨ordered_perm hok, fun i j hi hj hfeeds => lt_of_feeds h hok hi hj hfeeds⟩

end HybridBuild.ActionGraph
