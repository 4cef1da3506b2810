import HybridBuild.Module.Graph
import HybridBuild.Proofs.Digraph.Layers

/-!
# The waves of a module graph

An accepted list of modules has no cycle of dependencies, so its waves hold every
module exactly as often as the list does.
-/
namespace HybridBuild

theorem ModuleDecl.check_eq_ok_iff_no_fault {modules : List ModuleDecl} :
    check modules = .ok () ↔ firstRepeated? [] (modules.map name) = none ∧
      firstUndefined? modules = none ∧ ∃ order, (digraph modules).topoSort = .ok order := by
  unfold check
  cases firstRepeated? [] (modules.map name) with
  | some name => simp
  | none =>
    cases firstUndefined? modules with
    | some dep => simp
    | none => cases (digraph modules).topoSort <;> simp

namespace ModuleGraph

theorem acyclic (g : ModuleGraph) : (ModuleDecl.digraph g.modules).Acyclic := by
  obtain ⟨-, -, order, h⟩ := ModuleDecl.check_eq_ok_iff_no_fault.mp g.checked
  exact Digraph.acyclic_of_topoSort h

theorem flatten_waves_perm (g : ModuleGraph) : g.waves.flatten.Perm g.modules := by
  have hflat : g.waves.flatten =
      (ModuleDecl.digraph g.modules).layers.flatten.map fun i => g.modules[i] := by
    rw [waves, List.map_flatten]
  have hall : (List.finRange g.modules.length).map (fun i => g.modules[i]) = g.modules :=
    List.map_get_finRange g.modules
  have hperm := (Digraph.flatten_layers_perm g.acyclic).map fun i => g.modules[i]
  rwa [← hflat, hall] at hperm

/-- Modules without dependencies stand in one wave. -/
theorem waves_of_no_deps {g : ModuleGraph} (hne : g.modules ≠ [])
    (hdeps : ∀ m ∈ g.modules, m.deps = []) : g.waves = [g.modules] := by
  have hedges : (ModuleDecl.digraph g.modules).edges = [] := by
    refine List.flatMap_eq_nil_iff.mpr fun i _ => ?_
    rw [hdeps g.modules[i] (List.getElem_mem i.isLt), List.filterMap_nil]
  rw [waves, Digraph.layers_of_no_edges (by simpa using hne) hedges, List.map_singleton]
  exact congrArg ([·]) (List.map_get_finRange g.modules)

/-- The waves hold all modules and no others. -/
@[simp] theorem mem_flatten_waves {g : ModuleGraph} {m : ModuleDecl} :
    m ∈ g.waves.flatten ↔ m ∈ g.modules :=
  g.flatten_waves_perm.mem_iff

end ModuleGraph

end HybridBuild
