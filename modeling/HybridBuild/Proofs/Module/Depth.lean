import HybridBuild.Proofs.Digraph.Depth
import HybridBuild.Proofs.Module.Accepted

/-!
# Waves by depth

The depth of a module is the number of steps in the longest chain of dependencies below it. The
waves of an accepted module list are its modules sorted by depth: wave `k` holds the modules of
depth `k`, in the order in which they are declared.
-/
namespace HybridBuild.ModuleGraph

open ModuleDecl HybridBuild.Digraph

variable (g : ModuleGraph)

/-- The waves of the modules, if no count of dependencies was zero before it was lowered and some
module was ready as long as modules remained. -/
def waves? : Option (List (List ModuleDecl)) :=
  (digraph g.modules).layers?.map fun layers =>
    layers.map fun layer => layer.map g.modules.get

theorem waves?_eq : g.waves? = some g.waves := by
  rw [waves?, layers?_eq g.acyclic]
  rfl

/-- A module has the depth of its number in the graph of the modules. -/
theorem isDepth_iff_isDepth_edge {i : Fin g.modules.length} {k : Nat} :
    IsDepth (Depends g.modules) (g.modules.get i) k ↔ IsDepth (digraph g.modules).Edge i k := by
  have hchain : ∀ j, HasChain (Depends g.modules) j (g.modules.get i) ↔
      HasChain (digraph g.modules).Edge j i := fun j =>
    hasChain_apply_iff g.modules.get (edge_digraph_iff g.accepted.names) fun hd =>
      List.get_of_mem hd.1
  rw [isDepth_iff, isDepth_iff, hchain, hchain]

theorem mem_wave_iff_isDepth {m : ModuleDecl} (hm : m ∈ g.modules) (k : Nat) :
    m ∈ g.waves.getD k [] ↔ IsDepth (Depends g.modules) m k := by
  have hnd : g.modules.Nodup := g.accepted.names.of_map
  obtain ⟨i, rfl⟩ := List.get_of_mem hm
  have hwave : g.waves.getD k [] =
      ((digraph g.modules).layers.getD k []).map fun i => g.modules[i] :=
    List.getD_map _ [] fun layer : List (Fin g.modules.length) => layer.map fun i => g.modules[i]
  rw [hwave]
  refine (List.mem_map_of_injective (List.nodup_iff_injective_get.mp hnd)).trans ?_
  rw [mem_layers_iff_isDepth g.acyclic]
  exact g.isDepth_iff_isDepth_edge.symm

/-- A wave is not empty, and its modules stand in the order of their declarations. -/
theorem of_mem_waves {wave : List ModuleDecl} (h : wave ∈ g.waves) :
    wave ≠ [] ∧ wave.Sublist g.modules := by
  obtain ⟨layer, hlayer, rfl⟩ := List.mem_map.mp h
  obtain ⟨hne, hsub⟩ := of_mem_layersFrom hlayer
  have hall : (List.finRange g.modules.length).map (fun i => g.modules[i]) = g.modules :=
    List.map_get_finRange g.modules
  have hmap := hsub.map fun i => g.modules[i]
  rw [hall] at hmap
  exact ⟨by simpa using hne, hmap⟩

/-- The waves of an accepted module list hold every module once. Wave `k` holds the modules below
which the longest chain of dependencies has `k` steps, in the order of their declarations, so every
dependency of a module names a module of a wave before. No wave is empty; on the way to them no
count of dependencies is lowered below zero, and as long as modules remain some are ready. -/
theorem waves_by_depth :
    g.waves.flatten.Perm g.modules ∧ g.waves.flatten.Nodup ∧
    (∀ m ∈ g.modules, ∀ k, m ∈ g.waves.getD k [] ↔ IsDepth (Depends g.modules) m k) ∧
    (∀ k, ∀ m ∈ g.waves.getD k [], ∀ dep ∈ m.deps,
      ∃ j < k, ∃ d ∈ g.waves.getD j [], d.name = dep) ∧
    (∀ wave ∈ g.waves, wave ≠ [] ∧ wave.Sublist g.modules) ∧
    g.waves? = some g.waves := by
  have hnd : g.modules.Nodup := g.accepted.names.of_map
  have hmem : ∀ {m k}, m ∈ g.waves.getD k [] → m ∈ g.modules := fun {_ k} hm =>
    mem_flatten_waves.mp (exists_mem_getD_iff.mp ⟨k, hm⟩)
  refine ⟨g.flatten_waves_perm, g.flatten_waves_perm.nodup_iff.mpr hnd,
    fun m hm => g.mem_wave_iff_isDepth hm, fun k m hm dep hdep => ?_,
    fun wave => g.of_mem_waves, g.waves?_eq⟩
  obtain ⟨d, hd, rfl⟩ := g.accepted.deps m (hmem hm) dep hdep
  obtain ⟨j, hj⟩ := exists_mem_getD_iff.mpr (mem_flatten_waves.mpr hd)
  have hdeep := (g.mem_wave_iff_isDepth (hmem hm) k).mp hm
  have hshallow := (g.mem_wave_iff_isDepth hd j).mp hj
  exact ⟨j, hdeep.lt_of_leads hshallow ⟨hd, hmem hm, hdep⟩, d, hj, rfl⟩

end HybridBuild.ModuleGraph
