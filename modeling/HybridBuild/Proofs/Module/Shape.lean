import HybridBuild.Proofs.Module.Accepted

/-!
# The shape of a module list

Whether a list of modules is accepted, and how it falls into waves, depends on the names and
the dependencies of its modules and on nothing else. So a map that keeps both of every module
takes accepted lists to accepted lists, and waves to waves.
-/
namespace HybridBuild

open ModuleDecl

variable {f : ModuleDecl → ModuleDecl} {modules : List ModuleDecl}

theorem mem_of_transGen_depends {d m : ModuleDecl}
    (h : Relation.TransGen (Depends modules) d m) : m ∈ modules := by
  obtain ⟨b, -, hdep⟩ := Relation.TransGen.tail'_iff.mp h
  exact hdep.2.1

/-- A map that keeps the name and the dependencies of every module. -/
structure KeepsShape (f : ModuleDecl → ModuleDecl) : Prop where
  name : ∀ m, (f m).name = m.name
  deps : ∀ m, (f m).deps = m.deps

namespace KeepsShape

theorem edges_digraph (hf : KeepsShape f) (modules : List ModuleDecl) :
    (digraph (modules.map f)).edges = (digraph modules).edges.map fun e =>
      (e.1.cast (List.length_map f).symm, e.2.cast (List.length_map f).symm) := by
  have hmap := Digraph.edges_map f ModuleDecl.deps (fun dep d => decide (d.name = dep)) modules
  simp only [hf.name, hf.deps] at hmap
  exact hmap

/-- A dependency between mapped modules is one between the modules. -/
theorem of_depends (hf : KeepsShape f) {d m' : ModuleDecl} (hd : d ∈ modules)
    (h : Depends (modules.map f) (f d) m') : ∃ m, f m = m' ∧ Depends modules d m := by
  obtain ⟨-, hm', hdep⟩ := h
  obtain ⟨m, hm, rfl⟩ := List.mem_map.mp hm'
  rw [hf.name, hf.deps] at hdep
  exact ⟨m, rfl, hd, hm, hdep⟩

theorem of_transGen_depends (hf : KeepsShape f) {d m' : ModuleDecl} (hd : d ∈ modules)
    (h : Relation.TransGen (Depends (modules.map f)) (f d) m') :
    ∃ m, f m = m' ∧ Relation.TransGen (Depends modules) d m := by
  induction h with
  | single h =>
    obtain ⟨m, hm, hdep⟩ := hf.of_depends hd h
    exact ⟨m, hm, .single hdep⟩
  | tail _ h ih =>
    obtain ⟨b, rfl, hpath⟩ := ih
    obtain ⟨m, hm, hdep⟩ := hf.of_depends (mem_of_transGen_depends hpath) h
    exact ⟨m, hm, hpath.tail hdep⟩

theorem accepted (hf : KeepsShape f) (h : Accepted modules) : Accepted (modules.map f) where
  names := by
    have hnames : (modules.map f).map ModuleDecl.name = modules.map ModuleDecl.name := by
      simp [hf.name]
    rw [hnames]
    exact h.names
  deps := by
    intro m' hm' dep hdep
    obtain ⟨m, hm, rfl⟩ := List.mem_map.mp hm'
    rw [hf.deps] at hdep
    obtain ⟨d, hd, hname⟩ := h.deps m hm dep hdep
    exact ⟨f d, List.mem_map_of_mem hd, (hf.name d).trans hname⟩
  acyclic := by
    intro m' hcycle
    obtain ⟨m, hm, rfl⟩ := List.mem_map.mp (mem_of_transGen_depends hcycle)
    obtain ⟨last, hlast, hpath⟩ := hf.of_transGen_depends hm hcycle
    have hname : last.name = m.name := by rw [← hf.name, hlast, hf.name]
    obtain rfl := eq_of_name_eq h.names (mem_of_transGen_depends hpath) hm hname
    exact h.acyclic last hpath

/-- The waves of mapped modules are the waves of the modules, mapped. -/
theorem waves_eq (hf : KeepsShape f) {g g' : ModuleGraph} (h : g'.modules = g.modules.map f) :
    g'.waves = g.waves.map (List.map f) := by
  obtain ⟨modules', hchecked⟩ := g'
  obtain rfl : modules' = g.modules.map f := h
  have hlayers := Digraph.layers_map_cast _ (hf.edges_digraph g.modules)
  simp [ModuleGraph.waves, hlayers]

end KeepsShape

end HybridBuild
