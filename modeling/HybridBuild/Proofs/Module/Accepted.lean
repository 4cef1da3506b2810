import HybridBuild.Proofs.Digraph.Acyclic
import HybridBuild.Proofs.Digraph.Entries
import HybridBuild.Proofs.Module.Waves

/-!
# Which module lists are accepted

A list of modules is accepted exactly when their names differ, every dependency is the
name of a module, and no module depends on itself in any number of steps. None of this
depends on the order of the list. In the waves of an accepted list every module stands
after all modules that it depends on.
-/
namespace HybridBuild

theorem firstRepeated?_eq_none_iff {before xs : List String} :
    firstRepeated? before xs = none ↔ xs.Nodup ∧ ∀ x ∈ xs, x ∉ before := by
  induction xs generalizing before with
  | nil => simp [firstRepeated?]
  | cons x rest ih =>
    rw [firstRepeated?]
    by_cases hx : x ∈ before
    · simp [hx]
    · rw [if_neg hx, ih, List.nodup_cons, List.forall_mem_cons]
      constructor
      · rintro ⟨hnd, h⟩
        refine ⟨⟨fun hmem => h x hmem List.mem_cons_self, hnd⟩, hx, fun y hy hmem => ?_⟩
        exact h y hy (List.mem_cons_of_mem x hmem)
      · rintro ⟨⟨hnew, hnd⟩, -, h⟩
        refine ⟨hnd, fun y hy hmem => ?_⟩
        rcases List.mem_cons.mp hmem with rfl | hmem
        · exact hnew hy
        · exact h y hy hmem

namespace ModuleDecl

variable {modules modules' : List ModuleDecl}

def Depends (modules : List ModuleDecl) (d m : ModuleDecl) : Prop :=
  d ∈ modules ∧ m ∈ modules ∧ d.name ∈ m.deps

/-- What a list of modules is checked for. -/
structure Accepted (modules : List ModuleDecl) : Prop where
  names : (modules.map name).Nodup
  deps : ∀ m ∈ modules, ∀ dep ∈ m.deps, ∃ d ∈ modules, d.name = dep
  acyclic : ∀ m, ¬ Relation.TransGen (Depends modules) m m

theorem firstUndefined?_eq_none_iff : firstUndefined? modules = none ↔
    ∀ m ∈ modules, ∀ dep ∈ m.deps, ∃ d ∈ modules, d.name = dep := by
  simp [firstUndefined?, List.findSome?_eq_none_iff]

theorem eq_of_name_eq (h : (modules.map name).Nodup) {m d : ModuleDecl} (hm : m ∈ modules)
    (hd : d ∈ modules) (heq : m.name = d.name) : m = d :=
  List.inj_on_of_nodup_map h hm hd heq

theorem edge_digraph_iff (h : (modules.map name).Nodup) {i j : Fin modules.length} :
    (digraph modules).Edge j i ↔ Depends modules (modules.get j) (modules.get i) := by
  have hunique : ∀ dep, ∀ i j : Fin modules.length, decide (modules[i].name = dep) →
      decide (modules[j].name = dep) → i = j := by
    intro dep i j hi hj
    have heq : modules[i] = modules[j] :=
      eq_of_name_eq h (List.getElem_mem _) (List.getElem_mem _)
        ((of_decide_eq_true hi).trans (of_decide_eq_true hj).symm)
    exact List.nodup_iff_injective_get.mp h.of_map heq
  refine (Digraph.mem_edges_iff ModuleDecl.deps (fun dep d => decide (d.name = dep))
    hunique).trans ?_
  constructor
  · rintro ⟨dep, hdep, hname⟩
    obtain rfl := of_decide_eq_true hname
    exact ⟨List.getElem_mem _, List.getElem_mem _, hdep⟩
  · rintro ⟨-, -, hdep⟩
    exact ⟨_, hdep, decide_eq_true rfl⟩

theorem check_eq_ok_iff : check modules = .ok () ↔ Accepted modules := by
  have hacyclic (h : (modules.map name).Nodup) :
      (∃ order, (digraph modules).topoSort = .ok order) ↔
        ∀ m, ¬ Relation.TransGen (Depends modules) m m := by
    rw [Digraph.exists_topoSort_iff]
    exact Digraph.acyclic_iff h.of_map (edge_digraph_iff h) fun hd => hd.2.1
  have hnames : firstRepeated? [] (modules.map name) = none ↔ (modules.map name).Nodup := by
    simp [firstRepeated?_eq_none_iff]
  rw [check_eq_ok_iff_no_fault, hnames, firstUndefined?_eq_none_iff]
  constructor
  · rintro ⟨hnd, hdeps, horder⟩
    exact ⟨hnd, hdeps, (hacyclic hnd).mp horder⟩
  · rintro ⟨hnd, hdeps, hacyc⟩
    exact ⟨hnd, hdeps, (hacyclic hnd).mpr hacyc⟩

/-- When a cycle is reported, the names differ, and the module that is named depends on
itself. -/
theorem of_check_eq_cycle {cycleName : String} (h : check modules = .error (.cycle cycleName)) :
    (modules.map name).Nodup ∧
      ∃ m ∈ modules, m.name = cycleName ∧ Relation.TransGen (Depends modules) m m := by
  unfold check at h
  split at h
  · cases h
  next hrepeated =>
    have hnd : (modules.map name).Nodup := (firstRepeated?_eq_none_iff.mp hrepeated).1
    split at h
    · cases h
    · split at h
      next i hsort =>
        obtain rfl : modules[i].name = cycleName := by simpa using h
        have hcycle := Digraph.transGen_of_topoSort_eq_error hsort
        exact ⟨hnd, modules[i], List.getElem_mem _, rfl,
          Digraph.transGen_of_transGen_edge (edge_digraph_iff hnd) hcycle⟩
      · cases h

/-- Whether a list is accepted does not depend on its order. -/
theorem Accepted.perm (h : Accepted modules) (hperm : modules.Perm modules') :
    Accepted modules' where
  names := (hperm.map name).nodup_iff.mp h.names
  deps := by
    intro m hm dep hdep
    obtain ⟨d, hd, hname⟩ := h.deps m (hperm.mem_iff.mpr hm) dep hdep
    exact ⟨d, hperm.mem_iff.mp hd, hname⟩
  acyclic := by
    have hsame : Depends modules' = Depends modules := by
      funext d m
      simp only [Depends, hperm.mem_iff]
    rw [hsame]
    exact h.acyclic

end ModuleDecl

namespace ModuleGraph

open ModuleDecl

variable (g : ModuleGraph)

theorem accepted : Accepted g.modules := check_eq_ok_iff.mp g.checked

theorem ofModules_eq_ok {modules : List ModuleDecl} (h : Accepted modules) :
    ofModules modules = .ok ⟨modules, check_eq_ok_iff.mpr h⟩ := by
  have hcheck := check_eq_ok_iff.mpr h
  unfold ofModules
  split
  next e herror => exact absurd (hcheck.symm.trans herror) nofun
  next => rfl

theorem ofModules_eq_error_iff {modules : List ModuleDecl} {e : ModuleError} :
    ofModules modules = .error e ↔ check modules = .error e := by
  unfold ofModules
  split
  next hcheck => rw [hcheck, Except.error.injEq, Except.error.injEq]
  next hcheck => exact iff_of_false nofun fun herror => nomatch hcheck.symm.trans herror

/-- In the waves every module stands after the modules that it depends on. -/
theorem layered_waves : Digraph.Layered (Depends g.modules) [] g.waves := by
  refine (Digraph.layered_layers (digraph g.modules)).map (fun i => g.modules[i]) ?_
  rintro d i ⟨hd, hm, hdep⟩
  obtain ⟨j, rfl⟩ := List.get_of_mem hd
  exact ⟨j, (edge_digraph_iff g.accepted.names).mpr ⟨hd, hm, hdep⟩, rfl⟩

/-- A dependency of a module stands in a wave before that of the module. -/
theorem exists_dep_before {before after : List (List ModuleDecl)} {wave : List ModuleDecl}
    (h : g.waves = before ++ wave :: after) :
    ∀ m ∈ wave, ∀ dep ∈ m.deps, ∃ d ∈ before.flatten, d.name = dep := by
  intro m hm dep hdep
  have hmem : m ∈ g.modules := by
    rw [← mem_flatten_waves, h]
    simp [hm]
  obtain ⟨d, hd, rfl⟩ := g.accepted.deps m hmem dep hdep
  have hlayered := g.layered_waves
  rw [h] at hlayered
  exact ⟨d, by simpa using hlayered.mem_of_leads hm ⟨hd, hmem, hdep⟩, rfl⟩

/-- What a module has once all its dependencies have it, all modules have. -/
theorem forall_of_deps {P : ModuleDecl → Prop}
    (h : ∀ m ∈ g.modules, (∀ d ∈ g.modules, d.name ∈ m.deps → P d) → P m) :
    ∀ m ∈ g.modules, P m := by
  intro m hm
  refine g.layered_waves.forall_mem (fun _ hv => nomatch hv) (fun m hm ih => ?_) m
    (mem_flatten_waves.mpr hm)
  have hm := mem_flatten_waves.mp hm
  exact h m hm fun d hd hdep => ih d ⟨hd, hm, hdep⟩

end ModuleGraph

end HybridBuild
