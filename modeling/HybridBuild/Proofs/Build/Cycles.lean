import HybridBuild.Proofs.Module.Accepted
import HybridBuild.Proofs.Ninja.Order
import Mathlib.Data.List.Permutation

/-!
# Reported cycles

Rules that cannot be ordered and modules that cannot be built are refused with one name.
It is the name of exactly one rule or module, and that one lies on a cycle itself: it does not
just come after one.
-/
namespace HybridBuild

open Relation

/-- However a graph of rules was built, the only reason why they cannot be ordered is a cycle,
and the one rule that is named then feeds itself in one or more steps. Likewise, when a list
of modules is refused for a cycle, the one module that is named depends on itself in one or
more steps. -/
theorem reported_cycle_is_real (offered : List Rule) (modules : List ModuleDecl) :
    let g := ActionGraph.empty.offer offered
    (∀ e, g.ordered = .error e → ∃ r ∈ g.rules, e = .cycle r.name ∧
      (∀ s ∈ g.rules, s.name = r.name → s = r) ∧ TransGen g.Feeds r r) ∧
    ∀ name, ModuleGraph.ofModules modules = .error (.cycle name) → ∃ m ∈ modules, m.name = name ∧
      (∀ d ∈ modules, d.name = name → d = m) ∧ TransGen (ModuleDecl.Depends modules) m m := by
  intro g
  have hreg : ActionGraph.Registered g.rules := ActionGraph.registered_offer .nil offered
  constructor
  · intro e herror
    obtain ⟨r, hr, hname, hcycle⟩ := ActionGraph.of_ordered_eq_error hreg herror
    exact ⟨r, hr, hname, fun s hs heq => hreg.eq_of_name_eq hs hr heq, hcycle⟩
  · intro name herror
    obtain ⟨hnd, m, hm, rfl, hcycle⟩ :=
      ModuleDecl.of_check_eq_cycle (ModuleGraph.ofModules_eq_error_iff.mp herror)
    exact ⟨m, hm, rfl, fun d hd heq => ModuleDecl.eq_of_name_eq hnd hd hm heq, hcycle⟩

/-- A rule that comes after a ring of two rules. -/
def ringRules : List Rule :=
  [{ name := "app", inputs := ["x"], outputs := ["app"] },
    { name := "x", inputs := ["y"], outputs := ["x"] },
    { name := "y", inputs := ["x"], outputs := ["y"] }]

/-- A module that depends on another one. -/
def ringModule (name dep : String) : ModuleDecl where
  name
  kind := .filegroup
  archs := [.common]
  srcs := []
  deps := [dep]
  cmd := none
  outs := []
  target := none

/-- A module that depends on a ring of two modules. -/
def ringModules : List ModuleDecl :=
  [ringModule "app" "x", ringModule "x" "y", ringModule "y" "x"]

/-- What comes after a ring is not named. -/
theorem reported_cycle_is_real_ring :
    (∃ r ∈ ringRules, (ActionGraph.empty.offer ringRules).ordered = .error (.cycle r.name) ∧
      r.name ≠ "app" ∧ TransGen (ActionGraph.empty.offer ringRules).Feeds r r) ∧
    ∃ m ∈ ringModules, ModuleGraph.ofModules ringModules = .error (.cycle m.name) ∧
      m.name ≠ "app" ∧ TransGen (ModuleDecl.Depends ringModules) m m := by
  have hoffer : ActionGraph.empty.offer ringRules = ⟨ringRules, ∅⟩ := rfl
  have hrules : (ActionGraph.empty.offer ringRules).ordered = .error (.cycle "y") := by
    rw [hoffer]
    cbv
  have hmodules : ModuleGraph.ofModules ringModules = .error (.cycle "y") := by
    rw [ModuleGraph.ofModules_eq_error_iff]
    cbv
  obtain ⟨hrule, hmodule⟩ := reported_cycle_is_real ringRules ringModules
  constructor
  · obtain ⟨r, hr, hname, -, hcycle⟩ := hrule _ hrules
    have hy : r.name = "y" := (GraphError.cycle.inj hname).symm
    exact ⟨r, hr, hname ▸ hrules, by rw [hy]; decide, hcycle⟩
  · obtain ⟨m, hm, hy, -, hcycle⟩ := hmodule _ hmodules
    exact ⟨m, hm, hy.symm ▸ hmodules, by rw [hy]; decide, hcycle⟩

end HybridBuild
