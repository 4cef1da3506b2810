import HybridBuild.Proofs.Build.Strict
import HybridBuild.Proofs.Module.Shape
import HybridBuild.Proofs.Variant.Alike

/-!
# Builds with a disabled source

With a disabled source a build neither asks for a fact nor runs Bazel, and a module that names
a Bazel target is planned as the same module without one.
-/
namespace HybridBuild

namespace ModuleDecl

/-- A module that is built from its sources only. -/
def withoutTarget (m : ModuleDecl) : ModuleDecl := { m with target := none }

theorem keepsShape_withoutTarget : KeepsShape withoutTarget where
  name := fun _ => rfl
  deps := fun _ => rfl

/-- Where nothing may be delegated, the target of a module has no say in its plan. -/
theorem plannedAlike_withoutTarget {facts : Facts} (hdisabled : facts.enabled = false)
    (outDir : Path) (m : ModuleDecl) : PlannedAlike facts facts outDir m m.withoutTarget where
  name := rfl
  archs := rfl
  plan := by
    intro outputs arch
    have hnative : m.withoutTarget.planNative outDir outputs arch =
        m.planNative outDir outputs arch := rfl
    have hnone : m.withoutTarget.delegate? = none := rfl
    rw [planVariant, hnone, planVariant]
    cases m.delegate? with
    | none => simp only [hnative]
    | some label => simp [hdisabled, hnative]

end ModuleDecl

namespace Build

open ModuleDecl

variable {g native : ModuleGraph} {facts : Facts}

/-- Planning without delegation is planning without targets. -/
theorem ofGraph_withoutTarget (hdisabled : facts.enabled = false)
    (h : native.modules = g.modules.map withoutTarget) (outDir : Path) :
    Pass.ofGraph facts outDir native = Pass.ofGraph facts outDir g := by
  rw [Pass.ofGraph, keepsShape_withoutTarget.waves_eq h]
  exact Pass.ofWaves_map (fun m _ => plannedAlike_withoutTarget hdisabled outDir m) .empty

theorem run_withoutTarget {src : FactSource} (hdisabled : src.enabled = false)
    (h : native.modules = g.modules.map withoutTarget) (options : BuildOptions)
    (files : FileTree) : run native options src files = run g options src files := by
  have hplan : plan native options.outDir src = plan g options.outDir src := by
    simp only [plan, ofGraph_withoutTarget hdisabled h]
  have hfinish : finish native options src files = finish g options src files := by
    simp only [finish, hplan]
  simp [run, hdisabled, hfinish]

/-- A build with a disabled source never uses it in a way that it does not allow, and leaves
the files alone. It comes to the result of the same modules without their Bazel targets. -/
theorem disabled_run_is_native (g : ModuleGraph) (options : BuildOptions) (files : FileTree) :
    ∃ result, run g options .disabled files = (result, .disabled, files) ∧
      Strict.run g options files .disabled = .ok ((result, files), .disabled) ∧
      ∃ native, ModuleGraph.ofModules (g.modules.map withoutTarget) = .ok native ∧
        run native options .disabled files = (result, .disabled, files) := by
  have hdisabled : FactSource.disabled.enabled = false := rfl
  have haccepted := keepsShape_withoutTarget.accepted g.accepted
  have hkept : (finish g options .disabled files).2 = .disabled := snd_finish g options _ files
  rcases hfinish : finish g options .disabled files with ⟨result, last⟩
  obtain rfl : last = .disabled := by rw [← hkept, hfinish]
  have hrun : run g options .disabled files = (result, .disabled, files) := by
    simp only [run, hdisabled, Bool.false_eq_true, if_false, hfinish]
  refine ⟨result, hrun, ?_, _, ModuleGraph.ofModules_eq_ok haccepted, ?_⟩
  · obtain ⟨result', last, left, hrun', hstrict⟩ := Strict.run_eq g options .disabled files
    obtain ⟨rfl, rfl, rfl⟩ : result = result' ∧ .disabled = last ∧ files = left := by
      simpa using hrun.symm.trans hrun'
    exact hstrict
  · exact (run_withoutTarget hdisabled rfl options files).trans hrun

end Build

end HybridBuild
