import HybridBuild.Proofs.Bazel.Files
import HybridBuild.Proofs.Build.Locality
import HybridBuild.Proofs.Build.Result
import HybridBuild.Proofs.Build.TwoPasses

/-!
# The files of a build

A build changes files only through its source, and its source only while it is invoked. So
until the manifest is written a build leaves every file alone but those of an invocation, and
an earlier manifest stays as it was when the build fails.
-/
namespace HybridBuild

open FileTree

theorem FactSource.snd_snd_invoke_session (s : Session) (files : FileTree) :
    ((session s).invoke files).2.2 = (s.invoke files).2.2 := by
  rcases hs : s.invoke files with ⟨e | ⟨⟩, t, left⟩
  · simp only [invoke, hs]
  · simp only [invoke, hs]

namespace Build

variable {g : ModuleGraph} {options : BuildOptions} {s : Session} {files left : FileTree}
  {asked settled last : FactSource} {graph : ActionGraph}

section Quiet

variable (hquiet : s.runner.TouchesNoFiles) (hlinks : files.HasNoLinks)
include hquiet hlinks

/-- After a first pass an invocation writes what it writes without one. -/
theorem onlyWrites_of_invoke {outDir : Path} {planned : Except PlanError Plan}
    {invoked : Except SourceError Unit} (hplan : plan g outDir (.session s) = (planned, asked))
    (hinvoke : asked.invoke files = (invoked, settled, left)) :
    OnlyWrites s.filesDir Session.writtenNames files left := by
  obtain rfl := congrArg Prod.snd hplan
  let waiting := s.askAll (Pass.ofGraph (FactSource.session s).facts outDir g).asked
  have hleft : (waiting.invoke files).2.2 = left :=
    (FactSource.snd_snd_invoke_session waiting files).symm.trans (congrArg (·.2.2) hinvoke)
  rw [← hleft]
  exact Session.onlyWrites_invoke (s := waiting) hquiet hlinks

theorem onlyWrites_run :
    OnlyWrites s.filesDir Session.writtenNames files (run g options (.session s) files).2.2 := by
  have hran := ran_run g options (.session s) files
  revert hran
  generalize run g options (.session s) files = ending
  intro hran
  cases hran with
  | unplanned => exact .refl files
  | uninvoked _ planned invoked => exact onlyWrites_of_invoke hquiet hlinks planned invoked
  | finished prepared =>
    cases prepared with
    | untouched => exact .refl files
    | invoked _ planned invoked => exact onlyWrites_of_invoke hquiet hlinks planned invoked

/-- A build with success leaves the scripts for the requests of its first pass, and its manifest
depends on each of them. -/
theorem read?_scripts_of_run (hrun : run g options (.session s) files = (.ok graph, last, left)) :
    ∃ first asked scripts, plan g options.outDir (.session s) = (.ok first, asked) ∧
      ScriptSet.synthesize s.paths.workspaceDir asked.pending s.registry = .ok scripts ∧
      last.generatedFiles = scripts.files.map (fun file => s.filesDir.join file.1) ∧
      ∀ file ∈ scripts.files, (s.filesDir.join file.1).text ∈ graph.manifestDeps ∧
        left.read? (s.filesDir.join file.1) = some (Utf8.encode file.2) := by
  obtain ⟨second, p, hprepared, hplan, -, hassemble⟩ := of_run_eq_ok hrun
  cases hprepared with
  | untouched disabled => cases disabled
  | @invoked first asked _ _ _ planned invoked =>
    obtain rfl := congrArg Prod.snd planned
    obtain ⟨t, rfl, ht⟩ := FactSource.invoke_session_eq_ok invoked
    let waiting := s.askAll (Pass.ofGraph (FactSource.session s).facts options.outDir g).asked
    obtain ⟨hpaths, scripts, hscripts, hread⟩ :=
      Session.read?_scripts_of_invoke (s := waiting) hquiet hlinks ht
    obtain rfl : .session (t.askAll _) = last := congrArg Prod.snd hplan
    have hgenerated : t.generatedFiles = scripts.files.map fun file => s.filesDir.join file.1 := by
      have hdir : t.paths = s.paths := hpaths
      rw [Session.generatedFiles, hdir, ScriptSet.paths, ← scripts.map_fst_files, List.map_map]
      rfl
    refine ⟨first, _, scripts, planned, hscripts, hgenerated,
      fun file hfile => ⟨?_, hread file hfile⟩⟩
    have hmem : s.filesDir.join file.1 ∈ t.generatedFiles :=
      hgenerated ▸ List.mem_map_of_mem hfile
    exact (mem_manifestDeps_of_assemble hassemble).mpr (.generated rfl hmem)

end Quiet

/-- Until a manifest is written, a build with a session that nobody has used, and with a runner
that touches no files, writes at most the scripts and the output of the query. So a manifest and
a dependency list of an earlier build can still be read as they were. A build with success leaves
each script with the text that was synthesized for the requests of the first pass, whether or
not there were any, and its manifest depends on each of them. -/
theorem only_known_files_written (g : ModuleGraph) (options : BuildOptions) (paths : BazelPaths)
    (registry : QueryRegistry) {runner : Runner} (hquiet : runner.TouchesNoFiles)
    {files : FileTree} (hlinks : files.HasNoLinks) {result : Except BuildError ActionGraph}
    {last : FactSource} {left : FileTree}
    (hrun : run g options (.session (.fresh paths registry runner)) files = (result, last, left)) :
    let dir := paths.absoluteIntermediatesDir
    OnlyWrites dir
        ["main.bzl", "BUILD.bazel", "buildroot.cquery", "WORKSPACE.bazel", "cquery.out"]
        files left ∧
    (∀ (earlier : Path), ∀ name ∈ ["build.ninja", "build.ninja.d"], ∀ content,
      files.read? (earlier.join name) = some content →
        left.read? (earlier.join name) = some content) ∧
    ∀ graph, result = .ok graph → ∃ first asked scripts,
      plan g options.outDir (.session (.fresh paths registry runner)) = (.ok first, asked) ∧
      ScriptSet.synthesize paths.workspaceDir asked.pending registry = .ok scripts ∧
      last.generatedFiles = scripts.files.map (fun file => dir.join file.1) ∧
      ∀ file ∈ scripts.files, (dir.join file.1).text ∈ graph.manifestDeps ∧
        left.read? (dir.join file.1) = some (Utf8.encode file.2) := by
  intro dir
  let s := Session.fresh paths registry runner
  have hwrites : OnlyWrites dir Session.writtenNames files left := by
    have hrunWrites : OnlyWrites dir Session.writtenNames files
        (run g options (.session s) files).2.2 := onlyWrites_run (s := s) hquiet hlinks
    rwa [hrun] at hrunWrites
  refine ⟨hwrites, fun earlier name hname content hread => ?_, fun graph hgraph => ?_⟩
  · have hentry : ∀ name ∈ ["build.ninja", "build.ninja.d"],
        IsEntryName name ∧ name ∉ Session.writtenNames := by decide +kernel
    obtain ⟨hplain, hother⟩ := hentry name hname
    exact hwrites.read?_join hlinks hplain hother hread
  · subst hgraph
    exact read?_scripts_of_run (s := s) hquiet hlinks hrun

def nativeModule : ModuleDecl :=
  { delegatedModule with cmd := some "c", outs := ["o"], target := none }

theorem check_nativeModule : ModuleDecl.check [nativeModule] = .ok () := by cbv

def nativeGraph : ModuleGraph := ⟨[nativeModule], check_nativeModule⟩

theorem waves_nativeGraph : nativeGraph.waves = [[nativeModule]] :=
  ModuleGraph.waves_of_no_deps (List.cons_ne_nil _ _) (List.forall_mem_singleton.mpr rfl)

def nativeRule : Rule where
  name := "m.common"
  description := "genrule m"
  command := "c"
  outputs := ["out/m/common/o"]

theorem rules_ofGraph_native :
    (Pass.ofGraph FactSource.disabled.facts ⟨"out"⟩ nativeGraph).result.map Plan.rules =
      .ok [nativeRule] := by
  rw [Pass.ofGraph, waves_nativeGraph]
  decide +kernel

theorem exists_ordered_nativeRule : ∃ order, ActionGraph.ordered ⟨[nativeRule], ∅⟩ = .ok order := by
  have hsort : Digraph.topoSort (⟨[]⟩ : Digraph 1) = .ok [0] := by cbv
  have hdigraph : ActionGraph.digraph [nativeRule] = (⟨[]⟩ : Digraph 1) := rfl
  rw [ActionGraph.exists_ordered_iff, hdigraph]
  exact ⟨_, hsort⟩

/-- A build of this module has nothing to ask, and ends with a graph. -/
theorem exists_run_native :
    plan nativeGraph ⟨"out"⟩ (.session Session.oneTargetSession) =
        ((Pass.ofGraph FactSource.disabled.facts ⟨"out"⟩ nativeGraph).result,
          .session Session.oneTargetSession) ∧
      ∃ graph last left, run nativeGraph ⟨⟨"out"⟩, none⟩ (.session Session.oneTargetSession)
        (.onlyWorkDir []) = (.ok graph, last, left) := by
  have hnative : ∀ m ∈ nativeGraph.modules, m.delegate? = none := by
    intro m hm
    obtain rfl := List.mem_singleton.mp hm
    rfl
  refine ⟨plan_of_native hnative _ _, ?_⟩
  obtain ⟨p, hp, hrules⟩ := except_map_eq_ok_iff.mp rules_ofGraph_native
  have hplan (src : FactSource) : plan nativeGraph ⟨"out"⟩ src = (.ok p, src) := by
    rw [plan_of_native hnative, hp]
  obtain ⟨result, t, left, hinvoke, -, hstatements⟩ :=
    Session.invoke_of_pending_nil (s := Session.oneTargetSession) rfl rfl (.onlyWorkDir [])
  obtain ⟨_, _, hok⟩ := Session.exists_invoke_oneTargetSession [] nofun
  obtain rfl : result = .ok () := congrArg Prod.fst (hinvoke.symm.trans hok)
  have hpending : (FactSource.session t).pending = [] := (Session.isSome_of_invoke hinvoke).1
  have hnone : (FactSource.session t).statements = [] := hstatements
  have hplanned : ActionGraph.empty.addRules p.rules = .ok ⟨[nativeRule], ∅⟩ := by
    rw [hrules]
    rfl
  have hsplice : ActionGraph.splice ⟨[nativeRule], ∅⟩ (.session t) =
      (.ok 0, ⟨[nativeRule], ∅⟩) := by
    rw [ActionGraph.splice_eq_ok_iff rfl rfl, hnone]
    exact ⟨rfl, [], rfl, rfl⟩
  have hdeps : (FactSource.session t).manifestDeps left none =
      .ok (t.generatedFiles.map Path.text) := rfl
  obtain ⟨order, horder⟩ := exists_ordered_nativeRule
  obtain ⟨graph, hgraph, -⟩ := exists_assemble hplanned hsplice hdeps horder
  refine ⟨graph, .session t, left, ?_⟩
  have henabled : (FactSource.session Session.oneTargetSession).enabled = true := rfl
  simp only [run, henabled, if_true, hplan, FactSource.invoke, hinvoke, finish, hpending, hgraph]

/-- In that build Bazel is skipped, and the scripts are there. -/
theorem only_known_files_written_native :
    ∃ graph last left, run nativeGraph ⟨⟨"out"⟩, none⟩ (.session Session.oneTargetSession)
        (.onlyWorkDir []) = (.ok graph, last, left) ∧
      "/work/out/bazel/main.bzl" ∈ graph.manifestDeps ∧
      left.read? ⟨"/work/out/bazel/main.bzl"⟩ = some (Utf8.encode Scripts.mainBzl) := by
  obtain ⟨hplan, graph, last, left, hrun⟩ := exists_run_native
  obtain ⟨-, -, hscripts⟩ := only_known_files_written nativeGraph ⟨⟨"out"⟩, none⟩ _ _
    (Runner.touchesNoFiles_prepared _ _) (FileTree.hasNoLinks_onlyWorkDir []) hrun
  obtain ⟨first, asked, scripts, hfirst, hsynthesized, -, hfiles⟩ := hscripts graph rfl
  obtain rfl := congrArg Prod.snd (hplan.symm.trans hfirst)
  obtain rfl := Except.ok.inj hsynthesized
  obtain ⟨hdep, hread⟩ := hfiles ("main.bzl", Scripts.mainBzl) List.mem_cons_self
  exact ⟨graph, last, left, hrun, hdep, hread⟩

end Build

end HybridBuild
