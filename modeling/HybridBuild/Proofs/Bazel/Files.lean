import HybridBuild.Proofs.Bazel.Invocation
import HybridBuild.Proofs.Scripts.Checks
import HybridBuild.Proofs.Scripts.Written

/-!
# The files of an invocation

With a runner that leaves the files alone, an invocation writes the scripts and the output of
the query, and no other files, however it ends. When it ends with success the scripts are those
for the requests that waited when it began: the output of the query has another name.
-/
namespace HybridBuild

/-- A runner that leaves the files as they are. -/
def Runner.TouchesNoFiles (runner : Runner) : Prop :=
  ∀ files issued paths i, (runner.answer files issued paths i).2 = files

theorem Runner.touchesNoFiles_prepared (outputs : List (BazelCommand × CommandOutput))
    (failures : List (BazelCommand × (Int × String))) :
    (prepared outputs failures).TouchesNoFiles := by
  intro files issued paths i
  unfold prepared
  dsimp only
  split <;> rfl

theorem Runner.TouchesNoFiles.eq {runner : Runner} (h : runner.TouchesNoFiles)
    {files left : FileTree} {issued : List Invocation} {paths : BazelPaths} {i : Invocation}
    {result : Except RunnerError CommandOutput}
    (hanswer : runner.answer files issued paths i = (result, left)) : left = files := by
  rw [← h files issued paths i, hanswer]

theorem BazelPaths.endsInName_intermediatesDir (paths : BazelPaths) :
    paths.intermediatesDir.EndsInName := by
  obtain ⟨above, htext⟩ := paths.buildDir.exists_text_join "bazel"
  exact ⟨'l', by decide, by simp [BazelPaths.intermediatesDir, htext]⟩

theorem BazelPaths.endsInName_absoluteIntermediatesDir (paths : BazelPaths) :
    paths.absoluteIntermediatesDir.EndsInName :=
  paths.endsInName_intermediatesDir.join paths.workspaceDir

namespace Session

open FileTree

def outputName : String := "cquery.out"

def writtenNames : List String := ScriptSet.fileNames ++ [outputName]

variable {s : Session} {files left : FileTree}

/-- The directory of the files that an invocation may write. -/
abbrev filesDir (s : Session) : Path := s.paths.absoluteIntermediatesDir

theorem endsInName_filesDir (s : Session) : s.filesDir.EndsInName :=
  s.paths.endsInName_absoluteIntermediatesDir

theorem onlyWrites_cqueryOutput (hlinks : files.HasNoLinks) {text : String}
    (h : files.writeText? s.cqueryOutput text = some left) :
    OnlyWrites s.filesDir [outputName] files left :=
  (of_writeText?_join hlinks s.endsInName_filesDir (by decide +kernel) h).1

theorem onlyWrites_writeScripts (hlinks : files.HasNoLinks) :
    OnlyWrites s.filesDir ScriptSet.fileNames files (s.writeScripts files).2 := by
  unfold writeScripts
  cases s.scripts with
  | error e => exact .refl files
  | ok scripts => exact scripts.onlyWrites_write hlinks s.endsInName_filesDir

theorem writeScripts_eq_ok_iff {paths : List Path} : s.writeScripts files = (.ok paths, left) ↔
    ∃ scripts, s.scripts = .ok scripts ∧ scripts.write s.filesDir files = (.ok paths, left) := by
  unfold writeScripts
  cases s.scripts with
  | error e => simp
  | ok scripts => simp

/-- The scripts are written when nothing is wrong with the requests, and when their directory can
be made and takes them. -/
theorem exists_writeScripts (hlinks : files.HasNoLinks) {made : FileTree}
    (hmade : files.makeDirs s.filesDir = (made, true))
    (htakes : ∀ name ∈ ScriptSet.fileNames, made.Takes s.filesDir name)
    (hchecked : ∀ r ∈ s.ledger.pending,
      Scripts.isAmbiguous r.label = false ∧ (s.registry.get? r.kind).isSome) :
    ∃ written, s.writeScripts files = (.ok (ScriptSet.paths s.filesDir), written) ∧
      ∀ name, made.Takes s.filesDir name → written.Takes s.filesDir name := by
  obtain ⟨scripts, hscripts⟩ := ScriptSet.exists_of_checked hchecked
  obtain ⟨written, hwrite, hkeeps⟩ :=
    scripts.exists_write hlinks s.endsInName_filesDir hmade htakes
  exact ⟨written, writeScripts_eq_ok_iff.mpr ⟨scripts, hscripts, hwrite⟩, hkeeps⟩

/-- Scripts that are written with success hold what was synthesized. -/
theorem read?_of_writeScripts (hlinks : files.HasNoLinks) {paths : List Path}
    (h : s.writeScripts files = (.ok paths, left)) : ∃ scripts, s.scripts = .ok scripts ∧
      ∀ file ∈ scripts.files, left.read? (s.filesDir.join file.1) = some (Utf8.encode file.2) := by
  obtain ⟨scripts, hscripts, hwrite⟩ := writeScripts_eq_ok_iff.mp h
  exact ⟨scripts, hscripts, ScriptSet.read?_of_write hlinks s.endsInName_filesDir hwrite⟩

theorem eq_paths_of_writeScripts {written : List Path}
    (h : s.writeScripts files = (.ok written, left)) : written = ScriptSet.paths s.filesDir := by
  obtain ⟨scripts, -, hwrite⟩ := writeScripts_eq_ok_iff.mp h
  unfold ScriptSet.write at hwrite
  split at hwrite
  · cases hwrite
  · obtain ⟨-, -, rfl⟩ := except_map_eq_ok_iff.mp (Prod.mk.inj hwrite).1
    rfl

section Quiet

variable (hquiet : s.runner.TouchesNoFiles) (hlinks : files.HasNoLinks)
include hquiet hlinks

theorem Answered.onlyWrites {output : CommandOutput} {ledger : Ledger}
    (h : s.Answered files output ledger left) : OnlyWrites s.filesDir [outputName] files left := by
  obtain ⟨found, hquery, hkeep⟩ := h.queried
  obtain rfl := hquiet.eq hquery
  exact onlyWrites_cqueryOutput hlinks hkeep

theorem Asked.onlyWrites {ending : Except InvokeError Unit × Session × FileTree}
    (h : s.Asked files ending) : OnlyWrites s.filesDir [outputName] files ending.2.2 := by
  cases h with
  | queryFailed query =>
    obtain rfl := hquiet.eq query
    exact .refl _
  | outputLost query =>
    obtain rfl := hquiet.eq query
    exact .refl _
  | unanswered query keep =>
    obtain rfl := hquiet.eq query
    exact onlyWrites_cqueryOutput hlinks keep
  | reportFailed answered report =>
    obtain rfl := hquiet.eq report
    exact answered.onlyWrites hquiet hlinks
  | reportUnread answered reported =>
    obtain rfl := hquiet.eq reported
    exact answered.onlyWrites hquiet hlinks
  | layoutFailed answered reported _ layout =>
    obtain rfl := hquiet.eq layout
    obtain rfl := hquiet.eq reported
    exact answered.onlyWrites hquiet hlinks
  | done answered reported _ laidOut =>
    obtain rfl := hquiet.eq laidOut
    obtain rfl := hquiet.eq reported
    exact answered.onlyWrites hquiet hlinks

/-- An invocation writes the scripts and the output of the query at most. -/
theorem Invoked.onlyWrites {ending : Except InvokeError Unit × Session × FileTree}
    (h : s.Invoked files ending) : OnlyWrites s.filesDir writtenNames files ending.2.2 := by
  have hscripts : OnlyWrites s.filesDir writtenNames files (s.writeScripts files).2 :=
    (onlyWrites_writeScripts hlinks).mono (List.subset_append_left _ _)
  cases h with
  | unwritten write =>
    rw [write] at hscripts
    exact hscripts
  | idle write =>
    rw [write] at hscripts
    exact hscripts
  | asked write _ asked =>
    rw [write] at hscripts
    have hasked := asked.onlyWrites hquiet (hscripts.hasNoLinks hlinks)
    exact hscripts.trans hlinks (hasked.mono (List.subset_append_right _ _))

/-- After an invocation with success the scripts hold what was synthesized for the requests that
waited, since what is written after them has another name. -/
theorem Invoked.read?_scripts {t : Session} (h : s.Invoked files (.ok (), t, left)) :
    ∃ scripts, s.scripts = .ok scripts ∧
      ∀ file ∈ scripts.files, left.read? (s.filesDir.join file.1) = some (Utf8.encode file.2) := by
  cases h with
  | idle write => exact read?_of_writeScripts hlinks write
  | @asked paths written _ write _ asked =>
    obtain ⟨scripts, hscripts, hread⟩ := read?_of_writeScripts hlinks write
    have hwritten : OnlyWrites s.filesDir ScriptSet.fileNames files written := by
      have honly := onlyWrites_writeScripts (s := s) hlinks
      rwa [write] at honly
    have hlinks' := hwritten.hasNoLinks hlinks
    have hasked : OnlyWrites s.filesDir [outputName] written left := asked.onlyWrites hquiet hlinks'
    refine ⟨scripts, hscripts, fun file hfile => ?_⟩
    have hname : file.1 ∈ ScriptSet.fileNames :=
      scripts.map_fst_files ▸ List.mem_map_of_mem hfile
    have hother : file.1 ∉ [outputName] := by
      revert hname
      generalize file.1 = name
      revert name
      decide
    exact hasked.read?_join hlinks' (ScriptSet.isEntryName_of_mem_files file hfile) hother
      (hread file hfile)

theorem onlyWrites_invoke : OnlyWrites s.filesDir writtenNames files (s.invoke files).2.2 := by
  by_cases hphase : s.phase = .collecting
  · obtain ⟨result, t, left, hend, heq⟩ := invoke_of_collecting hphase files
    have hwrites := Invoked.onlyWrites (s := { s with phase := .invoking }) hquiet hlinks hend
    rw [heq]
    exact hwrites
  · rw [invoke_of_ne hphase]
    exact .refl files

/-- An invocation with success leaves the scripts for the requests that waited. -/
theorem read?_scripts_of_invoke {t : Session} (h : s.invoke files = (.ok (), t, left)) :
    t.paths = s.paths ∧ ∃ scripts, s.scripts = .ok scripts ∧
      ∀ file ∈ scripts.files, left.read? (s.filesDir.join file.1) = some (Utf8.encode file.2) := by
  by_cases hphase : s.phase = .collecting
  · obtain ⟨result, u, found, hend, heq⟩ := invoke_of_collecting hphase files
    obtain ⟨rfl, rfl, rfl⟩ : .ok () = result ∧ t = { u with phase := phaseAfter result } ∧
        left = found := by simpa using h.symm.trans heq
    exact ⟨hend.frame.1,
      Invoked.read?_scripts (s := { s with phase := .invoking }) hquiet hlinks hend⟩
  · rw [invoke_of_ne hphase] at h
    cases h

end Quiet

end Session

end HybridBuild
