import HybridBuild.Proofs.Bazel.Files
import HybridBuild.Proofs.Bazel.Settled
import HybridBuild.Proofs.Text.Exchange

/-!
# Where Bazel finds the scripts

A run names the scripts twice. The script of the query is named by a file that is taken
relative to the workspace, and that is always the file that was written. The packages are
named by a text that starts with a wildcard for the workspace. A separator and the directory
of the scripts follow, so the workspace is put in front of that directory even when it is
absolute.
-/
namespace HybridBuild

/-- What stands for the workspace in a package path. -/
def workspaceWildcard : String := "%workspace%"

def packageFlag : String := "--package_path="

def scriptFlag : String := "--starlark:file="

/-- The values that some arguments give to a flag. -/
def flagValues (flag : String) (arguments : List String) : List String :=
  arguments.filterMap (textAfter? · flag)

/-- A package path with the workspace in the place of its wildcards. -/
def BazelPaths.readPackagePath (paths : BazelPaths) (value : String) : Path :=
  ⟨replaceText value workspaceWildcard paths.workspaceDir.text⟩

namespace Invocation

/-- The directories in which a run finds its packages. -/
def packageDirs (i : Invocation) (paths : BazelPaths) : List Path :=
  (flagValues packageFlag (i.arguments paths)).map paths.readPackagePath

/-- The scripts of a run, seen from the directory that Bazel runs in. -/
def scriptFiles (i : Invocation) (paths : BazelPaths) : List Path :=
  (flagValues scriptFlag (i.arguments paths)).map paths.workspaceDir.join

/-- A run whose command and own flags do not say where packages are found. -/
def LeavesPackages (i : Invocation) : Prop :=
  flagValues packageFlag (i.command.verb :: i.command.expression :: i.extraFlags) = []

instance (i : Invocation) : Decidable i.LeavesPackages := inferInstanceAs (Decidable (_ = _))

end Invocation

section Flags

variable {flag front : String}

/-- Neither of two texts is continued by the other one. -/
def PartWays (front flag : String) : Prop :=
  ¬ front.toList <+: flag.toList ∧ ¬ flag.toList <+: front.toList

instance (front flag : String) : Decidable (PartWays front flag) :=
  inferInstanceAs (Decidable (_ ∧ _))

theorem flagValues_append (first second : List String) :
    flagValues flag (first ++ second) = flagValues flag first ++ flagValues flag second :=
  List.filterMap_append

theorem flagValues_self (flag value : String) : flagValues flag [flag ++ value] = [value] := by
  simp [flagValues, textAfter?, Text.after?]

/-- A text with a front of its own gives no value to a flag. -/
theorem PartWays.flagValues_eq_nil (h : PartWays front flag) (rest : String) :
    flagValues flag [front ++ rest] = [] := by
  have hother : ¬ flag.toList <+: front.toList ++ rest.toList := fun hflag =>
    (List.prefix_or_prefix_of_prefix (List.prefix_append _ _) hflag).elim h.1 h.2
  simp [flagValues, textAfter?, Text.after?, hother]

/-- A flag that none of the arguments common to all runs gives a value to. -/
structure IsSpecial (flag : String) : Prop where
  outputBase : PartWays "--output_base=" flag
  profile : PartWays "--profile=" flag
  platforms : PartWays "--platforms=" flag
  toolchains : PartWays "--extra_toolchains=" flag
  hostPlatform : PartWays "--host_platform=" flag
  download : PartWays "--experimental_repository" flag

theorem isSpecial_packageFlag : IsSpecial packageFlag := by
  constructor <;> decide

theorem isSpecial_scriptFlag : IsSpecial scriptFlag := by
  constructor <;> decide

theorem IsSpecial.flagValues_commonFlags (h : IsSpecial flag) :
    flagValues flag commonFlags = [] := by
  have hparts : commonFlags =
      ["--platforms=" ++ "@sourceroot//build/bazel/platforms:android_x86_64"] ++
        (["--extra_toolchains=" ++ "@sourceroot//prebuilts/clang/host/linux-x86:all"] ++
          (["--host_platform=" ++ "@sourceroot//build/bazel/platforms:linux_x86_64"] ++
            ["--experimental_repository" ++ "_disable_download"])) := by
    simp [commonFlags]
  rw [hparts]
  simp only [flagValues_append, h.platforms.flagValues_eq_nil, h.toolchains.flagValues_eq_nil,
    h.hostPlatform.flagValues_eq_nil, h.download.flagValues_eq_nil, List.nil_append]

/-- A special flag has its values from the package path and from what is special about a run. -/
theorem IsSpecial.flagValues_arguments (h : IsSpecial flag) (i : Invocation) (paths : BazelPaths) :
    flagValues flag (i.arguments paths) =
      flagValues flag [i.command.verb, i.command.expression] ++
        (flagValues flag
            [packageFlag ++ (workspaceWildcard ++ "/" ++ paths.intermediatesDir.text)] ++
          flagValues flag i.extraFlags) := by
  have hpackages : "--package_path=%workspace%/" ++ paths.intermediatesDir.text =
      packageFlag ++ (workspaceWildcard ++ "/" ++ paths.intermediatesDir.text) := by
    rw [← String.append_assoc, ← String.append_assoc]
    rfl
  have hparts : i.arguments paths = ["--output_base=" ++ paths.outputBase.text] ++
      ([i.command.verb, i.command.expression] ++
        ([packageFlag ++ (workspaceWildcard ++ "/" ++ paths.intermediatesDir.text)] ++
          (["--profile=" ++ (i.run.profile paths).text] ++ (commonFlags ++ i.extraFlags)))) := by
    rw [← hpackages]
    rfl
  rw [hparts]
  simp only [flagValues_append, h.outputBase.flagValues_eq_nil, h.profile.flagValues_eq_nil,
    h.flagValues_commonFlags, List.nil_append]

end Flags

variable {i : Invocation} {paths : BazelPaths}

theorem packageValues_arguments (h : i.LeavesPackages) :
    flagValues packageFlag (i.arguments paths) =
      [workspaceWildcard ++ "/" ++ paths.intermediatesDir.text] := by
  have hown : flagValues packageFlag [i.command.verb, i.command.expression] = [] ∧
      flagValues packageFlag i.extraFlags = [] := by
    rw [← List.append_eq_nil_iff, ← flagValues_append]
    exact h
  rw [isSpecial_packageFlag.flagValues_arguments, hown.1, hown.2, flagValues_self]
  rfl

theorem leavesPackages_of_mem_runs : ∀ i ∈ Session.runs paths, i.LeavesPackages := by
  have hquery : (Session.cquery paths).LeavesPackages := by
    have hparts : (Session.cquery paths).command.verb ::
        (Session.cquery paths).command.expression :: (Session.cquery paths).extraFlags =
        ["cquery", "kind(rule, deps(//:buildroot))", "--output=starlark"] ++
          [scriptFlag ++ (paths.intermediatesDir.join ScriptSet.cqueryName).text] := rfl
    have hconstant : flagValues packageFlag
        ["cquery", "kind(rule, deps(//:buildroot))", "--output=starlark"] = [] := by
      decide
    have hscript : PartWays scriptFlag packageFlag := by decide
    unfold Invocation.LeavesPackages
    rw [hparts, flagValues_append, hconstant, hscript.flagValues_eq_nil, List.nil_append]
  have hreport : Session.aquery.LeavesPackages := by decide
  have hlayout : Session.phonyBuild.LeavesPackages := by decide
  simp [Session.runs, hquery, hreport, hlayout]

/-- The query is given the script that lies in the directory of the scripts. -/
theorem scriptValues_cquery : flagValues scriptFlag ((Session.cquery paths).arguments paths) =
    [(paths.intermediatesDir.join ScriptSet.cqueryName).text] := by
  have hcommand : flagValues scriptFlag
      [(Session.cquery paths).command.verb, (Session.cquery paths).command.expression] = [] := by
    show flagValues scriptFlag ["cquery", "kind(rule, deps(//:buildroot))"] = []
    decide
  have hpackages : PartWays packageFlag scriptFlag := by decide
  have hextra : (Session.cquery paths).extraFlags = ["--output=starlark"] ++
      [scriptFlag ++ (paths.intermediatesDir.join ScriptSet.cqueryName).text] := rfl
  have houtput : flagValues scriptFlag ["--output=starlark"] = [] := by decide
  rw [isSpecial_scriptFlag.flagValues_arguments, hcommand, hpackages.flagValues_eq_nil, hextra,
    flagValues_append, houtput, flagValues_self]
  rfl

namespace BazelPaths

theorem isAbsolute_intermediatesDir (paths : BazelPaths) :
    paths.intermediatesDir.isAbsolute = paths.buildDir.isAbsolute :=
  Path.isAbsolute_join (by decide)

/-- The script that the query is given is the one that is written. -/
theorem scriptFiles_cquery (paths : BazelPaths) : (Session.cquery paths).scriptFiles paths =
    [paths.absoluteIntermediatesDir.join ScriptSet.cqueryName] := by
  have hname : IsEntryName ScriptSet.cqueryName := by decide
  rw [Invocation.scriptFiles, scriptValues_cquery, List.map_singleton,
    Path.join_join paths.endsInName_intermediatesDir hname]
  rfl

theorem parent?_of_mem_scripts (paths : BazelPaths) :
    ∀ file ∈ ScriptSet.paths paths.absoluteIntermediatesDir,
      file.parent? = some paths.absoluteIntermediatesDir := by
  obtain ⟨outer, houter⟩ := paths.workspaceDir.exists_pieces_join paths.intermediatesDir.text
  obtain ⟨inner, hinner⟩ := paths.buildDir.exists_pieces_join "bazel"
  have hpieces : paths.absoluteIntermediatesDir.pieces = (outer ++ inner) ++ ["bazel".toList] := by
    have hlast : (Path.mk "bazel").pieces = ["bazel".toList] := by decide
    rw [List.append_assoc, ← hlast, ← hinner]
    exact houter
  intro file hfile
  obtain ⟨name, hname, rfl⟩ := List.mem_map.mp hfile
  exact Path.parent?_join paths.endsInName_absoluteIntermediatesDir
    (ScriptSet.isEntryName_of_mem_fileNames name hname) hpieces (by decide)

/-- A build directory that is free of the wildcard has a directory of scripts that is. -/
theorem not_infix_intermediatesDir {paths : BazelPaths}
    (hfree : ¬ workspaceWildcard.toList <:+: paths.buildDir.text.toList) :
    ¬ workspaceWildcard.toList <:+: paths.intermediatesDir.text.toList := by
  have hname : ¬ workspaceWildcard.toList <:+: "bazel".toList := by decide
  obtain ⟨-, hjoin⟩ | ⟨-, -, above, habove, hjoin⟩ := paths.buildDir.join_cases "bazel"
  · rw [intermediatesDir, hjoin]
    exact hname
  · have hfree' : ¬ workspaceWildcard.toList <:+: above.toList := fun h => hfree <| by
      rcases habove with htext | htext
      · rwa [htext]
      · rw [htext, String.toList_append]
        exact h.trans (List.prefix_append _ _).isInfix
    have htext : (above ++ "/" ++ "bazel").toList = above.toList ++ '/' :: "bazel".toList := by simp
    rw [intermediatesDir, hjoin, htext]
    exact Text.not_infix_append_cons (by decide) hfree' hname (by decide)

/-- The packages are found where the directory of the scripts is put behind the workspace. -/
theorem readPackagePath_intermediatesDir {paths : BazelPaths}
    (hfree : ¬ workspaceWildcard.toList <:+: paths.buildDir.text.toList) :
    paths.readPackagePath (workspaceWildcard ++ "/" ++ paths.intermediatesDir.text) =
      ⟨paths.workspaceDir.text ++ "/" ++ paths.intermediatesDir.text⟩ := by
  have hne : workspaceWildcard.toList ≠ [] := by decide
  have hfirst : ¬ workspaceWildcard.toList <:+: [] ++ workspaceWildcard.toList.dropLast := by
    decide
  have hrest : ¬ workspaceWildcard.toList <:+: '/' :: paths.intermediatesDir.text.toList :=
    Text.not_infix_append_cons (a := []) hne (by decide) (not_infix_intermediatesDir hfree)
      (by decide)
  have htext : (workspaceWildcard ++ "/" ++ paths.intermediatesDir.text).toList =
      [] ++ (workspaceWildcard.toList ++ '/' :: paths.intermediatesDir.text.toList) := by
    simp
  rw [readPackagePath, replaceText, htext, Text.exchange_append hne hfirst,
    Text.exchange_of_not_infix hrest]
  exact congrArg Path.mk (String.toList_inj.mp (by simp))

theorem packageDirs_eq {paths : BazelPaths} (hi : i.LeavesPackages)
    (hfree : ¬ workspaceWildcard.toList <:+: paths.buildDir.text.toList) : i.packageDirs paths =
      [⟨paths.workspaceDir.text ++ "/" ++ paths.intermediatesDir.text⟩] := by
  rw [Invocation.packageDirs, packageValues_arguments hi, List.map_singleton,
    readPackagePath_intermediatesDir hfree]

/-- Behind the workspace an absolute build directory is another one, unless the workspace has no
name of its own. -/
theorem components_behind_iff_of_isAbsolute {paths : BazelPaths}
    (hbuild : paths.buildDir.isAbsolute = true) :
    (Path.mk (paths.workspaceDir.text ++ "/" ++ paths.intermediatesDir.text)).components =
      paths.absoluteIntermediatesDir.components ↔ paths.workspaceDir.components.names = [] := by
  have habsolute : paths.intermediatesDir.isAbsolute = true :=
    paths.isAbsolute_intermediatesDir.trans hbuild
  have hjoin : paths.absoluteIntermediatesDir = paths.intermediatesDir :=
    Path.join_of_whole (.inl habsolute)
  rw [Path.components_separator, hjoin, Path.components_of_isAbsolute habsolute,
    Path.Components.mk.injEq, List.append_left_eq_self]
  refine and_iff_right_of_imp fun hnames => ?_
  rcases eq_or_ne paths.workspaceDir.text "" with hempty | hne
  · simp [hempty]
  · simp [Path.isAbsolute_of_names_eq_nil hnames hne]

/-- Behind the workspace a relative build directory is the same one, unless there is no
workspace and the separator makes it absolute. -/
theorem components_behind_iff_of_relative {paths : BazelPaths}
    (hbuild : paths.buildDir.isAbsolute = false) :
    (Path.mk (paths.workspaceDir.text ++ "/" ++ paths.intermediatesDir.text)).components =
      paths.absoluteIntermediatesDir.components ↔ paths.workspaceDir.text ≠ "" := by
  have hrelative : paths.intermediatesDir.isAbsolute = false :=
    paths.isAbsolute_intermediatesDir.trans hbuild
  rw [Path.components_separator]
  constructor
  · intro heq hempty
    have hjoin : paths.absoluteIntermediatesDir = paths.intermediatesDir :=
      Path.join_of_whole (.inr hempty)
    rw [hjoin, hempty] at heq
    have hroot := congrArg Path.Components.atRoot heq
    simp [Path.components, hrelative] at hroot
  · intro hne
    have hjoin : paths.absoluteIntermediatesDir.components =
        ⟨paths.workspaceDir.isAbsolute, paths.workspaceDir.components.names ++
          Path.namedPieces false paths.intermediatesDir.pieces⟩ :=
      Path.components_join hrelative hne
    rw [hjoin, decide_eq_false hne, Bool.false_or]

end BazelPaths

namespace Session

/-- The scripts that are written lie in one directory, and the script that the query is given is
one of them. A run finds its packages in one directory, which is that of the scripts as long as
the build directory is relative to a workspace; below the root it may also be absolute. -/
theorem scripts_found (s : Session)
    (hfree : textContains s.paths.buildDir.text workspaceWildcard = false) :
    (∀ files written left, s.writeScripts files = (.ok written, left) →
      (∀ file ∈ written, file.parent? = some s.filesDir) ∧
        ∃ file ∈ written, (cquery s.paths).scriptFiles s.paths = [file]) ∧
    ∀ i : Invocation, i.LeavesPackages → ∃ dir, i.packageDirs s.paths = [dir] ∧
      (dir.components = s.filesDir.components ↔
        if s.paths.buildDir.isAbsolute then s.paths.workspaceDir.components.names = []
        else s.paths.workspaceDir.text ≠ "") := by
  rw [textContains_eq_false_iff (by decide)] at hfree
  refine ⟨fun files written left hwrite => ?_, fun i hi => ?_⟩
  · obtain rfl := eq_paths_of_writeScripts hwrite
    exact ⟨s.paths.parent?_of_mem_scripts, _, List.mem_map_of_mem (by decide),
      s.paths.scriptFiles_cquery⟩
  · refine ⟨_, BazelPaths.packageDirs_eq hi hfree, ?_⟩
    split
    next hbuild => exact BazelPaths.components_behind_iff_of_isAbsolute hbuild
    next hbuild =>
      exact BazelPaths.components_behind_iff_of_relative (Bool.eq_false_iff.mpr hbuild)

/-- Below a workspace both ways lead to the scripts. -/
theorem scripts_found_oneTarget :
    let s := oneTargetSession.after oneTarget
    (∃ written left, s.writeScripts (.onlyWorkDir []) = (.ok written, left) ∧
      (∀ file ∈ written, file.parent? = some ⟨"/work/out/bazel"⟩) ∧
      ∃ file ∈ written, (cquery s.paths).scriptFiles s.paths = [file]) ∧
    ∃ dir, (cquery s.paths).packageDirs s.paths = [dir] ∧
      dir.components = (Path.mk "/work/out/bazel").components := by
  intro s
  have hdir : s.filesDir = ⟨"/work/out/bazel"⟩ := by decide
  obtain ⟨hwritten, hpackages⟩ := s.scripts_found (by decide)
  rw [hdir] at hwritten hpackages
  constructor
  · obtain ⟨found, hwrite, -⟩ :=
      exists_writeScripts_emptyTree (s := s) hdir rfl fun r hr => List.mem_singleton.mp hr
    rw [hdir] at hwrite
    exact ⟨_, found, hwrite, hwritten _ _ _ hwrite⟩
  · obtain ⟨dir, hdirs, hsame⟩ :=
      hpackages _ (leavesPackages_of_mem_runs (cquery s.paths) List.mem_cons_self)
    exact ⟨dir, hdirs, hsame.mpr (by decide)⟩

/-- A build directory apart from the workspace. -/
def detachedPaths : BazelPaths where
  homeDir := ⟨"home"⟩
  program := ⟨"bazel"⟩
  outputBase := ⟨"ob"⟩
  workspaceDir := ⟨"ws"⟩
  buildDir := ⟨"/abs/out"⟩
  metricsDir := ⟨"metrics"⟩

/-- Packages are looked for below the workspace although the scripts lie apart from it. -/
theorem packageDirs_detachedPaths :
    (cquery detachedPaths).packageDirs detachedPaths = [⟨"ws//abs/out/bazel"⟩] ∧
    (cquery detachedPaths).scriptFiles detachedPaths = [⟨"/abs/out/bazel/buildroot.cquery"⟩] ∧
    detachedPaths.absoluteIntermediatesDir = ⟨"/abs/out/bazel"⟩ ∧
    (Path.mk "ws//abs/out/bazel").components ≠ (Path.mk "/abs/out/bazel").components := by
  refine ⟨?_, ?_, by decide, by decide⟩
  · rw [BazelPaths.packageDirs_eq
      (leavesPackages_of_mem_runs (cquery detachedPaths) List.mem_cons_self) (by decide)]
    decide
  · rw [BazelPaths.scriptFiles_cquery]
    decide

end Session

end HybridBuild
