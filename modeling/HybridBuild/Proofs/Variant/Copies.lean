import HybridBuild.Proofs.Distinct
import HybridBuild.Proofs.Shell.Words
import HybridBuild.Proofs.Variant.Recursion

/-!
# Copies that neither get lost nor meet

The files of a target are copied one by one, and each has its place. When two of them have the
same place, the variant is refused, and the error names the first file whose place is taken and
the file that took it. Otherwise the command of the rule runs what is to be run: the directory of
every place is made, and then each file is copied to its place, whatever the names are.
-/
namespace HybridBuild

namespace FileCopy

variable {seen copies : List FileCopy} {a b c : FileCopy}

theorem find?_target_eq_none_iff :
    (seen.find? fun b => b.target = c.target) = none ↔ c.target ∉ seen.map target := by
  simp [List.find?_eq_none]

/-- Copies are gone through as long as their targets are distinct from each other. -/
theorem collision?_eq_none_iff (hseen : (seen.map target).Nodup) :
    collision? seen copies = none ↔ ((seen.reverse ++ copies).map target).Nodup := by
  induction copies generalizing seen with
  | nil => simpa [collision?, List.nodup_reverse] using hseen
  | cons c copies ih =>
    rw [collision?]
    split
    next b hfind =>
      have htaken : c.target ∈ seen.map target := by
        by_contra hfree
        rw [find?_target_eq_none_iff.mpr hfree] at hfind
        cases hfind
      refine iff_of_false nofun fun hnodup => ?_
      rw [List.map_append, List.map_cons, List.nodup_append] at hnodup
      exact hnodup.2.2 _ (by simpa using htaken) _ List.mem_cons_self rfl
    next hfind =>
      have hnext : ((c :: seen).map target).Nodup :=
        List.nodup_cons.mpr ⟨find?_target_eq_none_iff.mp hfind, hseen⟩
      rw [ih hnext, List.reverse_cons, List.append_assoc, List.singleton_append]

/-- A collision is the first one: the targets before it are distinct. -/
theorem firstRepeat_of_collision? (hseen : (seen.map target).Nodup)
    (h : collision? seen copies = some (a, b)) :
    FirstRepeat target (seen.reverse ++ copies) a b := by
  induction copies generalizing seen with
  | nil => cases h
  | cons c copies ih =>
    rw [collision?] at h
    split at h
    next first hfind =>
      obtain ⟨rfl, rfl⟩ := Prod.mk.inj (Option.some.inj h)
      refine ⟨seen.reverse, copies, rfl, ?_, ?_, by simpa using List.find?_some hfind⟩
      · rwa [List.map_reverse, List.nodup_reverse]
      · exact List.mem_reverse.mpr (List.mem_of_find?_eq_some hfind)
    next hfind =>
      have hnext : ((c :: seen).map target).Nodup :=
        List.nodup_cons.mpr ⟨find?_target_eq_none_iff.mp hfind, hseen⟩
      have hrest := ih hnext h
      rwa [List.reverse_cons, List.append_assoc, List.singleton_append] at hrest

theorem nodup_dirs (copies : List FileCopy) : (dirs copies).Nodup := nodup_toList _

theorem mem_dirs_iff {text : String} : text ∈ dirs copies ↔ ∃ c ∈ copies, c.dir = text := by
  rw [dirs, Std.TreeSet.mem_toList, Std.TreeSet.mem_ofList, List.contains_iff_mem, List.mem_map]

def words (c : FileCopy) : List String := ["cp", "-f", c.source, c.target]

theorem shellWords_words (c : FileCopy) : shellWords c.words = c.command := by
  have hcp : shellWord "cp" = "cp" := by decide
  have hflag : shellWord "-f" = "-f" := by decide
  refine String.toList_inj.mp ?_
  simp [shellWords, words, command, hcp, hflag]

theorem shellWords_mkdir {texts : List String} (h : texts ≠ []) :
    shellWords ("mkdir" :: "-p" :: texts) = "mkdir -p " ++ shellWords texts := by
  have hmkdir : shellWord "mkdir" = "mkdir" := by decide
  have hflag : shellWord "-p" = "-p" := by decide
  refine String.toList_inj.mp ?_
  simp [shellWords, hmkdir, hflag, String.intercalate_cons_of_ne_nil, h]

theorem dirs_ne_nil (h : copies ≠ []) : dirs copies ≠ [] := by
  obtain ⟨c, rest, rfl⟩ := List.exists_cons_of_ne_nil h
  exact List.ne_nil_of_mem (mem_dirs_iff.mpr ⟨c, List.mem_cons_self, rfl⟩)

theorem commandOfAll_eq (h : copies ≠ []) :
    commandOfAll copies = " && ".intercalate
      ((("mkdir" :: "-p" :: dirs copies) :: copies.map words).map shellWords) := by
  have hcommands : (copies.map words).map shellWords = copies.map command := by
    simp [Function.comp_def, shellWords_words]
  rw [List.map_cons, hcommands, shellWords_mkdir (dirs_ne_nil h),
    String.intercalate_cons_of_ne_nil (by simpa using h), commandOfAll]

theorem commands?_commandOfAll (h : copies ≠ []) :
    Shell.commands? (commandOfAll copies) =
      some ({ words := "mkdir" :: "-p" :: dirs copies } ::
        copies.map fun c => { words := c.words }) := by
  have hmkdir : Shell.IsCommandName "mkdir" := by decide
  have hcp : Shell.IsCommandName "cp" := by decide
  rw [commandOfAll_eq h, Shell.commands?_intercalate_shellWords (List.cons_ne_nil _ _)]
  · simp [Function.comp_def]
  · simp [words]
  · simp [words, hmkdir, hcp]

end FileCopy

namespace ModuleDecl

variable {m : ModuleDecl} {facts : Facts} {outDir : Path} {arch : Arch} {label : String}
  {files : List String}

def copySource (facts : Facts) (file : String) : String := ((bazelRoot facts).join file).text

def copyTarget (m : ModuleDecl) (outDir : Path) (arch : Arch) (file : String) : String :=
  m.outPath outDir arch (bazelRelative file)

/-- The directory in which a file of a target is copied, which is that of the variant for a
place without a parent. -/
def copyDir (m : ModuleDecl) (outDir : Path) (arch : Arch) (file : String) : String :=
  (((m.variantDir outDir arch).join (bazelRelative file)).parent?.getD
    (m.variantDir outDir arch)).text

@[simp] theorem map_target_copiesOf :
    (m.copiesOf facts outDir arch files).map FileCopy.target =
      files.map (m.copyTarget outDir arch) := by
  rw [copiesOf, List.map_map]
  rfl

@[simp] theorem map_source_copiesOf :
    (m.copiesOf facts outDir arch files).map FileCopy.source = files.map (copySource facts) := by
  rw [copiesOf, List.map_map]
  rfl

theorem mem_dirs_copiesOf_iff {dir : String} :
    dir ∈ FileCopy.dirs (m.copiesOf facts outDir arch files) ↔
      ∃ file ∈ files, m.copyDir outDir arch file = dir := by
  simp only [FileCopy.mem_dirs_iff, copiesOf, List.mem_map, exists_exists_and_eq_and,
    FileCopy.ofFile, copyDir]

/-- The copies of files repeat a target where the files repeat a place. -/
theorem firstRepeat_of_copiesOf {a b : FileCopy}
    (h : FirstRepeat FileCopy.target (m.copiesOf facts outDir arch files) a b) :
    FirstRepeat (m.copyTarget outDir arch) files a.file b.file ∧
      b.target = m.copyTarget outDir arch b.file := by
  obtain ⟨before, after, hsplit, hnodup, ha, heq⟩ := h
  obtain ⟨earlier, rest, rfl, hearlier, hrest⟩ := List.map_eq_append_iff.mp hsplit
  obtain ⟨second, later, rfl, rfl, -⟩ := List.map_eq_cons_iff.mp hrest
  obtain rfl : m.copiesOf facts outDir arch earlier = before := hearlier
  rw [map_target_copiesOf] at hnodup
  obtain ⟨first, hfirst, rfl⟩ := List.mem_map.mp ha
  exact ⟨⟨earlier, later, rfl, hnodup, hfirst, heq⟩, rfl⟩

/-- A target with files either has a collision among their copies or a rule that makes all of
them. -/
theorem planDelegated_eq (hfiles : m.bazelOutputs facts label arch = .ok (some files))
    (hne : files ≠ []) :
    m.planDelegated facts outDir label arch =
      match FileCopy.collision? [] (m.copiesOf facts outDir arch files) with
      | some (a, b) => .error (.outputCollision (m.variant arch) a.file b.file b.target)
      | none => .ok (.ready
          (some (FileCopy.rule (m.variant arch).ruleName ("bazel output " ++ m.name)
            (m.copiesOf facts outDir arch files)))
          (files.map (m.copyTarget outDir arch))) := by
  have hempty : ¬ files.isEmpty := by simpa using hne
  have htargets : (m.copiesOf facts outDir arch files).map FileCopy.target =
      files.map (m.copyTarget outDir arch) := map_target_copiesOf
  rw [planDelegated, hfiles, ← htargets]
  dsimp only
  rw [planCopies, if_neg hempty]
  rfl

/-- Copies of a target's files neither get lost nor meet. The variant is refused exactly when two
of the files have the same place, with the first file whose place is taken and the one that took
it. Otherwise it has one rule: its outputs are the places in the order of the files, its implicit
inputs are the files below the execution root, and its command makes the directory of every place,
each once, and then copies the files one by one. -/
theorem planDelegated_of_files (m : ModuleDecl) (facts : Facts) (outDir : Path) (label : String)
    (arch : Arch) (files : List String) (hne : files ≠ [])
    (hfiles : m.bazelOutputs facts label arch = .ok (some files)) :
    ((∃ first second target, m.planDelegated facts outDir label arch =
        .error (.outputCollision (m.variant arch) first second target)) ↔
      ¬ (files.map (m.copyTarget outDir arch)).Nodup) ∧
    (∀ e, m.planDelegated facts outDir label arch = .error e → ∃ first second,
      FirstRepeat (m.copyTarget outDir arch) files first second ∧
        e = .outputCollision (m.variant arch) first second (m.copyTarget outDir arch second)) ∧
    ((files.map (m.copyTarget outDir arch)).Nodup → ∃ command dirs,
      m.planDelegated facts outDir label arch = .ok (.ready
        (some {
          name := (m.variant arch).ruleName
          description := "bazel output " ++ m.name
          command
          outputs := files.map (m.copyTarget outDir arch)
          implicitInputs := files.map (copySource facts) })
        (files.map (m.copyTarget outDir arch))) ∧
      dirs.Nodup ∧ (∀ dir, dir ∈ dirs ↔ ∃ file ∈ files, m.copyDir outDir arch file = dir) ∧
      Shell.commands? command = some ({ words := "mkdir" :: "-p" :: dirs } :: files.map fun file =>
        { words := ["cp", "-f", copySource facts file, m.copyTarget outDir arch file] })) := by
  have hnone : FileCopy.collision? [] (m.copiesOf facts outDir arch files) = none ↔
      (files.map (m.copyTarget outDir arch)).Nodup := by
    rw [FileCopy.collision?_eq_none_iff (by simp), List.reverse_nil, List.nil_append,
      map_target_copiesOf]
  have hcopies : m.copiesOf facts outDir arch files ≠ [] := by simpa [copiesOf] using hne
  rw [planDelegated_eq hfiles hne]
  cases hcollision : FileCopy.collision? [] (m.copiesOf facts outDir arch files) with
  | some pair =>
    obtain ⟨a, b⟩ := pair
    have hrepeat : FirstRepeat FileCopy.target (m.copiesOf facts outDir arch files) a b :=
      FileCopy.firstRepeat_of_collision? (by simp) hcollision
    obtain ⟨hfirst, htarget⟩ := firstRepeat_of_copiesOf hrepeat
    have hmeet : ¬ (files.map (m.copyTarget outDir arch)).Nodup := fun hnodup => by
      rw [hnone.mpr hnodup] at hcollision
      cases hcollision
    refine ⟨iff_of_true ⟨_, _, _, rfl⟩ hmeet, fun e he => ⟨_, _, hfirst, ?_⟩,
      fun hnodup => absurd hnodup hmeet⟩
    rw [← Except.error.inj he, htarget]
  | none =>
    refine ⟨iff_of_false (by simp) (not_not.mpr (hnone.mp hcollision)), by simp, fun _ =>
      ⟨FileCopy.commandOfAll (m.copiesOf facts outDir arch files),
        FileCopy.dirs (m.copiesOf facts outDir arch files), ?_, FileCopy.nodup_dirs _,
        fun dir => mem_dirs_copiesOf_iff, ?_⟩⟩
    · rw [FileCopy.rule, map_target_copiesOf, map_source_copiesOf]
    · rw [FileCopy.commands?_commandOfAll hcopies, copiesOf, List.map_map]
      rfl

/-- A module that is built by Bazel. -/
def headers : ModuleDecl where
  name := "it's"
  kind := .genrule
  archs := [.arm64]
  srcs := []
  deps := []
  cmd := none
  outs := []
  target := some ⟨"//p:a", true⟩

/-- Facts about the target of the module, with an execution root whose path needs quotes. -/
def headersFacts (files : List String) : Facts :=
  ((CannedFacts.empty ⟨"/o b"⟩).withOutputFiles "//p:a" .arm64 files).toFixed.facts

/-- A file of a configuration, one of none, and one that is not below the execution root and whose
place has no parent. -/
def headerFiles : List String := ["bazel-out/k8/bin/p/a!.h", "b $x", "/"]

/-- Of these files the last two have one place. -/
def meetingFiles : List String := ["a", "bazel-out/k8/bin/b", "bazel-out/k8/genfiles/b"]

theorem planDelegated_of_files_headers :
    headerFiles.map (headers.copyTarget ⟨"out"⟩ .arm64) =
      ["out/it's/arm64/p/a!.h", "out/it's/arm64/b $x", "/"] ∧
    (∃ (command : String) (dirs : List String),
      headers.planDelegated (headersFacts headerFiles) ⟨"out"⟩ "//p:a" .arm64 =
        .ok (.ready
          (some {
            name := (headers.variant .arm64).ruleName
            description := "bazel output " ++ headers.name
            command
            outputs := headerFiles.map (headers.copyTarget ⟨"out"⟩ .arm64)
            implicitInputs := headerFiles.map (copySource (headersFacts headerFiles)) })
          (headerFiles.map (headers.copyTarget ⟨"out"⟩ .arm64))) ∧
      dirs.Nodup ∧ "out/it's/arm64" ∈ dirs ∧ Shell.commands? command =
        some ({ words := "mkdir" :: "-p" :: dirs } :: headerFiles.map fun file =>
          { words := ["cp", "-f", copySource (headersFacts headerFiles) file,
              headers.copyTarget ⟨"out"⟩ .arm64 file] })) ∧
    ∃ first second, FirstRepeat (headers.copyTarget ⟨"out"⟩ .arm64) meetingFiles first second ∧
      headers.planDelegated (headersFacts meetingFiles) ⟨"out"⟩ "//p:a" .arm64 =
        .error (.outputCollision (headers.variant .arm64) first second
          (headers.copyTarget ⟨"out"⟩ .arm64 second)) := by
  obtain ⟨command, dirs, hplan, hnodup, hdirs, hcommand⟩ :=
    (planDelegated_of_files headers (headersFacts headerFiles) ⟨"out"⟩ "//p:a" .arm64
      headerFiles (by decide) (by decide +kernel)).2.2 (by decide +kernel)
  have hdir : "out/it's/arm64" ∈ dirs := (hdirs _).mpr ⟨"/", by decide, by decide +kernel⟩
  have hmeeting := planDelegated_of_files headers (headersFacts meetingFiles) ⟨"out"⟩ "//p:a"
    .arm64 meetingFiles (by decide) (by decide +kernel)
  obtain ⟨_, _, _, herror⟩ := hmeeting.1.mpr (by decide +kernel)
  obtain ⟨first, second, hrepeat, hfault⟩ := hmeeting.2.1 _ herror
  exact ⟨by decide +kernel, ⟨command, dirs, hplan, hnodup, hdir, hcommand⟩, first, second,
    hrepeat, herror.trans (congrArg Except.error hfault)⟩

end ModuleDecl

end HybridBuild
