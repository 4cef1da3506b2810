import HybridBuild.Proofs.Build.Wiring

/-!
# The graph that a build ends with

A build with success ends with the rules of its last plan and one rule for each statement, and
with nothing else. The manifest depends on the generated files, on the files that Bazel read, as
far as they are listed, and on the module list. Such a graph has been ordered, so it has a
manifest, and only the file system can keep that from being written.
-/
namespace HybridBuild

open ActionGraph

/-- The files whose change makes a manifest out of date. -/
inductive IsManifestDep (src : FactSource) (files : FileTree) (moduleList : Option Path) :
    String → Prop
  | generated {file : Path} (enabled : src.enabled) (mem : file ∈ src.generatedFiles) :
      IsManifestDep src files moduleList file.text
  | listing {list : Path} (enabled : src.enabled) (given : moduleList = some list)
      (isFile : files.isFile (bazelListOf list)) :
      IsManifestDep src files moduleList (bazelListOf list).text
  | listed {list : Path} {text line : String} (enabled : src.enabled)
      (given : moduleList = some list) (read : files.readText? (bazelListOf list) = some text)
      (mem : line ∈ textLines text) (kept : trimText line ≠ "") :
      IsManifestDep src files moduleList (trimText line)
  | moduleList {list : Path} (given : moduleList = some list) :
      IsManifestDep src files moduleList list.text

theorem mem_listedFiles_iff {text path : String} :
    path ∈ listedFiles text ↔
      ∃ line ∈ textLines text, trimText line ≠ "" ∧ trimText line = path := by
  simp only [listedFiles, List.mem_filter, List.mem_map]
  constructor
  · rintro ⟨⟨line, hline, rfl⟩, hkept⟩
    exact ⟨line, hline, by simpa using hkept, rfl⟩
  · rintro ⟨line, hline, hkept, rfl⟩
    exact ⟨⟨line, hline, rfl⟩, by simpa using hkept⟩

namespace ActionGraph

variable {g g' : ActionGraph} {src : FactSource}

theorem mem_addManifestDeps {deps : List String} {path : String} :
    path ∈ (g.addManifestDeps deps).manifestDeps ↔ path ∈ g.manifestDeps ∨ path ∈ deps := by
  simp [addManifestDeps, Std.TreeSet.mem_insertMany_list]

end ActionGraph

theorem FileTree.isFile_of_readText? {files : FileTree} {path : Path} {text : String}
    (h : files.readText? path = some text) : files.isFile path := by
  obtain ⟨content, hread, -⟩ := Option.bind_eq_some_iff.mp h
  rw [isFile, hread]
  rfl

section Deps

variable {src : FactSource} {files : FileTree} {moduleList : Option Path} {deps : List String}
  {path : String}

/-- The files that a source has the manifest depend on. -/
theorem FactSource.mem_manifestDeps_iff (h : src.manifestDeps files moduleList = .ok deps) :
    path ∈ deps ↔ src.enabled ∧ (path ∈ src.generatedFiles.map Path.text ∨
      ∃ list, moduleList = some list ∧ files.isFile (bazelListOf list) ∧
        (path = (bazelListOf list).text ∨
          ∃ text, files.readText? (bazelListOf list) = some text ∧ path ∈ listedFiles text)) := by
  unfold manifestDeps at h
  cases henabled : src.enabled with
  | false =>
    obtain rfl : [] = deps := by simpa [henabled] using h
    simp
  | true =>
    simp only [henabled, Bool.not_true, Bool.false_eq_true, if_false] at h
    cases moduleList with
    | none =>
      obtain rfl := Except.ok.inj h
      simp
    | some list =>
      cases hfile : files.isFile (bazelListOf list) with
      | false =>
        obtain rfl : src.generatedFiles.map Path.text = deps := by simpa [hfile] using h
        simp [hfile]
      | true =>
        cases hread : files.readText? (bazelListOf list) with
        | none => simp [hfile, hread] at h
        | some text =>
          obtain rfl : src.generatedFiles.map Path.text ++
              (bazelListOf list).text :: listedFiles text = deps := by
            simpa [hfile, hread] using h
          simp [hfile, hread]

theorem isManifestDep_iff (h : src.manifestDeps files moduleList = .ok deps) :
    IsManifestDep src files moduleList path ↔
      path ∈ deps ∨ ∃ list, moduleList = some list ∧ list.text = path := by
  rw [FactSource.mem_manifestDeps_iff h]
  constructor
  · intro hdep
    cases hdep with
    | generated enabled mem => exact .inl ⟨enabled, .inl (List.mem_map_of_mem mem)⟩
    | listing enabled given isFile => exact .inl ⟨enabled, .inr ⟨_, given, isFile, .inl rfl⟩⟩
    | listed enabled given read mem kept =>
      have hlisted := mem_listedFiles_iff.mpr ⟨_, mem, kept, rfl⟩
      exact .inl ⟨enabled, .inr
        ⟨_, given, FileTree.isFile_of_readText? read, .inr ⟨_, read, hlisted⟩⟩⟩
    | moduleList given => exact .inr ⟨_, given, rfl⟩
  · rintro (⟨enabled, hmem | ⟨list, given, isFile, rfl | ⟨text, read, hlisted⟩⟩⟩ |
      ⟨list, given, rfl⟩)
    · obtain ⟨file, hfile, rfl⟩ := List.mem_map.mp hmem
      exact .generated enabled hfile
    · exact .listing enabled given isFile
    · obtain ⟨line, hline, kept, rfl⟩ := mem_listedFiles_iff.mp hlisted
      exact .listed enabled given read hline kept
    · exact .moduleList given

end Deps

namespace Build

variable {g : ModuleGraph} {options : BuildOptions} {src last : FactSource}
  {files left : FileTree} {p : Plan} {graph : ActionGraph} {moduleList : Option Path}

/-- What the manifest of a graph that was put together depends on. -/
theorem mem_manifestDeps_of_assemble (h : assemble p src files moduleList = .ok graph)
    {path : String} :
    path ∈ graph.manifestDeps ↔ IsManifestDep src files moduleList path := by
  obtain ⟨planned, added, count, deps, hplanned, hsplice, hdeps, rfl, -⟩ := of_assemble_eq_ok h
  obtain ⟨spliced, hadded, -⟩ := exists_rules_of_splice hsplice
  have hnone : path ∉ added.manifestDeps := by
    rw [eq_of_addRules hadded, eq_of_addRules hplanned]
    exact Std.TreeSet.not_mem_emptyc
  rw [isManifestDep_iff hdeps, mem_addManifestDeps]
  simp [hnone]

end Build

end HybridBuild
