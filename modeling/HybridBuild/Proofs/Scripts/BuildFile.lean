import HybridBuild.Proofs.Scripts.Fill
import HybridBuild.Proofs.Scripts.Groups

/-!
# What the build file says

The build file is filled with one node for each group of labels and then with the names of the
nodes. If no label holds the placeholder of the names, or a character that does not stand for
itself between quotes, then the file is read as these nodes with their labels, between the use
of the rules and the two roots.
-/
namespace HybridBuild.Scripts

open Starlark

/-- The node of an architecture around the places of its tag. -/
def configNodeParts : List (List Char) :=
  ["config_node(name = \"".toList, "\",\n    arch = \"".toList,
    "\",\n    deps = [".toList ++ ((placeholder "labels").toList ++ "],\n)\n".toList)]

/-- The template is made of its parts. The characters of both are written out, since the kernel
would decode each literal byte by byte. -/
theorem toList_configNodeTemplate :
    configNodeTemplate.toList = (placeholder "arch").toList.intercalate configNodeParts := by
  unfold configNodeTemplate configNodeParts placeholder
  simp only [toList_unlines, List.flatMap_cons, List.flatMap_nil, String.toList_append]
  repeat rw [String.toList_ofList]
  rfl

theorem isFree_configNodeParts : ∀ part ∈ configNodeParts, IsFree "arch" part := by
  have hlabels : IsFree "arch" (placeholder "labels").toList :=
    isFree_placeholder (by decide) (by decide) (by decide)
  have hlast := (hlabels.append_right (b := "],\n)\n".toList) (by decide)).append_left
    (a := "\",\n    deps = [".toList) (by rw [String.toList_ofList]; decide)
  unfold configNodeParts
  simp only [List.forall_mem_cons]
  refine ⟨isFree_of_notMem_open ?_, isFree_of_notMem_open ?_, hlast, List.forall_mem_nil _⟩ <;>
    (rw [String.toList_ofList]; decide)

/-- The tag of an architecture. -/
def IsTag (tag : String) : Prop := ∃ arch : Arch, arch.requestTag = tag

theorem IsTag.isQuotable {tag : String} (h : IsTag tag) : IsQuotable tag := by
  obtain ⟨arch, rfl⟩ := h
  cases arch <;> exact ⟨by decide, by decide⟩

theorem IsTag.notMem_open {tag : String} (h : IsTag tag) : '\x7b' ∉ tag.toList := by
  obtain ⟨arch, rfl⟩ := h
  cases arch <;> decide

variable {tag : String} {labels : Std.TreeSet String}

/-- The part of a node in front of its labels. -/
def nodeHead (tag : String) : List Char :=
  "config_node(name = ".toList ++ (quoted tag ++
    (",\n    arch = ".toList ++ (quoted tag ++ ",\n    deps = [".toList)))

theorem IsTag.notMem_nodeHead (h : IsTag tag) : '\x7b' ∉ nodeHead tag := by
  unfold nodeHead
  simp [quoted, h.notMem_open]

theorem toList_configNode (htag : IsTag tag) (labels : Std.TreeSet String) :
    (configNode tag labels).toList =
      nodeHead tag ++ ((quotedList labels.toList).toList ++ "],\n)\n".toList) := by
  have harch : (fill configNodeTemplate "arch" tag).toList =
      nodeHead tag ++ ((placeholder "labels").toList ++ "],\n)\n".toList) := by
    rw [toList_fill_parts toList_configNodeTemplate (by decide) isFree_configNodeParts]
    unfold nodeHead configNodeParts
    simp [quoted, List.intercalate_cons_cons]
  rw [configNode, toList_fill harch (by decide) (isFree_of_notMem_open htag.notMem_nodeHead)
    (isFree_of_notMem_open (by decide))]

def nodeStatement (tag : String) (labels : List String) : Statement :=
  .call "config_node"
    [⟨some "name", .text tag⟩, ⟨some "arch", .text tag⟩, ⟨some "deps", .list labels⟩]

theorem says_configNode (htag : IsTag tag) (h : ∀ label ∈ labels.toList, IsQuotable label) :
    Says (configNode tag labels).toList false false [nodeStatement tag labels.toList] := by
  let named : List Tree := [.sign '=', .name "name"]
  let placed : List Tree := .sign '=' :: .name "arch" :: .sign ',' :: .text tag :: named
  let listed : List Tree := .sign '=' :: .name "deps" :: .sign ',' :: .text tag :: placed
  let call : List (Char × List Tree) := [('(', [.name "config_node"])]
  have hname : run .start "config_node(name = ".toList = some (⟨.code, 0, named, call⟩, []) := rfl
  have harch : run ⟨.code, 0, .text tag :: named, call⟩ ",\n    arch = ".toList =
      some (⟨.code, 0, placed, call⟩, []) := rfl
  have hdeps : run ⟨.code, 0, .text tag :: placed, call⟩ ",\n    deps = [".toList =
      some (⟨.code, 0, [], ('[', listed) :: call⟩, []) := rfl
  have hhead := run_append hname (run_append (run_quoted_text htag.isQuotable) (run_append harch
    (run_append (run_quoted_text htag.isQuotable) hdeps)))
  have hbefore : [[.name "name", .sign '=', .text tag], [.name "arch", .sign '=', .text tag]].mapM
      readArgument? = some [⟨some "name", .text tag⟩, ⟨some "arch", .text tag⟩] := rfl
  rw [toList_configNode htag]
  exact says_callWithList hhead rfl hbefore h

def nodesText (groups : List (String × Std.TreeSet String)) : String :=
  String.join (groups.map fun (tag, labels) => configNode tag labels ++ "\n")

theorem toList_nodesText (groups : List (String × Std.TreeSet String)) :
    (nodesText groups).toList =
      groups.flatMap fun group => (configNode group.1 group.2).toList ++ ['\n'] := by
  simp [nodesText, List.flatMap_map]

theorem says_nodesText {groups : List (String × Std.TreeSet String)}
    (htags : ∀ group ∈ groups, IsTag group.1)
    (h : ∀ group ∈ groups, ∀ label ∈ group.2.toList, IsQuotable label) :
    Says (nodesText groups).toList false false
      (groups.map fun group => nodeStatement group.1 group.2.toList) := by
  rw [toList_nodesText, List.map_eq_flatMap]
  refine Says.flatMap fun group hgroup => ?_
  exact (says_configNode (htags group hgroup) (h group hgroup)).append (says_nil false).lineFeed

theorem isFree_nodesText {groups : List (String × Std.TreeSet String)}
    (htags : ∀ group ∈ groups, IsTag group.1)
    (h : ∀ group ∈ groups, ∀ label ∈ group.2.toList, IsFree "config_node_labels" label.toList) :
    IsFree "config_node_labels" (nodesText groups).toList := by
  rw [toList_nodesText]
  refine isFree_flatMap_lines (fun group hgroup => ?_) (by decide)
  have hlist : IsFree "config_node_labels" (quotedList group.2.toList).toList :=
    isFree_quotedList (h group hgroup) (by decide)
  have hend : '\x7d' ∉ "],\n)\n".toList := by decide
  rw [toList_configNode (htags group hgroup)]
  exact (hlist.append_right hend).append_left (htags group hgroup).notMem_nodeHead

/-- The build file in front of the nodes. -/
def loadText : String :=
  "load(\":main.bzl\", \"config_node\", \"mixed_build_root\", \"phony_root\")\n\n"

/-- The start of the root, up to the names of the nodes. -/
def rootHead : String := "\nmixed_build_root(name = \"buildroot\",\n    deps = ["

def phonyText : String := "\nphony_root(name = \"phonyroot\",\n    deps = [\":buildroot\"],\n)\n"

theorem toList_buildTemplate : buildTemplate.toList =
    loadText.toList ++ ((placeholder "config_nodes").toList ++ (rootHead.toList ++
      ((placeholder "config_node_labels").toList ++ ("],\n)\n".toList ++ phonyText.toList)))) := by
  unfold buildTemplate loadText placeholder rootHead phonyText
  simp only [toList_unlines, List.flatMap_cons, List.flatMap_nil, String.toList_append]
  repeat rw [String.toList_ofList]
  rfl

theorem notMem_loadText : '\x7b' ∉ loadText.toList := by
  unfold loadText
  rw [String.toList_ofList]
  decide

theorem notMem_rootHead : '\x7b' ∉ rootHead.toList ∧ '\x7d' ∉ rootHead.toList := by
  unfold rootHead
  rw [String.toList_ofList]
  decide

theorem notMem_phonyText : '\x7b' ∉ phonyText.toList ∧ '\x7d' ∉ phonyText.toList := by
  unfold phonyText
  rw [String.toList_ofList]
  decide

def loadStatement : Statement :=
  .call "load" [⟨none, .text ":main.bzl"⟩, ⟨none, .text "config_node"⟩,
    ⟨none, .text "mixed_build_root"⟩, ⟨none, .text "phony_root"⟩]

def rootStatement (tags : List String) : Statement :=
  .call "mixed_build_root"
    [⟨some "name", .text "buildroot"⟩, ⟨some "deps", .list (tags.map (":" ++ ·))⟩]

def phonyStatement : Statement :=
  .call "phony_root" [⟨some "name", .text "phonyroot"⟩, ⟨some "deps", .list [":buildroot"]⟩]

def buildStatements (groups : List (String × List String)) : List Statement :=
  loadStatement :: (groups.map fun group => nodeStatement group.1 group.2) ++
    [rootStatement (groups.map Prod.fst), phonyStatement]

theorem says_root {tags : List String} (h : ∀ tag ∈ tags, IsTag tag) :
    Says (rootHead.toList ++ ((quotedList (tags.map (":" ++ ·))).toList ++ "],\n)\n".toList)) false
      false [rootStatement tags] := by
  let listed : List Tree :=
    [.sign '=', .name "deps", .sign ',', .text "buildroot", .sign '=', .name "name"]
  have hhead : run .start rootHead.toList =
      some (⟨.code, 0, [], [('[', listed), ('(', [.name "mixed_build_root"])]⟩, []) := by
    unfold rootHead
    rw [String.toList_ofList]
    rfl
  have hbefore : [[.name "name", .sign '=', .text "buildroot"]].mapM readArgument? =
      some [⟨some "name", .text "buildroot"⟩] := rfl
  refine says_callWithList hhead rfl hbefore fun value hvalue => ?_
  obtain ⟨tag, htag, rfl⟩ := List.mem_map.mp hvalue
  obtain ⟨-, hplain⟩ := (h tag htag).isQuotable
  have hcolon : IsVerbatim ":".toList := by decide
  refine ⟨by simp, ?_⟩
  rw [String.toList_append]
  exact hcolon.append hplain

theorem toList_buildFile {requests : List Request}
    (hfree : IsFree "config_node_labels" (nodesText (labelsByTag requests).toList).toList) :
    (buildFile requests).toList =
      loadText.toList ++ ((nodesText (labelsByTag requests).toList).toList ++
        ((rootHead.toList ++ ((quotedList ((labelsByTag requests).keys.map (":" ++ ·))).toList ++
          "],\n)\n".toList)) ++ phonyText.toList)) := by
  have hfile : buildFile requests = fill (fill buildTemplate "config_nodes"
      (nodesText (labelsByTag requests).toList)) "config_node_labels"
        (quotedList ((labelsByTag requests).keys.map (":" ++ ·))) := rfl
  have hother : IsFree "config_nodes" (placeholder "config_node_labels").toList :=
    isFree_placeholder (by decide) (by decide) (by decide)
  have hbehind := (hother.append_right (b := "],\n)\n".toList ++ phonyText.toList)
    (by simp [notMem_phonyText])).append_left (a := rootHead.toList) notMem_rootHead.1
  have hfront := (hfree.append_right notMem_rootHead.2).append_left notMem_loadText
  have hend : IsFree "config_node_labels" ("],\n)\n".toList ++ phonyText.toList) :=
    isFree_of_notMem_open (by simp [notMem_phonyText])
  rw [hfile, toList_fill_fill toList_buildTemplate (by decide) (by decide)
    (isFree_of_notMem_open notMem_loadText) hbehind hfront hend]
  simp only [List.append_assoc]

theorem says_loadText : Says loadText.toList false false [loadStatement] := by
  unfold Says loadText
  rw [String.toList_ofList]
  decide +kernel

theorem says_phonyText : Says phonyText.toList false false [phonyStatement] := by
  unfold Says phonyText
  rw [String.toList_ofList]
  decide +kernel

/-- The build file says the nodes of the groups of labels, and the root that depends on them. -/
theorem says_buildFile {requests : List Request}
    (h : ∀ r ∈ requests, IsQuotable r.canonical ∧ IsFree "config_node_labels" r.canonical.toList) :
    Says (buildFile requests).toList false false
      (buildStatements ((labelsByTag requests).toList.map fun (tag, labels) =>
        (tag, labels.toList))) := by
  have htags : ∀ group ∈ (labelsByTag requests).toList, IsTag group.1 := by
    intro group hgroup
    have hmem := Std.TreeMap.mem_iff_isSome_getElem?.mpr
      (Option.isSome_of_eq_some (Std.TreeMap.mem_toList_iff_getElem?_eq_some.mp hgroup))
    obtain ⟨r, -, hr⟩ := mem_groupBy.mp hmem
    exact ⟨r.arch, hr⟩
  have hlabels : ∀ group ∈ (labelsByTag requests).toList, ∀ label ∈ group.2.toList,
      IsQuotable label ∧ IsFree "config_node_labels" label.toList := by
    intro group hgroup label hlabel
    have hmem := mem_of_groupBy (t := label) (Std.TreeMap.mem_toList_iff_getElem?_eq_some.mp hgroup)
    obtain ⟨r, hr, -, rfl⟩ := hmem.mp (Std.TreeSet.mem_toList.mp hlabel)
    exact h r hr
  have hkeys : (labelsByTag requests).keys = (labelsByTag requests).toList.map Prod.fst :=
    Std.TreeMap.map_fst_toList_eq_keys.symm
  have hfree := isFree_nodesText htags fun group hgroup label hlabel =>
    (hlabels group hgroup label hlabel).2
  have hgroups := says_nodesText htags fun group hgroup label hlabel =>
    (hlabels group hgroup label hlabel).1
  have hroot : ∀ tag ∈ (labelsByTag requests).toList.map Prod.fst, IsTag tag := by
    simpa only [List.forall_mem_map] using htags
  have hsays := says_loadText.append (hgroups.append ((says_root hroot).append says_phonyText))
  rw [toList_buildFile hfree, hkeys]
  simpa only [buildStatements, List.map_map, Function.comp_def, List.cons_append,
    List.nil_append] using hsays

end HybridBuild.Scripts
