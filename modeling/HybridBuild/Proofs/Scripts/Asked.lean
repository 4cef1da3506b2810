import HybridBuild.Proofs.Scripts.BuildFile
import HybridBuild.Proofs.Scripts.Checks
import HybridBuild.Proofs.Scripts.Kinds

/-!
# The scripts ask for what is requested

A script is made of texts that are pasted between quotes and then searched for placeholders.
A label stays what it is if no character of it means something else between quotes and no
placeholder stands in it. If this holds for every label, then the build file is read with a node
for each architecture tag and the labels requested under it, and the query script with a table for
each kind and the ids requested of it.
-/
namespace HybridBuild.Scripts

open Starlark

/-- A label that stays what it is when the scripts are filled. -/
structure IsWritable (label : String) : Prop where
  isVerbatim : IsVerbatim label.toList
  isFree : ∀ name ∈ ["config_node_labels", "body", "kind", "dispatch"], IsFree name label.toList

section Written

variable {r : Request}

theorem IsWritable.isQuotable_canonical (h : IsWritable r.label) : IsQuotable r.canonical := by
  obtain ⟨lead, hlead, hcanonical⟩ := r.toList_canonical
  have hfront : ∀ lead ∈ [sourceRootRepo.toList, (sourceRootRepo ++ "//").toList],
      lead ≠ [] ∧ IsVerbatim lead := by decide
  obtain ⟨hne, hverbatim⟩ := hfront lead hlead
  refine ⟨fun hnil => hne ?_, ?_⟩
  · rw [hnil] at hcanonical
    exact (List.append_eq_nil_iff.mp hcanonical.symm).1
  · rw [hcanonical]
    exact hverbatim.append h.isVerbatim

theorem toList_id_canonical (r : Request) :
    r.id.toList = r.canonical.toList ++ '|' :: r.arch.requestTag.toList := by
  simp [Request.id, idSeparator]

theorem IsWritable.isQuotable_id (h : IsWritable r.label) : IsQuotable r.id := by
  have htag : IsVerbatim ('|' :: r.arch.requestTag.toList) := by
    cases r.arch <;> decide
  refine ⟨?_, ?_⟩
  · simp [Request.id, idSeparator]
  · rw [toList_id_canonical]
    exact h.isQuotable_canonical.2.append htag

variable {name : String}

theorem IsFree.canonical (h : IsFree name r.label.toList) : IsFree name r.canonical.toList := by
  obtain ⟨lead, hlead, hcanonical⟩ := r.toList_canonical
  have hfront : ∀ lead ∈ [sourceRootRepo.toList, (sourceRootRepo ++ "//").toList],
      '\x7b' ∉ lead := by decide
  rw [hcanonical]
  exact h.append_left (hfront lead hlead)

theorem IsFree.id (h : IsFree name r.label.toList) : IsFree name r.id.toList := by
  have htag : '\x7d' ∉ '|' :: r.arch.requestTag.toList := by
    cases r.arch <;> decide
  rw [toList_id_canonical]
  exact h.canonical.append_right htag

end Written

section Asked

variable {requests : List Request} {registry : QueryRegistry} {kind : QueryKind}
  {ids : Std.TreeSet String}

theorem mem_kinds : kind ∈ registry.kinds ↔ registry.get? kind.name = some kind := by
  obtain ⟨name, body⟩ := kind
  simp [QueryRegistry.kinds, QueryRegistry.get?, Std.TreeMap.mem_toList_iff_getElem?_eq_some]

theorem name_of_get? {name : String} (h : registry.get? name = some kind) : kind.name = name := by
  obtain ⟨body, -, rfl⟩ := Option.map_eq_some_iff.mp h
  rfl

theorem nodup_kinds (registry : QueryRegistry) : (registry.kinds.map QueryKind.name).Nodup := by
  unfold QueryRegistry.kinds
  rw [List.map_map]
  exact Std.TreeMap.map_fst_toList_eq_keys ▸ Std.TreeMap.nodup_keys

theorem mem_askedKinds : (kind, ids) ∈ askedKinds requests registry ↔
    registry.get? kind.name = some kind ∧ (idsByKind requests)[kind.name]? = some ids := by
  unfold askedKinds
  rw [List.mem_filterMap]
  constructor
  · rintro ⟨asked, hmem, hids⟩
    obtain ⟨found, hfound, heq⟩ := Option.map_eq_some_iff.mp hids
    obtain ⟨rfl, rfl⟩ := Prod.mk.inj heq
    exact ⟨mem_kinds.mp hmem, hfound⟩
  · rintro ⟨hkind, hids⟩
    exact ⟨kind, mem_kinds.mpr hkind, by rw [hids, Option.map_some]⟩

/-- The kinds that are asked for have the ids requested of them. -/
theorem isGrouping_askedKinds (h : ∀ r ∈ requests, (registry.get? r.kind).isSome) :
    IsGrouping Request.kind Request.id requests
      ((askedKinds requests registry).map fun (kind, ids) => (kind.name, ids.toList)) where
  nodup := by
    have hkinds := List.pairwise_map.mp (nodup_kinds registry)
    rw [List.map_map]
    refine List.pairwise_map.mpr (List.pairwise_filterMap.mpr (hkinds.imp ?_))
    intro kind other hne asked hasked askedOther hother
    obtain ⟨ids, -, rfl⟩ := Option.map_eq_some_iff.mp hasked
    obtain ⟨otherIds, -, rfl⟩ := Option.map_eq_some_iff.mp hother
    exact hne
  names n := by
    have hasked : n ∈ idsByKind requests ↔ ∃ r ∈ requests, r.kind = n := mem_groupBy
    rw [List.map_map, ← hasked]
    constructor
    · intro hn
      obtain ⟨⟨kind, ids⟩, hmem, rfl⟩ := List.mem_map.mp hn
      exact Std.TreeMap.mem_iff_isSome_getElem?.mpr
        (Option.isSome_of_eq_some (mem_askedKinds.mp hmem).2)
    · intro hn
      obtain ⟨r, hr, rfl⟩ := hasked.mp hn
      obtain ⟨ids, hids⟩ := Option.isSome_iff_exists.mp (Std.TreeMap.mem_iff_isSome_getElem?.mp hn)
      obtain ⟨kind, hkind⟩ := Option.isSome_iff_exists.mp (h r hr)
      have hname := name_of_get? hkind
      rw [← hname] at hids hkind ⊢
      exact List.mem_map.mpr ⟨(kind, ids), mem_askedKinds.mpr ⟨hkind, hids⟩, rfl⟩
  texts := by
    intro group hgroup
    obtain ⟨⟨kind, ids⟩, hmem, rfl⟩ := List.mem_map.mp hgroup
    refine ⟨nodup_toList ids, fun t => ?_⟩
    rw [Std.TreeSet.mem_toList, mem_of_groupBy (mem_askedKinds.mp hmem).2]

theorem areFunctions_askedKinds (hlabels : ∀ r ∈ requests, IsWritable r.label)
    (hkinds : ∀ r ∈ requests, ∀ kind, registry.get? r.kind = some kind → IsFunction kind) :
    AreFunctions (askedKinds requests registry) := by
  rintro ⟨kind, ids⟩ hasked
  obtain ⟨hkind, hids⟩ := mem_askedKinds.mp hasked
  constructor
  · have hmem := Std.TreeMap.mem_iff_isSome_getElem?.mpr (Option.isSome_of_eq_some hids)
    obtain ⟨r, hr, hname⟩ := mem_groupBy.mp hmem
    exact hkinds r hr kind (hname ▸ hkind)
  · intro id hid
    obtain ⟨r, hr, -, rfl⟩ := (mem_of_groupBy hids).mp (Std.TreeSet.mem_toList.mp hid)
    have hfree := List.forall_mem_of_forall_mem_cons (hlabels r hr).isFree
    exact ⟨(hlabels r hr).isQuotable_id, fun name hname => (hfree name hname).id⟩

end Asked

/-- The scripts ask for what is requested: for each architecture tag exactly the labels requested
under it, in a node on which the root depends, and for each kind exactly the ids requested of it. -/
theorem requests_asked {workspaceDir : Path} {requests : List Request} {registry : QueryRegistry}
    {scripts : ScriptSet} (h : ScriptSet.synthesize workspaceDir requests registry = .ok scripts)
    (hlabels : ∀ r ∈ requests, IsWritable r.label)
    (hkinds : ∀ r ∈ requests, ∀ kind, registry.get? r.kind = some kind → IsFunction kind) :
    ∃ nodes tables : List (String × List String),
      IsGrouping (fun r => r.arch.requestTag) Request.canonical requests nodes ∧
      IsGrouping Request.kind Request.id requests tables ∧
      Starlark.read? scripts.buildFile = some (buildStatements nodes) ∧
      Starlark.read? scripts.cquery = some (queryStatements tables) := by
  have hchecked := ScriptSet.checked_of_synthesize h
  obtain ⟨hbuildFile, hcquery⟩ := ScriptSet.files_of_synthesize h
  have hbuild : ∀ r ∈ requests,
      IsQuotable r.canonical ∧ IsFree "config_node_labels" r.canonical.toList := fun r hr =>
    ⟨(hlabels r hr).isQuotable_canonical, ((hlabels r hr).isFree _ List.mem_cons_self).canonical⟩
  rw [hbuildFile, hcquery]
  exact ⟨_, _, isGrouping_groupBy requests, isGrouping_askedKinds fun r hr => (hchecked r hr).2,
    read?_of_says (says_buildFile hbuild),
    read?_of_says (says_cqueryFile (areFunctions_askedKinds hlabels hkinds))⟩

/-- Requests for labels with braces. -/
def bracedRequests : List Request :=
  [⟨"//p:\x7ba\x7d", "getOutputFiles", .arm64⟩, ⟨"p:\x7bids\x7d", "getCcInfo", .common⟩]

theorem requests_asked_braced :
    ∃ scripts, ScriptSet.synthesize ⟨"/src"⟩ bracedRequests .builtin = .ok scripts ∧
      ∃ nodes tables : List (String × List String),
        IsGrouping (fun r => r.arch.requestTag) Request.canonical bracedRequests nodes ∧
        IsGrouping Request.kind Request.id bracedRequests tables ∧
        Starlark.read? scripts.buildFile = some (buildStatements nodes) ∧
        Starlark.read? scripts.cquery = some (queryStatements tables) := by
  have hchecked : ∀ r ∈ bracedRequests,
      isAmbiguous r.label = false ∧ (QueryRegistry.builtin.get? r.kind).isSome := by decide +kernel
  obtain ⟨scripts, hmade⟩ := ScriptSet.exists_of_checked hchecked
  have hverbatim : ∀ r ∈ bracedRequests, IsVerbatim r.label.toList := by decide +kernel
  have hfree : ∀ r ∈ bracedRequests, ∀ name ∈ ["config_node_labels", "body", "kind", "dispatch"],
      IsFree name r.label.toList := by decide +kernel
  exact ⟨scripts, hmade, requests_asked hmade (fun r hr => ⟨hverbatim r hr, hfree r hr⟩)
    fun _ _ _ hkind => isFunction_builtin hkind⟩

/-- A request for a label with a quote. -/
def quotedRequest : Request := ⟨"//p:a\"b", "getOutputFiles", .arm64⟩

/-- The scripts for a label with a quote are made, but the build file cannot be read: behind the
quote in the label, a name ends in front of another quote. -/
theorem quoted_label_unread :
    ∃ scripts, ScriptSet.synthesize ⟨"/src"⟩ [quotedRequest] .builtin = .ok scripts ∧
      Starlark.read? scripts.buildFile = none := by
  have hchecked : ∀ r ∈ [quotedRequest],
      isAmbiguous r.label = false ∧ (QueryRegistry.builtin.get? r.kind).isSome := by decide +kernel
  obtain ⟨scripts, hmade⟩ := ScriptSet.exists_of_checked hchecked
  refine ⟨scripts, hmade, ?_⟩
  let labels : Std.TreeSet String := Std.TreeSet.insert ∅ quotedRequest.canonical
  have hgroups : (labelsByTag [quotedRequest]).toList = [("arm64", labels)] := rfl
  have hlabels : labels.toList = [quotedRequest.canonical] := rfl
  have htag : IsTag "arm64" := ⟨.arm64, rfl⟩
  have hfree : IsFree "config_node_labels"
      (nodesText (labelsByTag [quotedRequest]).toList).toList := by
    rw [hgroups]
    refine isFree_nodesText (by simpa using htag) ?_
    simp only [List.mem_singleton, forall_eq, hlabels]
    decide +kernel
  have hbegin : run .start (loadText.toList ++ (nodeHead "arm64" ++
      (quotedList [quotedRequest.canonical]).toList)) = none :=
    Option.isNone_iff_eq_none.mp (by decide +kernel)
  refine read?_eq_none ?_ hbegin
  rw [(ScriptSet.files_of_synthesize hmade).1, toList_buildFile hfree, hgroups, toList_nodesText,
    List.flatMap_singleton, toList_configNode htag, hlabels]
  simp only [List.append_assoc]
  exact (List.prefix_append_right_inj _).mpr
    ((List.prefix_append_right_inj _).mpr (List.prefix_append _ _))

end HybridBuild.Scripts
