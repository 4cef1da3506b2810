import HybridBuild.Proofs.Scripts.Checks
import HybridBuild.Proofs.Scripts.Groups
import HybridBuild.Proofs.Scripts.QueryFile

/-!
# The scripts depend on the questions

A request asks a question: what a query kind says about a label, as Bazel sees it, under the tag of
an architecture. The scripts are made of groups that are sorted sets, and every group holds parts
of questions, so two lists of requests that ask the same questions have the same scripts, in
whatever order, however often and in whatever spelling they ask them. Whether a label is refused
does not depend on its spelling either, since no separator is completed by what stands in front
of the label.
-/
namespace HybridBuild

/-- What a query kind says about a label, as Bazel sees it, under the tag of an architecture. -/
structure Question where
  label : String
  kind : String
  tag : String
  deriving DecidableEq, Repr

def Request.question (r : Request) : Question := ⟨r.canonical, r.kind, r.arch.requestTag⟩

/-- Two lists of requests ask the same questions. -/
def AskAlike (requests requests' : List Request) : Prop :=
  ∀ q, q ∈ requests.map Request.question ↔ q ∈ requests'.map Request.question

variable {requests requests' : List Request} {registry : QueryRegistry} {workspaceDir : Path}
  {r r' : Request}

theorem AskAlike.symm (h : AskAlike requests requests') : AskAlike requests' requests :=
  fun q => (h q).symm

/-- Lists that ask the same questions cannot be told apart by a property of questions. -/
theorem AskAlike.exists_iff (h : AskAlike requests requests') (p : Question → Prop) :
    (∃ r ∈ requests, p r.question) ↔ ∃ r ∈ requests', p r.question := by
  have himp : ∀ {requests requests'}, AskAlike requests requests' →
      (∃ r ∈ requests, p r.question) → ∃ r ∈ requests', p r.question := by
    rintro requests requests' h ⟨r, hr, hp⟩
    obtain ⟨r', hr', heq⟩ := List.mem_map.mp ((h r.question).mp (List.mem_map_of_mem hr))
    exact ⟨r', hr', heq ▸ hp⟩
  exact ⟨himp h, himp h.symm⟩

theorem AskAlike.forall_iff (h : AskAlike requests requests') (p : Question → Prop) :
    (∀ r ∈ requests, p r.question) ↔ ∀ r ∈ requests', p r.question := by
  have hexcept := not_congr (h.exists_iff fun q => ¬ p q)
  simpa only [not_exists, not_and, not_not] using hexcept

/-- A request may be put in the place of one that asks the same question. -/
theorem askAlike_exchange (h : r.question = r'.question) (before after : List Request) :
    AskAlike (before ++ r :: after) (before ++ r' :: after) := by
  intro q
  rw [List.map_append, List.map_append, List.map_cons, List.map_cons, h]

/-- The slashes that may be missing in front of a label are those that it does not have. -/
theorem question_slashes_iff (label kind : String) (arch : Arch) :
    (⟨"//" ++ label, kind, arch⟩ : Request).question = (⟨label, kind, arch⟩ : Request).question ↔
      ¬ "//".toList <+: label.toList := by
  have hslashes : canonicalLabel ("//" ++ label) = sourceRootRepo ++ ("//" ++ label) := by
    simp [canonicalLabel]
  simp only [Request.question, Request.canonical, Question.mk.injEq, and_true, hslashes]
  unfold canonicalLabel
  split
  next hprefix =>
    refine iff_of_false (fun heq => ?_) (not_not.mpr (List.isPrefixOf_iff_prefix.mp hprefix))
    have hlength := congrArg String.length heq
    simp at hlength
  next hprefix =>
    exact iff_of_true (String.append_assoc ..).symm (mt List.isPrefixOf_iff_prefix.mpr hprefix)

namespace Scripts

/-- What stands in front of a label completes no separator. -/
theorem isAmbiguous_canonical (r : Request) : isAmbiguous r.canonical = isAmbiguous r.label := by
  obtain ⟨lead, hlead, hcanonical⟩ := r.toList_canonical
  have hfront : ∀ lead ∈ [sourceRootRepo.toList, (sourceRootRepo ++ "//").toList],
      ¬ ['>', '>'] <:+: lead ∧ lead.getLast? ≠ some '>' ∧ '|' ∉ lead := by decide
  obtain ⟨hfree, hlast, hbar⟩ := hfront lead hlead
  have hanswer : answerSeparator.toList <:+: r.canonical.toList ↔
      answerSeparator.toList <:+: r.label.toList := by
    rw [hcanonical]
    refine ⟨fun h => ?_, fun h => h.trans (List.suffix_append _ _).isInfix⟩
    by_contra hlabel
    exact Text.not_pair_infix_append hfree hlabel (.inl hlast) h
  have hid : idSeparator.toList <:+: r.canonical.toList ↔
      idSeparator.toList <:+: r.label.toList := by
    rw [hcanonical, show idSeparator.toList = ['|'] from rfl, List.singleton_infix_iff,
      List.singleton_infix_iff, List.mem_append, or_iff_right hbar]
  have hcontains : ∀ {part : String}, part.toList ≠ [] →
      (part.toList <:+: r.canonical.toList ↔ part.toList <:+: r.label.toList) →
      textContains r.canonical part = textContains r.label part := by
    intro part hpart hsame
    rw [Bool.eq_iff_iff, ← Bool.not_eq_false, ← Bool.not_eq_false,
      textContains_eq_false_iff hpart, textContains_eq_false_iff hpart, not_not, not_not, hsame]
  rw [isAmbiguous, isAmbiguous, hcontains (by decide) hanswer, hcontains (by decide) hid]

section Groups

variable {name text : Request → String}

/-- A group lists the same texts when the same texts go into it. -/
theorem getElem?_groupBy_congr
    (h : ∀ n t, (∃ r ∈ requests, name r = n ∧ text r = t) ↔
      ∃ r ∈ requests', name r = n ∧ text r = t) (n : String) :
    (groupBy name text requests)[n]?.map Std.TreeSet.toList =
      (groupBy name text requests')[n]?.map Std.TreeSet.toList := by
  have hnames : (groupBy name text requests)[n]?.isSome ↔
      (groupBy name text requests')[n]?.isSome := by
    have hsome := exists_congr (h n)
    rw [← Std.TreeMap.mem_iff_isSome_getElem?, ← Std.TreeMap.mem_iff_isSome_getElem?,
      mem_groupBy, mem_groupBy]
    simpa [← exists_and_left] using hsome
  cases hgroup : (groupBy name text requests)[n]? with
  | none =>
    cases hgroup' : (groupBy name text requests')[n]? with
    | none => rfl
    | some group' => simp [hgroup, hgroup'] at hnames
  | some group =>
    cases hgroup' : (groupBy name text requests')[n]? with
    | none => simp [hgroup, hgroup'] at hnames
    | some group' =>
      have hsame : ∀ t, t ∈ group ↔ t ∈ group' := fun t => by
        rw [mem_of_groupBy hgroup, mem_of_groupBy hgroup', h]
      exact congrArg some (Std.TreeSet.Equiv.of_forall_mem_iff hsame).toList_eq

/-- The groups in their order, with the texts of each in theirs. -/
def listed (groups : Groups) : List (String × List String) :=
  groups.toList.map fun (name, texts) => (name, texts.toList)

theorem listed_groupBy_congr
    (h : ∀ n t, (∃ r ∈ requests, name r = n ∧ text r = t) ↔
      ∃ r ∈ requests', name r = n ∧ text r = t) :
    listed (groupBy name text requests) = listed (groupBy name text requests') := by
  have hmapped : ∀ groups : Groups,
      listed groups = (groups.map fun _ texts => texts.toList).toList := by
    intro groups
    rw [Std.TreeMap.toList_map]
    rfl
  rw [hmapped, hmapped]
  refine Std.TreeMap.Equiv.toList_eq (.of_forall_constGet?_eq fun n => ?_)
  rw [Std.TreeMap.getElem?_map, Std.TreeMap.getElem?_map]
  exact getElem?_groupBy_congr h n

end Groups

/-- The build file by the listed groups of its labels. -/
theorem buildFile_eq (requests : List Request) : buildFile requests =
    let groups := listed (labelsByTag requests)
    let node (group : String × List String) : String :=
      fill (fill configNodeTemplate "arch" group.1) "labels" (quotedList group.2) ++ "\n"
    fill (fill buildTemplate "config_nodes" (String.join (groups.map node))) "config_node_labels"
      (quotedList (groups.map fun group => ":" ++ group.1)) := by
  unfold buildFile listed
  simp only [List.map_map, ← Std.TreeMap.map_fst_toList_eq_keys]
  rfl

theorem buildFile_congr (h : AskAlike requests requests') :
    buildFile requests = buildFile requests' := by
  have hgroups : listed (labelsByTag requests) = listed (labelsByTag requests') :=
    listed_groupBy_congr fun n t => h.exists_iff fun q => q.tag = n ∧ q.label = t
  rw [buildFile_eq, buildFile_eq, hgroups]

theorem askedKinds_congr (h : AskAlike requests requests') :
    (askedKinds requests registry).map (fun (kind, ids) => (kind, ids.toList)) =
      (askedKinds requests' registry).map fun (kind, ids) => (kind, ids.toList) := by
  have hids : ∀ n, (idsByKind requests)[n]?.map Std.TreeSet.toList =
      (idsByKind requests')[n]?.map Std.TreeSet.toList :=
    getElem?_groupBy_congr fun n t => h.exists_iff fun q =>
      q.kind = n ∧ q.label ++ idSeparator ++ q.tag = t
  have hasked : ∀ requests, (askedKinds requests registry).map
      (fun (kind, ids) => (kind, ids.toList)) = registry.kinds.filterMap fun kind =>
        ((idsByKind requests)[kind.name]?.map Std.TreeSet.toList).map fun ids => (kind, ids) := by
    intro requests
    simp only [askedKinds, List.map_filterMap, Option.map_map]
    rfl
  rw [hasked, hasked]
  simp only [hids]

/-- The query file by the listed ids of the kinds that are asked. -/
theorem cqueryFile_eq (requests : List Request) (registry : QueryRegistry) :
    cqueryFile requests registry =
      let asked := (askedKinds requests registry).map fun (kind, ids) => (kind, ids.toList)
      let entries (ids : List String) : String :=
        String.join (ids.map fun id => "  \"" ++ id ++ "\": True,\n")
      let part (asked : QueryKind × List String) : String :=
        fill (fill (fill queryKindTemplate "ids" (entries asked.2)) "body" (indent asked.1.body))
          "kind" asked.1.name ++ "\n"
      fill (fill cqueryTemplate "kinds" (String.join (asked.map part))) "dispatch"
        (String.join (asked.map fun asked => kindDispatch asked.1)) := by
  simp only [List.map_map]
  rfl

theorem cqueryFile_congr (h : AskAlike requests requests') :
    cqueryFile requests registry = cqueryFile requests' registry := by
  rw [cqueryFile_eq, cqueryFile_eq, askedKinds_congr h]

end Scripts

namespace ScriptSet

open Scripts

/-- The scripts are made exactly when no label is refused and all kinds are registered. Labels are
checked as they are written, but it makes no difference to check their canonical spelling. -/
theorem synthesize_eq_ok_iff {scripts : ScriptSet} :
    synthesize workspaceDir requests registry = .ok scripts ↔
      (∀ r ∈ requests, isAmbiguous r.canonical = false ∧ (registry.get? r.kind).isSome) ∧
      scripts = {
        workspace := fill workspaceTemplate "workspace" workspaceDir.text
        buildFile := Scripts.buildFile requests
        mainBzl := Scripts.mainBzl
        cquery := cqueryFile requests registry } := by
  simp only [isAmbiguous_canonical]
  have hmade : ∀ {scripts}, synthesize workspaceDir requests registry = .ok scripts →
      scripts = ⟨fill workspaceTemplate "workspace" workspaceDir.text, Scripts.buildFile requests,
        Scripts.mainBzl, cqueryFile requests registry⟩ := by
    intro scripts h
    unfold synthesize at h
    split at h
    · split at h
      · cases h
      · exact (Except.ok.inj h).symm
    · cases h
  constructor
  · exact fun h => ⟨checked_of_synthesize h, hmade h⟩
  · rintro ⟨hchecked, heq⟩
    obtain ⟨scripts', h⟩ := exists_of_checked hchecked
    rw [h, heq, hmade h]

/-- Lists that ask the same questions have the same scripts, or both have none. -/
theorem synthesize_congr (h : AskAlike requests requests') {scripts : ScriptSet} :
    synthesize workspaceDir requests registry = .ok scripts ↔
      synthesize workspaceDir requests' registry = .ok scripts := by
  have hchecked :
      (∀ r ∈ requests, isAmbiguous r.canonical = false ∧ (registry.get? r.kind).isSome) ↔
        ∀ r ∈ requests', isAmbiguous r.canonical = false ∧ (registry.get? r.kind).isSome :=
    h.forall_iff fun q => isAmbiguous q.label = false ∧ (registry.get? q.kind).isSome
  rw [synthesize_eq_ok_iff, synthesize_eq_ok_iff, hchecked, buildFile_congr h, cqueryFile_congr h]

/-- The scripts depend on the questions that are asked and on nothing else: two lists of requests
that ask the same ones, in any order and any number of times, have the same four files, or both
are refused. So a request may stand for any other one that asks the same question; the slashes in
front of a label may be left out, unless the label goes on with slashes, and the default
architecture may be named or not. -/
theorem scripts_depend_on_questions (workspaceDir : Path) (registry : QueryRegistry) :
    (∀ requests requests', AskAlike requests requests' → ∀ scripts,
      synthesize workspaceDir requests registry = .ok scripts ↔
        synthesize workspaceDir requests' registry = .ok scripts) ∧
    (∀ r r' : Request, r.question = r'.question → ∀ before after scripts,
      synthesize workspaceDir (before ++ r :: after) registry = .ok scripts ↔
        synthesize workspaceDir (before ++ r' :: after) registry = .ok scripts) ∧
    (∀ label kind arch, (⟨"//" ++ label, kind, arch⟩ : Request).question =
      (⟨label, kind, arch⟩ : Request).question ↔ ¬ "//".toList <+: label.toList) ∧
    ∀ label kind, (⟨label, kind, .common⟩ : Request).question =
      (⟨label, kind, .x86_64⟩ : Request).question :=
  ⟨fun _ _ h _ => synthesize_congr h,
    fun _ _ h before after _ => synthesize_congr (askAlike_exchange h before after),
    question_slashes_iff, fun _ _ => rfl⟩

/-- Two questions, one of them asked twice. -/
def askedTwice : List Request :=
  [⟨"//p:a", "getOutputFiles", .common⟩, ⟨"p:b", "getCcInfo", .arm64⟩,
    ⟨"p:a", "getOutputFiles", .common⟩]

/-- The same questions in other words. -/
def askedOtherwise : List Request :=
  [⟨"//p:b", "getCcInfo", .arm64⟩, ⟨"p:a", "getOutputFiles", .x86_64⟩]

/-- The two lists have the same scripts, and the first request of one may take the place of the
last request of the other. -/
theorem scripts_depend_on_questions_otherwise : ∃ scripts,
    synthesize ⟨"ws"⟩ askedTwice .builtin = .ok scripts ∧
    synthesize ⟨"ws"⟩ askedOtherwise .builtin = .ok scripts ∧
    synthesize ⟨"ws"⟩ [⟨"//p:b", "getCcInfo", .arm64⟩, ⟨"//p:a", "getOutputFiles", .common⟩]
      .builtin = .ok scripts := by
  have halike : AskAlike askedTwice askedOtherwise := by
    have htwice : askedTwice.map Request.question =
        [⟨"@sourceroot//p:a", "getOutputFiles", "x86_64"⟩,
          ⟨"@sourceroot//p:b", "getCcInfo", "arm64"⟩,
          ⟨"@sourceroot//p:a", "getOutputFiles", "x86_64"⟩] := by decide +kernel
    have hotherwise : askedOtherwise.map Request.question =
        [⟨"@sourceroot//p:b", "getCcInfo", "arm64"⟩,
          ⟨"@sourceroot//p:a", "getOutputFiles", "x86_64"⟩] := by decide +kernel
    intro q
    rw [htwice, hotherwise]
    simp only [List.mem_cons, List.not_mem_nil, or_false]
    tauto
  have hchecked : ∀ r ∈ askedTwice,
      isAmbiguous r.label = false ∧ (QueryRegistry.builtin.get? r.kind).isSome := by decide +kernel
  have hsame : (⟨"p:a", "getOutputFiles", .x86_64⟩ : Request).question =
      (⟨"//p:a", "getOutputFiles", .common⟩ : Request).question := by decide +kernel
  obtain ⟨scripts, hmade⟩ := exists_of_checked hchecked
  obtain ⟨hlists, hplaces, -, -⟩ := scripts_depend_on_questions ⟨"ws"⟩ .builtin
  have hother := (hlists askedTwice askedOtherwise halike scripts).mp hmade
  exact ⟨scripts, hmade, hother,
    (hplaces _ _ hsame [⟨"//p:b", "getCcInfo", .arm64⟩] [] scripts).mp hother⟩

end ScriptSet

end HybridBuild
