import HybridBuild.Proofs.Text.Cut
import HybridBuild.Scripts.Basic

/-!
# What is checked before the scripts are made

Every label must be free of the separators and every kind registered. The ids made of
such labels and the names of such kinds are then free of the separators too.
-/
namespace HybridBuild

/-- What stands in front of the label that Bazel is asked for. -/
theorem Request.toList_canonical (r : Request) :
    ∃ lead ∈ [sourceRootRepo.toList, (sourceRootRepo ++ "//").toList],
      r.canonical.toList = lead ++ r.label.toList := by
  unfold Request.canonical canonicalLabel
  split
  · exact ⟨_, List.mem_cons_self, by simp⟩
  · exact ⟨_, List.mem_cons_of_mem _ List.mem_cons_self, by simp⟩

/-- What stands around the label in an id. -/
theorem Request.toList_id (r : Request) :
    ∃ lead ∈ [sourceRootRepo.toList, (sourceRootRepo ++ "//").toList],
      r.id.toList =
        lead ++ (r.label.toList ++ (idSeparator.toList ++ r.arch.requestTag.toList)) := by
  obtain ⟨lead, hlead, hcanonical⟩ := r.toList_canonical
  exact ⟨lead, hlead, by simp [Request.id, hcanonical]⟩

theorem Request.id_free {r : Request} (h : ¬ ['>', '>'] <:+: r.label.toList) :
    ¬ ['>', '>'] <:+: r.id.toList ++ ['>'] := by
  obtain ⟨lead, hlead, hid⟩ := r.toList_id
  have htail : ¬ ['>', '>'] <:+: idSeparator.toList ++ (r.arch.requestTag.toList ++ ['>']) := by
    cases r.arch <;> decide
  have hlabel : ¬ ['>', '>'] <:+:
      r.label.toList ++ (idSeparator.toList ++ (r.arch.requestTag.toList ++ ['>'])) :=
    Text.not_pair_infix_append h htail (.inr (by simp [idSeparator]))
  have hfront : ∀ lead ∈ [sourceRootRepo.toList, (sourceRootRepo ++ "//").toList],
      ¬ ['>', '>'] <:+: lead ∧ lead.getLast? ≠ some '>' := by decide
  rw [hid]
  simp only [List.append_assoc]
  exact Text.not_pair_infix_append (hfront lead hlead).1 hlabel (.inl (hfront lead hlead).2)

theorem Request.id_line {r : Request} (h : '\n' ∉ r.label.toList) : '\n' ∉ r.id.toList := by
  obtain ⟨lead, hlead, hid⟩ := r.toList_id
  have htag : '\n' ∉ r.arch.requestTag.toList := by
    cases r.arch <;> decide
  have hfront : ∀ lead ∈ [sourceRootRepo.toList, (sourceRootRepo ++ "//").toList],
      '\n' ∉ lead := by decide
  simp [hid, hfront lead hlead, h, htag, idSeparator]

/-- The name of a kind is made of letters and digits. -/
theorem QueryKind.notMem_of_isName {name : String} {c : Char} (h : isName name)
    (hc : c.isAlphanum = false) : c ∉ name.toList := by
  intro hmem
  simp only [isName, Bool.and_eq_true, List.all_eq_true] at h
  rw [h.2 c hmem] at hc
  cases hc

theorem QueryRegistry.isName_of_get? {q : QueryRegistry} {name : String}
    (h : (q.get? name).isSome) : QueryKind.isName name := by
  rw [get?, Option.isSome_map] at h
  exact q.isName_of_mem name (Std.TreeMap.mem_iff_isSome_getElem?.mpr h)

/-- What is checked of the requests before the scripts are made. -/
theorem ScriptSet.checked_of_synthesize {workspaceDir : Path} {requests : List Request}
    {registry : QueryRegistry} {scripts : ScriptSet}
    (h : synthesize workspaceDir requests registry = .ok scripts) :
    ∀ r ∈ requests, Scripts.isAmbiguous r.label = false ∧ (registry.get? r.kind).isSome := by
  unfold synthesize at h
  split at h
  next hlabels =>
    split at h
    next => cases h
    next hkinds =>
      intro r hr
      constructor
      · by_contra hne
        have hmem : r.label ∈ (requests.map Request.label).filter Scripts.isAmbiguous :=
          List.mem_filter.mpr ⟨List.mem_map_of_mem hr, by simpa using hne⟩
        rw [hlabels] at hmem
        cases hmem
      · simpa [Option.isSome_iff_ne_none] using List.find?_eq_none.mp hkinds r hr
  next => cases h

/-- The scripts are made if nothing is wrong with the requests. -/
theorem ScriptSet.exists_of_checked {workspaceDir : Path} {requests : List Request}
    {registry : QueryRegistry}
    (h : ∀ r ∈ requests, Scripts.isAmbiguous r.label = false ∧ (registry.get? r.kind).isSome) :
    ∃ scripts, synthesize workspaceDir requests registry = .ok scripts := by
  have hlabels : (requests.map Request.label).filter Scripts.isAmbiguous = [] := by
    refine List.filter_eq_nil_iff.mpr fun label hlabel => ?_
    obtain ⟨r, hr, rfl⟩ := List.mem_map.mp hlabel
    simp [(h r hr).1]
  have hkinds : requests.find? (fun r => (registry.get? r.kind).isNone) = none :=
    List.find?_eq_none.mpr fun r hr => by simpa using Option.isSome_iff_ne_none.mp (h r hr).2
  unfold synthesize
  rw [hlabels, hkinds]
  exact ⟨_, rfl⟩

/-- What is made once everything is checked. -/
theorem ScriptSet.files_of_synthesize {workspaceDir : Path} {requests : List Request}
    {registry : QueryRegistry} {scripts : ScriptSet}
    (h : synthesize workspaceDir requests registry = .ok scripts) :
    scripts.buildFile = Scripts.buildFile requests ∧
      scripts.cquery = Scripts.cqueryFile requests registry := by
  unfold synthesize at h
  split at h
  next =>
    split at h
    next => cases h
    next =>
      injection h with h
      subst h
      exact ⟨rfl, rfl⟩
  next => cases h

end HybridBuild
