import HybridBuild.Proofs.Distinct
import HybridBuild.Scripts.Basic

/-!
# Groups of requests

Requests that are grouped one after the other give one group for each name that occurs, and
in it each text that goes there, once.
-/
namespace HybridBuild.Scripts

/-- Requests in groups: each name that occurs once, with the texts that go there, each once. -/
structure IsGrouping (name text : Request → String) (requests : List Request)
    (groups : List (String × List String)) : Prop where
  nodup : (groups.map Prod.fst).Nodup
  names : ∀ n, n ∈ groups.map Prod.fst ↔ ∃ r ∈ requests, name r = n
  texts : ∀ group ∈ groups, group.2.Nodup ∧
    ∀ t, t ∈ group.2 ↔ ∃ r ∈ requests, name r = group.1 ∧ text r = t

variable {name text : Request → String}

theorem mem_addToGroup {groups : Groups} {n t n' t' : String} :
    t' ∈ (addToGroup groups n t).getD n' ∅ ↔ (n = n' ∧ t = t') ∨ t' ∈ groups.getD n' ∅ := by
  rw [addToGroup, Std.TreeMap.getD_insert]
  by_cases hn : n = n'
  · subst hn
    simp [Std.TreeSet.mem_insert, Std.LawfulEqCmp.compare_eq_iff_eq]
  · simp [hn, Std.LawfulEqCmp.compare_eq_iff_eq]

/-- What the groups hold after some requests more, by induction on the requests. -/
theorem mem_foldl_addToGroup (name text : Request → String) (requests : List Request) (groups : Groups) :
    let result := requests.foldl (fun groups r => addToGroup groups (name r) (text r)) groups
    (∀ n, n ∈ result ↔ (∃ r ∈ requests, name r = n) ∨ n ∈ groups) ∧
      ∀ n t, t ∈ result.getD n ∅ ↔
        (∃ r ∈ requests, name r = n ∧ text r = t) ∨ t ∈ groups.getD n ∅ := by
  induction requests generalizing groups with
  | nil => simp
  | cons r rest ih =>
    obtain ⟨hnames, htexts⟩ := ih (addToGroup groups (name r) (text r))
    constructor
    · intro n
      rw [List.foldl_cons, hnames, addToGroup, Std.TreeMap.mem_insert,
        Std.LawfulEqCmp.compare_eq_iff_eq, List.exists_mem_cons_iff]
      exact or_left_comm.trans or_assoc.symm
    · intro n t
      rw [List.foldl_cons, htexts, mem_addToGroup, List.exists_mem_cons_iff]
      exact or_left_comm.trans or_assoc.symm

theorem mem_groupBy {requests : List Request} {n : String} :
    n ∈ groupBy name text requests ↔ ∃ r ∈ requests, name r = n := by
  have hnames := (mem_foldl_addToGroup name text requests ∅).1 n
  simpa [groupBy] using hnames

theorem mem_of_groupBy {requests : List Request} {n t : String} {group : Std.TreeSet String}
    (h : (groupBy name text requests)[n]? = some group) :
    t ∈ group ↔ ∃ r ∈ requests, name r = n ∧ text r = t := by
  have htexts := (mem_foldl_addToGroup name text requests ∅).2 n t
  rw [← groupBy, Std.TreeMap.getD_eq_getD_getElem?, h] at htexts
  simpa using htexts

/-- Grouped requests are in groups. -/
theorem isGrouping_groupBy (requests : List Request) :
    IsGrouping name text requests
      ((groupBy name text requests).toList.map fun (n, group) => (n, group.toList)) where
  nodup := by
    rw [List.map_map]
    exact Std.TreeMap.map_fst_toList_eq_keys ▸ Std.TreeMap.nodup_keys
  names n := by
    rw [List.map_map, ← mem_groupBy, ← Std.TreeMap.mem_keys, ← Std.TreeMap.map_fst_toList_eq_keys]
    rfl
  texts := by
    intro group hgroup
    obtain ⟨⟨n, set⟩, hmem, rfl⟩ := List.mem_map.mp hgroup
    refine ⟨nodup_toList set, fun t => ?_⟩
    rw [Std.TreeSet.mem_toList,
      mem_of_groupBy (Std.TreeMap.mem_toList_iff_getElem?_eq_some.mp hmem)]

end HybridBuild.Scripts
