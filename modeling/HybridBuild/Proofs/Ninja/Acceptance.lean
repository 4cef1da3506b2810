import HybridBuild.Proofs.Ninja.Indexed
import Mathlib.Data.List.Nodup

/-!
# Registration in any order

Rules are registered one after the other, each checked against those before it. All of them are
accepted exactly when they fit together: every rule has outputs and repeats none, and no two rules
share an identifier or an output. That says nothing about their order, so rules that are accepted
in one order are accepted in every order, and every file keeps its producer.
-/
namespace HybridBuild.IndexedGraph

variable {g g' : IndexedGraph} {rules rules' : List Rule}

/-- Registers rules one after the other, up to the first that is refused. -/
def addRules (rules : List Rule) : Call Unit := forM rules addRule

/-- Rules that can be registered together. -/
structure Fit (rules : List Rule) : Prop where
  outputs : ∀ r ∈ rules, r.allOutputs ≠ [] ∧ r.allOutputs.Nodup
  apart : rules.Pairwise fun r s => r.id ≠ s.id ∧ r.allOutputs.Disjoint s.allOutputs

theorem Fit.perm (h : Fit rules) (hperm : rules.Perm rules') : Fit rules' where
  outputs := fun r hr => h.outputs r (hperm.mem_iff.mpr hr)
  apart := h.apart.perm hperm fun hapart => ⟨hapart.1.symm, List.disjoint_symm hapart.2⟩

/-- Without tables, rules that fit together are those that an empty graph accepts. -/
theorem exists_addRules_empty_iff_fit :
    (∃ p, ActionGraph.empty.addRules rules = .ok p) ↔ Fit rules := by
  rw [ActionGraph.exists_addRules_iff, List.nodup_flatMap]
  constructor
  · rintro ⟨hne, ⟨hnd, hdisjoint⟩, hids, -⟩
    exact ⟨fun r hr => ⟨hne r hr, hnd r hr⟩, hids.and hdisjoint⟩
  · rintro ⟨houtputs, hapart⟩
    refine ⟨fun r hr => (houtputs r hr).1, ⟨fun r hr => (houtputs r hr).2, ?_⟩, ?_, ?_, ?_⟩
    · exact hapart.imp And.right
    · exact hapart.imp And.left
    · exact fun r _ q hq => nomatch hq
    · exact fun path _ q hq => nomatch hq

/-- Calls that register rules end as they do without the tables, and the tables stay right. -/
theorem Consistent.on_addRules (h : g.Consistent) (rules : List Rule) :
    (∃ e, g.plain.addRules rules = .error e ∧ ((addRules rules).on g).1 = .error e) ∨
    ∃ g', g.plain.addRules rules = .ok g'.plain ∧ (addRules rules).on g = (.ok (), g') ∧
      g'.Consistent := by
  induction rules generalizing g with
  | nil => exact .inr ⟨g, rfl, rfl, h⟩
  | cons rule rules ih =>
    have hstep := h.on_addRule rule
    rw [ActionGraph.addRules_cons, addRules, List.forM_cons]
    cases hadd : g.plain.addRule rule with
    | error e =>
      rw [hadd] at hstep
      exact .inl ⟨e, rfl, congrArg Prod.fst (on_bind_error hstep)⟩
    | ok p =>
      rw [hadd] at hstep
      obtain ⟨-, rfl⟩ := ActionGraph.addRule_eq_ok_iff.mp hadd
      rw [on_bind_ok hstep, except_ok_bind, ← plain_push]
      exact ih (h.push hadd)

theorem exists_on_addRules_iff :
    (∃ g, (addRules rules).on empty = (.ok (), g)) ↔ Fit rules := by
  rw [← exists_addRules_empty_iff_fit]
  rcases consistent_empty.on_addRules rules with ⟨e, hplain, hon⟩ | ⟨g', hplain, hon, -⟩
  · refine iff_of_false ?_ ?_
    · rintro ⟨g, hg⟩
      rw [hg] at hon
      cases hon
    · rintro ⟨p, hp⟩
      cases hplain.symm.trans hp
  · exact iff_of_true ⟨g', hon⟩ ⟨g'.plain, hplain⟩

/-- The producers in a graph of registered rules. -/
theorem producer?_of_on_addRules (h : (addRules rules).on empty = (.ok (), g)) {path : String}
    {r : Rule} : g.producer? path = some r ↔ r ∈ rules ∧ path ∈ r.allOutputs := by
  rcases consistent_empty.on_addRules rules with ⟨e, -, hon⟩ | ⟨g', hplain, hon, hg⟩
  · rw [h] at hon
    cases hon
  · obtain rfl : g' = g := congrArg Prod.snd (hon.symm.trans h)
    have hrules : g'.rules.toList = rules := ActionGraph.rules_addRules hplain
    rw [hg.producer?_eq_some_iff, ← hrules, ← Array.mem_toList_iff]

/-- Rules are all registered exactly when each of them has outputs and lists none of them twice,
and no two of them share an identifier or an output. So they are all registered in one order
exactly when they are in any other, and then every file has the same producer in both graphs. -/
theorem registration_symmetric (rules : List Rule) :
    ((∃ g, (addRules rules).on empty = (.ok (), g)) ↔
      (∀ r ∈ rules, r.allOutputs ≠ [] ∧ r.allOutputs.Nodup) ∧
      rules.Pairwise fun r s => r.id ≠ s.id ∧ r.allOutputs.Disjoint s.allOutputs) ∧
    ∀ rules' : List Rule, rules.Perm rules' →
      ((∃ g, (addRules rules).on empty = (.ok (), g)) ↔
        ∃ g', (addRules rules').on empty = (.ok (), g')) ∧
      ∀ g g', (addRules rules).on empty = (.ok (), g) →
        (addRules rules').on empty = (.ok (), g') →
        ∀ path, g'.producer? path = g.producer? path := by
  refine ⟨?_, fun rules' hperm => ⟨?_, fun g g' h h' path => ?_⟩⟩
  · rw [exists_on_addRules_iff]
    exact ⟨fun h => ⟨h.outputs, h.apart⟩, fun h => ⟨h.1, h.2⟩⟩
  · rw [exists_on_addRules_iff, exists_on_addRules_iff]
    exact ⟨fun h => h.perm hperm, fun h => h.perm hperm.symm⟩
  · refine Option.ext fun r => ?_
    rw [producer?_of_on_addRules h, producer?_of_on_addRules h', hperm.mem_iff]

end HybridBuild.IndexedGraph
