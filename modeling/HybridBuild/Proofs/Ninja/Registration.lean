import HybridBuild.Ninja.Graph
import HybridBuild.Proofs.Traverse
import Mathlib.Data.List.Nodup

/-!
# What registration accepts

A rule is registered exactly when it has outputs, none of them twice, and neither its
identifier nor any of its outputs belongs to a registered rule. So the rules of a graph
that was built by registration differ in their identifiers and share no output.
-/
namespace HybridBuild.ActionGraph

variable {g g' : ActionGraph} {rule : Rule}

theorem producer?_eq_none_iff {path : String} :
    g.producer? path = none ↔ ∀ r ∈ g.rules, path ∉ r.allOutputs := by
  simp [producer?]

theorem outputFault?_eq_none_iff {seen outputs : List String} :
    g.outputFault? rule seen outputs = none ↔
      outputs.Nodup ∧ ∀ path ∈ outputs, path ∉ seen ∧ g.producer? path = none := by
  induction outputs generalizing seen with
  | nil => simp [outputFault?]
  | cons output rest ih =>
    unfold outputFault?
    by_cases hseen : output ∈ seen
    · simp [hseen]
    · cases hproducer : g.producer? output with
      | some first => simp [hseen, hproducer]
      | none =>
        simp only [List.contains_eq_mem, hseen, decide_false, Bool.false_eq_true, if_false, ih,
          List.mem_cons, not_or, List.nodup_cons, forall_eq_or_imp, not_false_eq_true, hproducer,
          and_self, true_and]
        constructor
        · rintro ⟨hnd, h⟩
          exact ⟨⟨fun hmem => (h output hmem).1.1 rfl, hnd⟩, fun p hp => ⟨(h p hp).1.2, (h p hp).2⟩⟩
        · rintro ⟨⟨hnew, hnd⟩, h⟩
          refine ⟨hnd, fun p hp => ⟨⟨?_, (h p hp).1⟩, (h p hp).2⟩⟩
          rintro rfl
          exact hnew hp

/-- Everything that the registration of a rule checks and does. -/
theorem addRule_eq_ok_iff :
    g.addRule rule = .ok g' ↔
      (rule.allOutputs ≠ [] ∧ rule.allOutputs.Nodup ∧ (∀ r ∈ g.rules, r.id ≠ rule.id) ∧
        ∀ path ∈ rule.allOutputs, ∀ r ∈ g.rules, path ∉ r.allOutputs) ∧
      g' = { g with rules := g.rules ++ [rule] } := by
  constructor
  · intro h
    unfold addRule at h
    split at h
    · cases h
    next hempty =>
      split at h
      · cases h
      next hid =>
        split at h
        · cases h
        next hfault =>
          obtain ⟨hnd, hfree⟩ := outputFault?_eq_none_iff.mp hfault
          refine ⟨⟨by simpa using hempty, hnd, by simpa using hid, fun path hp => ?_⟩, ?_⟩
          · exact producer?_eq_none_iff.mp (hfree path hp).2
          · exact (Except.ok.inj h).symm
  · rintro ⟨⟨hne, hnd, hid, hfree⟩, rfl⟩
    have hany : (g.rules.any fun r => r.id = rule.id) = false := by simpa using hid
    have hfault : g.outputFault? rule [] rule.allOutputs = none :=
      outputFault?_eq_none_iff.mpr ⟨hnd, fun path hp =>
        ⟨List.not_mem_nil, producer?_eq_none_iff.mpr (hfree path hp)⟩⟩
    simp [addRule, hne, hany, hfault]

/-- What registration keeps: the rules differ in their identifiers, and no two of them
write one file. -/
structure Registered (rules : List Rule) : Prop where
  ids : rules.Pairwise fun r s => r.id ≠ s.id
  outputs : rules.Pairwise fun r s => ∀ path ∈ r.allOutputs, path ∉ s.allOutputs

namespace Registered

theorem nil : Registered [] := ⟨.nil, .nil⟩

theorem addRule (h : Registered g.rules) (hok : g.addRule rule = .ok g') :
    Registered g'.rules := by
  obtain ⟨⟨-, -, hid, hfree⟩, rfl⟩ := addRule_eq_ok_iff.mp hok
  constructor
  · rw [List.pairwise_append]
    refine ⟨h.ids, List.pairwise_singleton _ _, fun r hr s hs => ?_⟩
    rw [List.mem_singleton.mp hs]
    exact hid r hr
  · rw [List.pairwise_append]
    refine ⟨h.outputs, List.pairwise_singleton _ _, fun r hr s hs path hp => ?_⟩
    rw [List.mem_singleton.mp hs]
    exact fun hp' => hfree path hp' r hr hp

theorem nodup {rules : List Rule} (h : Registered rules) : rules.Nodup :=
  h.ids.imp fun hne heq => hne (congrArg Rule.id heq)

theorem eq_of_name_eq {rules : List Rule} (h : Registered rules) {r s : Rule} (hr : r ∈ rules)
    (hs : s ∈ rules) (heq : r.name = s.name) : r = s :=
  List.inj_on_of_nodup_map (List.pairwise_map.mpr h.ids) hr hs (congrArg Rule.idOf heq)

/-- Rules at different places share neither their identifier nor an output. -/
theorem disjoint_of_ne {rules : List Rule} (h : Registered rules) {i j : Nat}
    (hi : i < rules.length) (hj : j < rules.length) (hne : i ≠ j) :
    rules[i].id ≠ rules[j].id ∧ ∀ path ∈ rules[i].allOutputs, path ∉ rules[j].allOutputs := by
  have hids := List.pairwise_iff_getElem.mp h.ids
  have houtputs := List.pairwise_iff_getElem.mp h.outputs
  rcases Nat.lt_or_gt_of_ne hne with hlt | hgt
  · exact ⟨hids i j hi hj hlt, houtputs i j hi hj hlt⟩
  · exact ⟨(hids j i hj hi hgt).symm, fun path hpi hpj => houtputs j i hj hi hgt path hpj hpi⟩

theorem eq_of_mem {rules : List Rule} (h : Registered rules) {path : String}
    {i j : Fin rules.length} (hi : path ∈ (rules.get i).allOutputs)
    (hj : path ∈ (rules.get j).allOutputs) : i = j := by
  by_contra hne
  exact (h.disjoint_of_ne i.isLt j.isLt fun heq => hne (Fin.ext heq)).2 path hi hj

theorem producer?_eq_some (h : Registered g.rules) {path : String} (hrule : rule ∈ g.rules)
    (hpath : path ∈ rule.allOutputs) : g.producer? path = some rule := by
  obtain ⟨i, rfl⟩ := List.get_of_mem hrule
  cases hfound : g.producer? path with
  | none => exact absurd hpath (producer?_eq_none_iff.mp hfound _ hrule)
  | some r =>
    obtain ⟨j, rfl⟩ := List.get_of_mem (List.mem_of_find?_eq_some hfound)
    have hout : path ∈ (g.rules.get j).allOutputs := by simpa using List.find?_some hfound
    rw [h.eq_of_mem hpath hout]

end Registered

theorem addRules_cons (g : ActionGraph) (rule : Rule) (rules : List Rule) :
    g.addRules (rule :: rules) = g.addRule rule >>= fun g => g.addRules rules := List.foldlM_cons

/-- Rules that are all accepted stand at the end, in their order, and nothing else changes. -/
theorem eq_of_addRules {rules : List Rule} (h : g.addRules rules = .ok g') :
    g' = { g with rules := g.rules ++ rules } := by
  induction rules generalizing g with
  | nil =>
    obtain rfl : g = g' := Except.ok.inj h
    simp
  | cons rule rules ih =>
    rw [addRules_cons] at h
    cases hadd : g.addRule rule with
    | error e => simp [hadd] at h
    | ok g₁ =>
      rw [hadd, except_ok_bind] at h
      have hrest := ih h
      obtain ⟨-, rfl⟩ := addRule_eq_ok_iff.mp hadd
      simpa using hrest

theorem rules_addRules {rules : List Rule} (h : g.addRules rules = .ok g') :
    g'.rules = g.rules ++ rules := by
  rw [eq_of_addRules h]

theorem registered_addRules (hreg : Registered g.rules) {rules : List Rule}
    (h : g.addRules rules = .ok g') : Registered g'.rules := by
  induction rules generalizing g with
  | nil =>
    have heq : g = g' := Except.ok.inj h
    exact heq ▸ hreg
  | cons rule rules ih =>
    rw [addRules_cons] at h
    cases hadd : g.addRule rule with
    | error e => simp [hadd] at h
    | ok g₁ =>
      rw [hadd, except_ok_bind] at h
      exact ih (hreg.addRule hadd) h

/-- Rules are all accepted when each of them has outputs, no output is written twice, and their
identifiers differ, from each other and from those of the registered rules. Registration keeps the
outputs of a rule from those after it, and the list of all outputs the other way round. -/
theorem exists_addRules_iff {rules : List Rule} : (∃ g', g.addRules rules = .ok g') ↔
    (∀ r ∈ rules, r.allOutputs ≠ []) ∧ (rules.flatMap Rule.allOutputs).Nodup ∧
      (rules.Pairwise fun r s => r.id ≠ s.id) ∧ (∀ r ∈ rules, ∀ q ∈ g.rules, q.id ≠ r.id) ∧
      ∀ path ∈ rules.flatMap Rule.allOutputs, ∀ q ∈ g.rules, path ∉ q.allOutputs := by
  induction rules generalizing g with
  | nil => exact ⟨fun _ => by simp, fun _ => ⟨g, rfl⟩⟩
  | cons rule rules ih =>
    have hstep : (∃ g', g.addRules (rule :: rules) = .ok g') ↔
        ∃ g₁, g.addRule rule = .ok g₁ ∧ ∃ g', g₁.addRules rules = .ok g' := by
      rw [addRules_cons]
      exact exists_bind_ok_iff
    simp only [hstep, addRule_eq_ok_iff, ih, and_assoc, exists_and_left, exists_eq_left,
      List.forall_mem_cons, List.flatMap_cons, List.nodup_append', List.pairwise_cons,
      List.forall_mem_append, List.disjoint_left, List.not_mem_nil, false_imp_iff, implies_true,
      and_true, imp_and, forall_and]
    constructor
    · rintro ⟨hne, hnd, hid, hfree, hnes, hnds, hids, hnew, hown, hfrees, hapart⟩
      exact ⟨hne, hnes, hnd, hnds, fun path hpath hmem => hapart path hmem hpath, hown, hids, hid,
        hnew, hfree, hfrees⟩
    · rintro ⟨hne, hnes, hnd, hnds, hapart, hown, hids, hid, hnew, hfree, hfrees⟩
      exact ⟨hne, hnd, hid, hfree, hnes, hnds, hids, hnew, hown, hfrees,
        fun path hmem hpath => hapart hpath hmem⟩

theorem outputFault?_ne_duplicateRule {seen outputs : List String} {name : String} :
    g.outputFault? rule seen outputs ≠ some (.duplicateRule name) := by
  induction outputs generalizing seen with
  | nil => simp [outputFault?]
  | cons output rest ih =>
    unfold outputFault?
    split
    · simp
    · split
      · simp
      · exact ih

/-- A rule is refused for its identifier only when a registered rule has it. -/
theorem exists_id_of_duplicateRule {name : String}
    (h : g.addRule rule = .error (.duplicateRule name)) : ∃ r ∈ g.rules, r.id = rule.id := by
  unfold addRule at h
  split at h
  · cases h
  · split at h
    next hid => simpa using hid
    · split at h
      next fault hfault =>
        obtain rfl := Except.error.inj h
        exact absurd hfault outputFault?_ne_duplicateRule
      · cases h

/-- The graph after some rules have been offered to it in turn; a rule that is refused
changes nothing. -/
def offer (g : ActionGraph) (rules : List Rule) : ActionGraph :=
  rules.foldl (fun g rule => (g.addRule rule).toOption.getD g) g

theorem registered_offer (h : Registered g.rules) (rules : List Rule) :
    Registered (g.offer rules).rules := by
  induction rules generalizing g with
  | nil => exact h
  | cons rule rules ih =>
    rw [offer, List.foldl_cons]
    refine ih ?_
    cases hadd : g.addRule rule with
    | error e => exact h
    | ok g' => exact h.addRule hadd

/-- Every rule that was accepted has outputs, none of them twice. -/
theorem nodup_outputs_of_mem_offer (h : ∀ r ∈ g.rules, r.allOutputs ≠ [] ∧ r.allOutputs.Nodup)
    (rules : List Rule) :
    ∀ r ∈ (g.offer rules).rules, r.allOutputs ≠ [] ∧ r.allOutputs.Nodup := by
  induction rules generalizing g with
  | nil => exact h
  | cons rule rules ih =>
    rw [offer, List.foldl_cons]
    refine ih ?_
    cases hadd : g.addRule rule with
    | error e => exact h
    | ok g' =>
      obtain ⟨⟨hne, hnd, -, -⟩, rfl⟩ := addRule_eq_ok_iff.mp hadd
      intro r hr
      rcases List.mem_append.mp hr with hr | hr
      · exact h r hr
      · rw [List.mem_singleton.mp hr]
        exact ⟨hne, hnd⟩

/-- Rules that fit together are all accepted. -/
theorem rules_offer {rules : List Rule} (h : Registered (g.rules ++ rules))
    (hown : ∀ r ∈ rules, r.allOutputs ≠ [] ∧ r.allOutputs.Nodup) :
    (g.offer rules).rules = g.rules ++ rules := by
  induction rules generalizing g with
  | nil => simp [offer]
  | cons rule rules ih =>
    have hids := List.pairwise_append.mp h.ids
    have houtputs := List.pairwise_append.mp h.outputs
    have hid : ∀ r ∈ g.rules, r.id ≠ rule.id := fun r hr =>
      hids.2.2 r hr rule List.mem_cons_self
    have hfree : ∀ path ∈ rule.allOutputs, ∀ r ∈ g.rules, path ∉ r.allOutputs :=
      fun path hpath r hr hmem => houtputs.2.2 r hr rule List.mem_cons_self path hmem hpath
    obtain ⟨hne, hnd⟩ := hown rule List.mem_cons_self
    have hadd : g.addRule rule = .ok { g with rules := g.rules ++ [rule] } :=
      addRule_eq_ok_iff.mpr ⟨⟨hne, hnd, hid, hfree⟩, rfl⟩
    have hrest := ih (g := { g with rules := g.rules ++ [rule] }) (by simpa using h)
      fun r hr => hown r (List.mem_cons_of_mem rule hr)
    rw [offer, List.foldl_cons, hadd]
    exact hrest.trans (by simp)

theorem Registered.perm {rules rules' : List Rule} (h : Registered rules)
    (hperm : rules.Perm rules') : Registered rules' where
  ids := h.ids.perm hperm fun hne => hne.symm
  outputs := h.outputs.perm hperm fun hfree path hs hr => hfree path hr hs

/-- The rules of a graph can be registered in any other order. -/
theorem rules_offer_of_perm {offered rules : List Rule}
    (hperm : rules.Perm (empty.offer offered).rules) : (empty.offer rules).rules = rules := by
  have hreg : Registered (empty.offer offered).rules := registered_offer .nil offered
  have hown := nodup_outputs_of_mem_offer (g := empty) (by simp [empty]) offered
  exact rules_offer (hreg.perm hperm.symm) fun r hr => hown r (hperm.mem_iff.mp hr)

end HybridBuild.ActionGraph
