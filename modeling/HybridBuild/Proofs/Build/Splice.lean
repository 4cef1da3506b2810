import HybridBuild.Build.Splice
import HybridBuild.Proofs.Ninja.Registration

/-!
# The rules of Bazel's actions

Splicing with success gives every statement its rule, which is named after the statement's
number and writes the statement's outputs below the execution root. The rules stand at the
end of the graph, in the order of the statements.
-/
namespace HybridBuild

/-- The rule of a numbered statement has its number for a name, and writes its outputs below
the execution root. -/
theorem Statement.of_rule_eq_ok {s : Statement} {index : Nat} {execroot : Path} {rule : Rule}
    (h : s.rule index execroot = .ok rule) :
    rule.name = s!"bazel {index}" ∧
      rule.allOutputs = s.outputs.map fun path => (execroot.join path).text := by
  unfold Statement.rule at h
  split at h
  · cases h
  · have heq := Except.ok.inj h
    simp [← heq, Rule.allOutputs]

namespace ActionGraph

variable {g g' : ActionGraph} {execroot : Path} {src : FactSource}

def numberedRule (execroot : Path) (s : Statement × Nat) : Except SpliceError Rule :=
  s.1.rule s.2 execroot

/-- The rules of statements that are numbered from `index` on. -/
def statementRules (execroot : Path) (index : Nat) (statements : List Statement) :
    Except SpliceError (List Rule) :=
  (statements.zipIdx index).mapM (numberedRule execroot)

theorem statementRules_cons {s : Statement} {rest : List Statement} {index : Nat} {rule : Rule}
    (h : s.rule index execroot = .ok rule) :
    statementRules execroot index (s :: rest) =
      (statementRules execroot (index + 1) rest).map (rule :: ·) := by
  have hcons : numberedRule execroot (s, index) = .ok rule := h
  rw [statementRules, List.zipIdx_cons, mapM_cons_ok hcons, ← statementRules]

/-- Adding statements is adding their rules. -/
theorem addStatements_eq_ok_iff {statements : List Statement} {index : Nat} :
    g.addStatements execroot index statements = (.ok (), g') ↔
      ∃ rules, statementRules execroot index statements = .ok rules ∧
        g.addRules rules = .ok g' := by
  induction statements generalizing g index with
  | nil =>
    have hnil : g.addRules [] = .ok g := rfl
    have hrules : statementRules execroot index [] = .ok [] := rfl
    simp [addStatements, hrules, hnil]
  | cons s rest ih =>
    unfold addStatements
    cases hrule : s.rule index execroot with
    | error e =>
      have hcons : numberedRule execroot (s, index) = .error e := hrule
      have hrules : statementRules execroot index (s :: rest) = .error e := by
        rw [statementRules, List.zipIdx_cons, mapM_cons_error hcons]
      simp [hrules]
    | ok rule =>
      simp only [statementRules_cons hrule, except_map_eq_ok_iff, ← exists_and_right, and_assoc]
      cases hadd : g.addRule rule with
      | error e =>
        have hrules (rules : List Rule) : g.addRules (rule :: rules) = .error e := by
          rw [addRules_cons, hadd, except_error_bind]
        simp [hrules]
      | ok g₁ =>
        have hrules (rules : List Rule) : g.addRules (rule :: rules) = g₁.addRules rules := by
          rw [addRules_cons, hadd, except_ok_bind]
        simp [hrules, ih]

/-- The first statement that fails leaves the rules of those before it. Either it has no rule,
or its rule is refused. -/
theorem of_addStatements_eq_error {statements : List Statement} {index : Nat} {e : SpliceError}
    (h : g.addStatements execroot index statements = (.error e, g')) :
    ∃ before s after, statements = before ++ s :: after ∧
      g.addStatements execroot index before = (.ok (), g') ∧
      (s.rule (index + before.length) execroot = .error e ∨
        ∃ rule fault, s.rule (index + before.length) execroot = .ok rule ∧
          g'.addRule rule = .error fault ∧ e = .graph fault) := by
  induction statements generalizing g index with
  | nil => cases h
  | cons s rest ih =>
    unfold addStatements at h
    cases hrule : s.rule index execroot with
    | error e' =>
      simp only [hrule, Prod.mk.injEq, Except.error.injEq] at h
      obtain ⟨rfl, rfl⟩ := h
      exact ⟨[], s, rest, rfl, rfl, .inl hrule⟩
    | ok rule =>
      cases hadd : g.addRule rule with
      | error fault =>
        simp only [hrule, hadd, Prod.mk.injEq, Except.error.injEq] at h
        obtain ⟨rfl, rfl⟩ := h
        exact ⟨[], s, rest, rfl, rfl, .inr ⟨rule, fault, hrule, hadd, rfl⟩⟩
      | ok g₁ =>
        simp only [hrule, hadd] at h
        obtain ⟨before, s', after, rfl, hbefore, hfault⟩ := ih h
        refine ⟨s :: before, s', after, rfl, ?_, ?_⟩
        · unfold addStatements
          simp only [hrule, hadd, hbefore]
        · rwa [List.length_cons, Nat.add_comm before.length, ← Nat.add_assoc]

theorem names_statementRules {statements : List Statement} {index : Nat} {rules : List Rule}
    (h : statementRules execroot index statements = .ok rules) :
    rules.map Rule.name = (List.range' index statements.length).map fun i => s!"bazel {i}" := by
  have hnames := map_of_mapM_eq_ok h (l := fun s => s!"bazel {s.2}")
    fun s rule hrule => (Statement.of_rule_eq_ok hrule).1
  rw [hnames, ← List.zipIdx_map_snd index statements, List.map_map]
  rfl

/-- The rules of statements write the outputs of the statements, below the execution root. -/
theorem outputs_statementRules {statements : List Statement} {index : Nat} {rules : List Rule}
    (h : statementRules execroot index statements = .ok rules) :
    rules.map Rule.allOutputs =
      statements.map fun s => s.outputs.map fun path => (execroot.join path).text := by
  have houtputs := map_of_mapM_eq_ok h
    (l := fun s => s.1.outputs.map fun path => (execroot.join path).text)
    fun s rule hrule => (Statement.of_rule_eq_ok hrule).2
  conv_rhs => rw [← List.zipIdx_map_fst index statements, List.map_map]
  exact houtputs

theorem getElem?_statementRules {statements : List Statement} {rules : List Rule}
    (h : statementRules execroot 0 statements = .ok rules) {i : Nat} {s : Statement}
    (hs : statements[i]? = some s) :
    ∃ rule, rules[i]? = some rule ∧ s.rule i execroot = .ok rule := by
  have hnumbered : (statements.zipIdx 0)[i]? = some (s, i) := by
    simp [List.getElem?_zipIdx, hs]
  obtain ⟨rule, hplace, hrule⟩ := getElem?_of_mapM_eq_ok h hnumbered
  exact ⟨rule, hplace, hrule⟩

theorem exists_rule_of_statementRules {statements : List Statement} {rules : List Rule}
    (h : statementRules execroot 0 statements = .ok rules) {i : Nat} {s : Statement}
    (hs : statements[i]? = some s) : ∃ rule ∈ rules, s.rule i execroot = .ok rule := by
  obtain ⟨rule, hplace, hrule⟩ := getElem?_statementRules h hs
  exact ⟨rule, List.mem_of_getElem? hplace, hrule⟩

/-- Splicing adds the statements below the execution root of the source's output base. -/
theorem splice_eq (henabled : src.enabled) {base : Path} (hbase : src.facts.outputBase = some base) :
    g.splice src =
      ((g.addStatements (HybridBuild.execroot base) 0 src.statements).1.map
          fun _ => src.statements.length,
        (g.addStatements (HybridBuild.execroot base) 0 src.statements).2) := by
  simp only [splice, henabled, hbase, Bool.not_true, Bool.false_eq_true, if_false]

theorem splice_eq_ok_iff (henabled : src.enabled) {base : Path}
    (hbase : src.facts.outputBase = some base) {count : Nat} :
    g.splice src = (.ok count, g') ↔ src.statements.length = count ∧
      ∃ rules, statementRules (HybridBuild.execroot base) 0 src.statements = .ok rules ∧
        g.addRules rules = .ok g' := by
  rw [splice_eq henabled hbase, Prod.mk.injEq, except_map_eq_ok_iff, ← addStatements_eq_ok_iff]
  rcases g.addStatements (HybridBuild.execroot base) 0 src.statements with ⟨e | ⟨⟩, g₁⟩
  · simp
  · simp

/-- Splicing with success adds the rules of all statements, below the execution root of the
source's output base. -/
theorem of_splice_eq_ok (henabled : src.enabled) {count : Nat}
    (h : g.splice src = (.ok count, g')) :
    ∃ base rules, src.facts.outputBase = some base ∧
      statementRules (HybridBuild.execroot base) 0 src.statements = .ok rules ∧
      g.addRules rules = .ok g' := by
  cases hbase : src.facts.outputBase with
  | none => simp [splice, henabled, hbase] at h
  | some base =>
    obtain ⟨-, rules, hrules, hadd⟩ := (splice_eq_ok_iff henabled hbase).mp h
    exact ⟨base, rules, rfl, hrules, hadd⟩

theorem rules_of_splice_of_no_statements (henabled : src.enabled) (hnone : src.statements = [])
    {count : Nat} (h : g.splice src = (.ok count, g')) : g'.rules = g.rules := by
  obtain ⟨base, rules, -, hrules, hadd⟩ := of_splice_eq_ok henabled h
  rw [hnone] at hrules
  have hnil : [] = rules := Except.ok.inj hrules
  rw [rules_addRules hadd, ← hnil, List.append_nil]

theorem splice_of_disabled (h : src.enabled = false) : g.splice src = (.ok 0, g) := by
  simp [splice, h]

/-- Splicing with success adds the rules of all statements, or none for a disabled source. -/
theorem exists_rules_of_splice {count : Nat} (h : g.splice src = (.ok count, g')) :
    ∃ rules, g.addRules rules = .ok g' ∧ (src.enabled = false → rules = []) ∧
      (src.enabled → ∃ base, src.facts.outputBase = some base ∧
        statementRules (HybridBuild.execroot base) 0 src.statements = .ok rules) := by
  cases henabled : src.enabled with
  | false =>
    rw [splice_of_disabled henabled, Prod.mk.injEq] at h
    obtain ⟨-, rfl⟩ := h
    exact ⟨[], rfl, fun _ => rfl, nofun⟩
  | true =>
    obtain ⟨base, rules, hbase, hrules, hadd⟩ := of_splice_eq_ok henabled h
    exact ⟨rules, hadd, nofun, fun _ => ⟨base, hbase, hrules⟩⟩

end ActionGraph

end HybridBuild
