import HybridBuild.Proofs.Build.Command
import HybridBuild.Proofs.Build.Identifiers
import HybridBuild.Proofs.Build.Wiring
import HybridBuild.Proofs.Text.Blank
import HybridBuild.Proofs.Variant.Supply

/-!
# Which statements can be spliced

The statements of a document always have commands, and the identifiers of their rules are new
wherever only rules of a plan are registered. So splicing can only stumble over outputs: a
statement that has none, or a file that is written twice, by statements or by rules of the plan.
-/
namespace HybridBuild

section Command

variable {s : Statement} {execroot : Path} {index : Nat}

theorem isEmpty_trimText_shellWords {words : List String} (h : words ≠ []) :
    (trimText (shellWords words)).isEmpty = false := by
  obtain ⟨word, rest, rfl⟩ := List.exists_cons_of_ne_nil h
  obtain ⟨c, hc, hblank⟩ := Text.exists_not_isBlank_word word.toList
  have hspace : c ≠ ' ' := by
    rintro rfl
    exact absurd hblank (by decide)
  have hmem : c ∈ (shellWords (word :: rest)).toList := by
    have hsep : " ".toList = [' '] := rfl
    rw [shellWords, String.toList_intercalate, hsep,
      Text.mem_intercalate_iff (by simpa using hspace)]
    exact ⟨_, List.mem_cons_self, by rwa [shellWord, String.toList_ofList]⟩
  have hkept : Text.trim (shellWords (word :: rest)).toList ≠ [] := fun hnil =>
    Bool.false_ne_true (hblank.symm.trans (Text.trim_eq_nil_iff.mp hnil c hmem))
  rw [trimText]
  simpa using hkept

/-- A statement has a rule unless its command is blank. -/
theorem Statement.exists_rule_iff :
    (∃ rule, s.rule index execroot = .ok rule) ↔ (trimText s.command).isEmpty = false := by
  unfold Statement.rule
  cases (trimText s.command).isEmpty <;> simp

theorem ActionTables.States.exists_rule {t : ActionTables} {action : Action}
    (h : t.States action s) (index : Nat) (execroot : Path) :
    ∃ rule, s.rule index execroot = .ok rule := by
  obtain ⟨argument, hargument, -⟩ := h.arguments
  rw [Statement.exists_rule_iff, h.command]
  exact isEmpty_trimText_shellWords (List.ne_nil_of_mem hargument)

end Command

namespace ActionGraph

variable {g : ActionGraph} {execroot : Path} {statements : List Statement} {rules : List Rule}

/-- The outputs of statements below an execution root. -/
def anchoredOutputs (execroot : Path) (statements : List Statement) : List String :=
  statements.flatMap fun s => s.outputs.map fun path => (execroot.join path).text

theorem exists_number_of_mem (h : statementRules execroot 0 statements = .ok rules) {r : Rule}
    (hr : r ∈ rules) : ∃ i < statements.length, r.id = Rule.idOf s!"bazel {i}" := by
  have hname : r.name ∈ rules.map Rule.name := List.mem_map_of_mem hr
  rw [names_statementRules h, List.mem_map] at hname
  obtain ⟨i, hi, heq⟩ := hname
  exact ⟨i, by simpa using hi, by rw [Rule.id, heq]⟩

theorem pairwise_id_statementRules (h : statementRules execroot 0 statements = .ok rules) :
    rules.Pairwise fun r s => r.id ≠ s.id := by
  have hids : rules.map Rule.id =
      (List.range' 0 statements.length).map fun i => Rule.idOf s!"bazel {i}" := by
    have hname : Rule.id = Rule.idOf ∘ Rule.name := rfl
    rw [hname, ← List.map_map, names_statementRules h, List.map_map]
    rfl
  have hnodup : (rules.map Rule.id).Nodup := by
    rw [hids]
    exact List.Nodup.map (fun _ _ => Rule.idOf_number_injective) (List.nodup_range' 1)
  exact List.pairwise_map.mp hnodup

/-- Where no identifier is that of a numbered rule, the rules of statements are accepted when
every statement has outputs and no file is written twice. -/
theorem exists_addRules_statementRules_iff
    (hrules : statementRules execroot 0 statements = .ok rules)
    (hids : ∀ q ∈ g.rules, ∀ i : Nat, q.id ≠ Rule.idOf s!"bazel {i}") :
    (∃ g', g.addRules rules = .ok g') ↔
      (∀ s ∈ statements, s.outputs ≠ []) ∧ (anchoredOutputs execroot statements).Nodup ∧
        ∀ path ∈ anchoredOutputs execroot statements, ∀ q ∈ g.rules, path ∉ q.allOutputs := by
  have hlists := outputs_statementRules hrules
  have hflat : rules.flatMap Rule.allOutputs = anchoredOutputs execroot statements := by
    rw [List.flatMap_def, hlists, ← List.flatMap_def, anchoredOutputs]
  have hsome : (∀ r ∈ rules, r.allOutputs ≠ []) ↔ ∀ s ∈ statements, s.outputs ≠ [] := by
    have hmap : (∀ paths ∈ rules.map Rule.allOutputs, paths ≠ []) ↔
        ∀ s ∈ statements, s.outputs ≠ [] := by
      rw [hlists]
      simp
    rw [← hmap, List.forall_mem_map]
  have hnew : ∀ r ∈ rules, ∀ q ∈ g.rules, q.id ≠ r.id := by
    intro r hr q hq
    obtain ⟨i, -, heq⟩ := exists_number_of_mem hrules hr
    exact heq ▸ hids q hq i
  rw [exists_addRules_iff, hflat, hsome]
  exact ⟨fun ⟨houtputs, hnodup, _, _, hfree⟩ => ⟨houtputs, hnodup, hfree⟩,
    fun ⟨houtputs, hnodup, hfree⟩ =>
      ⟨houtputs, hnodup, pairwise_id_statementRules hrules, hnew, hfree⟩⟩

/-- Where no identifier is that of a numbered rule, statements with commands are refused only for
their outputs: an identifier that is taken would be that of a rule that was there before, or of
an earlier statement. -/
theorem of_splice_eq_error {src : FactSource} {base : Path} (henabled : src.enabled)
    (hbase : src.facts.outputBase = some base)
    (hcommands : ∀ s ∈ src.statements, ∀ i, ∃ rule, s.rule i (HybridBuild.execroot base) = .ok rule)
    (hids : ∀ q ∈ g.rules, ∀ i : Nat, q.id ≠ Rule.idOf s!"bazel {i}") {e : SpliceError}
    (h : (g.splice src).1 = .error e) :
    ∃ fault, e = .graph fault ∧ ∀ name, fault ≠ .duplicateRule name := by
  rw [splice_eq henabled hbase, except_map_eq_error_iff] at h
  obtain ⟨before, s, after, hsplit, hbefore, hfault⟩ := of_addStatements_eq_error (Prod.ext h rfl)
  have hs : s ∈ src.statements := hsplit ▸ List.mem_append_right _ List.mem_cons_self
  rcases hfault with hnone | ⟨rule, fault, hrule, hadd, rfl⟩
  · obtain ⟨rule, hrule⟩ := hcommands s hs (0 + before.length)
    rw [hrule] at hnone
    cases hnone
  · refine ⟨fault, rfl, fun name hname => ?_⟩
    rw [hname] at hadd
    obtain ⟨q, hq, hid⟩ := exists_id_of_duplicateRule hadd
    replace hid : q.id = Rule.idOf s!"bazel {0 + before.length}" := by
      rw [hid, Rule.id, (Statement.of_rule_eq_ok hrule).1]
    obtain ⟨rules, hrules, hrest⟩ := addStatements_eq_ok_iff.mp hbefore
    rw [rules_addRules hrest] at hq
    rcases List.mem_append.mp hq with hq | hq
    · exact hids q hq _ hid
    · obtain ⟨i, hi, heq⟩ := exists_number_of_mem hrules hq
      have hnumber : i = 0 + before.length := Rule.idOf_number_injective (heq.symm.trans hid)
      omega

end ActionGraph

open ModuleDecl in
/-- The rules of a plan are named after variants. -/
theorem Pass.exists_ruleName_of_mem_rules {facts : Facts} {outDir : Path} {g : ModuleGraph}
    {p : Plan} (hp : (ofGraph facts outDir g).result = .ok p) {rule : Rule} (h : rule ∈ p.rules) :
    ∃ v : Variant, rule.name = v.ruleName := by
  obtain ⟨m, -, arch, -, c, hc, hrule⟩ := (result_ofGraph_eq_ok_iff.mp hp).mem_rules_iff.mp h
  exact ⟨m.variant arch, name_of_mem_rules hc hrule⟩

namespace ActionGraph

/-- Whatever a document reports, splicing its statements into rules of a plan never fails for an
empty command or for an identifier. It succeeds exactly when every statement has an output, and
no output is written twice below the execution root, by the statements or by what is registered;
then the rules of the statements are added, numbered in their order. A statement has an output
when its action has one that is no depfile. -/
theorem splice_of_document {bytes : List UInt8} {src : FactSource} {base : Path} {facts : Facts}
    {outDir : Path} {modules : ModuleGraph} {p : Plan} {g : ActionGraph}
    (hdocument : Statement.listOfDocument bytes = .ok src.statements) (henabled : src.enabled)
    (hbase : src.facts.outputBase = some base)
    (hplan : (Pass.ofGraph facts outDir modules).result = .ok p) (hplanned : g.rules ⊆ p.rules) :
    (∀ i mnemonic, (g.splice src).1 ≠ .error (.emptyCommand i mnemonic)) ∧
    (∀ name, (g.splice src).1 ≠ .error (.graph (.duplicateRule name))) ∧
    (∀ count g', g.splice src = (.ok count, g') → count = src.statements.length ∧
      ∃ rules, g'.rules = g.rules ++ rules ∧
        rules.map Rule.name = (List.range src.statements.length).map fun i => s!"bazel {i}") ∧
    ((∃ count g', g.splice src = (.ok count, g')) ↔
      (∀ s ∈ src.statements, s.outputs ≠ []) ∧
        (anchoredOutputs (execroot base) src.statements).Nodup ∧
        ∀ path ∈ anchoredOutputs (execroot base) src.statements,
          ∀ q ∈ g.rules, path ∉ q.allOutputs) ∧
    ∀ (i : Nat) (s : Statement), src.statements[i]? = some s → ∃ tables action,
      (Json.parse? bytes >>= ActionTables.ofJson?) = some tables ∧
      tables.actions[i]? = some action ∧
      (s.outputs ≠ [] ↔ ∃ artifact ∈ action.outputs, ∃ path,
        tables.HasPath artifact path ∧ isDepfile path = false) := by
  have hcommands : ∀ s ∈ src.statements, ∀ i, ∃ rule, s.rule i (execroot base) = .ok rule := by
    intro s hs i
    obtain ⟨place, hplace⟩ := List.mem_iff_getElem?.mp hs
    obtain ⟨tables, action, -, -, hstates⟩ := exists_states_of_listOfDocument hdocument hplace
    exact hstates.exists_rule i (execroot base)
  have hids : ∀ q ∈ g.rules, ∀ i : Nat, q.id ≠ Rule.idOf s!"bazel {i}" := by
    intro q hq i
    obtain ⟨v, hname⟩ := Pass.exists_ruleName_of_mem_rules hplan (hplanned hq)
    rw [Rule.id, hname]
    exact Rule.idOf_ruleName_ne v i
  obtain ⟨rules, hrules⟩ :
      ∃ rules, statementRules (execroot base) 0 src.statements = .ok rules := by
    refine exists_mapM_ok_iff.mpr fun s hs => hcommands s.1 ?_ s.2
    exact List.fst_mem_of_mem_zipIdx hs
  refine ⟨fun i mnemonic herror => ?_, fun name herror => ?_, fun count g' hok => ?_, ?_,
    fun i s hs => ?_⟩
  · obtain ⟨fault, heq, -⟩ := of_splice_eq_error henabled hbase hcommands hids herror
    cases heq
  · obtain ⟨fault, heq, hfault⟩ := of_splice_eq_error henabled hbase hcommands hids herror
    exact hfault name (SpliceError.graph.inj heq).symm
  · obtain ⟨hcount, rules, hrules, hadd⟩ := (splice_eq_ok_iff henabled hbase).mp hok
    refine ⟨hcount.symm, rules, rules_addRules hadd, ?_⟩
    rw [names_statementRules hrules, List.range_eq_range']
  · rw [← exists_addRules_statementRules_iff hrules hids]
    simp only [splice_eq_ok_iff henabled hbase, hrules, Except.ok.injEq, exists_eq_left']
    simp
  · obtain ⟨tables, action, htables, haction, hstates⟩ :=
      exists_states_of_listOfDocument hdocument hs
    refine ⟨tables, action, htables, haction, ?_⟩
    rw [Ne, List.eq_nil_iff_forall_not_mem]
    simp only [hstates.mem_outputs_iff, not_forall, not_not]
    exact ⟨fun ⟨path, artifact, hmem, hpath⟩ => ⟨artifact, hmem, path, hpath⟩,
      fun ⟨artifact, hmem, path, hpath⟩ => ⟨path, artifact, hmem, hpath⟩⟩

/-- Two scripts join the rules of a plan. -/
theorem splice_of_document_scripts :
    ∃ g', splice ⟨Build.plannedRules, ∅⟩ scriptSource = (.ok 2, g') ∧
      ∃ rules, g'.rules = Build.plannedRules ++ rules ∧
        rules.map Rule.name = ["bazel 0", "bazel 1"] := by
  obtain ⟨p, hp, hrules⟩ := except_map_eq_ok_iff.mp Build.rules_ofGraph_grouped
  have hbase : scriptSource.facts.outputBase = some ⟨"/ob"⟩ := rfl
  have hplanned : (⟨Build.plannedRules, ∅⟩ : ActionGraph).rules ⊆ p.rules :=
    hrules ▸ List.Subset.refl _
  obtain ⟨-, -, hadded, hiff, -⟩ :=
    splice_of_document listOfDocument_scriptReport rfl hbase hp hplanned
  obtain ⟨count, g', hsplice⟩ := hiff.mpr ⟨by decide, by decide +kernel, by decide +kernel⟩
  obtain ⟨rfl, rules, hg', hnames⟩ := hadded count g' hsplice
  exact ⟨g', hsplice, rules, hg', hnames⟩

end ActionGraph

end HybridBuild
