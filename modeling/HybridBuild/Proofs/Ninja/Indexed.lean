import HybridBuild.Ninja.Indexed
import HybridBuild.Proofs.Ninja.Registration

/-!
# The tables of an indexed graph

The tables of an indexed graph say what a search of its rules would find. A rule is
checked against them before any of them is changed, so a call that fails leaves the whole
graph as it was, and a call that succeeds registers the rule and extends every table by it.
Hence the tables are right after any calls, and the graph without its tables has been
built by the same calls.
-/
namespace HybridBuild.IndexedGraph

variable {α β : Type} {g g' : IndexedGraph} {rule : Rule}

section Call

variable {call : Call α} {next : α → Call β}

theorem on_bind_ok {a : α} (h : call.on g = (.ok a, g')) :
    (call >>= next).on g = (next a).on g' := by
  have hrun : call.run.run g = (.ok a, g') := h
  unfold Call.on
  rw [ExceptT.run_bind, StateT.run_bind, hrun]
  rfl

theorem on_bind_error {e : GraphError} (h : call.on g = (.error e, g')) :
    (call >>= next).on g = (.error e, g') := by
  have hrun : call.run.run g = (.error e, g') := h
  unfold Call.on
  rw [ExceptT.run_bind, StateT.run_bind, hrun]
  rfl

theorem on_get_bind {next : IndexedGraph → Call β} : (get >>= next).on g = (next g).on g := rfl

theorem on_modify (f : IndexedGraph → IndexedGraph) : (modify f : Call Unit).on g = (.ok (), f g) :=
  rfl

end Call

/-- The tables of a graph hold exactly what its rules say. -/
structure Consistent (g : IndexedGraph) : Prop where
  registered : ActionGraph.Registered g.rules.toList
  outputs : ∀ r : Rule, r ∈ g.rules → r.allOutputs ≠ [] ∧ r.allOutputs.Nodup
  producers : ∀ path place, g.producers[path]? = some place ↔
    ∃ r : Rule, g.rules[place]? = some r ∧ path ∈ r.allOutputs
  ids : ∀ id, id ∈ g.ids ↔ ∃ r : Rule, r ∈ g.rules ∧ r.id = id

theorem consistent_empty : empty.Consistent where
  registered := .nil
  outputs := by simp [empty]
  producers := by simp [empty]
  ids := by simp [empty]

theorem Consistent.producer?_eq_some_iff (h : g.Consistent) {path : String} :
    g.producer? path = some rule ↔ rule ∈ g.rules ∧ path ∈ rule.allOutputs := by
  rw [producer?, Option.bind_eq_some_iff]
  constructor
  · rintro ⟨place, hplace, hrule⟩
    obtain ⟨r, hr, hpath⟩ := (h.producers path place).mp hplace
    have heq : r = rule := Option.some.inj (hr.symm.trans hrule)
    exact ⟨Array.mem_of_getElem? hrule, heq ▸ hpath⟩
  · rintro ⟨hrule, hpath⟩
    obtain ⟨place, hplace⟩ := Array.getElem?_of_mem hrule
    exact ⟨place, (h.producers path place).mpr ⟨rule, hplace, hpath⟩, hplace⟩

/-- The table of producers finds the rule that a search finds. -/
theorem Consistent.producer?_eq (h : g.Consistent) (path : String) :
    g.producer? path = g.plain.producer? path := by
  cases hfound : g.plain.producer? path with
  | none =>
    have hnone : ∀ r : Rule, r ∈ g.rules → path ∉ r.allOutputs := by
      simpa [plain] using ActionGraph.producer?_eq_none_iff.mp hfound
    rw [Option.eq_none_iff_forall_not_mem]
    intro r hr
    obtain ⟨hmem, hpath⟩ := h.producer?_eq_some_iff.mp hr
    exact hnone r hmem hpath
  | some r =>
    have hmem : r ∈ g.rules.toList := List.mem_of_find?_eq_some hfound
    have hpath : path ∈ r.allOutputs := by simpa using List.find?_some hfound
    exact h.producer?_eq_some_iff.mpr ⟨by simpa using hmem, hpath⟩

/-- The check of a rule's outputs changes nothing and finds what a search finds. -/
theorem Consistent.on_checkOutputs (h : g.Consistent) (rule : Rule) {seen : Std.TreeSet String}
    {before : List String} (hseen : ∀ path, path ∈ seen ↔ path ∈ before) (outputs : List String) :
    (checkOutputs rule seen outputs).on g =
      (match g.plain.outputFault? rule before outputs with
        | some fault => .error fault
        | none => .ok (), g) := by
  induction outputs generalizing seen before with
  | nil => rfl
  | cons output rest ih =>
    unfold checkOutputs ActionGraph.outputFault?
    by_cases hmem : output ∈ before
    · have hcontains : seen.contains output = true := by simpa using (hseen output).mpr hmem
      simp only [hcontains, List.contains_eq_mem, hmem, decide_true, if_true]
      rfl
    · have hcontains : seen.contains output = false := by
        rw [← Bool.not_eq_true]
        exact mt (hseen output).mp hmem
      simp only [hcontains, List.contains_eq_mem, hmem, decide_false, Bool.false_eq_true, if_false]
      rw [on_get_bind, h.producer?_eq]
      cases g.plain.producer? output with
      | some first => rfl
      | none =>
        refine ih fun path => ?_
        rw [Std.TreeSet.mem_insert, hseen, List.mem_cons, Std.LawfulEqCmp.compare_eq_iff_eq, eq_comm]

/-- The table of producers after the outputs of a rule have been noted. -/
def notedProducers (producers : Std.HashMap String Nat) (place : Nat) (outputs : List String) :
    Std.HashMap String Nat :=
  outputs.foldl (fun table output => table.insert output place) producers

theorem getElem?_notedProducers (producers : Std.HashMap String Nat) (place : Nat)
    (outputs : List String) (path : String) : (notedProducers producers place outputs)[path]? =
      if path ∈ outputs then some place else producers[path]? := by
  induction outputs generalizing producers with
  | nil => simp [notedProducers]
  | cons output rest ih =>
    rw [notedProducers, List.foldl_cons, ← notedProducers, ih, Std.HashMap.getElem?_insert]
    by_cases hrest : path ∈ rest
    · simp [hrest]
    · by_cases heq : output = path
      · simp [heq]
      · simp [hrest, heq, Ne.symm heq]

theorem on_noteOutputs (place : Nat) (outputs : List String) :
    (noteOutputs place outputs).on g =
      (.ok (), { g with producers := notedProducers g.producers place outputs }) := by
  induction outputs generalizing g with
  | nil => rfl
  | cons output rest ih =>
    unfold noteOutputs
    rw [on_bind_ok (on_modify _), ih]
    rfl

/-- The graph with one more rule, which every table knows. -/
def push (g : IndexedGraph) (rule : Rule) : IndexedGraph where
  rules := g.rules.push rule
  producers := notedProducers g.producers g.rules.size rule.allOutputs
  ids := g.ids.insert rule.id
  manifestDeps := g.manifestDeps

/-- A call that registers a rule ends as it does without the tables. When it fails it
leaves the graph as it was. -/
theorem Consistent.on_addRule (h : g.Consistent) (rule : Rule) : (addRule rule).on g =
    match g.plain.addRule rule with
    | .error e => (.error e, g)
    | .ok _ => (.ok (), g.push rule) := by
  have hids : g.ids.contains rule.id = (g.plain.rules.any fun r => r.id = rule.id) := by
    rw [Bool.eq_iff_iff, Std.HashSet.contains_iff_mem, h.ids, List.any_eq_true]
    simp only [plain, Array.mem_toList_iff, decide_eq_true_eq]
  have hempty : ∀ path, path ∈ (∅ : Std.TreeSet String) ↔ path ∈ ([] : List String) := by simp
  have hcheck := h.on_checkOutputs rule hempty rule.allOutputs
  unfold addRule ActionGraph.addRule
  by_cases hnone : rule.allOutputs.isEmpty
  · simp only [hnone, if_true]
    rfl
  · simp only [hnone, Bool.false_eq_true, if_false]
    rw [on_get_bind, hids]
    by_cases hid : (g.plain.rules.any fun r => r.id = rule.id) = true
    · simp only [hid, if_true]
      rfl
    · simp only [hid, Bool.false_eq_true, if_false]
      cases hfault : g.plain.outputFault? rule [] rule.allOutputs with
      | some fault =>
        rw [hfault] at hcheck
        exact on_bind_error hcheck
      | none =>
        rw [hfault] at hcheck
        rw [on_bind_ok hcheck, on_get_bind, on_bind_ok (on_noteOutputs _ _)]
        rfl

theorem plain_push (g : IndexedGraph) (rule : Rule) :
    (g.push rule).plain = { g.plain with rules := g.plain.rules ++ [rule] } := by
  simp [push, plain]

/-- The tables stay right when a rule is registered. -/
theorem Consistent.push (h : g.Consistent) {p : ActionGraph} (hok : g.plain.addRule rule = .ok p) :
    (g.push rule).Consistent := by
  obtain ⟨⟨hne, hnd, -, hfree⟩, hp⟩ := ActionGraph.addRule_eq_ok_iff.mp hok
  have hregistered : ActionGraph.Registered g.plain.rules := h.registered
  have hown : ∀ path place, path ∈ rule.allOutputs → g.producers[path]? ≠ some place := by
    intro path place hpath hplace
    obtain ⟨r, hr, hmem⟩ := (h.producers path place).mp hplace
    exact hfree path hpath r (by simpa [plain] using Array.mem_of_getElem? hr) hmem
  constructor
  · have hadd := hregistered.addRule hok
    rw [hp, ← plain_push] at hadd
    exact hadd
  · intro r hr
    rcases Array.mem_push.mp hr with hr | rfl
    · exact h.outputs r hr
    · exact ⟨hne, hnd⟩
  · intro path place
    simp only [IndexedGraph.push, getElem?_notedProducers, Array.getElem?_push]
    by_cases hpath : path ∈ rule.allOutputs
    · by_cases hlast : place = g.rules.size
      · simp [hpath, hlast]
      · have hold := hown path place hpath
        rw [Ne, h.producers path place] at hold
        simp [hpath, hlast, Ne.symm hlast, hold]
    · by_cases hlast : place = g.rules.size
      · have hold := h.producers path place
        rw [hlast] at hold
        simp [hpath, hlast, hold]
      · simp [hpath, hlast, h.producers path place]
  · intro id
    simp only [IndexedGraph.push, Std.HashSet.mem_insert, h.ids, Array.mem_push, or_and_right,
      exists_or, exists_eq_left, beq_iff_eq]
    exact or_comm

/-- A call of the public interface that may change a graph. -/
inductive Change where
  | rule (rule : Rule)
  | manifestDeps (deps : List String)

/-- The call that makes a change. -/
def Change.call : Change → Call Unit
  | .rule r => addRule r
  | .manifestDeps deps => addManifestDeps deps

/-- The graph that a call leaves behind, whether it fails or not. -/
def Change.leave (g : IndexedGraph) (change : Change) : IndexedGraph := (change.call.on g).2

/-- A change of a graph without tables, where a rule that is refused changes nothing. -/
def Change.plain (p : ActionGraph) : Change → ActionGraph
  | .rule r => p.offer [r]
  | .manifestDeps deps => p.addManifestDeps deps

def after (changes : List Change) : IndexedGraph := changes.foldl Change.leave empty

/-- One call keeps the tables right, and does to the rules what it would do without them. -/
theorem Consistent.leave (h : g.Consistent) (change : Change) :
    (change.leave g).Consistent ∧ (change.leave g).plain = change.plain g.plain := by
  unfold Change.leave
  cases change with
  | manifestDeps deps =>
    have hon : (addManifestDeps deps).on g =
        (.ok (), { g with manifestDeps := g.manifestDeps.insertMany deps }) := rfl
    rw [Change.call, hon]
    exact ⟨⟨h.registered, h.outputs, h.producers, h.ids⟩, rfl⟩
  | rule r =>
    simp only [Change.call, Change.plain, ActionGraph.offer, List.foldl_cons, List.foldl_nil]
    rw [h.on_addRule]
    cases hadd : g.plain.addRule r with
    | error e => exact ⟨h, rfl⟩
    | ok p =>
      obtain ⟨-, rfl⟩ := ActionGraph.addRule_eq_ok_iff.mp hadd
      exact ⟨h.push hadd, plain_push g r⟩

theorem consistent_foldl (h : g.Consistent) (changes : List Change) :
    (changes.foldl Change.leave g).Consistent ∧
      (changes.foldl Change.leave g).plain = changes.foldl Change.plain g.plain := by
  induction changes generalizing g with
  | nil => exact ⟨h, rfl⟩
  | cons change rest ih =>
    obtain ⟨hstep, hplain⟩ := h.leave change
    rw [List.foldl_cons, List.foldl_cons, ← hplain]
    exact ih hstep

/-- Whatever calls have been made, failing ones included: every rule has outputs and lists
none of them twice, no two rules share an output or an identifier, and the tables hold
exactly the producers and the identifiers of the rules. A call that registers a rule ends as
it does without tables, and when it fails it leaves the graph as it was. -/
theorem consistent_after (changes : List Change) :
    let g := after changes
    (∀ r : Rule, r ∈ g.rules → r.allOutputs ≠ [] ∧ r.allOutputs.Nodup) ∧
    (∀ (i j : Nat) (hi : i < g.rules.size) (hj : j < g.rules.size), i ≠ j →
      g.rules[i].id ≠ g.rules[j].id ∧
        ∀ path ∈ g.rules[i].allOutputs, path ∉ g.rules[j].allOutputs) ∧
    (∀ id, id ∈ g.ids ↔ ∃ r : Rule, r ∈ g.rules ∧ r.id = id) ∧
    (∀ path place, g.producers[path]? = some place ↔
      ∃ r : Rule, g.rules[place]? = some r ∧ path ∈ r.allOutputs) ∧
    (∀ path r, g.producer? path = some r ↔ r ∈ g.rules ∧ path ∈ r.allOutputs) ∧
    (∀ rule, (∃ e, (addRule rule).on g = (.error e, g) ∧ g.plain.addRule rule = .error e) ∨
      (addRule rule).on g = (.ok (), g.push rule) ∧ g.plain.addRule rule = .ok (g.push rule).plain) ∧
    g.plain = changes.foldl Change.plain .empty := by
  intro g
  obtain ⟨h, hplain⟩ : g.Consistent ∧ g.plain = changes.foldl Change.plain .empty :=
    consistent_foldl consistent_empty changes
  refine ⟨h.outputs, fun i j hi hj hne => ?_, h.ids, h.producers,
    fun path r => h.producer?_eq_some_iff, fun rule => ?_, hplain⟩
  · simpa only [Array.getElem_toList] using h.registered.disjoint_of_ne hi hj hne
  · rw [h.on_addRule]
    cases hadd : g.plain.addRule rule with
    | error e => exact .inl ⟨e, rfl, rfl⟩
    | ok p =>
      obtain ⟨-, rfl⟩ := ActionGraph.addRule_eq_ok_iff.mp hadd
      exact .inr ⟨rfl, congrArg Except.ok (plain_push g rule).symm⟩

end HybridBuild.IndexedGraph
