import HybridBuild.Proofs.Ninja.Order
import Mathlib.Data.List.Permutation

/-!
# Which rules run

A rule that runs passes its change on when it is no restat rule, or when one of its
outputs comes out different. The rules that run after some files changed are those that
read one of these files, and those that are fed by a rule that runs and passes its change
on. One walk through the rules finds them, in whatever order that puts every rule after
the rules that feed it: when the turn of a rule comes, the changed files among its inputs
are already known.
-/
namespace HybridBuild.ActionGraph

variable {g g' : ActionGraph} {touched : List String} {differs : String → Bool} {p r : Rule}

/-- The outputs of a rule count as changed once it has run. -/
def PassesOn (differs : String → Bool) (r : Rule) : Prop :=
  r.restat = false ∨ ∃ path ∈ r.allOutputs, differs path = true

/-- A rule makes another one run when it runs itself. -/
def Triggers (g : ActionGraph) (differs : String → Bool) (p r : Rule) : Prop :=
  g.Feeds p r ∧ PassesOn differs p

/-- A rule stands at the end of a chain of rules, of which the first reads a touched file
and each makes the next one run. -/
def Runs (g : ActionGraph) (touched : List String) (differs : String → Bool) (r : Rule) : Prop :=
  ∃ first ∈ g.rules, (∃ path ∈ first.allInputs, path ∈ touched) ∧
    Relation.ReflTransGen (g.Triggers differs) first r

/-- A rule runs when it reads a touched file, or when a rule that runs triggers it. -/
theorem runs_iff : g.Runs touched differs r ↔
    (r ∈ g.rules ∧ ∃ path ∈ r.allInputs, path ∈ touched) ∨
      ∃ p, g.Runs touched differs p ∧ g.Triggers differs p r := by
  constructor
  · intro ⟨first, hfirst, htouched, hchain⟩
    rcases Relation.ReflTransGen.cases_tail hchain with heq | ⟨p, hp, htriggers⟩
    · exact .inl ⟨heq ▸ hfirst, heq ▸ htouched⟩
    · exact .inr ⟨p, ⟨first, hfirst, htouched, hp⟩, htriggers⟩
  · intro h
    rcases h with ⟨hr, htouched⟩ | ⟨p, ⟨first, hfirst, htouched, hchain⟩, htriggers⟩
    · exact ⟨r, hr, htouched, .refl⟩
    · exact ⟨first, hfirst, htouched, hchain.tail htriggers⟩

theorem Runs.mem (h : g.Runs touched differs r) : r ∈ g.rules := by
  rcases runs_iff.mp h with ⟨hr, -⟩ | ⟨p, -, hfeeds, -⟩
  · exact hr
  · exact hfeeds.2.1

/-- The chains of several touched files are those of each of them. -/
theorem runs_iff_exists_single :
    g.Runs touched differs r ↔ ∃ file ∈ touched, g.Runs [file] differs r := by
  constructor
  · intro ⟨first, hfirst, ⟨path, hpath, htouched⟩, hchain⟩
    exact ⟨path, htouched, first, hfirst, ⟨path, hpath, by simp⟩, hchain⟩
  · intro ⟨file, hfile, first, hfirst, ⟨path, hpath, htouched⟩, hchain⟩
    have heq : path = file := by simpa using htouched
    exact ⟨first, hfirst, ⟨path, hpath, heq ▸ hfile⟩, hchain⟩

section Perm

variable (h : g'.rules.Perm g.rules)
include h

theorem feeds_of_perm : g'.Feeds = g.Feeds := by
  funext p r
  simp only [Feeds, h.mem_iff]

theorem runs_of_perm : g'.Runs touched differs r ↔ g.Runs touched differs r := by
  have htriggers : g'.Triggers differs = g.Triggers differs := by
    funext p r
    simp only [Triggers, feeds_of_perm h]
  simp only [Runs, htriggers, h.mem_iff]

/-- Whether rules can be ordered does not depend on the order of their registration. -/
theorem exists_ordered_of_perm (hreg : Registered g.rules) (hreg' : Registered g'.rules)
    {order : List Rule} (hok : g.ordered = .ok order) : ∃ order', g'.ordered = .ok order' := by
  have hex : ∃ order, g.ordered = .ok order := ⟨order, hok⟩
  rw [exists_ordered_iff, Digraph.exists_topoSort_iff, acyclic_digraph_iff hreg] at hex
  rw [exists_ordered_iff, Digraph.exists_topoSort_iff, acyclic_digraph_iff hreg', feeds_of_perm h]
  exact hex

end Perm

/-- A list of all rules, each after the rules that feed it. -/
structure IsOrder (g : ActionGraph) (order : List Rule) : Prop where
  perm : order.Perm g.rules
  forward : ∀ (i j : Nat) (hi : i < order.length) (hj : j < order.length),
    g.Feeds order[i] order[j] → i < j

theorem isOrder_of_ordered {order : List Rule} (h : Registered g.rules)
    (hok : g.ordered = .ok order) : g.IsOrder order :=
  ⟨ordered_perm hok, fun _ _ hi hj hfeeds => lt_of_feeds h hok hi hj hfeeds⟩

theorem IsOrder.mem_before {before after : List Rule}
    (h : g.IsOrder (before ++ r :: after)) (hfeeds : g.Feeds p r) : p ∈ before := by
  have hmem : p ∈ before ++ r :: after := h.perm.mem_iff.mpr hfeeds.1
  obtain ⟨i, hi, hp⟩ := List.getElem_of_mem hmem
  have hr : before.length < (before ++ r :: after).length := by simp
  have hlt : i < before.length := by
    refine h.forward i before.length hi hr ?_
    simpa [hp] using hfeeds
  have hi' : before[i] = p := by simpa [List.getElem_append_left hlt] using hp
  exact hi' ▸ List.getElem_mem hlt

namespace Dirt

variable {before : List Rule} {d : Dirt}

/-- What is known after the turns of the rules `before`: which files have changed, and
which of these rules run. -/
structure Tells (g : ActionGraph) (touched : List String) (differs : String → Bool)
    (before : List Rule) (d : Dirt) : Prop where
  changed : ∀ path, path ∈ d.changed ↔ path ∈ touched ∨
    ∃ p ∈ before, g.Runs touched differs p ∧ PassesOn differs p ∧ path ∈ p.allOutputs
  dirty : ∀ name, name ∈ d.dirty ↔ ∃ r ∈ before, g.Runs touched differs r ∧ r.name = name

theorem tells_start (g : ActionGraph) (touched : List String) (differs : String → Bool) :
    Tells g touched differs [] ⟨Std.TreeSet.ofList touched, ∅⟩ := by
  constructor <;> simp

/-- When the turn of a rule comes after those of the rules that feed it, it runs exactly
when an input of it has changed. -/
theorem Tells.runs_iff (h : Tells g touched differs before d) (hr : r ∈ g.rules)
    (hbefore : ∀ p, g.Feeds p r → p ∈ before) :
    g.Runs touched differs r ↔ r.allInputs.any d.changed.contains = true := by
  have hany : r.allInputs.any d.changed.contains = true ↔
      ∃ path ∈ r.allInputs, path ∈ d.changed := by simp
  rw [hany, ActionGraph.runs_iff]
  constructor
  · intro hruns
    rcases hruns with ⟨-, path, hpath, htouched⟩ | ⟨p, hp, hfeeds, hpasses⟩
    · exact ⟨path, hpath, (h.changed path).mpr (.inl htouched)⟩
    · have hmem : p ∈ before := hbefore p hfeeds
      obtain ⟨-, -, path, hout, hin⟩ := hfeeds
      exact ⟨path, hin, (h.changed path).mpr (.inr ⟨p, hmem, hp, hpasses, hout⟩)⟩
  · intro ⟨path, hpath, hchanged⟩
    rcases (h.changed path).mp hchanged with htouched | ⟨p, -, hp, hpasses, hout⟩
    · exact .inl ⟨hr, path, hpath, htouched⟩
    · exact .inr ⟨p, hp, ⟨hp.mem, hr, path, hout, hpath⟩, hpasses⟩

/-- The turn of the next rule. -/
theorem Tells.step (h : Tells g touched differs before d) (hr : r ∈ g.rules)
    (hbefore : ∀ p, g.Feeds p r → p ∈ before) :
    Tells g touched differs (before ++ [r]) (d.step differs r) := by
  have hruns := h.runs_iff hr hbefore
  have hpasses : (!r.restat || r.allOutputs.any differs) = true ↔ PassesOn differs r := by
    simp [PassesOn]
  unfold Dirt.step
  by_cases hany : r.allInputs.any d.changed.contains = true
  · have hr' : g.Runs touched differs r := hruns.mpr hany
    rw [if_pos hany]
    constructor
    · intro path
      by_cases hp : PassesOn differs r
      · simp [hpasses.mpr hp, Std.TreeSet.mem_insertMany_list, h.changed, hr', hp, or_and_right,
          exists_or, or_assoc]
      · have hp' := mt hpasses.mp hp
        simp [hp', h.changed, hp, or_and_right, exists_or]
    · intro name
      simp [h.dirty, hr', or_and_right, exists_or, or_comm]
  · have hr' : ¬ g.Runs touched differs r := mt hruns.mp hany
    rw [if_neg hany]
    constructor
    · intro path
      simp [h.changed, hr', or_and_right, exists_or]
    · intro name
      simp [h.dirty, hr', or_and_right, exists_or]

/-- The walk through an order of the rules: by induction on the rules whose turn is still
to come. -/
theorem Tells.foldl (h : Tells g touched differs before d) {after : List Rule}
    (horder : g.IsOrder (before ++ after)) :
    Tells g touched differs (before ++ after) (after.foldl (Dirt.step differs) d) := by
  induction after generalizing before d with
  | nil => simpa using h
  | cons r after ih =>
    have hr : r ∈ g.rules := horder.perm.mem_iff.mp (by simp)
    have hstep := h.step hr fun p hfeeds => horder.mem_before hfeeds
    rw [List.append_cons] at horder ⊢
    exact ih hstep horder

end Dirt

/-- The walk through any order finds the rules that run. -/
theorem mem_dirty_foldl_iff {order : List Rule} (horder : g.IsOrder order) (name : String) :
    name ∈ (order.foldl (Dirt.step differs) ⟨Std.TreeSet.ofList touched, ∅⟩).dirty ↔
      ∃ r, g.Runs touched differs r ∧ r.name = name := by
  have htells := (Dirt.tells_start g touched differs).foldl horder
  rw [htells.dirty name]
  constructor
  · rintro ⟨r, -, hruns, hname⟩
    exact ⟨r, hruns, hname⟩
  · intro ⟨r, hruns, hname⟩
    exact ⟨r, horder.perm.mem_iff.mpr hruns.mem, hruns, hname⟩

theorem dirtyRules_eq_ok {order : List Rule} (hok : g.ordered = .ok order) :
    g.dirtyRules touched differs =
      .ok (order.foldl (Dirt.step differs) ⟨Std.TreeSet.ofList touched, ∅⟩).dirty := by
  simp [dirtyRules, hok]

/-- However a graph was built, once its rules can be ordered, the rules that run after some
files changed are those at the ends of the chains from a rule that reads one of the files.
So the rules could as well be registered in any other order, be walked through in any other
order that puts producers first, or be found for each of the files alone. -/
theorem dirtyRules_eq_reachable {offered order : List Rule}
    (hok : (empty.offer offered).ordered = .ok order) (touched : List String)
    (differs : String → Bool) :
    let g := empty.offer offered
    ∃ dirty, g.dirtyRules touched differs = .ok dirty ∧
      (∀ name, name ∈ dirty ↔ ∃ r, g.Runs touched differs r ∧ r.name = name) ∧
      (∀ rules, rules.Perm g.rules → (empty.offer rules).rules = rules ∧
        ∃ dirty', (empty.offer rules).dirtyRules touched differs = .ok dirty' ∧
          ∀ name, name ∈ dirty' ↔ name ∈ dirty) ∧
      (∀ order', g.IsOrder order' → ∀ name,
        name ∈ (order'.foldl (Dirt.step differs) ⟨Std.TreeSet.ofList touched, ∅⟩).dirty ↔
          name ∈ dirty) ∧
      ∀ name, name ∈ dirty ↔ ∃ file ∈ touched, ∃ dirty',
        g.dirtyRules [file] differs = .ok dirty' ∧ name ∈ dirty' := by
  intro g
  have hreg : Registered g.rules := registered_offer .nil offered
  have horder : g.IsOrder order := isOrder_of_ordered hreg hok
  have hdirty (name : String) :
      name ∈ (order.foldl (Dirt.step differs) ⟨Std.TreeSet.ofList touched, ∅⟩).dirty ↔
        ∃ r, g.Runs touched differs r ∧ r.name = name := mem_dirty_foldl_iff horder name
  refine ⟨_, dirtyRules_eq_ok hok, hdirty, fun rules hperm => ?_, fun order' horder' name => ?_,
    fun name => ?_⟩
  · have hrules : (empty.offer rules).rules = rules := rules_offer_of_perm hperm
    have hperm' : (empty.offer rules).rules.Perm g.rules := hrules.symm ▸ hperm
    have hreg' : Registered (empty.offer rules).rules := registered_offer .nil rules
    obtain ⟨order', hok'⟩ := exists_ordered_of_perm hperm' hreg hreg' hok
    refine ⟨hrules, _, dirtyRules_eq_ok hok', fun name => ?_⟩
    rw [hdirty, mem_dirty_foldl_iff (isOrder_of_ordered hreg' hok')]
    simp only [runs_of_perm hperm']
  · rw [hdirty, mem_dirty_foldl_iff horder']
  · rw [hdirty]
    constructor
    · intro ⟨r, hruns, hname⟩
      obtain ⟨file, hfile, hruns'⟩ := runs_iff_exists_single.mp hruns
      refine ⟨file, hfile, _, dirtyRules_eq_ok hok, ?_⟩
      exact (mem_dirty_foldl_iff horder name).mpr ⟨r, hruns', hname⟩
    · intro ⟨file, hfile, dirty', hdirty', hmem⟩
      have heq := Except.ok.inj (hdirty'.symm.trans (dirtyRules_eq_ok hok))
      rw [heq, mem_dirty_foldl_iff horder] at hmem
      obtain ⟨r, hruns, hname⟩ := hmem
      exact ⟨r, runs_iff_exists_single.mpr ⟨file, hfile, hruns⟩, hname⟩

/-- A compiler that reads a header, and the generator of the header, which leaves it alone
when nothing in it changes. -/
def headerRules : List Rule :=
  [{ name := "use", inputs := ["gen.h"], outputs := ["use.o"] },
    { name := "gen", implicitInputs := ["gen.in"], implicitOutputs := ["gen.h"], restat := true }]

theorem offer_headerRules : empty.offer headerRules = ⟨headerRules, ∅⟩ := rfl

/-- When the header comes out different, the compiler runs. -/
theorem dirtyRules_eq_reachable_headerRules :
    ∃ dirty, (empty.offer headerRules).dirtyRules ["gen.in"] (· = "gen.h") = .ok dirty ∧
      "use" ∈ dirty := by
  have hok : (empty.offer headerRules).ordered = .ok headerRules.reverse := by
    rw [offer_headerRules]
    cbv
  have hruns : (empty.offer headerRules).Runs ["gen.in"] (· = "gen.h") headerRules[0] := by
    rw [offer_headerRules]
    refine ⟨headerRules[1], ?_, ⟨"gen.in", ?_, ?_⟩, .single ⟨⟨?_, ?_, "gen.h", ?_, ?_⟩, .inr ?_⟩⟩
    all_goals simp [headerRules, Rule.allInputs, Rule.allOutputs]
  obtain ⟨dirty, hdirty, hmem, -⟩ := dirtyRules_eq_reachable hok ["gen.in"] (· = "gen.h")
  exact ⟨dirty, hdirty, (hmem "use").mpr ⟨_, hruns, rfl⟩⟩

end HybridBuild.ActionGraph
