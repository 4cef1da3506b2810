import HybridBuild.Proofs.Distinct
import HybridBuild.Proofs.Module.Accepted

/-!
# Which fault of a module list is reported

A list of modules is refused for the first name that occurs before it; if all names differ, for the
first dependency that names no module; and if there is none, for a cycle. So the fault that is
reported says what is wrong, and that nothing before it is.
-/
namespace HybridBuild

/-- Behind texts without a repetition the text that is found is one that occurs before, by induction
on the texts. -/
theorem firstRepeated?_eq_some_iff {seen xs : List String} {x : String} :
    firstRepeated? seen xs = some x ↔ ∃ before after, xs = before ++ x :: after ∧
      firstRepeated? seen before = none ∧ (x ∈ seen ∨ x ∈ before) := by
  induction xs generalizing seen with
  | nil => simp [firstRepeated?]
  | cons y rest ih =>
    rw [exists_split_cons_iff]
    by_cases hy : y ∈ seen
    · have hfirst : y = x ↔ y = x ∧ x ∈ seen := (and_iff_left_of_imp fun heq => heq ▸ hy).symm
      simpa [firstRepeated?, hy] using hfirst
    · have hcons : ∀ before, firstRepeated? seen (y :: before) = firstRepeated? (y :: seen) before :=
        fun before => by rw [firstRepeated?, if_neg hy]
      have hnot : ¬ (y = x ∧ firstRepeated? seen [] = none ∧ (x ∈ seen ∨ x ∈ [])) := by
        rintro ⟨rfl, -, hmem⟩
        exact hy (hmem.resolve_right List.not_mem_nil)
      have hmem : ∀ before, x ∈ y :: seen ∨ x ∈ before ↔ x ∈ seen ∨ x ∈ y :: before := by
        intro before
        rw [List.mem_cons, List.mem_cons, or_assoc, or_left_comm]
      rw [hcons, ih, or_iff_right hnot]
      simp only [hcons, hmem]

theorem firstRepeated?_nil_eq_none_iff {xs : List String} :
    firstRepeated? [] xs = none ↔ xs.Nodup := by
  simp [firstRepeated?_eq_none_iff]

namespace ModuleDecl

variable {modules : List ModuleDecl} {name dep : String}

def Defines (modules : List ModuleDecl) (name : String) : Prop := ∃ d ∈ modules, d.name = name

/-- A dependency of a module is the first one that names no module: those of the modules before,
and those that the module lists before it, all do. -/
def FirstUndefined (modules : List ModuleDecl) (m : ModuleDecl) (dep : String) : Prop :=
  ∃ before after front back, modules = before ++ m :: after ∧ m.deps = front ++ dep :: back ∧
    (∀ b ∈ before, ∀ d ∈ b.deps, Defines modules d) ∧ (∀ d ∈ front, Defines modules d) ∧
    ¬ Defines modules dep

theorem firstRepeated?_names_eq_some_iff :
    firstRepeated? [] (modules.map ModuleDecl.name) = some name ↔
      ∃ first again, FirstRepeat ModuleDecl.name modules first again ∧ again.name = name := by
  simp only [firstRepeated?_eq_some_iff, firstRepeated?_nil_eq_none_iff]
  constructor
  · rintro ⟨names, after, hsplit, hnd, hmem⟩
    obtain ⟨before, rest, rfl, rfl, hrest⟩ := List.map_eq_append_iff.mp hsplit
    obtain ⟨again, after, rfl, rfl, rfl⟩ := List.map_eq_cons_iff.mp hrest
    obtain ⟨first, hfirst, heq⟩ := List.mem_map.mp (hmem.resolve_left List.not_mem_nil)
    exact ⟨first, again, ⟨before, after, rfl, hnd, hfirst, heq⟩, rfl⟩
  · rintro ⟨first, again, ⟨before, after, rfl, hnd, hfirst, heq⟩, rfl⟩
    exact ⟨before.map ModuleDecl.name, after.map ModuleDecl.name, by simp, hnd,
      .inr (heq ▸ List.mem_map_of_mem hfirst)⟩

/-- No module has the name of a dependency when the search for one fails. -/
theorem not_any_name_iff :
    (!modules.any fun d => decide (d.name = dep)) ↔ ¬ Defines modules dep := by
  simp [Defines]

theorem firstUndefined?_eq_some_iff : firstUndefined? modules = some (name, dep) ↔
    ∃ m, FirstUndefined modules m dep ∧ m.name = name := by
  have hnone : ∀ deps : List String, (deps.find? fun dep => !modules.any (·.name = dep)) = none ↔
      ∀ d ∈ deps, Defines modules d := by
    simp only [List.find?_eq_none, not_any_name_iff, not_not, implies_true]
  have hsome : ∀ (deps : List String) dep,
      (deps.find? fun dep => !modules.any (·.name = dep)) = some dep ↔ ¬ Defines modules dep ∧
        ∃ front back, deps = front ++ dep :: back ∧ ∀ d ∈ front, Defines modules d := by
    intro deps dep
    rw [List.find?_eq_some_iff_append, not_any_name_iff]
    simp [Defines]
  simp only [firstUndefined?, List.findSome?_eq_some_iff, Option.map_eq_some_iff, Prod.mk.injEq,
    Option.map_eq_none_iff, hnone, hsome, FirstUndefined]
  constructor
  · rintro ⟨before, m, after, hsplit, ⟨_, ⟨hdep, front, back, hdeps, hfront⟩, rfl, rfl⟩, hbefore⟩
    exact ⟨m, ⟨before, after, front, back, hsplit, hdeps, hbefore, hfront, hdep⟩, rfl⟩
  · rintro ⟨m, ⟨before, after, front, back, hsplit, hdeps, hbefore, hfront, hdep⟩, rfl⟩
    exact ⟨before, m, after, hsplit, ⟨_, ⟨hdep, front, back, hdeps, hfront⟩, rfl, rfl⟩, hbefore⟩

/-- The check has four endings, each of them behind those before it. -/
theorem check_cases (modules : List ModuleDecl) :
    (∃ name, firstRepeated? [] (modules.map ModuleDecl.name) = some name ∧
      check modules = .error (.duplicateModule name)) ∨
    firstRepeated? [] (modules.map ModuleDecl.name) = none ∧
      ((∃ name dep, firstUndefined? modules = some (name, dep) ∧
        check modules = .error (.unknownDependency name dep)) ∨
      firstUndefined? modules = none ∧
        ((∃ i, (digraph modules).topoSort = .error i ∧
          check modules = .error (.cycle (modules.get i).name)) ∨
        ∃ order, (digraph modules).topoSort = .ok order ∧ check modules = .ok ())) := by
  unfold check
  cases firstRepeated? [] (modules.map ModuleDecl.name) with
  | some name => exact .inl ⟨name, rfl, rfl⟩
  | none =>
    refine .inr ⟨rfl, ?_⟩
    cases firstUndefined? modules with
    | some undefined => exact .inl ⟨undefined.1, undefined.2, rfl, rfl⟩
    | none =>
      refine .inr ⟨rfl, ?_⟩
      cases (digraph modules).topoSort with
      | error i => exact .inl ⟨i, rfl, rfl⟩
      | ok order => exact .inr ⟨order, rfl, rfl⟩

theorem check_eq_duplicateModule_iff : check modules = .error (.duplicateModule name) ↔
    ∃ first again, FirstRepeat ModuleDecl.name modules first again ∧ again.name = name := by
  rw [← firstRepeated?_names_eq_some_iff]
  obtain ⟨_, hrepeated, hcheck⟩ |
    ⟨hnone, ⟨_, _, -, hcheck⟩ | ⟨-, ⟨_, -, hcheck⟩ | ⟨_, -, hcheck⟩⟩⟩ := check_cases modules
  · simp [hrepeated, hcheck]
  all_goals simp [hnone, hcheck]

theorem check_eq_unknownDependency_iff : check modules = .error (.unknownDependency name dep) ↔
    (modules.map ModuleDecl.name).Nodup ∧ ∃ m, FirstUndefined modules m dep ∧ m.name = name := by
  rw [← firstUndefined?_eq_some_iff, ← firstRepeated?_nil_eq_none_iff]
  obtain ⟨_, hrepeated, hcheck⟩ | ⟨hnone, ⟨_, _, hundefined, hcheck⟩ |
    ⟨hdefined, ⟨_, -, hcheck⟩ | ⟨_, -, hcheck⟩⟩⟩ := check_cases modules
  · simp [hrepeated, hcheck]
  · simp [hnone, hundefined, hcheck]
  all_goals simp [hdefined, hcheck]

/-- A cycle is reported when nothing else is wrong and some module depends on itself. -/
theorem exists_check_eq_cycle_iff : (∃ name, check modules = .error (.cycle name)) ↔
    (modules.map ModuleDecl.name).Nodup ∧ (∀ m ∈ modules, ∀ dep ∈ m.deps, Defines modules dep) ∧
      ∃ m, Relation.TransGen (Depends modules) m m := by
  have hdeps : firstUndefined? modules = none ↔
      ∀ m ∈ modules, ∀ dep ∈ m.deps, Defines modules dep := firstUndefined?_eq_none_iff
  rw [← hdeps, ← firstRepeated?_nil_eq_none_iff]
  obtain ⟨_, hrepeated, hcheck⟩ | ⟨hnone, ⟨_, _, hundefined, hcheck⟩ |
    ⟨hdefined, ⟨_, -, hcheck⟩ | ⟨_, -, hcheck⟩⟩⟩ := check_cases modules
  · simp [hrepeated, hcheck]
  · simp [hundefined, hcheck]
  · obtain ⟨-, m, -, -, hcycle⟩ := of_check_eq_cycle hcheck
    exact iff_of_true ⟨_, hcheck⟩ ⟨hnone, hdefined, m, hcycle⟩
  · have hacyclic := (check_eq_ok_iff.mp hcheck).acyclic
    exact iff_of_false (fun ⟨_, herror⟩ => nomatch hcheck.symm.trans herror)
      fun ⟨_, _, m, hcycle⟩ => hacyclic m hcycle

end ModuleDecl

end HybridBuild
