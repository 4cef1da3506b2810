import HybridBuild.Module.Indexed
import HybridBuild.Proofs.Module.Faults
import HybridBuild.Proofs.Traverse
import Mathlib.Data.List.Permutation

/-!
# The table of names of a module list

While the places are noted, the table holds exactly those that were gone through, each under the
name of its module, so a name that is noted twice is a name that occurred before. The whole table
finds what a search of the list would find, and the edges that are added by it are those of the
graph of dependencies. So a list of modules ends with the same fault as without a table, or with
a table that finds every module by its name.
-/
namespace HybridBuild.IndexedModules

open ModuleDecl

variable {modules : List ModuleDecl} {places : ModulePlaces modules}
  {done : List (Fin modules.length)}

/-- A table holds some places and no others, each under the name of its module. -/
def Notes (places : ModulePlaces modules) (done : List (Fin modules.length)) : Prop :=
  ∀ name i, places[name]? = some i ↔ i ∈ done ∧ (modules.get i).name = name

theorem notes_empty : Notes (∅ : ModulePlaces modules) [] := by
  intro name i
  simp

theorem Notes.insert (h : Notes places done) {i : Fin modules.length}
    (hnew : places.contains (modules.get i).name = false) :
    Notes (places.insert (modules.get i).name i) (done ++ [i]) := by
  have hfree : ∀ j ∈ done, (modules.get j).name ≠ (modules.get i).name := by
    intro j hj heq
    have hplace := (h (modules.get i).name j).mpr ⟨hj, heq⟩
    rw [Std.HashMap.contains_eq_isSome_getElem?, hplace] at hnew
    cases hnew
  intro name j
  rw [Std.HashMap.getElem?_insert, List.mem_append, List.mem_singleton]
  by_cases hname : (modules.get i).name = name
  · subst hname
    simp only [beq_self_eq_true, if_true, Option.some.injEq]
    constructor
    · rintro rfl
      exact ⟨.inr rfl, rfl⟩
    · rintro ⟨hj | rfl, heq⟩
      · exact absurd heq (hfree j hj)
      · rfl
  · rw [if_neg (by simpa using hname), h]
    refine and_congr_left fun heq => ⟨.inl, fun hj => hj.resolve_right ?_⟩
    rintro rfl
    exact hname heq

/-- Places are noted until a name occurs that has a place, by induction on the places. -/
theorem notePlaces_cases (h : Notes places done) {seen : List String}
    (hseen : ∀ name, name ∈ seen ↔ places.contains name) (rest : List (Fin modules.length)) :
    (∃ name, firstRepeated? seen (rest.map fun i => (modules.get i).name) = some name ∧
      notePlaces places rest = .error (.duplicateModule name)) ∨
    firstRepeated? seen (rest.map fun i => (modules.get i).name) = none ∧
      ∃ table, notePlaces places rest = .ok table ∧ Notes table (done ++ rest) := by
  induction rest generalizing places done seen with
  | nil => exact .inr ⟨rfl, places, rfl, by simpa using h⟩
  | cons i rest ih =>
    rw [List.map_cons, firstRepeated?, notePlaces]
    by_cases hname : places.contains (modules.get i).name
    · rw [if_pos ((hseen _).mpr hname), if_pos hname]
      exact .inl ⟨_, rfl, rfl⟩
    · rw [if_neg (mt (hseen _).mp hname), if_neg hname]
      have hseen' : ∀ name, name ∈ (modules.get i).name :: seen ↔
          (places.insert (modules.get i).name i).contains name := by
        intro name
        rw [List.mem_cons, hseen, Std.HashMap.contains_insert, Bool.or_eq_true, beq_iff_eq, eq_comm]
      have hrest := ih (h.insert (by simpa using hname)) hseen'
      rwa [List.append_assoc, List.singleton_append] at hrest

/-- The whole table finds the place that a search finds. -/
theorem Notes.getElem?_eq (h : Notes places (List.finRange modules.length)) (name : String) :
    places[name]? = modules.findFinIdx? (·.name = name) := by
  cases hfind : modules.findFinIdx? fun d => decide (d.name = name) with
  | some i =>
    have hname : (modules.get i).name = name := by
      simpa using (List.findFinIdx?_eq_some_iff.mp hfind).1
    exact (h name i).mpr ⟨List.mem_finRange i, hname⟩
  | none =>
    rw [Option.eq_none_iff_forall_ne_some]
    intro i hplace
    have hnone := List.findFinIdx?_eq_none_iff.mp hfind (modules.get i) (List.getElem_mem _)
    exact hnone (by simpa using ((h name i).mp hplace).2)

/-- The edges of some dependencies of the module at a place. -/
def edgesTo (place : Fin modules.length) (deps : List String) :
    List (Fin modules.length × Fin modules.length) :=
  deps.filterMap fun dep => (modules.findFinIdx? (·.name = dep)).map fun found => (found, place)

theorem addDeps_eq (h : Notes places (List.finRange modules.length)) (module : String)
    (place : Fin modules.length) (g : Digraph modules.length) (deps : List String) :
    addDeps places module place g deps =
      match deps.find? fun dep => !modules.any (·.name = dep) with
      | some dep => .error (.unknownDependency module dep)
      | none => .ok ⟨g.edges ++ edgesTo place deps⟩ := by
  induction deps generalizing g with
  | nil => simp [addDeps, edgesTo]
  | cons dep rest ih =>
    rw [addDeps, h.getElem?_eq, List.find?_cons, edgesTo, List.filterMap_cons]
    cases hfind : modules.findFinIdx? fun d => decide (d.name = dep) with
    | none =>
      have hnone : (!modules.any fun d => decide (d.name = dep)) = true := by
        simpa using List.findFinIdx?_eq_none_iff.mp hfind
      rw [hnone]
    | some found =>
      have hname : (modules.get found).name = dep := by
        simpa using (List.findFinIdx?_eq_some_iff.mp hfind).1
      have hsome : (!modules.any fun d => decide (d.name = dep)) = false := by
        simpa using ⟨(modules.get found), List.getElem_mem _, hname⟩
      rw [hsome]
      simp only [ih, Option.map_some, List.append_assoc, List.singleton_append]
      rfl

theorem addEdges_eq (h : Notes places (List.finRange modules.length))
    (g : Digraph modules.length) (rest : List (Fin modules.length)) :
    addEdges places g rest =
      match rest.findSome? fun i => ((modules.get i).deps.find? fun dep =>
        !modules.any (·.name = dep)).map fun dep => ((modules.get i).name, dep) with
      | some (name, dep) => .error (.unknownDependency name dep)
      | none => .ok ⟨g.edges ++ rest.flatMap fun i => edgesTo i (modules.get i).deps⟩ := by
  induction rest generalizing g with
  | nil => simp [addEdges]
  | cons i rest ih =>
    have hplace : places.getD (modules.get i).name i = i := by
      rw [Std.HashMap.getD_eq_getD_getElem?, (h _ i).mpr ⟨List.mem_finRange i, rfl⟩]
      rfl
    rw [addEdges, hplace, addDeps_eq h, List.findSome?_cons]
    cases (modules.get i).deps.find? fun dep => !modules.any (·.name = dep) with
    | some dep => rfl
    | none =>
      simp only [except_ok_bind, ih, Option.map_none, List.flatMap_cons, List.append_assoc]

theorem map_finRange {β : Type} (f : ModuleDecl → β) :
    (List.finRange modules.length).map (fun i => f (modules.get i)) = modules.map f := by
  conv_rhs => rw [← List.map_get_finRange modules, List.map_map]
  rfl

theorem findSome?_finRange {β : Type} (f : ModuleDecl → Option β) :
    (List.finRange modules.length).findSome? (fun i => f (modules.get i)) = modules.findSome? f := by
  conv_rhs => rw [← List.map_get_finRange modules, List.findSome?_map]
  rfl

theorem addEdges_finRange (h : Notes places (List.finRange modules.length)) :
    addEdges places ⟨[]⟩ (List.finRange modules.length) =
      match firstUndefined? modules with
      | some (name, dep) => .error (.unknownDependency name dep)
      | none => .ok (digraph modules) := by
  rw [addEdges_eq h, firstUndefined?, ← findSome?_finRange]
  rfl

/-- With a table a list ends as it does without, and when it is accepted the table holds the place
of every module and the graph is that of the dependencies. -/
theorem ofModules_cases (modules : List ModuleDecl) :
    (∃ e, check modules = .error e ∧ ofModules modules = .error e) ∨
    check modules = .ok () ∧ ∃ places, Notes places (List.finRange modules.length) ∧
      ofModules modules = .ok ⟨places, digraph modules⟩ := by
  have hseen : ∀ name, name ∈ ([] : List String) ↔ (∅ : ModulePlaces modules).contains name := by
    simp
  have hplaces := notePlaces_cases notes_empty hseen (List.finRange modules.length)
  rw [map_finRange ModuleDecl.name, List.nil_append] at hplaces
  unfold check ofModules
  obtain ⟨name, hrepeated, herror⟩ | ⟨hnone, places, hok, hnotes⟩ := hplaces
  · rw [hrepeated, herror]
    exact .inl ⟨_, rfl, rfl⟩
  · rw [hnone, hok, except_ok_bind, addEdges_finRange hnotes]
    cases firstUndefined? modules with
    | some undefined => exact .inl ⟨_, rfl, rfl⟩
    | none =>
      dsimp only [except_ok_bind]
      cases (digraph modules).topoSort with
      | error i => exact .inl ⟨_, rfl, rfl⟩
      | ok order => exact .inr ⟨rfl, places, hnotes, rfl⟩

variable {e : ModuleError} {x : IndexedModules modules}

theorem ofModules_eq_error_iff : ofModules modules = .error e ↔ check modules = .error e := by
  obtain ⟨e', hcheck, herror⟩ | ⟨hcheck, places, -, hok⟩ := ofModules_cases modules
  · rw [hcheck, herror, Except.error.injEq, Except.error.injEq]
  · rw [hcheck, hok]
    exact iff_of_false nofun nofun

theorem exists_ofModules_iff : (∃ x, ofModules modules = .ok x) ↔ Accepted modules := by
  rw [← check_eq_ok_iff]
  obtain ⟨e, hcheck, herror⟩ | ⟨hcheck, places, -, hok⟩ := ofModules_cases modules
  · simp [hcheck, herror]
  · exact iff_of_true ⟨_, hok⟩ hcheck

theorem get?_eq_some_iff (h : ofModules modules = .ok x) {name : String} {m : ModuleDecl} :
    x.get? name = some m ↔ m ∈ modules ∧ m.name = name := by
  obtain ⟨e, -, herror⟩ | ⟨-, places, hnotes, hok⟩ := ofModules_cases modules
  · exact nomatch herror.symm.trans h
  · obtain rfl := Except.ok.inj (hok.symm.trans h)
    rw [get?, Option.map_eq_some_iff]
    constructor
    · rintro ⟨i, hplace, rfl⟩
      exact ⟨List.getElem_mem _, ((hnotes name i).mp hplace).2⟩
    · rintro ⟨hm, hname⟩
      obtain ⟨i, rfl⟩ := List.get_of_mem hm
      exact ⟨i, (hnotes name i).mpr ⟨List.mem_finRange i, hname⟩, rfl⟩

theorem get?_eq_none_iff (h : ofModules modules = .ok x) {name : String} :
    x.get? name = none ↔ ∀ m ∈ modules, m.name ≠ name := by
  simp only [Option.eq_none_iff_forall_ne_some, ne_eq, get?_eq_some_iff h, not_and]

/-- Without a table the same module is found. -/
theorem exists_graph (h : ofModules modules = .ok x) : ∃ g, ModuleGraph.ofModules modules = .ok g ∧
    g.modules = modules ∧ ∀ name, g.get? name = x.get? name := by
  have haccepted : Accepted modules := exists_ofModules_iff.mp ⟨x, h⟩
  refine ⟨_, ModuleGraph.ofModules_eq_ok haccepted, rfl, fun name => ?_⟩
  rw [ModuleGraph.get?]
  cases hfound : modules.find? fun m => decide (m.name = name) with
  | none => exact ((get?_eq_none_iff h).mpr (by simpa using hfound)).symm
  | some m =>
    have hname : m.name = name := by simpa using List.find?_some hfound
    exact ((get?_eq_some_iff h).mpr ⟨List.mem_of_find?_eq_some hfound, hname⟩).symm

/-- A list of modules is accepted exactly when the names differ, every dependency names a module
and no module depends on itself in any number of steps. A name that occurs before is reported first
of all, and it is the first one. If there is none, the first dependency is reported that names no
module, and only if all names and dependencies are in order a cycle is. In an accepted list a name
finds the module that has it, and any other name finds nothing. The search without a table ends in
the same way and finds the same modules. -/
theorem module_lists_judged (modules : List ModuleDecl) :
    ((∃ x, ofModules modules = .ok x) ↔ (modules.map ModuleDecl.name).Nodup ∧
      (∀ m ∈ modules, ∀ dep ∈ m.deps, Defines modules dep) ∧
      ∀ m, ¬ Relation.TransGen (Depends modules) m m) ∧
    (∀ name, ofModules modules = .error (.duplicateModule name) ↔
      ∃ first again, FirstRepeat ModuleDecl.name modules first again ∧ again.name = name) ∧
    (∀ name dep, ofModules modules = .error (.unknownDependency name dep) ↔
      (modules.map ModuleDecl.name).Nodup ∧ ∃ m, FirstUndefined modules m dep ∧ m.name = name) ∧
    ((∃ name, ofModules modules = .error (.cycle name)) ↔ (modules.map ModuleDecl.name).Nodup ∧
      (∀ m ∈ modules, ∀ dep ∈ m.deps, Defines modules dep) ∧
      ∃ m, Relation.TransGen (Depends modules) m m) ∧
    (∀ x, ofModules modules = .ok x →
      (∀ name m, x.get? name = some m ↔ m ∈ modules ∧ m.name = name) ∧
      (∀ name, x.get? name = none ↔ ∀ m ∈ modules, m.name ≠ name) ∧
      ∃ g, ModuleGraph.ofModules modules = .ok g ∧ g.modules = modules ∧
        ∀ name, g.get? name = x.get? name) ∧
    ∀ e, ofModules modules = .error e ↔ ModuleGraph.ofModules modules = .error e := by
  refine ⟨?_, fun name => ?_, fun name dep => ?_, ?_, fun x h => ?_, fun e => ?_⟩
  · rw [exists_ofModules_iff]
    exact ⟨fun h => ⟨h.names, h.deps, h.acyclic⟩, fun ⟨hnames, hdeps, hacyclic⟩ =>
      ⟨hnames, hdeps, hacyclic⟩⟩
  · exact ofModules_eq_error_iff.trans check_eq_duplicateModule_iff
  · exact ofModules_eq_error_iff.trans check_eq_unknownDependency_iff
  · exact (exists_congr fun name => ofModules_eq_error_iff).trans exists_check_eq_cycle_iff
  · exact ⟨fun name m => get?_eq_some_iff h, fun name => get?_eq_none_iff h, exists_graph h⟩
  · exact ofModules_eq_error_iff.trans ModuleGraph.ofModules_eq_error_iff.symm

/-- A module with some dependencies. -/
def namedModule (name : String) (deps : List String) : ModuleDecl where
  name
  kind := .filegroup
  archs := [.common]
  srcs := []
  deps
  cmd := none
  outs := []
  target := none

/-- Modules that depend on later ones, one of them twice on the same. -/
def forwardModules : List ModuleDecl :=
  [namedModule "app" ["lib", "base", "lib"], namedModule "lib" ["base"], namedModule "base" []]

/-- Modules with faults of all kinds: a dependency on itself, one on nothing, and a second name. -/
def faultyModules : List ModuleDecl :=
  [namedModule "app" ["app", "gone"], namedModule "lib" [], namedModule "app" []]

/-- Each module of the first list is found, and of the faults of the second list the repeated name
is reported. -/
theorem module_lists_judged_forward :
    (∃ x, ofModules forwardModules = .ok x ∧ x.get? "lib" = some (namedModule "lib" ["base"]) ∧
      x.get? "gone" = none) ∧
    ofModules faultyModules = .error (.duplicateModule "app") := by
  have haccepted : Accepted forwardModules := check_eq_ok_iff.mp (by cbv)
  obtain ⟨hexists, -, -, -, hfound, -⟩ := module_lists_judged forwardModules
  obtain ⟨-, hrepeated, -⟩ := module_lists_judged faultyModules
  obtain ⟨x, hx⟩ := hexists.mpr ⟨haccepted.names, haccepted.deps, haccepted.acyclic⟩
  obtain ⟨hsome, hnone, -⟩ := hfound x hx
  refine ⟨⟨x, hx, (hsome _ _).mpr ⟨?_, rfl⟩, (hnone _).mpr ?_⟩, (hrepeated "app").mpr ?_⟩
  · simp [forwardModules]
  · simp [forwardModules, namedModule]
  · exact ⟨_, _, ⟨[namedModule "app" ["app", "gone"], namedModule "lib" []], [], rfl, by decide,
      List.mem_cons_self, rfl⟩, rfl⟩

end HybridBuild.IndexedModules
