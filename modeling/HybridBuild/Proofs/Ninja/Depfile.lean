import HybridBuild.Ninja.Manifest
import HybridBuild.Proofs.Text.Exchange

/-!
# Dependency lists are read back

In a dependency list a backslash goes before every blank of a path and before nothing else. So no
path has a blank right behind a line feed, and a line feed with two blanks stands only in front of
a dependency. A list is therefore cut there and nowhere else, and as every blank brings its own
backslash, the paths are read back, whatever backslashes, colons and line feeds they hold.
-/
namespace HybridBuild.Ninja

def depMark : List Char := [' ', '\\', '\n', ' ', ' ']

/-- A path without the backslashes in front of its blanks. -/
def unescapeDep : List Char → List Char
  | [] => []
  | '\\' :: ' ' :: rest => ' ' :: unescapeDep rest
  | c :: rest => c :: unescapeDep rest

/-- The target and the dependencies of a dependency list: the line feed at its end and the colon
behind the target are taken away, and each dependency begins behind a mark. -/
def readDepfile? (text : String) : Option (String × List String) :=
  if text.toList.getLast? = some '\n' then
    match Text.pieces depMark text.toList.dropLast with
    | [] => none
    | head :: deps =>
      if head.getLast? = some ':' then
        some (String.ofList (unescapeDep head.dropLast),
          deps.map fun dep => String.ofList (unescapeDep dep))
      else none
  else none

variable {behind : List Char}

theorem unescapeDep_cons {c : Char} {rest : List Char} (h : rest.head? ≠ some ' ') :
    unescapeDep (c :: rest) = c :: unescapeDep rest := by
  rw [unescapeDep]
  rintro tail - rfl
  exact h rfl

/-- No path begins with a blank once it is escaped. -/
theorem head?_flatMap_depChar (path : List Char) (hbehind : behind.head? ≠ some ' ') :
    (path.flatMap depChar ++ behind).head? ≠ some ' ' := by
  cases path with
  | nil => exact hbehind
  | cons c path =>
    by_cases hc : c = ' '
    · simp [depChar, hc]
    · simp [depChar, hc]

theorem unescapeDep_flatMap (path : List Char) : unescapeDep (path.flatMap depChar) = path := by
  induction path with
  | nil => rfl
  | cons c path ih =>
    rw [List.flatMap_cons]
    by_cases hc : c = ' '
    · subst hc
      rw [depChar, if_pos rfl]
      exact congrArg (' ' :: ·) ih
    · have hnil : ([] : List Char).head? ≠ some ' ' := nofun
      have hhead : (path.flatMap depChar).head? ≠ some ' ' := by
        simpa using head?_flatMap_depChar path hnil
      rw [depChar, if_neg hc, List.singleton_append, unescapeDep_cons hhead, ih]

/-- An escaped path has no blanks behind a line feed, unless they stand behind the path. -/
theorem not_infix_flatMap_depChar (hblanks : ¬ [' ', ' '] <+: behind)
    (hbehind : ¬ ['\n', ' ', ' '] <:+: behind) (path : List Char) :
    ¬ ['\n', ' ', ' '] <:+: path.flatMap depChar ++ behind := by
  induction path with
  | nil => exact hbehind
  | cons c path ih =>
    by_cases hc : c = ' '
    · simpa [depChar, hc, List.infix_cons_iff] using ih
    · have hstart : ¬ [' ', ' '] <+: path.flatMap depChar ++ behind := by
        cases path with
        | nil => exact hblanks
        | cons d path =>
          by_cases hd : d = ' '
          · simp [depChar, hd]
          · simp [depChar, hd, Ne.symm hd]
      rw [List.flatMap_cons, depChar, if_neg hc, List.singleton_append, List.cons_append,
        List.infix_cons_iff, List.cons_prefix_cons]
      rintro (⟨-, hprefix⟩ | hinfix)
      · exact hstart hprefix
      · exact ih hinfix

/-- An escaped path completes no mark, neither inside nor with the start of the next mark. -/
theorem not_depMark_infix (hblanks : ¬ [' ', ' '] <+: behind ++ depMark.dropLast)
    (hbehind : ¬ ['\n', ' ', ' '] <:+: behind ++ depMark.dropLast) (path : List Char) :
    ¬ depMark <:+: (path.flatMap depChar ++ behind) ++ depMark.dropLast := by
  have hend : ['\n', ' ', ' '] <:+: depMark := ⟨[' ', '\\'], [], rfl⟩
  rw [List.append_assoc]
  exact fun h => not_infix_flatMap_depChar hblanks hbehind path (hend.trans h)

/-- The parts of a dependency list between the marks. -/
def depParts (target : String) (deps : List String) : List (List Char) :=
  (target.toList.flatMap depChar ++ [':']) :: deps.map fun dep => dep.toList.flatMap depChar

theorem toList_renderDepfile (target : String) (deps : List String) :
    (renderDepfile target deps).toList =
      depMark.intercalate (depParts target deps) ++ ['\n'] := by
  have hmark : " \\\n  ".toList = depMark := rfl
  simp [renderDepfile, escapeDep, depParts, Text.intercalate_cons, hmark, String.toList_join,
    List.flatMap_map]

theorem pieces_depParts (target : String) (deps : List String) :
    Text.pieces depMark (depMark.intercalate (depParts target deps)) = depParts target deps := by
  refine Text.pieces_intercalate (by decide) (List.cons_ne_nil _ _) ?_
  refine List.forall_mem_cons.mpr ⟨?_, ?_⟩
  · exact not_depMark_infix (by decide) (by decide) target.toList
  · intro part hpart
    obtain ⟨dep, -, rfl⟩ := List.mem_map.mp hpart
    have hdep : ¬ depMark <:+: (dep.toList.flatMap depChar ++ []) ++ depMark.dropLast :=
      not_depMark_infix (by decide) (by decide) dep.toList
    rwa [List.append_nil] at hdep

theorem readDepfile?_renderDepfile (target : String) (deps : List String) :
    readDepfile? (renderDepfile target deps) = some (target, deps) := by
  rw [readDepfile?, toList_renderDepfile, List.getLast?_concat, if_pos rfl, List.dropLast_concat,
    pieces_depParts]
  simp [depParts, unescapeDep_flatMap, Function.comp_def]

/-- A dependency list is read back as the target and the dependencies that it was written for. So
two of them are the same text only if they are for the same target and have the same dependencies,
one by one and in the same order, whatever characters the paths hold. -/
theorem dependencies_read_back (target : String) (deps : List String) :
    readDepfile? (renderDepfile target deps) = some (target, deps) ∧
    ∀ target' deps', renderDepfile target' deps' = renderDepfile target deps ↔
      target' = target ∧ deps' = deps := by
  refine ⟨readDepfile?_renderDepfile target deps, fun target' deps' => ⟨fun h => ?_, ?_⟩⟩
  · have hread := congrArg readDepfile? h
    rw [readDepfile?_renderDepfile, readDepfile?_renderDepfile] at hread
    exact Prod.mk.inj (Option.some.inj hread)
  · rintro ⟨rfl, rfl⟩
    rfl

end HybridBuild.Ninja
