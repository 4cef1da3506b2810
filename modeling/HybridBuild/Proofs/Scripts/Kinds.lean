import HybridBuild.Proofs.Scripts.QueryFile
import HybridBuild.Proofs.Text.Lines

/-!
# The kinds that are built in are functions

The body of a kind that is built in consists of lines, which are moved to the right one by
one. What comes out is read as the body of a function, and no placeholder stands in it.
-/
namespace HybridBuild.Scripts

open Starlark

/-- A body is moved to the right line by line. -/
theorem toList_indent {lines : List String}
    (h : ∀ line ∈ lines, '\n' ∉ line.toList ∧ line.toList.getLast? ≠ some '\r')
    (hlast : lines.getLast? ≠ some "") :
    (indent ("\n".intercalate lines)).toList = ['\n'].intercalate (lines.map fun line =>
      if line.toList.isEmpty then [] else ' ' :: ' ' :: line.toList) := by
  have hend : (lines.map String.toList).getLast? ≠ some [] := by
    rw [List.getLast?_map]
    simpa using hlast
  have hfeed : "\n".toList = ['\n'] := by decide
  rw [indent, textLines, String.toList_intercalate, String.toList_intercalate, hfeed,
    Text.lines_intercalate (by simpa using fun line hline => (h line hline).1)
      (by simpa using fun line hline => (h line hline).2) hend, List.map_map, List.map_map,
    List.map_map]
  refine congrArg _ (List.map_congr_left fun line _ => ?_)
  by_cases hline : line = "" <;> simp [hline]

theorem isFunction_outputFiles : IsFunction .outputFiles where
  isName := by decide
  isBody := by
    unfold Says
    decide +kernel
  isFree := by decide

theorem isFunction_ccInfo : IsFunction .ccInfo := by
  have hread : Says ((indent QueryKind.ccInfo.body).toList ++ ['\n']) false true [] ∧
      ∀ name ∈ ["kind", "dispatch"], IsFree name (indent QueryKind.ccInfo.body).toList := by
    unfold QueryKind.ccInfo Says
    dsimp only
    rw [toList_indent]
    · simp only [List.map_cons, List.map_nil]
      repeat rw [String.toList_ofList]
      decide +kernel
    · simp only [List.forall_mem_cons, List.not_mem_nil, IsEmpty.forall_iff, implies_true, and_true]
      repeat rw [String.toList_ofList]
      repeat' apply And.intro
      all_goals decide +kernel
    · simp
  exact ⟨by decide +kernel, hread.1, hread.2⟩

theorem isFunction_builtin {name : String} {kind : QueryKind}
    (h : QueryRegistry.builtin.get? name = some kind) : IsFunction kind := by
  obtain ⟨body, hbody, rfl⟩ := Option.map_eq_some_iff.mp h
  have hinserts : QueryRegistry.builtin.bodies = ((∅ : Std.TreeMap String String).insert
      QueryKind.outputFiles.name QueryKind.outputFiles.body).insert QueryKind.ccInfo.name
        QueryKind.ccInfo.body := rfl
  rw [hinserts, Std.TreeMap.getElem?_insert, Std.TreeMap.getElem?_insert] at hbody
  simp only [Std.LawfulEqCmp.compare_eq_iff_eq] at hbody
  split at hbody
  next hname =>
    obtain rfl := Option.some.inj hbody
    rw [← hname]
    exact isFunction_ccInfo
  next =>
    split at hbody
    next hname =>
      obtain rfl := Option.some.inj hbody
      rw [← hname]
      exact isFunction_outputFiles
    next => simp at hbody

end HybridBuild.Scripts
