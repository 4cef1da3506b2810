import HybridBuild.Text.Lines
import Mathlib.Data.List.Forall2

/-!
# Lines that are written are read

A text lists lines when each is followed by a line feed, or by a carriage return and a
line feed, where the end of the last line may be missing. Reading such a text gives the
lines back, except that a carriage return which ends a line may be lost.
-/
namespace HybridBuild.Text

/-- A text that lists some lines. -/
inductive ListsLines : List Char → List (List Char) → Prop
  | nil : ListsLines [] []
  | last {line : List Char} (nonempty : line ≠ []) : ListsLines line [line]
  | feed (line : List Char) {text : List Char} {lines : List (List Char)}
      (rest : ListsLines text lines) : ListsLines (line ++ '\n' :: text) (line :: lines)
  | returnFeed (line : List Char) {text : List Char} {lines : List (List Char)}
      (rest : ListsLines text lines) : ListsLines (line ++ '\r' :: '\n' :: text) (line :: lines)

variable {line text : List Char}

theorem lines_of_splitOn {last : List Char} {ended : List (List Char)}
    (h : text.splitOn '\n' = ended ++ [last]) :
    lines text = ended.map dropReturn ++ if last.isEmpty then [] else [last] := by
  rw [lines, h, List.reverse_append, List.reverse_singleton, List.singleton_append]
  simp only [List.reverse_reverse]

theorem lines_of_notMem (hfeed : '\n' ∉ line) (nonempty : line ≠ []) : lines line = [line] := by
  have hsplit : line.splitOn '\n' = [] ++ [line] := List.splitOn_eq_singleton hfeed
  rw [lines_of_splitOn hsplit, List.isEmpty_eq_false_iff.mpr nonempty]
  rfl

/-- The first line ends at the first line feed. -/
theorem lines_append (hfeed : '\n' ∉ line) (text : List Char) :
    lines (line ++ '\n' :: text) = dropReturn line :: lines text := by
  obtain hnil | ⟨ended, last, hrest⟩ := (text.splitOn '\n').eq_nil_or_concat
  · exact absurd hnil (List.splitOn_ne_nil _ _)
  · rw [List.concat_eq_append] at hrest
    have hsplit : (line ++ '\n' :: text).splitOn '\n' = (line :: ended) ++ [last] := by
      rw [List.splitOn_append_cons_self_of_not_mem hfeed, hrest, List.cons_append]
    rw [lines_of_splitOn hsplit, lines_of_splitOn hrest, List.map_cons, List.cons_append]

theorem dropReturn_concat (line : List Char) : dropReturn (line ++ ['\r']) = line := by
  simp [dropReturn]

theorem dropReturn_of_ne (h : line.getLast? ≠ some '\r') : dropReturn line = line := if_neg h

theorem dropReturn_prefix (line : List Char) : dropReturn line <+: line := by
  unfold dropReturn
  split
  · exact List.dropLast_prefix line
  · exact List.prefix_rfl

/-- Lines that are put together are read again. -/
theorem lines_intercalate {written : List (List Char)} (hfeed : ∀ line ∈ written, '\n' ∉ line)
    (hreturn : ∀ line ∈ written, line.getLast? ≠ some '\r') (hlast : written.getLast? ≠ some []) :
    lines (['\n'].intercalate written) = written := by
  induction written with
  | nil => rfl
  | cons line rest ih =>
    obtain ⟨hline, hrest⟩ := List.forall_mem_cons.mp hfeed
    obtain ⟨hend, hends⟩ := List.forall_mem_cons.mp hreturn
    cases rest with
    | nil =>
      rw [List.intercalate_singleton]
      exact lines_of_notMem hline (by simpa using hlast)
    | cons next rest =>
      rw [List.intercalate_cons_cons, List.append_assoc, List.singleton_append, lines_append hline,
        dropReturn_of_ne hend, ih hrest hends (by simpa using hlast)]

/-- Each line that is read is the line that was written, but for a carriage return. -/
theorem ListsLines.forall₂ {written : List (List Char)} (h : ListsLines text written)
    (hfeed : ∀ line ∈ written, '\n' ∉ line) :
    List.Forall₂ (fun read line => read = line ∨ read = dropReturn line) (lines text) written := by
  induction h with
  | nil => exact .nil
  | @last line nonempty =>
    rw [lines_of_notMem (hfeed line List.mem_cons_self) nonempty]
    exact .cons (.inl rfl) .nil
  | feed line rest ih =>
    rw [lines_append (hfeed line List.mem_cons_self)]
    exact .cons (.inr rfl) (ih fun l hl => hfeed l (List.mem_cons_of_mem line hl))
  | @returnFeed line text written rest ih =>
    have hline : '\n' ∉ line ++ ['\r'] := by
      simp [hfeed line List.mem_cons_self]
    have htext : line ++ '\r' :: '\n' :: text = (line ++ ['\r']) ++ '\n' :: text := by simp
    rw [htext, lines_append hline, dropReturn_concat]
    exact .cons (.inl rfl) (ih fun l hl => hfeed l (List.mem_cons_of_mem line hl))

end HybridBuild.Text
