import HybridBuild.Shell
import HybridBuild.Text.Blank
import Mathlib.Data.List.TakeWhile

/-!
# Blank texts and words

Trimming leaves nothing of a text exactly when all its characters are blank, and leaves the text
as it is when no blank stands at its ends. A word of a shell command is never blank: it holds a
plain character or a quote.
-/
namespace HybridBuild.Text

theorem trim_eq_nil_iff {text : List Char} : trim text = [] ↔ ∀ c ∈ text, isBlank c := by
  have hkept : (text.dropWhile isBlank).reverse.dropWhile isBlank = [] ↔
      ∀ c ∈ text.dropWhile isBlank, isBlank c := by
    simp [List.dropWhile_eq_nil_iff]
  rw [trim, List.reverse_eq_nil_iff, hkept]
  constructor
  · intro h c hc
    rw [← List.takeWhile_append_dropWhile (p := isBlank) (l := text)] at hc
    rcases List.mem_append.mp hc with hc | hc
    · exact List.mem_takeWhile_imp hc
    · exact h c hc
  · exact fun h c hc => h c ((List.dropWhile_suffix _).subset hc)

/-- A text whose ends are not blank is left as it is. -/
theorem trim_of_ends {text : List Char} (hfirst : text.head?.any isBlank = false)
    (hlast : text.getLast?.any isBlank = false) : trim text = text := by
  have hkeep {text : List Char} (h : text.head?.any isBlank = false) :
      text.dropWhile isBlank = text := by
    cases text with
    | nil => rfl
    | cons c rest => exact List.dropWhile_cons_of_neg (by simpa using h)
  rw [trim, hkeep hfirst, hkeep (by simpa using hlast), List.reverse_reverse]

theorem toNat_of_isAlpha {c : Char} (h : c.isAlpha) : 65 ≤ c.toNat ∧ c.toNat ≤ 122 := by
  delta Char.isAlpha Char.isUpper Char.isLower at h
  simp only [Bool.or_eq_true, Bool.and_eq_true, decide_eq_true_eq, ge_iff_le,
    UInt32.le_iff_toNat_le] at h
  change (65 ≤ c.toNat ∧ c.toNat ≤ 90) ∨ (97 ≤ c.toNat ∧ c.toNat ≤ 122) at h
  omega

theorem toNat_of_isPlain {c : Char} (h : Shell.isPlain c) : 43 ≤ c.toNat ∧ c.toNat ≤ 122 := by
  simp only [Shell.isPlain, Char.isAlphanum, Bool.or_eq_true, List.contains_iff_mem,
    List.mem_cons, List.not_mem_nil, or_false] at h
  rcases h with (halpha | hdigit) | rfl | rfl | rfl | rfl | rfl | rfl | rfl
  · have hcode := toNat_of_isAlpha halpha
    omega
  · have hcode : 48 ≤ c.toNat ∧ c.toNat ≤ 57 := Char.isDigit_iff_toNat.mp hdigit
    omega
  all_goals decide

/-- The plain characters lie between those blanks of ASCII and all others. -/
theorem isBlank_of_isPlain {c : Char} (h : Shell.isPlain c) : isBlank c = false := by
  have hcode := toNat_of_isPlain h
  simp only [isBlank, blankRanges, List.any_eq_false, List.mem_cons, List.not_mem_nil, or_false,
    Bool.and_eq_true, decide_eq_true_eq]
  rintro range (rfl | rfl | rfl | rfl | rfl | rfl | rfl | rfl | rfl | rfl) <;> dsimp only <;> omega

theorem exists_not_isBlank_word (text : List Char) : ∃ c ∈ Shell.word text, isBlank c = false := by
  unfold Shell.word
  split
  next hplain =>
    simp only [Bool.and_eq_true, Bool.not_eq_true', List.all_eq_true] at hplain
    obtain ⟨c, rest, rfl⟩ := List.exists_cons_of_ne_nil (List.isEmpty_eq_false_iff.mp hplain.1)
    exact ⟨c, List.mem_cons_self, isBlank_of_isPlain (hplain.2 c List.mem_cons_self)⟩
  next => exact ⟨'\'', List.mem_cons_self, by decide⟩

end HybridBuild.Text
