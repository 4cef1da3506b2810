import HybridBuild.Proofs.Variant.Locality
import Mathlib.Data.List.Basic

/-!
# The identifiers of a build's rules

A rule is declared under its name with most characters exchanged for underscores. The rules of
Bazel's actions are numbered, and no two numbers fall together. The rule of a variant is named
after its module and its architecture, and whatever the module is called, its identifier is not
that of a number: it does not end in a number, or what stands before the number ends in `_x86`.
-/
namespace HybridBuild.Rule

/-- The character that stands in an identifier for one of a name. -/
def idChar (c : Char) : Char := if c.isAlphanum || c = '_' then c else '_'

theorem toList_idOf (name : String) : (idOf name).toList = name.toList.map idChar :=
  String.toList_ofList

theorem isDigit_of_mem_toDigits {i : Nat} {c : Char} (h : c ∈ Nat.toDigits 10 i) : c.isDigit :=
  Nat.isDigit_of_mem_toDigits (by decide) (by decide) h

theorem toList_idOf_number (i : Nat) :
    (idOf s!"bazel {i}").toList = "bazel".toList ++ '_' :: Nat.toDigits 10 i := by
  have hname : (s!"bazel {i}").toList = "bazel ".toList ++ Nat.toDigits 10 i := by
    simp only [String.toList_append, Nat.toString_eq_ofList_toDigits, String.toList_ofList]
    rfl
  have hdigits : (Nat.toDigits 10 i).map idChar = Nat.toDigits 10 i := by
    refine (List.map_congr_left fun c hc => ?_).trans (List.map_id _)
    simp [idChar, Char.isAlphanum, isDigit_of_mem_toDigits hc]
  rw [toList_idOf, hname, List.map_append, hdigits]
  rfl

theorem idOf_number_injective {i j : Nat} (h : idOf s!"bazel {i}" = idOf s!"bazel {j}") : i = j := by
  have hlist : "bazel".toList ++ '_' :: Nat.toDigits 10 i =
      "bazel".toList ++ '_' :: Nat.toDigits 10 j := by
    rw [← toList_idOf_number, ← toList_idOf_number, h]
  have hdigits : Nat.toDigits 10 i = Nat.toDigits 10 j := by simpa using hlist
  calc i = Nat.ofDigitChars 10 (Nat.toDigits 10 i) 0 := Nat.ofDigitChars_ten_toDigits.symm
    _ = Nat.ofDigitChars 10 (Nat.toDigits 10 j) 0 := by rw [hdigits]
    _ = j := Nat.ofDigitChars_ten_toDigits

theorem toList_idOf_ruleName (v : Variant) :
    (idOf v.ruleName).toList = (idOf v.module).toList ++ '_' :: v.arch.label.toList := by
  have hlabel : v.arch.label.toList.map idChar = v.arch.label.toList := by
    cases v.arch <;> decide
  have hdot : ".".toList.map idChar = ['_'] := by decide
  rw [Variant.ruleName, toList_idOf, toList_idOf, String.toList_append, String.toList_append,
    List.map_append, List.map_append, hlabel, hdot, List.append_assoc]
  rfl

/-- What ends in a number after an underscore is the identifier of a numbered rule only if
nothing but `bazel` stands before. -/
theorem eq_of_append_eq_idOf_number {front last : List Char} {i : Nat} (hlast : '_' ∉ last)
    (h : front ++ '_' :: last = (idOf s!"bazel {i}").toList) :
    front = "bazel".toList ∧ ∀ c ∈ last, c.isDigit := by
  rw [toList_idOf_number] at h
  obtain ⟨hfront, hdigits⟩ := eq_of_append_mark hlast Nat.underscore_not_in_toDigits h
  exact ⟨hfront, fun c hc => isDigit_of_mem_toDigits (hdigits ▸ hc)⟩

/-- No variant's rule is taken for a numbered one. -/
theorem idOf_ruleName_ne (v : Variant) (i : Nat) : idOf v.ruleName ≠ idOf s!"bazel {i}" := by
  intro h
  have hlist : (idOf v.module).toList ++ '_' :: v.arch.label.toList =
      (idOf s!"bazel {i}").toList := by rw [← toList_idOf_ruleName, h]
  by_cases harch : v.arch = .x86_64
  · have hcut : ((idOf v.module).toList ++ '_' :: "x86".toList) ++ '_' :: "64".toList =
        (idOf s!"bazel {i}").toList := by
      rw [← hlist, harch, List.append_assoc]
      rfl
    obtain ⟨hfront, -⟩ := eq_of_append_eq_idOf_number (by decide) hcut
    have hmem : '_' ∈ "bazel".toList := hfront ▸ List.mem_append_right _ List.mem_cons_self
    exact absurd hmem (by decide)
  · have hlabel : '_' ∉ v.arch.label.toList ∧ v.arch.label.toList.any (fun c => !c.isDigit) := by
      revert harch
      cases v.arch <;> decide
    obtain ⟨hmark, hany⟩ := hlabel
    obtain ⟨c, hc, hletter⟩ := List.any_eq_true.mp hany
    have hdigit : c.isDigit := (eq_of_append_eq_idOf_number hmark hlist).2 c hc
    simp [hdigit] at hletter

end HybridBuild.Rule
