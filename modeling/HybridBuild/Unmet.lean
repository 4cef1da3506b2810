/-!
# Elements not met yet

A search over a finite collection ends because every step meets an element that
it has not met before. The number of elements still unmet bounds the steps.
-/
namespace HybridBuild

variable {α : Type} [DecidableEq α]

/-- The number of elements of `all` that are not in `met`. -/
def countUnmet (all met : List α) : Nat := (all.filter fun x => x ∉ met).length

/-- Meeting a new element leaves fewer unmet ones. -/
theorem countUnmet_cons_lt {all met : List α} {x : α} (hx : x ∈ all) (h : x ∉ met) :
    countUnmet all (x :: met) < countUnmet all met := by
  have hf : (all.filter fun y => y ∉ x :: met) =
      (all.filter fun y => y ∉ met).filter fun y => y ≠ x := by
    rw [List.filter_filter]
    congr 1
    funext y
    simp
  unfold countUnmet
  rw [hf, List.length_filter_lt_length_iff_exists]
  exact ⟨x, by simp [hx, h], by simp⟩

end HybridBuild
