import HybridBuild.Arch
import HybridBuild.Query.Kind
import HybridBuild.Text.Quoted
/-!
# Variants

A variant is a module built for one of its architectures.
-/
namespace HybridBuild

/-- A module under one architecture. -/
structure Variant where
  module : String
  arch : Arch
  deriving DecidableEq, Repr

namespace Variant

/-- Variants are ordered by module, then architecture. -/
instance : Ord Variant := ⟨compareLex (compareOn module) (compareOn arch)⟩

instance : Std.TransOrd Variant :=
  inferInstanceAs (Std.TransCmp (compareLex (compareOn module) (compareOn arch)))

instance : Std.LawfulEqOrd Variant where
  eq_of_compare {a b} h := by
    obtain ⟨m, r⟩ := a
    obtain ⟨m', r'⟩ := b
    change compareLex (compareOn module) (compareOn arch) _ _ = .eq at h
    simp only [compareLex_eq_eq, compareOn] at h
    rw [Std.LawfulEqOrd.eq_of_compare h.1, Std.LawfulEqOrd.eq_of_compare h.2]

def ruleName (v : Variant) : String := v.module ++ "." ++ v.arch.label

end Variant

inductive PlanError where
  | noCommand (variant : Variant)
  | noOutputs (variant : Variant)
  | missingVariant (variant : Variant) (dep : String)
  | query (variant : Variant) (e : QueryError)
  | outputCollision (variant : Variant) (first second target : String)
  deriving DecidableEq, Repr

def PlanError.message : PlanError → String
  | noCommand v => s!"module {quoteText v.module} ({v.arch}) has no cmd"
  | noOutputs v => s!"module {quoteText v.module} ({v.arch}) declares no outputs"
  | missingVariant v dep =>
    s!"module {quoteText v.module} ({v.arch}) depends on {quoteText dep}, " ++
      s!"which has no {v.arch} or common variant"
  | query v e => s!"bad bazel answer for module {quoteText v.module} ({v.arch}): {e.message}"
  | outputCollision v first second target =>
    s!"module {quoteText v.module} ({v.arch}) has bazel outputs {quoteText first} and " ++
      s!"{quoteText second} that both copy to {target}"

end HybridBuild
