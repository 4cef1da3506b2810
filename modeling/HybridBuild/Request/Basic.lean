import HybridBuild.Arch
import Std.Data.TreeMap
import Std.Data.TreeSet
/-!
# Requests for facts

A request asks for one fact: what a query kind says about a label under an
architecture. Bazel sees labels of the source tree through a repository alias,
and answers under an id made of the aliased label and the architecture's tag. So
requests that spell a label in two ways, or that differ in an architecture with
the same tag, share an id.
-/
namespace HybridBuild

/-- The repository alias under which the source tree is seen. -/
def sourceRootRepo : String := "@sourceroot"

/-- What stands between the id, the kind and the detail of an answer. -/
def answerSeparator : String := ">>"

/-- What stands between the label and the architecture's tag in an id. -/
def idSeparator : String := "|"

/-- A label of the source tree under its repository alias; the two slashes in
front of a package may be missing. -/
def canonicalLabel (label : String) : String :=
  if "//".toList.isPrefixOf label.toList then sourceRootRepo ++ label
  else sourceRootRepo ++ "//" ++ label

/-- A label evaluated by one query kind under one architecture. -/
structure Request where
  label : String
  kind : String
  arch : Arch
  deriving DecidableEq, Repr

namespace Request

/-- The label under which Bazel is asked. -/
def canonical (r : Request) : String := canonicalLabel r.label

/-- The id under which an answer to the request is given. -/
def id (r : Request) : String := r.canonical ++ idSeparator ++ r.arch.requestTag

instance : ToString Request := ⟨fun r => s!"{r.id} ({r.kind})"⟩

/-- Requests are ordered by label, then kind, then architecture. -/
instance : Ord Request :=
  ⟨compareLex (compareOn label) (compareLex (compareOn kind) (compareOn arch))⟩

end Request

instance : Std.TransOrd Arch where
  eq_swap {a b} := by cases a <;> cases b <;> rfl
  isLE_trans {a b c} := by cases a <;> cases b <;> cases c <;> decide

instance : Std.LawfulEqOrd Arch where
  eq_of_compare {a b} := by cases a <;> cases b <;> decide

instance : Std.TransOrd Request :=
  inferInstanceAs (Std.TransCmp (compareLex (compareOn Request.label)
    (compareLex (compareOn Request.kind) (compareOn Request.arch))))

instance : Std.LawfulEqOrd Request where
  eq_of_compare {a b} h := by
    obtain ⟨l, k, r⟩ := a
    obtain ⟨l', k', r'⟩ := b
    change compareLex (compareOn Request.label)
      (compareLex (compareOn Request.kind) (compareOn Request.arch)) _ _ = .eq at h
    simp only [compareLex_eq_eq, compareOn] at h
    obtain ⟨hl, hk, hr⟩ := h
    rw [Std.LawfulEqOrd.eq_of_compare hl, Std.LawfulEqOrd.eq_of_compare hk,
      Std.LawfulEqOrd.eq_of_compare hr]

end HybridBuild
