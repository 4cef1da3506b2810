import HybridBuild.Action.Resolve
import Mathlib.Data.List.Induction

/-!
# What the tables say

The entry of a table with a number is the last one. Sets of files contain each other,
and a fragment has the chain of its ancestors, by the entries that count; these notions
speak of the lists as they were read, and the index agrees with them.
-/
namespace HybridBuild

/-- The last entry with a number. -/
def lastWith? {α : Type} (id : α → Nat) (entries : List α) (n : Nat) : Option α :=
  entries.reverse.find? fun entry => id entry = n

theorem id_of_lastWith? {α : Type} {id : α → Nat} {entries : List α} {n : Nat} {entry : α}
    (h : lastWith? id entries n = some entry) : id entry = n := by
  simpa using List.find?_some h

theorem lastWith?_eq_none_iff {α : Type} {id : α → Nat} {entries : List α} {n : Nat} :
    lastWith? id entries n = none ↔ ∀ entry ∈ entries, id entry ≠ n := by
  simp [lastWith?]

theorem getElem?_indexBy {α : Type} (id : α → Nat) (entries : List α) (n : Nat) :
    (indexBy id entries)[n]? = lastWith? id entries n := by
  induction entries using List.reverseRecOn with
  | nil => simp [indexBy, lastWith?]
  | append_singleton entries entry ih =>
    have hstep : indexBy id (entries ++ [entry]) =
        (indexBy id entries).insert (id entry) entry := by
      rw [indexBy, List.foldl_append]
      rfl
    rw [hstep, Std.TreeMap.getElem?_insert, ih, lastWith?, lastWith?, List.reverse_concat,
      List.find?_cons]
    by_cases h : id entry = n
    · simp [h]
    · simp [h]

namespace ActionTables

def artifact? (t : ActionTables) (id : Nat) : Option Artifact := lastWith? Artifact.id t.artifacts id

def depSet? (t : ActionTables) (id : Nat) : Option DepSet := lastWith? DepSet.id t.depSets id

def fragment? (t : ActionTables) (id : Nat) : Option PathFragment :=
  lastWith? PathFragment.id t.fragments id

variable {t : ActionTables}

@[simp] theorem getElem?_artifacts (id : Nat) : t.index.artifacts[id]? = t.artifact? id :=
  getElem?_indexBy _ _ _

@[simp] theorem getElem?_depSets (id : Nat) : t.index.depSets[id]? = t.depSet? id :=
  getElem?_indexBy _ _ _

@[simp] theorem getElem?_fragments (id : Nat) : t.index.fragments[id]? = t.fragment? id :=
  getElem?_indexBy _ _ _

end ActionTables

end HybridBuild
