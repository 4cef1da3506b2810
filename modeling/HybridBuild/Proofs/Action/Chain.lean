import HybridBuild.Proofs.Action.Index
import HybridBuild.Proofs.Traverse

/-!
# The path of a file, found anew

A fragment's chain holds the fragment and its ancestors up to the root. Following it
succeeds exactly when it ends and no fragment on it repeats, and the path of an artifact
is then made of the labels on the chain, from the root down.
-/
namespace HybridBuild

namespace ActionIndex

/-- The path of a fragment as it is found when nothing is remembered. -/
def plainPath (ix : ActionIndex) (id : Nat) : Except ActionError String :=
  (ix.chain [] [] id).map fun labels => "/".intercalate labels

def plainArtifactPath (ix : ActionIndex) (id : Nat) : Except ActionError String :=
  match ix.artifacts[id]? with
  | none => .error (.undefinedArtifact id)
  | some artifact => ix.plainPath artifact.fragment

variable {ix : ActionIndex} {seen : List Nat} {below : List String} {id : Nat}

theorem chain_zero : ix.chain seen below 0 = .ok below := by
  rw [chain, if_pos rfl]

theorem chain_of_mem (hid : id ≠ 0) (h : id ∈ seen) :
    ix.chain seen below id = .error (.pathFragmentCycle id) := by
  rw [chain, if_neg hid, dif_pos h]

theorem chain_of_none (hid : id ≠ 0) (h : id ∉ seen) (hnone : ix.fragments[id]? = none) :
    ix.chain seen below id = .error (.undefinedPathFragment id) := by
  rw [chain, if_neg hid, dif_neg h]
  grind

theorem chain_of_some (hid : id ≠ 0) (h : id ∉ seen) {fragment : PathFragment}
    (hsome : ix.fragments[id]? = some fragment) :
    ix.chain seen below id =
      ix.chain (id :: seen) (fragment.label :: below) fragment.parent := by
  rw [chain, if_neg hid, dif_neg h]
  grind

end ActionIndex

namespace ActionTables

open ActionIndex

/-- A fragment and its ancestors, from the fragment up to the root. -/
inductive ParentChain (t : ActionTables) : Nat → List PathFragment → Prop where
  | root : ParentChain t 0 []
  | child {id : Nat} {fragment : PathFragment} {above : List PathFragment} :
    id ≠ 0 → t.fragment? id = some fragment → ParentChain t fragment.parent above →
      ParentChain t id (fragment :: above)

/-- A defined artifact whose fragment's chain ends without repetition has a path. -/
def HasPath (t : ActionTables) (id : Nat) (path : String) : Prop :=
  ∃ artifact fragments, t.artifact? id = some artifact ∧
    t.ParentChain artifact.fragment fragments ∧ (fragments.map PathFragment.id).Nodup ∧
    path = "/".intercalate (fragments.reverse.map PathFragment.label)

variable {t : ActionTables} {seen : List Nat} {below : List String}

theorem id_of_fragment? {id : Nat} {fragment : PathFragment}
    (h : t.fragment? id = some fragment) : fragment.id = id := id_of_lastWith? h

theorem exists_parentChain_of_chain {id : Nat} {labels : List String}
    (h : t.index.chain seen below id = .ok labels) :
    ∃ fragments, t.ParentChain id fragments ∧ (fragments.map PathFragment.id).Nodup ∧
      (∀ f ∈ fragments, f.id ∉ seen) ∧
      labels = fragments.reverse.map PathFragment.label ++ below := by
  induction seen, below, id using chain.induct t.index with
  | case1 seen below =>
    rw [chain_zero] at h
    exact ⟨[], .root, List.nodup_nil, nofun, (Except.ok.inj h).symm⟩
  | case2 seen below id hid hseen =>
    rw [chain_of_mem hid hseen] at h
    cases h
  | case3 seen below id hid hnew hnone =>
    rw [chain_of_none hid hnew hnone] at h
    cases h
  | case4 seen below id hid hnew fragment hsome ih =>
    rw [chain_of_some hid hnew hsome] at h
    obtain ⟨above, habove, hnd, hfree, rfl⟩ := ih h
    rw [getElem?_fragments] at hsome
    obtain rfl := id_of_fragment? hsome
    refine ⟨fragment :: above, .child hid hsome habove, ?_, ?_, by simp⟩
    · rw [List.map_cons, List.nodup_cons]
      refine ⟨fun hmem => ?_, hnd⟩
      obtain ⟨f, hf, heq⟩ := List.mem_map.mp hmem
      exact hfree f hf (heq ▸ List.mem_cons_self)
    · exact List.forall_mem_cons.mpr
        ⟨hnew, fun f hf hmem => hfree f hf (List.mem_cons_of_mem _ hmem)⟩

theorem chain_of_parentChain {id : Nat} {fragments : List PathFragment}
    (h : t.ParentChain id fragments) (hnd : (fragments.map PathFragment.id).Nodup)
    (hfree : ∀ f ∈ fragments, f.id ∉ seen) :
    t.index.chain seen below id = .ok (fragments.reverse.map PathFragment.label ++ below) := by
  induction h generalizing seen below with
  | root => exact chain_zero
  | @child id fragment above hid hsome hchain ih =>
    obtain rfl := id_of_fragment? hsome
    rw [List.map_cons, List.nodup_cons] at hnd
    rw [List.forall_mem_cons] at hfree
    rw [chain_of_some hid hfree.1 ((getElem?_fragments _).trans hsome),
      ih hnd.2 fun f hf hmem => ?_]
    · simp
    · rcases List.mem_cons.mp hmem with heq | hmem
      · exact hnd.1 (heq ▸ List.mem_map_of_mem hf)
      · exact hfree.2 f hf hmem

theorem plainPath_eq_ok_iff {id : Nat} {path : String} :
    t.index.plainPath id = .ok path ↔ ∃ fragments, t.ParentChain id fragments ∧
      (fragments.map PathFragment.id).Nodup ∧
      path = "/".intercalate (fragments.reverse.map PathFragment.label) := by
  rw [plainPath, except_map_eq_ok_iff]
  constructor
  · rintro ⟨labels, hlabels, rfl⟩
    obtain ⟨fragments, hchain, hnd, -, rfl⟩ := exists_parentChain_of_chain hlabels
    exact ⟨fragments, hchain, hnd, by rw [List.append_nil]⟩
  · rintro ⟨fragments, hchain, hnd, rfl⟩
    refine ⟨_, chain_of_parentChain hchain hnd fun _ _ => List.not_mem_nil, ?_⟩
    rw [List.append_nil]

theorem plainArtifactPath_eq_ok_iff {id : Nat} {path : String} :
    t.index.plainArtifactPath id = .ok path ↔ t.HasPath id path := by
  unfold plainArtifactPath HasPath
  rw [getElem?_artifacts]
  cases hartifact : t.artifact? id with
  | none => simp
  | some artifact =>
    simp only [plainPath_eq_ok_iff, Option.some.injEq, exists_and_left, exists_eq_left']

end ActionTables

end HybridBuild
