import HybridBuild.Proofs.Digraph.TopoSort

/-!
# Graphs over the entries of a list

Rules and modules are numbered by their places in a list, and an edge leads to an entry
from the one that gives what it reads. When no two entries give the same thing, the
edges are those of a relation between the entries, and the graph has no cycle exactly
when that relation has none.
-/
namespace HybridBuild.Digraph

section Edges

variable {α κ : Type} {xs : List α}

/-- The first entry with a property is any entry with it, when there is only one. -/
theorem findFinIdx?_eq_some_iff_of_unique {p : α → Bool}
    (hunique : ∀ i j : Fin xs.length, p xs[i] → p xs[j] → i = j) {j : Fin xs.length} :
    xs.findFinIdx? p = some j ↔ p xs[j] := by
  rw [List.findFinIdx?_eq_some_iff]
  refine ⟨And.left, fun h => ⟨h, fun i hij hi => ?_⟩⟩
  exact hij.ne (hunique i j hi h)

theorem mem_edges_iff (reads : α → List κ) (gives : κ → α → Bool)
    (hunique : ∀ k, ∀ i j : Fin xs.length, gives k xs[i] → gives k xs[j] → i = j)
    {i j : Fin xs.length} :
    (j, i) ∈ (List.finRange xs.length).flatMap (fun i =>
        (reads xs[i]).filterMap fun k => (xs.findFinIdx? (gives k)).map fun j => (j, i)) ↔
      ∃ k ∈ reads xs[i], gives k xs[j] := by
  simp only [List.mem_flatMap, List.mem_finRange, true_and, List.mem_filterMap,
    Option.map_eq_some_iff, Prod.mk.injEq]
  constructor
  · rintro ⟨_, k, hk, _, hfind, rfl, rfl⟩
    exact ⟨k, hk, (findFinIdx?_eq_some_iff_of_unique (hunique k)).mp hfind⟩
  · rintro ⟨k, hk, hgives⟩
    exact ⟨i, k, hk, j, (findFinIdx?_eq_some_iff_of_unique (hunique k)).mpr hgives, rfl, rfl⟩

theorem findFinIdx?_map {β : Type} (f : α → β) (p : β → Bool) (xs : List α) :
    (xs.map f).findFinIdx? p =
      (xs.findFinIdx? fun x => p (f x)).map (Fin.cast (List.length_map f).symm) := by
  refine Option.map_injective Fin.val_injective ?_
  rw [← List.findIdx?_eq_map_findFinIdx?_val, List.findIdx?_map, Option.map_map,
    List.findIdx?_eq_map_findFinIdx?_val]
  rfl

theorem finRange_eq_map_cast {n k : Nat} (h : n = k) :
    List.finRange k = (List.finRange n).map (Fin.cast h) := by
  subst h
  simp

theorem edges_map {β : Type} (f : α → β) (reads : β → List κ) (gives : κ → β → Bool)
    (xs : List α) :
    ((List.finRange (xs.map f).length).flatMap fun i =>
        (reads (xs.map f)[i]).filterMap fun k =>
          ((xs.map f).findFinIdx? (gives k)).map fun j => (j, i)) =
      ((List.finRange xs.length).flatMap fun i =>
        (reads (f xs[i])).filterMap fun k =>
          (xs.findFinIdx? fun x => gives k (f x)).map fun j => (j, i)).map fun e =>
        (e.1.cast (List.length_map f).symm, e.2.cast (List.length_map f).symm) := by
  have hlen : xs.length = (xs.map f).length := (List.length_map f).symm
  simp only [finRange_eq_map_cast hlen, List.flatMap_map, List.map_flatMap]
  refine List.flatMap_congr fun i _ => ?_
  have hentry : (xs.map f)[i.cast hlen] = f xs[i] := by simp
  rw [hentry, List.map_filterMap]
  simp only [findFinIdx?_map, Option.map_map]
  rfl

end Edges

section Cycles

variable {α : Type} {xs : List α} {g : Digraph xs.length} {r : α → α → Prop}

/-- A path of the relation from an entry runs along the edges. -/
theorem exists_transGen_edge (hedge : ∀ {i j}, g.Edge i j ↔ r xs[i] xs[j])
    (hmem : ∀ {a b}, r a b → b ∈ xs) {i : Fin xs.length} {b : α}
    (h : Relation.TransGen r xs[i] b) :
    ∃ j : Fin xs.length, xs[j] = b ∧ Relation.TransGen g.Edge i j := by
  induction h with
  | single hr =>
    obtain ⟨j, rfl⟩ := List.get_of_mem (hmem hr)
    exact ⟨j, rfl, .single (hedge.mpr hr)⟩
  | tail _ hr ih =>
    obtain ⟨k, rfl, hik⟩ := ih
    obtain ⟨j, rfl⟩ := List.get_of_mem (hmem hr)
    exact ⟨j, rfl, hik.tail (hedge.mpr hr)⟩

theorem transGen_of_transGen_edge (hedge : ∀ {i j}, g.Edge i j ↔ r xs[i] xs[j])
    {i j : Fin xs.length} (h : Relation.TransGen g.Edge i j) : Relation.TransGen r xs[i] xs[j] :=
  h.lift (fun i : Fin xs.length => xs[i]) fun _ _ => hedge.mp

theorem acyclic_iff (hnd : xs.Nodup) (hedge : ∀ {i j}, g.Edge i j ↔ r xs[i] xs[j])
    (hmem : ∀ {a b}, r a b → b ∈ xs) : g.Acyclic ↔ ∀ a, ¬ Relation.TransGen r a a := by
  constructor
  · intro hg a hcycle
    have ha : a ∈ xs := by
      obtain ⟨b, -, hr⟩ := Relation.TransGen.tail'_iff.mp hcycle
      exact hmem hr
    obtain ⟨i, rfl⟩ := List.get_of_mem ha
    obtain ⟨j, hj, hij⟩ := exists_transGen_edge hedge hmem hcycle
    obtain rfl : j = i := List.nodup_iff_injective_get.mp hnd hj
    exact hg j hij
  · intro hr i hcycle
    exact hr xs[i] (transGen_of_transGen_edge hedge hcycle)

end Cycles

end HybridBuild.Digraph
