/-!
# Going through a list until something fails

A function that may fail is tried on the entries of a list in turn. The whole succeeds
when it succeeds on each entry, and fails as it does on the first entry where it fails.
-/
namespace HybridBuild

variable {α β ε : Type} {f g : α → Except ε β} {xs : List α}

@[simp] theorem except_ok_bind (a : α) (k : α → Except ε β) : (Except.ok a >>= k) = k a := rfl

@[simp] theorem except_error_bind (e : ε) (k : α → Except ε β) :
    (Except.error e >>= k) = .error e := rfl

theorem exists_bind_ok_iff {r : Except ε α} {k : α → Except ε β} :
    (∃ b, (r >>= k) = .ok b) ↔ ∃ a, r = .ok a ∧ ∃ b, k a = .ok b := by
  cases r <;> simp

theorem bind_eq_ok_iff {r : Except ε α} {k : α → Except ε β} {b : β} :
    (r >>= k) = .ok b ↔ ∃ a, r = .ok a ∧ k a = .ok b := by
  cases r <;> simp

theorem bind_eq_error_iff {r : Except ε α} {k : α → Except ε β} {e : ε} :
    (r >>= k) = .error e ↔ r = .error e ∨ ∃ a, r = .ok a ∧ k a = .error e := by
  cases r <;> simp

theorem mapM_cons_ok {x : α} {y : β} (h : f x = .ok y) :
    (x :: xs).mapM f = (xs.mapM f).map (y :: ·) := by
  rw [List.mapM_cons, h]
  cases xs.mapM f <;> rfl

theorem mapM_cons_error {x : α} {e : ε} (h : f x = .error e) : (x :: xs).mapM f = .error e := by
  rw [List.mapM_cons, h]
  rfl

theorem except_map_eq_ok_iff {r : Except ε α} {h : α → β} {b : β} :
    r.map h = .ok b ↔ ∃ a, r = .ok a ∧ h a = b := by
  cases r <;> simp [Except.map]

theorem except_map_eq_error_iff {r : Except ε α} {h : α → β} {e : ε} :
    r.map h = .error e ↔ r = .error e := by
  cases r <;> simp [Except.map]

theorem mapM_eq_some_iff {f : α → Option β} {ys : List β} :
    xs.mapM f = some ys ↔ xs.map f = ys.map some := by
  induction xs generalizing ys with
  | nil => cases ys <;> simp
  | cons x xs ih =>
    rw [List.mapM_cons]
    cases ys with
    | nil => cases f x <;> cases xs.mapM f <;> simp
    | cons y ys =>
      rw [List.map_cons, List.map_cons, List.cons.injEq, ← ih]
      cases f x <;> cases xs.mapM f <;> simp

theorem mapM_eq_ok_iff {ys : List β} : xs.mapM f = .ok ys ↔ xs.map f = ys.map .ok := by
  induction xs generalizing ys with
  | nil =>
    show Except.ok [] = Except.ok ys ↔ _
    simp [eq_comm]
  | cons x xs ih =>
    cases hx : f x with
    | error e => cases ys <;> simp [mapM_cons_error hx, hx]
    | ok y =>
      rw [mapM_cons_ok hx, except_map_eq_ok_iff, List.map_cons, hx]
      cases ys with
      | nil => simp
      | cons y' ys =>
        simp only [List.map_cons, List.cons.injEq, Except.ok.injEq, ih]
        constructor
        · rintro ⟨_, h, rfl, rfl⟩
          exact ⟨rfl, h⟩
        · rintro ⟨rfl, h⟩
          exact ⟨ys, h, rfl, rfl⟩

theorem mapM_eq_error_iff {e : ε} :
    xs.mapM f = .error e ↔ ∃ before x after, xs = before ++ x :: after ∧
      (∀ b ∈ before, ∃ y, f b = .ok y) ∧ f x = .error e := by
  induction xs with
  | nil =>
    show Except.ok [] = Except.error e ↔ _
    simp
  | cons x xs ih =>
    simp only [List.cons_eq_append_iff]
    cases hx : f x with
    | error e' =>
      rw [mapM_cons_error hx, Except.error.injEq]
      constructor
      · rintro rfl
        exact ⟨[], x, xs, .inl ⟨rfl, rfl⟩, nofun, hx⟩
      · rintro ⟨before, x', after, ⟨rfl, heq⟩ | ⟨before, rfl, -⟩, hbefore, hx'⟩
        · obtain ⟨rfl, rfl⟩ := List.cons.inj heq
          exact Except.error.inj (hx.symm.trans hx')
        · obtain ⟨y, hy⟩ := hbefore x List.mem_cons_self
          exact nomatch hx.symm.trans hy
    | ok y =>
      rw [mapM_cons_ok hx, except_map_eq_error_iff, ih]
      constructor
      · rintro ⟨before, x', after, rfl, hbefore, hx'⟩
        exact ⟨x :: before, x', after, .inr ⟨before, rfl, rfl⟩,
          List.forall_mem_cons.mpr ⟨⟨y, hx⟩, hbefore⟩, hx'⟩
      · rintro ⟨before, x', after, ⟨rfl, heq⟩ | ⟨before, rfl, rfl⟩, hbefore, hx'⟩
        · obtain ⟨rfl, rfl⟩ := List.cons.inj heq
          exact nomatch hx.symm.trans hx'
        · exact ⟨before, x', after, rfl, (List.forall_mem_cons.mp hbefore).2, hx'⟩

theorem exists_mapM_ok_iff :
    (∃ ys, xs.mapM f = .ok ys) ↔ ∀ x ∈ xs, ∃ y, f x = .ok y := by
  constructor
  · rintro ⟨ys, h⟩ x hx
    have hmem : f x ∈ ys.map Except.ok := mapM_eq_ok_iff.mp h ▸ List.mem_map_of_mem hx
    obtain ⟨y, -, hy⟩ := List.mem_map.mp hmem
    exact ⟨y, hy.symm⟩
  · intro h
    cases hm : xs.mapM f with
    | ok ys => exact ⟨ys, rfl⟩
    | error e =>
      obtain ⟨before, x, after, rfl, -, hx⟩ := mapM_eq_error_iff.mp hm
      obtain ⟨y, hy⟩ := h x (List.mem_append_right before List.mem_cons_self)
      exact nomatch hx.symm.trans hy

theorem mem_of_mapM_eq_ok {ys : List β} (h : xs.mapM f = .ok ys) {y : β} :
    y ∈ ys ↔ ∃ x ∈ xs, f x = .ok y := by
  have hmap : Except.ok y ∈ ys.map (Except.ok (ε := ε)) ↔ Except.ok y ∈ xs.map f := by
    rw [mapM_eq_ok_iff.mp h]
  simpa using hmap

theorem getElem?_of_mapM_eq_ok {ys : List β} (h : xs.mapM f = .ok ys) {i : Nat} {x : α}
    (hx : xs[i]? = some x) : ∃ y, ys[i]? = some y ∧ f x = .ok y := by
  have hget := congrArg (·[i]?) (mapM_eq_ok_iff.mp h)
  simp only [List.getElem?_map, hx, Option.map_some] at hget
  obtain ⟨y, hy, heq⟩ := Option.map_eq_some_iff.mp hget.symm
  exact ⟨y, hy, heq.symm⟩

/-- The order of the entries shows only in the order of the results. -/
theorem exists_mapM_ok_of_perm {xs' : List α} {ys : List β} (hperm : xs.Perm xs')
    (h : xs.mapM f = .ok ys) : ∃ ys', xs'.mapM f = .ok ys' ∧ ys.Perm ys' := by
  have hfilter : ∀ {xs : List α} {ys : List β}, xs.mapM f = .ok ys →
      ys = xs.filterMap fun x => (f x).toOption := by
    intro xs ys h
    have hmap := congrArg (List.filterMap Except.toOption) (mapM_eq_ok_iff.mp h)
    rw [List.filterMap_map, List.filterMap_map] at hmap
    exact (hmap.trans List.filterMap_some).symm
  obtain ⟨ys', h'⟩ : ∃ ys', xs'.mapM f = .ok ys' := exists_mapM_ok_iff.mpr fun x hx =>
    exists_mapM_ok_iff.mp ⟨ys, h⟩ x (hperm.mem_iff.mpr hx)
  refine ⟨ys', h', ?_⟩
  rw [hfilter h, hfilter h']
  exact hperm.filterMap _

theorem mapM_append_eq_ok_iff {xs' : List α} {ys : List β} : (xs ++ xs').mapM f = .ok ys ↔
    ∃ zs zs', xs.mapM f = .ok zs ∧ xs'.mapM f = .ok zs' ∧ zs ++ zs' = ys := by
  simp only [mapM_eq_ok_iff, List.map_append]
  constructor
  · intro h
    obtain ⟨zs, zs', rfl, hzs, hzs'⟩ := List.append_eq_map_iff.mp h
    exact ⟨zs, zs', hzs.symm, hzs'.symm, rfl⟩
  · rintro ⟨zs, zs', hzs, hzs', rfl⟩
    rw [hzs, hzs', List.map_append]

/-- What is known of each result shows in the list of all results. -/
theorem map_of_mapM_eq_ok {γ : Type} {ys : List β} (h : xs.mapM f = .ok ys) {k : β → γ}
    {l : α → γ} (hk : ∀ x y, f x = .ok y → k y = l x) : ys.map k = xs.map l := by
  induction xs generalizing ys with
  | nil =>
    obtain rfl : [] = ys := Except.ok.inj h
    rfl
  | cons x xs ih =>
    obtain ⟨y, hy⟩ := exists_mapM_ok_iff.mp ⟨ys, h⟩ x List.mem_cons_self
    rw [mapM_cons_ok hy, except_map_eq_ok_iff] at h
    obtain ⟨rest, hrest, rfl⟩ := h
    rw [List.map_cons, List.map_cons, hk x y hy, ih hrest]

theorem mapM_congr (h : ∀ x ∈ xs, f x = g x) : xs.mapM f = xs.mapM g := by
  induction xs with
  | nil => rfl
  | cons x xs ih =>
    rw [List.forall_mem_cons] at h
    rw [List.mapM_cons, List.mapM_cons, h.1, ih h.2]

end HybridBuild
