import NetBalance.Equation.Basic
import Mathlib.Algebra.BigOperators.Fin
import Mathlib.Algebra.Ring.Int.Defs

/-! # Products without one factor

    A partial product is made of two running products, one from each end of the
    list, that meet at the position left out.  Neither of them stays as it is
    when a factor is put in front, so they are not followed position by
    position: `partials_cons` says what a new first factor does to all partial
    products at a time, and the rest is one induction on the list.  No factor is
    ever divided by, so a factor may be zero, or divide zero. -/

namespace NetBalance

section Monoid

variable {K : Type} [CommMonoid K]

theorem productsBefore_eq_map (acc : K) (xs : List K) :
    productsBefore acc xs = (productsBefore 1 xs).map (acc * ·) := by
  induction xs generalizing acc with
  | nil => rfl
  | cons x xs ih =>
    rw [productsBefore, productsBefore, ih (acc * x), ih (1 * x), List.map_cons, List.map_map,
      mul_one]
    refine congrArg _ (List.map_congr_left fun y _ => ?_)
    show acc * x * y = acc * (1 * x * y)
    rw [one_mul, mul_assoc]

theorem productsBefore_concat (acc x : K) (xs : List K) :
    productsBefore acc (xs ++ [x]) = productsBefore acc xs ++ [acc * xs.prod] := by
  induction xs generalizing acc with
  | nil => simp [productsBefore]
  | cons y xs ih => simp [productsBefore, ih, mul_assoc]

theorem productsAfter_cons (x : K) (xs : List K) :
    productsAfter (x :: xs) = xs.prod :: productsAfter xs := by
  rw [productsAfter, productsAfter, List.reverse_cons, productsBefore_concat, List.reverse_concat,
    one_mul, List.prod_reverse]

/-- Without its first factor a product is that of the others; any other factor leaves the first one
    in. -/
theorem partials_cons (x : K) (xs : List K) :
    partials (x :: xs) = xs.prod :: (partials xs).map (x * ·) := by
  rw [partials, partials, productsAfter_cons, productsBefore, List.zipWith_cons_cons, one_mul,
    one_mul, productsBefore_eq_map x, List.zipWith_map_left, List.map_zipWith]
  simp only [mul_assoc]

/-- All factors but the first are those behind it. -/
theorem prod_but_zero {n : Nat} (f : Fin (n + 1) → K) :
    ∏ j with j ≠ 0, f j = ∏ j : Fin n, f j.succ := by
  rw [Finset.prod_filter, Fin.prod_univ_succ]
  simp

theorem prod_but_succ {n : Nat} (f : Fin (n + 1) → K) (i : Fin n) :
    ∏ j with j ≠ i.succ, f j = f 0 * ∏ j with j ≠ i, f j.succ := by
  have hne : 0 ≠ i.succ := (Fin.succ_ne_zero i).symm
  rw [Finset.prod_filter, Fin.prod_univ_succ, if_pos hne, Finset.prod_filter]
  simp only [ne_eq, Fin.succ_inj]

/-- Every partial product is the product over all other positions. -/
theorem partials_eq_ofFn (xs : List K) :
    partials xs = List.ofFn fun i : Fin xs.length => ∏ j with j ≠ i, xs.get j := by
  induction xs with
  | nil => rfl
  | cons x xs ih =>
    -- the new first factor is missing at its own position and present at all later ones
    have hfirst : ∏ j : Fin (xs.length + 1) with j ≠ 0, (x :: xs).get j = xs.prod := by
      rw [prod_but_zero]
      simp
    have hlater : ∀ i : Fin xs.length,
        ∏ j with j ≠ i.succ, (x :: xs).get j = x * ∏ j with j ≠ i, xs.get j :=
      prod_but_succ (x :: xs).get
    calc partials (x :: xs)
        = xs.prod :: (partials xs).map (x * ·) := partials_cons x xs
      _ = xs.prod :: List.ofFn fun i : Fin xs.length => x * ∏ j with j ≠ i, xs.get j := by
        rw [ih, List.map_ofFn]
        rfl
      _ = List.ofFn fun i : Fin (xs.length + 1) => ∏ j with j ≠ i, (x :: xs).get j := by
        rw [List.ofFn_succ, hfirst]
        simp only [hlater]

theorem get_partials (xs : List K) (i : Fin xs.length) :
    (partials xs).get (i.cast (length_partials xs).symm) = ∏ j with j ≠ i, xs.get j := by
  rw [List.get_of_eq (partials_eq_ofFn xs), List.get_ofFn]
  rfl

theorem get_partials_mul_get (xs : List K) (i : Fin xs.length) :
    (partials xs).get (i.cast (length_partials xs).symm) * xs.get i = xs.prod := by
  calc (partials xs).get (i.cast (length_partials xs).symm) * xs.get i
      = (∏ j ∈ Finset.univ.erase i, xs.get j) * xs.get i := by
        rw [get_partials, Finset.filter_ne']
    _ = ∏ j, xs.get j := Finset.prod_erase_mul _ _ (Finset.mem_univ i)
    _ = xs.prod := by simp

end Monoid

/-- Of two factors that are zero, every partial product has one. -/
theorem eq_zero_of_mem_partials {K : Type} [CommMonoidWithZero K] {xs : List K}
    {i j : Fin xs.length} (hne : i ≠ j) (hi : xs.get i = 0) (hj : xs.get j = 0) {y : K}
    (hy : y ∈ partials xs) : y = 0 := by
  obtain ⟨k, rfl⟩ := List.get_of_mem hy
  have hzero : ∃ l, l ≠ k.cast (length_partials xs) ∧ xs.get l = 0 := by
    by_cases hk : i = k.cast (length_partials xs)
    · exact ⟨j, fun h => hne (hk.trans h.symm), hj⟩
    · exact ⟨i, hk, hi⟩
  obtain ⟨l, hl, hl'⟩ := hzero
  calc (partials xs).get k
      = ∏ l with l ≠ k.cast (length_partials xs), xs.get l := get_partials xs (k.cast _)
    _ = 0 := Finset.prod_eq_zero (Finset.mem_filter.2 ⟨Finset.mem_univ l, hl⟩) hl'

/-- Over a commutative ring, for factors in any number: there are as many partial products, each is
    the product of the factors at all other positions, with its own factor it makes up the whole
    product, and where two factors are zero all partial products are. -/
theorem partials_leave_one_out {K : Type} [CommRing K] (xs : List K) :
    (partials xs).length = xs.length ∧
    (∀ i : Fin xs.length,
      (partials xs).get (i.cast (length_partials xs).symm) = ∏ j with j ≠ i, xs.get j ∧
      (partials xs).get (i.cast (length_partials xs).symm) * xs.get i = xs.prod) ∧
    ∀ i j : Fin xs.length, i ≠ j → xs.get i = 0 → xs.get j = 0 → ∀ y ∈ partials xs, y = 0 := by
  refine ⟨length_partials xs, ?_, ?_⟩
  · intro i
    exact ⟨get_partials xs i, get_partials_mul_get xs i⟩
  · intro i j hne hi hj y hy
    exact eq_zero_of_mem_partials hne hi hj hy

/-- Next to one zero, only the product without it can be other than zero; next to two none can. -/
theorem partials_leave_one_out_zeros :
    partials ([2, 0, 5] : List ℤ) = [0, 10, 0] ∧
    (∏ j with j ≠ 1, ([2, 0, 5] : List ℤ).get j) = 10 ∧
    (0 : Fin 3) ≠ 2 ∧ ([0, 3, 0] : List ℤ).get 0 = 0 ∧ ([0, 3, 0] : List ℤ).get 2 = 0 ∧
    ∀ y ∈ partials ([0, 3, 0] : List ℤ), y = 0 := by
  refine ⟨rfl, ?_, by decide, rfl, rfl, ?_⟩
  · exact ((partials_leave_one_out ([2, 0, 5] : List ℤ)).2.1 1).1.symm
  · exact (partials_leave_one_out ([0, 3, 0] : List ℤ)).2.2 0 2 (by decide) rfl rfl

end NetBalance
