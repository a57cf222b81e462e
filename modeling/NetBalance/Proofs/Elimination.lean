import NetBalance.Proofs.Resting
import NetBalance.Proofs.Vectors
import Mathlib.LinearAlgebra.Matrix.NonsingularInverse
import Mathlib.Tactic.Ring

/-! # Elimination over a field

    After some columns the rows of the given matrix, in their new order, are a
    product of two triangles: of the multipliers so far, with ones on the
    diagonal, and of what the columns have become.  A column without a pivot
    is no exception, since nothing is left of it below the diagonal.  With a
    pivot in each column the two sweeps undo the two triangles one after the
    other, so that what is returned solves the system, and nothing else does. -/

namespace NetBalance

open Matrix

variable {K : Type} {m n : Nat}

/-- Exact numbers that are told from zero, and that no rounding is allowed for. -/
structure Scalar.IsUnrounded (K : Type) [Field K] [LinearOrder K] [Scalar K] : Prop
    extends Scalar.IsExact K where
  isZero_iff : ∀ a : K, Scalar.isZero a ↔ a = 0
  abs_eq : ∀ a : K, Scalar.abs a = |a|
  epsilon_eq : (Scalar.epsilon : K) = 0

/-- The entries as a matrix. -/
def RowMatrix.toMatrix (a : RowMatrix K m n) : Matrix (Fin m) (Fin n) K := of a.entry

@[simp] theorem RowMatrix.toMatrix_apply (a : RowMatrix K m n) (i : Fin m) (j : Fin n) :
    a.toMatrix i j = a.entry i j := rfl

/-! ### Pivots -/

section Pivots

variable [Field K] [LinearOrder K] [Scalar K]

/-- An entry of the largest absolute value is one of those given. -/
theorem Linear.argmaxAbs_spec (hK : Scalar.IsUnrounded K) {v : Fin n → K} {is : List (Fin n)}
    {p : Fin n} (h : argmaxAbs v is = some p) : p ∈ is ∧ ∀ i ∈ is, |v i| ≤ |v p| := by
  cases is with
  | nil => cases h
  | cons first rest =>
    obtain rfl := Option.some.inj h
    -- the best so far is one of those seen, and none of them is larger
    induction rest using List.reverseRecOn with
    | nil => simp
    | append_singleton rest j ih =>
      rw [List.foldl_append, List.foldl_cons, List.foldl_nil]
      obtain ⟨hmem, hbest⟩ := ih rfl
      generalize rest.foldl _ first = best at hmem hbest ⊢
      rw [← List.cons_append]
      simp only [List.mem_append, List.mem_singleton]
      split
      · next hlt =>
        rw [hK.lt_iff, hK.abs_eq, hK.abs_eq] at hlt
        refine ⟨Or.inr rfl, ?_⟩
        rintro i (hi | rfl)
        · exact (hbest i hi).trans hlt.le
        · exact le_rfl
      · next hlt =>
        rw [hK.lt_iff, hK.abs_eq, hK.abs_eq, not_lt] at hlt
        refine ⟨Or.inl hmem, ?_⟩
        rintro i (hi | rfl)
        · exact hbest i hi
        · exact hlt

theorem LU.mem_fromIndex {k i : Fin n} : i ∈ fromIndex k ↔ k ≤ i := by
  simp [fromIndex]

/-- The pivot of a column is at the diagonal or below, and no entry there is larger. -/
theorem LU.pivot_spec (hK : Scalar.IsUnrounded K) (v : Fin n → K) (k : Fin n) :
    k ≤ (Linear.argmaxAbs v (fromIndex k)).getD k ∧
      ∀ i, k ≤ i → |v i| ≤ |v ((Linear.argmaxAbs v (fromIndex k)).getD k)| := by
  cases hp : Linear.argmaxAbs v (fromIndex k) with
  | none =>
    cases hlist : fromIndex k with
    | nil =>
      have hk : k ∈ fromIndex k := mem_fromIndex.2 le_rfl
      rw [hlist] at hk
      cases hk
    | cons first rest =>
      rw [hlist] at hp
      cases hp
  | some p =>
    obtain ⟨hmem, hbest⟩ := Linear.argmaxAbs_spec hK hp
    exact ⟨mem_fromIndex.1 hmem, fun i hi => hbest i (mem_fromIndex.2 hi)⟩

end Pivots

namespace LU

theorem get_exchange {α : Type} (v : Vector α n) (i j t : Fin n) :
    (exchange v i j).get t = v.get (Equiv.swap i j t) := by
  rw [Linear.get_eq_getElem, exchange, Vector.getElem_swap, Equiv.swap_apply_def]
  simp only [Fin.ext_iff]
  split
  · rfl
  · split
    · rfl
    · rfl

section Factors

variable [Field K]

/-- The multipliers of the first `k` columns. -/
def multipliers (k : Nat) (a : RowMatrix K n n) : Matrix (Fin n) (Fin n) K :=
  of fun i j => if j.val < k ∧ j < i then a.entry i j else 0

/-- What the first `k` columns and the others have become, without the multipliers. -/
def remainder (k : Nat) (a : RowMatrix K n n) : Matrix (Fin n) (Fin n) K :=
  of fun i j => if j.val < k ∧ j < i then 0 else a.entry i j

/-- The packed rows are a product of two triangles, as far as the first `k` columns go. -/
structure Factors (a : RowMatrix K n n) (k : Nat) (f : LU K n) : Prop where
  injective : Function.Injective f.order.get
  product : a.toMatrix.submatrix f.order.get id =
    multipliers k f.packed * remainder k f.packed + remainder k f.packed
  pivots : f.zeroPivot = none ↔ ∀ i : Fin n, i.val < k → f.packed.entry i i ≠ 0

variable {a rows : RowMatrix K n n} {k : Fin n} {f : LU K n}

theorem factors_zero : Factors a 0 ⟨a, Vector.ofFn id, none⟩ where
  injective := by
    intro i j h
    simpa using h
  product := by
    ext i j
    simp [multipliers, remainder, Matrix.mul_apply]
  pivots := by simp

omit [Field K] in
theorem entry_exchange (a : RowMatrix K n n) (k p i j : Fin n) :
    RowMatrix.entry (LU.exchange a k p) i j = a.entry (Equiv.swap k p i) j := by
  rw [RowMatrix.entry, get_exchange, RowMatrix.entry]

section Swap

variable {p t : Fin n} (hp : k ≤ p) (ht : t < k)
include hp ht

theorem swap_of_lt : Equiv.swap k p t = t :=
  Equiv.swap_apply_of_ne_of_ne ht.ne (ht.trans_le hp).ne

/-- Rows that are exchanged stay behind the columns that are done. -/
theorem lt_swap_iff (i : Fin n) : t < Equiv.swap k p i ↔ t < i := by
  by_cases hi : i < k
  · rw [swap_of_lt hp hi]
  · have hi' : ¬ Equiv.swap k p i < k := by
      intro hlt
      have hback := swap_of_lt hp hlt
      rw [Equiv.swap_apply_self] at hback
      exact hi (hback ▸ hlt)
    exact iff_of_true (ht.trans_le (not_lt.1 hi')) (ht.trans_le (not_lt.1 hi))

end Swap

theorem remainder_exchange {p : Fin n} (hp : k ≤ p) (i j : Fin n) :
    remainder k (LU.exchange rows k p) i j = remainder k rows (Equiv.swap k p i) j := by
  simp only [remainder, of_apply, entry_exchange]
  by_cases hj : j < k
  · simp only [lt_swap_iff hp hj]
  · have hj : ¬ j.val < k.val := hj
    simp only [hj, false_and, if_false]

theorem multipliers_exchange {p : Fin n} (hp : k ≤ p) (i j : Fin n) :
    multipliers k (LU.exchange rows k p) i j = multipliers k rows (Equiv.swap k p i) j := by
  simp only [multipliers, of_apply, entry_exchange]
  by_cases hj : j < k
  · simp only [lt_swap_iff hp hj]
  · have hj : ¬ j.val < k.val := hj
    simp only [hj, false_and, if_false]

/-- Rows from the next column on may be exchanged. -/
theorem Factors.exchange (h : Factors a k f) {p : Fin n} (hp : k ≤ p) :
    Factors a k ⟨LU.exchange f.packed k p, LU.exchange f.order k p, f.zeroPivot⟩ := by
  refine ⟨?_, ?_, ?_⟩
  · intro i j hij
    rw [get_exchange, get_exchange] at hij
    exact (Equiv.swap k p).injective (h.injective hij)
  · ext i j
    have hentry := congrFun (congrFun h.product (Equiv.swap k p i)) j
    rw [Matrix.add_apply, Matrix.mul_apply, submatrix_apply] at hentry ⊢
    rw [get_exchange, hentry, remainder_exchange hp]
    refine congrArg (· + _) (Finset.sum_congr rfl fun t _ => ?_)
    rw [multipliers_exchange hp, remainder_exchange hp]
    -- the rows of the columns that are done stay where they are
    by_cases ht : t < k
    · rw [swap_of_lt hp ht]
    · have hzero : ∀ i, multipliers k f.packed i t = 0 := fun i => if_neg fun h => ht h.1
      rw [hzero, zero_mul, zero_mul]
  · rw [h.pivots]
    refine forall₂_congr fun i hi => ?_
    rw [entry_exchange, swap_of_lt hp hi]

/-! #### Clearing a column -/

/-- A row from the next one on is a multiple of the pivot's row and what becomes of it. -/
structure Clears (k : Fin n) (a cleared : RowMatrix K n n) : Prop where
  upto : ∀ i, i ≤ k → cleared.get i = a.get i
  done : ∀ i j, j < k → cleared.entry i j = a.entry i j
  pivot : ∀ i, k < i → a.entry i k = cleared.entry i k * a.entry k k
  rest : ∀ i j, k < i → k < j →
    a.entry i j = cleared.entry i k * a.entry k j + cleared.entry i j

theorem clears_eliminate (h : rows.entry k k ≠ 0) : Clears k rows (eliminate rows k) := by
  have hupto : ∀ i, i ≤ k → (eliminate rows k).get i = rows.get i := by
    intro i hi
    have hi : i.val ≤ k.val := hi
    rw [eliminate, Linear.get_ofFn, if_pos hi]
  have hbehind : ∀ i j, k < i → (eliminate rows k).entry i j =
      if j.val < k.val then rows.entry i j
      else if j = k then rows.entry i k / rows.entry k k
      else rows.entry i j - rows.entry i k / rows.entry k k * rows.entry k j := by
    intro i j hi
    have hi : ¬ i.val ≤ k.val := not_le.2 hi
    rw [RowMatrix.entry, eliminate, Linear.get_ofFn, if_neg hi, Linear.get_ofFn]
    rfl
  refine ⟨hupto, ?_, ?_, ?_⟩
  · intro i j hj
    by_cases hi : i ≤ k
    · rw [RowMatrix.entry, hupto i hi, RowMatrix.entry]
    · have hj : j.val < k.val := hj
      rw [hbehind i j (not_le.1 hi), if_pos hj]
  · intro i hi
    rw [hbehind i k hi, if_neg (lt_irrefl _), if_pos rfl, div_mul_cancel₀ _ h]
  · intro i j hi hj
    have hj' : ¬ j.val < k.val := not_lt.2 hj.le
    rw [hbehind i k hi, hbehind i j hi, if_neg (lt_irrefl _), if_pos rfl, if_neg hj',
      if_neg hj.ne']
    ring

/-- A column without a pivot is clear already. -/
theorem clears_self (h : ∀ i, k ≤ i → rows.entry i k = 0) : Clears k rows rows where
  upto _ _ := rfl
  done _ _ _ := rfl
  pivot i hi := by rw [h i hi.le, zero_mul]
  rest i j hi _ := by rw [h i hi.le, zero_mul, zero_add]

section Clears

variable {cleared : RowMatrix K n n} (h : Clears k rows cleared)
include h

theorem Clears.multipliers (i j : Fin n) : multipliers (k.val + 1) cleared i j =
    LU.multipliers k rows i j + if j = k ∧ k < i then cleared.entry i k else 0 := by
  simp only [LU.multipliers, of_apply]
  rcases lt_trichotomy j k with hj | rfl | hj
  · have hj' : j.val < k.val + 1 := Nat.lt_succ_of_lt hj
    have hj'' : j.val < k.val := hj
    simp [hj', hj'', hj.ne, h.done i j hj]
  · simp
  · have hj' : ¬ j.val < k.val + 1 := fun h => absurd (Nat.le_of_lt_succ h) (not_le.2 hj)
    have hj'' : ¬ j.val < k.val := not_lt.2 hj.le
    simp [hj', hj'', hj.ne']

theorem Clears.remainder_of_le {i : Fin n} (hi : i ≤ k) (j : Fin n) :
    remainder (k.val + 1) cleared i j = remainder k rows i j := by
  simp only [remainder, of_apply]
  rw [RowMatrix.entry, h.upto i hi, RowMatrix.entry]
  -- behind the diagonal there are only columns before `k`
  have hiff : (j.val < k.val + 1 ∧ j < i) ↔ (j.val < k.val ∧ j < i) := by
    constructor
    · intro hj
      exact ⟨lt_of_lt_of_le hj.2 hi, hj.2⟩
    · intro hj
      exact ⟨Nat.lt_succ_of_lt hj.1, hj.2⟩
  simp only [hiff]

theorem Clears.remainder_of_lt {i : Fin n} (hi : k < i) (j : Fin n) :
    remainder k rows i j =
      cleared.entry i k * remainder k rows k j + remainder (k.val + 1) cleared i j := by
  simp only [remainder, of_apply]
  rcases lt_trichotomy j k with hj | rfl | hj
  · have hj' : j.val < k.val + 1 := Nat.lt_succ_of_lt hj
    have hj'' : j.val < k.val := hj
    simp [hj', hj'', hj, hj.trans hi]
  · simp [hi, h.pivot i hi]
  · have hj' : ¬ j.val < k.val + 1 := fun h => absurd (Nat.le_of_lt_succ h) (not_le.2 hj)
    have hj'' : ¬ j.val < k.val := not_lt.2 hj.le
    simp [hj', hj'', h.rest i j hi hj]

/-- The two triangles have the same product when a column is cleared. -/
theorem Clears.product :
    LU.multipliers (k.val + 1) cleared * remainder (k.val + 1) cleared +
        remainder (k.val + 1) cleared =
      LU.multipliers k rows * remainder k rows + remainder k rows := by
  ext i j
  rw [Matrix.add_apply, Matrix.mul_apply, Matrix.add_apply, Matrix.mul_apply]
  have hsum : ∑ t, LU.multipliers (k.val + 1) cleared i t * remainder (k.val + 1) cleared t j =
      ∑ t, LU.multipliers k rows i t * remainder k rows t j +
        if k < i then cleared.entry i k * remainder k rows k j else 0 := by
    have hterm : ∀ t, LU.multipliers (k.val + 1) cleared i t * remainder (k.val + 1) cleared t j =
        LU.multipliers k rows i t * remainder k rows t j +
          if t = k then if k < i then cleared.entry i k * remainder k rows k j else 0 else 0 := by
      intro t
      rw [h.multipliers, add_mul]
      by_cases ht : t ≤ k
      · rw [h.remainder_of_le ht]
        by_cases htk : t = k
        · subst htk
          simp
        · simp [htk]
      · have hzero : LU.multipliers k rows i t = 0 := if_neg fun h => ht h.1.le
        have hne : t ≠ k := fun h => ht h.le
        simp [hzero, hne]
    rw [Finset.sum_congr rfl fun t _ => hterm t, Finset.sum_add_distrib, Finset.sum_ite_eq']
    simp
  rw [hsum]
  by_cases hi : k < i
  · rw [if_pos hi, h.remainder_of_lt hi, add_assoc]
  · rw [if_neg hi, add_zero, h.remainder_of_le (not_lt.1 hi)]

end Clears

theorem Factors.clear {cleared : RowMatrix K n n} {z : Option (Fin n)} (h : Factors a k f)
    (hclears : Clears k f.packed cleared)
    (hpivot : z = none ↔ f.zeroPivot = none ∧ f.packed.entry k k ≠ 0) :
    Factors a (k.val + 1) ⟨cleared, f.order, z⟩ := by
  refine ⟨h.injective, ?_, ?_⟩
  · rw [hclears.product]
    exact h.product
  · have hdiagonal : ∀ i, i ≤ k → cleared.entry i i = f.packed.entry i i := by
      intro i hi
      rw [RowMatrix.entry, hclears.upto i hi, RowMatrix.entry]
    rw [hpivot, h.pivots]
    constructor
    · rintro ⟨hbefore, hk⟩ i hi
      have hi : i ≤ k := Nat.le_of_lt_succ hi
      rw [hdiagonal i hi]
      rcases hi.lt_or_eq with hi | rfl
      · exact hbefore i hi
      · exact hk
    · intro hall
      refine ⟨fun i hi => ?_, ?_⟩
      · have hi' : i ≤ k := Nat.le_of_lt hi
        rw [← hdiagonal i hi']
        exact hall i (Nat.lt_succ_of_lt hi)
      · rw [← hdiagonal k le_rfl]
        exact hall k (Nat.lt_succ_self _)

end Factors

section Run

variable [Field K] [LinearOrder K] [IsStrictOrderedRing K] [Scalar K] {a : RowMatrix K n n}
  {k : Fin n} {f : LU K n}

/-- One more column. -/
theorem Factors.step (hK : Scalar.IsUnrounded K) (h : Factors a k f) :
    Factors a (k.val + 1) (f.step k) := by
  obtain ⟨hp, hlargest⟩ := pivot_spec hK (fun i => f.packed.entry i k) k
  rw [LU.step]
  generalize (Linear.argmaxAbs (fun i => f.packed.entry i k) (fromIndex k)).getD k = p at hp hlargest
  have hexchanged := h.exchange hp
  by_cases hpivot : RowMatrix.entry (LU.exchange f.packed k p) k k = 0
  · simp only [(hK.isZero_iff _).2 hpivot, if_true]
    refine hexchanged.clear (clears_self fun i hi => ?_) ?_
    · -- no entry from the diagonal on is larger than the pivot
      rw [entry_exchange, Equiv.swap_apply_left] at hpivot
      have hle : k ≤ Equiv.swap k p i := by
        by_contra hlt
        have hback := swap_of_lt hp (not_le.1 hlt)
        rw [Equiv.swap_apply_self] at hback
        exact hlt (hback ▸ hi)
      have hzero := hlargest _ hle
      rw [hpivot, abs_zero] at hzero
      rw [entry_exchange]
      exact abs_eq_zero.1 (le_antisymm hzero (abs_nonneg _))
    · simp [hpivot]
  · have hpivot' : Scalar.isZero (RowMatrix.entry (LU.exchange f.packed k p) k k) = false := by
      rw [← Bool.not_eq_true, hK.isZero_iff]
      exact hpivot
    simp only [hpivot', Bool.false_eq_true, if_false]
    exact hexchanged.clear (clears_eliminate hpivot) (by simp [hpivot])

/-- All columns. -/
theorem factors_ofMatrix (hK : Scalar.IsUnrounded K) (a : RowMatrix K n n) :
    Factors a n (ofMatrix a) := by
  have hrun : ∀ k, k ≤ n →
      Factors a k (((List.finRange n).take k).foldl LU.step ⟨a, Vector.ofFn id, none⟩) := by
    intro k
    induction k with
    | zero => exact fun _ => factors_zero
    | succ k ih =>
      intro hk
      have hlength : k < (List.finRange n).length := by
        rw [List.length_finRange]
        exact hk
      rw [← List.take_concat_get' _ _ hlength, List.foldl_append, List.foldl_cons, List.foldl_nil,
        List.getElem_finRange]
      have hbefore : Factors a (⟨k, hk⟩ : Fin n).val _ := ih (Nat.le_of_succ_le hk)
      exact hbefore.step hK
  have hall := hrun n le_rfl
  rwa [List.take_of_length_le (List.length_finRange.le)] at hall

end Run

/-! ### Sweeps -/

section Sweep

variable {order : List (Fin n)} {value : Vector K n → Fin n → K} {b : Vector K n} {i : Fin n}

theorem sweep_append (before rest : List (Fin n)) :
    sweep (before ++ rest) value b = sweep rest value (sweep before value b) := by
  rw [sweep, List.foldl_append, sweep, sweep]

theorem get_sweep_of_notMem (h : i ∉ order) : (sweep order value b).get i = b.get i := by
  induction order generalizing b with
  | nil => rfl
  | cons j order ih =>
    rw [List.mem_cons, not_or] at h
    rw [sweep, List.foldl_cons]
    show (sweep order value (b.set j (value b j) j.isLt)).get i = _
    rw [ih h.2, Linear.get_set, if_neg (Ne.symm h.1)]

/-- An entry gets its value when it is reached, and keeps it. -/
theorem get_sweep {before rest : List (Fin n)} (hnodup : (before ++ i :: rest).Nodup) :
    (sweep (before ++ i :: rest) value b).get i = value (sweep before value b) i := by
  rw [List.nodup_append, List.nodup_cons] at hnodup
  obtain ⟨-, ⟨hrest, -⟩, -⟩ := hnodup
  rw [sweep_append, sweep, List.foldl_cons]
  show (sweep rest value (Vector.set _ i _ i.isLt)).get i = _
  rw [get_sweep_of_notMem hrest, Linear.get_set, if_pos rfl]

/-- Entries that are read were reached before, and are final. -/
theorem get_sweep_before {before rest : List (Fin n)} {j : Fin n}
    (hnodup : (before ++ rest).Nodup) (hj : j ∈ before) :
    (sweep before value b).get j = (sweep (before ++ rest) value b).get j := by
  have hrest : j ∉ rest := fun hrest => (List.nodup_append.1 hnodup).2.2 j hj j hrest rfl
  rw [sweep_append, get_sweep_of_notMem hrest]

end Sweep

section Triangles

variable [Field K] {coefficient : Fin n → Fin n → K} {b : Vector K n}

theorem reduceEntry_eq (js : List (Fin n)) (x : Vector K n) (i : Fin n) :
    reduceEntry coefficient js x i =
      x.get i - (js.map fun j => coefficient i j * x.get j).sum := by
  rw [reduceEntry]
  generalize x.get i = s
  induction js generalizing s with
  | nil => simp
  | cons j js ih => rw [List.foldl_cons, ih, List.map_cons, List.sum_cons, sub_sub]

theorem finRange_eq_before_append (i : Fin n) : List.finRange n =
    before i ++ i :: (List.finRange n).filter fun j => i.val < j.val := by
  have hsorted := List.pairwise_lt_finRange n
  obtain ⟨ls, rs, hsplit⟩ := List.append_of_mem (List.mem_finRange i)
  rw [before, hsplit]
  rw [hsplit, List.pairwise_append, List.pairwise_cons] at hsorted
  obtain ⟨-, ⟨hrs, -⟩, hls⟩ := hsorted
  have hls : ∀ j ∈ ls, j.val < i.val := fun j hj => hls j hj i List.mem_cons_self
  have hrs : ∀ j ∈ rs, i.val < j.val := hrs
  have hfirst : (ls ++ i :: rs).filter (fun j => j.val < i.val) = ls := by
    rw [List.filter_append, List.filter_eq_self.2 (by simpa using hls),
      List.filter_eq_nil_iff.2, List.append_nil]
    simpa using fun j hj => (hrs j hj).le
  have hlast : (ls ++ i :: rs).filter (fun j => i.val < j.val) = rs := by
    rw [List.filter_append, List.filter_eq_nil_iff.2 (by simpa using fun j hj => (hls j hj).le),
      List.nil_append, List.filter_cons_of_neg (by simp), List.filter_eq_self.2 (by simpa using hrs)]
  rw [hfirst, hlast]

theorem sum_map_filter_finRange (p : Fin n → Bool) (f : Fin n → K) :
    (((List.finRange n).filter p).map f).sum = ∑ j, if p j then f j else 0 := by
  rw [Fin.sum_univ_def]
  induction List.finRange n with
  | nil => rfl
  | cons j js ih =>
    cases hp : p j with
    | false => rw [List.filter_cons_of_neg (by simp [hp]), ih]; simp [hp]
    | true => rw [List.filter_cons_of_pos hp, List.map_cons, List.sum_cons, ih]; simp [hp]

theorem after_append (i : Fin n) :
    (List.finRange n).reverse = after i ++ i :: (before i).reverse := by
  nth_rewrite 1 [finRange_eq_before_append i]
  rw [List.reverse_append, List.reverse_cons, List.append_assoc, after]
  rfl

/-- An entry is made of its right-hand side and of the final values of those reached before. -/
theorem get_sweep_reduceEntry (value : Fin n → K → K) {order : List (Fin n)}
    {js : Fin n → List (Fin n)} {y : Vector K n} {i : Fin n} {rest : List (Fin n)}
    (hnodup : order.Nodup) (horder : order = js i ++ i :: rest)
    (hy : sweep order (fun x i => value i (reduceEntry coefficient (js i) x i)) b = y) :
    y.get i = value i (b.get i - ((js i).map fun j => coefficient i j * y.get j).sum) := by
  subst horder hy
  have hi : i ∉ js i := fun hi => (List.nodup_append.1 hnodup).2.2 i hi i List.mem_cons_self rfl
  rw [get_sweep hnodup, reduceEntry_eq, get_sweep_of_notMem hi]
  refine congrArg (fun s => value i (b.get i - s)) ?_
  refine congrArg List.sum (List.map_congr_left fun j hj => ?_)
  rw [get_sweep_before hnodup hj]

/-- The first sweep undoes the multipliers, beside ones on the diagonal. -/
theorem solveLower_spec (f : LU K n) (b : Vector K n) :
    multipliers n f.packed *ᵥ (f.solveLower b).get + (f.solveLower b).get = b.get := by
  funext i
  have hget := get_sweep_reduceEntry (fun _ s => s) (List.nodup_finRange n)
    (finRange_eq_before_append i) (rfl : f.solveLower b = _)
  rw [before, sum_map_filter_finRange] at hget
  have hsum : (multipliers n f.packed *ᵥ (f.solveLower b).get) i =
      ∑ j, if decide (j.val < i.val) then f.packed.entry i j * (f.solveLower b).get j else 0 := by
    show ∑ j, multipliers n f.packed i j * (f.solveLower b).get j = _
    refine Finset.sum_congr rfl fun j _ => ?_
    simp [multipliers, ite_mul]
  rw [Pi.add_apply, hsum, hget]
  ring

/-- The second sweep undoes the rest. -/
theorem solveUpper_spec {f : LU K n} (h : ∀ i, f.packed.entry i i ≠ 0) (b : Vector K n) :
    remainder n f.packed *ᵥ (f.solveUpper b).get = b.get := by
  funext i
  have hget := get_sweep_reduceEntry (fun i s => s / f.packed.entry i i)
    (List.nodup_reverse.2 (List.nodup_finRange n)) (after_append i) (rfl : f.solveUpper b = _)
  rw [after, List.map_reverse, List.sum_reverse, sum_map_filter_finRange] at hget
  have hsum : (remainder n f.packed *ᵥ (f.solveUpper b).get) i =
      f.packed.entry i i * (f.solveUpper b).get i +
        ∑ j, if decide (i.val < j.val) then f.packed.entry i j * (f.solveUpper b).get j else 0 := by
    have hterm : ∀ j, remainder n f.packed i j * (f.solveUpper b).get j =
        (if j = i then f.packed.entry i i * (f.solveUpper b).get i else 0) +
          if decide (i.val < j.val) then f.packed.entry i j * (f.solveUpper b).get j else 0 := by
      intro j
      rcases lt_trichotomy j i with hj | rfl | hj
      · have hj' : ¬ i.val < j.val := not_lt.2 hj.le
        simp [remainder, hj, hj', hj.ne]
      · simp [remainder]
      · have hj' : i.val < j.val := hj
        simp [remainder, hj.le, hj', hj.ne']
    show ∑ j, remainder n f.packed i j * (f.solveUpper b).get j = _
    rw [Finset.sum_congr rfl fun j _ => hterm j, Finset.sum_add_distrib, Finset.sum_ite_eq']
    simp
  rw [hsum, hget]
  field_simp [h i]
  ring

end Triangles

section Solve

variable [Field K] [LinearOrder K] [IsStrictOrderedRing K] [Scalar K] {a : RowMatrix K n n}

/-- With a pivot in each column, what is returned solves the system. -/
theorem mulVec_solve (hK : Scalar.IsUnrounded K) (h : (ofMatrix a).zeroPivot = none)
    (b : Vector K n) : a.toMatrix *ᵥ ((ofMatrix a).solve b).get = b.get := by
  have hfactors := factors_ofMatrix hK a
  generalize ofMatrix a = f at h hfactors ⊢
  have hpivots : ∀ i, f.packed.entry i i ≠ 0 := fun i => hfactors.pivots.1 h i i.isLt
  have hordered : (a.toMatrix *ᵥ (f.solve b).get) ∘ f.order.get = b.get ∘ f.order.get := by
    have hsubmatrix : (a.toMatrix *ᵥ (f.solve b).get) ∘ f.order.get =
        a.toMatrix.submatrix f.order.get id *ᵥ (f.solve b).get := rfl
    rw [hsubmatrix, hfactors.product, Matrix.add_mulVec, ← Matrix.mulVec_mulVec, solve,
      solveUpper_spec hpivots, solveLower_spec]
    funext i
    exact Linear.get_ofFn _ i
  -- the new order of the rows reaches all of them
  funext i
  obtain ⟨j, rfl⟩ := (Finite.injective_iff_surjective.1 hfactors.injective) i
  exact congrFun hordered j

/-- With a pivot in each column, the matrix is invertible. -/
theorem isUnit_toMatrix (hK : Scalar.IsUnrounded K) (h : (ofMatrix a).zeroPivot = none) :
    IsUnit a.toMatrix := by
  rw [← Matrix.mulVec_surjective_iff_isUnit]
  intro y
  refine ⟨_, (mulVec_solve hK h (Vector.ofFn y)).trans ?_⟩
  funext i
  exact Linear.get_ofFn y i

end Solve

end LU

/-! ### Operators -/

/-- The solution that a square matrix gives for a right-hand side solves the system, and is the only
    one that does. -/
theorem LinearOperator.mulVec_solve [Field K] [LinearOrder K] [IsStrictOrderedRing K] [Scalar K]
    (hK : Scalar.IsUnrounded K) {a : RowMatrix K m n} {tolerance : K} {allowLeastSquares : Bool}
    {op : LinearOperator K m n} {b : Vector K m} {x : Vector K n} (hsquare : m = n)
    (hop : ofMatrix a tolerance allowLeastSquares = .ok op) (hx : op.solve b = .ok x) :
    a.toMatrix *ᵥ x.get = b.get ∧ ∀ y, a.toMatrix *ᵥ y = b.get → y = x.get := by
  subst hsquare
  rw [ofMatrix, dif_pos rfl, Vector.cast_rfl, map_eq_ok] at hop
  obtain ⟨f, hf, rfl⟩ := hop
  have hfactored : f = LU.ofMatrix a ∧ (LU.ofMatrix a).zeroPivot = none := by
    rw [factor] at hf
    split at hf
    · cases hf
    · simp only at hf
      split at hf
      · cases hf
      · next hpivot =>
        split at hf
        · exact ⟨(Except.ok.inj hf).symm, hpivot⟩
        · cases hf
  obtain ⟨rfl, hpivot⟩ := hfactored
  have hsolve : x = (LU.ofMatrix a).solve b := by
    rw [solve] at hx
    split at hx
    · cases hx
    · rw [← Except.ok.inj hx, Vector.cast_rfl]
  have hsolves : a.toMatrix *ᵥ x.get = b.get := by
    rw [hsolve]
    exact LU.mulVec_solve hK hpivot b
  refine ⟨hsolves, fun y hy => ?_⟩
  exact Matrix.mulVec_injective_iff_isUnit.2 (LU.isUnit_toMatrix hK hpivot) (hy.trans hsolves.symm)

end NetBalance
