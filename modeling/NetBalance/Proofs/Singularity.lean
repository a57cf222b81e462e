import NetBalance.Proofs.Exposure
import NetBalance.Proofs.LinearConstraints
import NetBalance.Proofs.Projection
import Mathlib.LinearAlgebra.Matrix.Block

/-! # What a linear operator refuses

    A matrix is singular if it takes some other vector than zero to zero.
    Elimination meets a column without a pivot exactly then: the triangle that
    is left has a zero on its diagonal, and the multipliers beside it cannot
    undo that.  The estimated condition number is never negative, so that a
    tolerance of zero refuses nothing more. -/

namespace NetBalance

open Matrix

variable {K : Type} {m n : Nat}

/-- Some other vector than zero is taken to zero. -/
def RowMatrix.IsSingular [Field K] (a : RowMatrix K m n) : Prop :=
  ∃ y : Fin n → K, y ≠ 0 ∧ a.toMatrix *ᵥ y = 0

theorem RowMatrix.isSingular_iff_det [Field K] {a : RowMatrix K n n} :
    a.IsSingular ↔ a.toMatrix.det = 0 :=
  Matrix.exists_mulVec_eq_zero_iff

/-- The matrix has another shape than it has to have. -/
def LinearError.OfShape : LinearError K → Prop
  | .notAMatrix _ | .notSquare _ _ => True
  | .zeroPivot _ | .illConditioned _ | .notFinite | .wrongLength => False

/-- The matrix is singular, or so near to it that it counts as such. -/
def LinearError.OfSingularity : LinearError K → Prop
  | .zeroPivot _ | .illConditioned _ => True
  | .notAMatrix _ | .notSquare _ _ | .notFinite | .wrongLength => False

/-- Exact numbers are finite. -/
theorem RowMatrix.isFinite_of_exact [Field K] [LinearOrder K] [Scalar K] (hK : Scalar.IsExact K)
    (a : RowMatrix K m n) : a.isFinite := by
  simp [RowMatrix.isFinite, hK.isFinite]

/-! ### Pivots -/

namespace LU

variable [Field K] {a : RowMatrix K n n} {f : LU K n}

/-- What elimination leaves of a column that is done is on the diagonal or above. -/
theorem isUpperTriangular_remainder : (remainder n f.packed).IsUpperTriangular := by
  intro i j hij
  have hij : j < i := hij
  rw [remainder, of_apply, if_pos ⟨j.isLt, hij⟩]

theorem det_remainder : (remainder n f.packed).det = ∏ i, f.packed.entry i i := by
  rw [Matrix.det_of_isUpperTriangular isUpperTriangular_remainder]
  refine Finset.prod_congr rfl fun i _ => ?_
  rw [remainder, of_apply, if_neg fun h => lt_irrefl i h.2]

/-- What the second triangle takes to zero, the matrix does, too. -/
theorem Factors.mulVec_eq_zero (h : Factors a n f) {y : Fin n → K}
    (hy : remainder n f.packed *ᵥ y = 0) : a.toMatrix *ᵥ y = 0 := by
  have hordered : (a.toMatrix *ᵥ y) ∘ f.order.get = 0 := by
    have hsubmatrix : (a.toMatrix *ᵥ y) ∘ f.order.get =
        a.toMatrix.submatrix f.order.get id *ᵥ y := rfl
    rw [hsubmatrix, h.product, Matrix.add_mulVec, ← Matrix.mulVec_mulVec, hy, mulVec_zero, add_zero]
  -- the new order of the rows reaches all of them
  funext i
  obtain ⟨j, rfl⟩ := (Finite.injective_iff_surjective.1 h.injective) i
  exact congrFun hordered j

variable [LinearOrder K] [IsStrictOrderedRing K] [Scalar K]

/-- Elimination finds a pivot in each column exactly if the matrix is not singular. -/
theorem zeroPivot_eq_none_iff (hK : Scalar.IsUnrounded K) :
    (ofMatrix a).zeroPivot = none ↔ ¬ a.IsSingular := by
  constructor
  · intro hpivot hsingular
    have hunit := (Matrix.isUnit_iff_isUnit_det _).1 (isUnit_toMatrix hK hpivot)
    exact hunit.ne_zero (RowMatrix.isSingular_iff_det.1 hsingular)
  · intro hregular
    have hfactors := factors_ofMatrix hK a
    rw [hfactors.pivots]
    intro i _ hzero
    have hdet : (remainder n (ofMatrix a).packed).det = 0 := by
      rw [det_remainder]
      exact Finset.prod_eq_zero (Finset.mem_univ i) hzero
    obtain ⟨y, hy, hzero⟩ := Matrix.exists_mulVec_eq_zero_iff.2 hdet
    exact hregular ⟨y, hy, hfactors.mulVec_eq_zero hzero⟩

end LU

/-! ### The estimate -/

/-- The estimated reciprocal condition number is not negative. -/
theorem Condition.reciprocal_nonneg [Field K] [LinearOrder K] [IsStrictOrderedRing K] [Scalar K]
    (hK : Scalar.IsUnrounded K) (f : LU K n) (norm : K) : 0 ≤ reciprocal f norm := by
  unfold reciprocal
  simp only
  split
  · next hpositive =>
    simp only [Bool.and_eq_true, hK.lt_iff] at hpositive
    obtain ⟨⟨-, hnorm⟩, hinverse⟩ := hpositive
    exact div_nonneg (div_nonneg zero_le_one hinverse.le) hnorm.le
  · exact le_rfl

/-! ### Operators -/

namespace LinearOperator

variable [Field K] [Scalar K] {tolerance : K} {allowLeastSquares : Bool}

/-- How matrices that are not square are to be solved does not matter to square ones. -/
theorem ofMatrix_of_square {a : RowMatrix K m n} (h : m = n) (allow allow' : Bool) :
    ofMatrix a tolerance allow = ofMatrix a tolerance allow' := by
  rw [ofMatrix, ofMatrix, dif_pos h, dif_pos h]

variable [LinearOrder K]

/-- A square matrix is refused for being singular only, or for a bad condition. -/
theorem ofSingularity_of_square (hK : Scalar.IsUnrounded K) {a : RowMatrix K n n}
    {e : LinearError K} (h : ofMatrix a tolerance allowLeastSquares = .error e) :
    e.OfSingularity := by
  rw [ofMatrix, dif_pos rfl, Vector.cast_rfl, map_eq_error, factor,
    RowMatrix.isFinite_of_exact hK.toIsExact] at h
  simp only [Bool.not_true, Bool.false_eq_true, if_false] at h
  split at h
  · cases h
    trivial
  · split at h
    · cases h
    · cases h
      trivial

/-- A matrix is refused for its shape exactly if it is not square and least squares are not
    allowed. -/
theorem ofShape_iff (hK : Scalar.IsUnrounded K) (a : RowMatrix K m n) :
    (∃ e, ofMatrix a tolerance allowLeastSquares = .error e ∧ e.OfShape) ↔
      m ≠ n ∧ allowLeastSquares = false := by
  constructor
  · rintro ⟨e, h, he⟩
    have hshape : m ≠ n := by
      rintro rfl
      have hsingular := ofSingularity_of_square hK h
      cases e <;> trivial
    refine ⟨hshape, ?_⟩
    rw [ofMatrix, dif_neg hshape] at h
    cases allowLeastSquares with
    | false => rfl
    | true => cases h
  · rintro ⟨hshape, hrefused⟩
    exact ⟨_, (ofMatrix_eq_notSquare _ _ _).2 ⟨hshape, hrefused, rfl, rfl⟩, trivial⟩

variable [IsStrictOrderedRing K]

/-- A singular matrix is refused for a column without a pivot, whatever the tolerance is. -/
theorem ofMatrix_of_isSingular (hK : Scalar.IsUnrounded K) {a : RowMatrix K n n}
    (h : a.IsSingular) : ∃ k, ofMatrix a tolerance allowLeastSquares = .error (.zeroPivot k) := by
  obtain ⟨k, hk⟩ : ∃ k, (LU.ofMatrix a).zeroPivot = some k := by
    rw [← Option.ne_none_iff_exists', Ne, LU.zeroPivot_eq_none_iff hK, not_not]
    exact h
  refine ⟨k.val + 1, ?_⟩
  rw [ofMatrix, dif_pos rfl, Vector.cast_rfl, factor, RowMatrix.isFinite_of_exact hK.toIsExact]
  simp only [Bool.not_true, Bool.false_eq_true, if_false, hk]
  rfl

/-- Any other square matrix is accepted if no condition is too bad. -/
theorem exists_ofMatrix_of_regular (hK : Scalar.IsUnrounded K) (hle : Scalar.IsOrdered K)
    {a : RowMatrix K n n} (h : ¬ a.IsSingular) (htolerance : tolerance ≤ 0) :
    ∃ op, ofMatrix a tolerance allowLeastSquares = .ok op := by
  have hpivot := (LU.zeroPivot_eq_none_iff hK).2 h
  have hcondition : Scalar.le tolerance (Condition.reciprocal (LU.ofMatrix a) a.columnNorm) :=
    (hle.le_iff _ _).2 (htolerance.trans (Condition.reciprocal_nonneg hK _ _))
  refine ⟨.factored rfl (LU.ofMatrix a), ?_⟩
  rw [ofMatrix, dif_pos rfl, Vector.cast_rfl, factor, RowMatrix.isFinite_of_exact hK.toIsExact]
  simp only [Bool.not_true, Bool.false_eq_true, if_false, hpivot, hcondition, Bool.or_true, if_true]
  rfl

/-- With a tolerance of zero, what is refused is singular. -/
theorem isSingular_of_ofMatrix_zero (hK : Scalar.IsUnrounded K) (hle : Scalar.IsOrdered K)
    {a : RowMatrix K n n} {e : LinearError K} (h : ofMatrix a 0 allowLeastSquares = .error e) :
    a.IsSingular := by
  by_contra hregular
  obtain ⟨op, hop⟩ : ∃ op, ofMatrix a 0 allowLeastSquares = .ok op :=
    exists_ofMatrix_of_regular hK hle hregular le_rfl
  rw [hop] at h
  cases h

/-- What an accepted matrix gives for a right-hand side solves the system if the matrix is square,
    and the normal equations whatever its shape is. -/
theorem exists_solution (hK : Scalar.IsUnrounded K) {a : RowMatrix K m n}
    {op : LinearOperator K m n} (hop : ofMatrix a tolerance allowLeastSquares = .ok op)
    (b : Vector K m) : ∃ x, op.solve b = .ok x ∧ (m = n → a.toMatrix *ᵥ x.get = b.get) ∧
      (a.toMatrix)ᵀ *ᵥ (a.toMatrix *ᵥ x.get) = (a.toMatrix)ᵀ *ᵥ b.get := by
  have hfinite : b.toList.all Scalar.isFinite := by
    simp [hK.isFinite]
  obtain ⟨x, hx⟩ := exists_solve (RowMatrix.isFinite_of_exact hK.toIsExact a) hfinite hop
  refine ⟨x, hx, fun hsquare => (mulVec_solve hK hsquare hop hx).1, ?_⟩
  have hnormal := transpose_mulVec_solve hK hop hx
  rw [mulVec_sub, sub_eq_zero] at hnormal
  exact hnormal.symm

/-- A matrix is refused for its shape exactly if it is not square and least squares are not allowed;
    a square one is refused, and then as singular, whenever it is singular, and with tolerance zero
    only then.  Whenever it is accepted, every right-hand side is solved: the system of a square
    matrix, the normal equations of any other.  To square ones the mode is all the same. -/
theorem refuses_or_solves (hK : Scalar.IsUnrounded K) (hle : Scalar.IsOrdered K)
    (a : RowMatrix K m n) (tolerance : K) (allowLeastSquares : Bool) :
    ((∃ e, ofMatrix a tolerance allowLeastSquares = .error e ∧ e.OfShape) ↔
      m ≠ n ∧ allowLeastSquares = false) ∧
    (m ≠ n → allowLeastSquares = true → ∃ op, ofMatrix a tolerance allowLeastSquares = .ok op) ∧
    (m = n →
      (∀ e, ofMatrix a tolerance allowLeastSquares = .error e → e.OfSingularity) ∧
      (a.IsSingular → ∃ e, ofMatrix a tolerance allowLeastSquares = .error e ∧ e.OfSingularity) ∧
      (∀ e, ofMatrix a 0 allowLeastSquares = .error e → a.IsSingular) ∧
      ofMatrix a tolerance true = ofMatrix a tolerance false) ∧
    (∀ op, ofMatrix a tolerance allowLeastSquares = .ok op → ∀ b : Vector K m,
      ∃ x, op.solve b = .ok x ∧ (m = n → a.toMatrix *ᵥ x.get = b.get) ∧
        (a.toMatrix)ᵀ *ᵥ (a.toMatrix *ᵥ x.get) = (a.toMatrix)ᵀ *ᵥ b.get) := by
  refine ⟨ofShape_iff hK a, ?_, ?_, fun op hop => exists_solution hK hop⟩
  · rintro hshape rfl
    exact ⟨_, by rw [ofMatrix, dif_neg hshape, if_pos rfl]⟩
  · rintro rfl
    refine ⟨fun e => ofSingularity_of_square hK, ?_, fun e => isSingular_of_ofMatrix_zero hK hle,
      ofMatrix_of_square rfl _ _⟩
    intro hsingular
    obtain ⟨k, hk⟩ := ofMatrix_of_isSingular hK hsingular
    exact ⟨_, hk, trivial⟩

/-- Two rows that elimination has to exchange. -/
def exchanged : RowMatrix ℚ 2 2 := #v[#v[0, 1], #v[3, 0]]

/-- Two rows of which one is a multiple of the other. -/
def proportional : RowMatrix ℚ 2 2 := #v[#v[1, 2], #v[2, 4]]

/-- Exchanged rows are solved for every right-hand side; proportional ones are refused, even if
    everything is tolerated. -/
theorem refuses_or_solves_pairs :
    (∃ op, ofMatrix exchanged 0 false = .ok op ∧ ∀ b : Vector ℚ 2, ∃ x,
      op.solve b = .ok x ∧ exchanged.toMatrix *ᵥ x.get = b.get) ∧
    ∃ e, ofMatrix proportional (-1) true = .error e ∧ e.OfSingularity := by
  have haccepted : (ofMatrix exchanged 0 false).toOption.isSome := by
    decide +kernel
  have hsingular : proportional.IsSingular := by
    refine ⟨![2, -1], by simp, ?_⟩
    funext i
    fin_cases i
    · norm_num [proportional, Matrix.mulVec, dotProduct, RowMatrix.entry, Vector.get]
    · norm_num [proportional, Matrix.mulVec, dotProduct, RowMatrix.entry, Vector.get]
  obtain ⟨-, -, -, hsolves⟩ :=
    refuses_or_solves Scalar.isUnrounded_rat Scalar.isOrdered_rat exchanged 0 false
  obtain ⟨-, -, hsquare, -⟩ :=
    refuses_or_solves Scalar.isUnrounded_rat Scalar.isOrdered_rat proportional (-1) true
  constructor
  · obtain ⟨op, hop⟩ := Option.isSome_iff_exists.1 haccepted
    have hop := toOption_eq_some.1 hop
    refine ⟨op, hop, fun b => ?_⟩
    obtain ⟨x, hx, hsolution, -⟩ := hsolves op hop b
    exact ⟨x, hx, hsolution rfl⟩
  · exact (hsquare rfl).2.1 hsingular

end LinearOperator

end NetBalance
