import NetBalance.Error
import NetBalance.Linear.Condition
import NetBalance.Linear.LeastSquares

/-! # Linear operators

    A matrix is made ready once and then solved for several right-hand sides.
    A square matrix is factored, and refused when it is singular or its
    condition is too bad; any other one is refused, or solved in the sense of
    least squares where that is allowed. -/

namespace NetBalance

/-- A matrix of `m` rows and `n` columns that is ready to be solved with. -/
inductive LinearOperator (K : Type) (m n : Nat) where
  | factored (square : m = n) (f : LU K n)
  | leastSquares (a : RowMatrix K m n)

namespace LinearOperator

variable {K : Type} [Add K] [Sub K] [Mul K] [Div K] [Neg K] [Zero K] [One K] [Scalar K] {m n : Nat}

/-- Factor a square matrix.  Its estimated reciprocal condition number has to reach the
    tolerance; a matrix without rows has none. -/
def factor (a : RowMatrix K n n) (tolerance : K) : Except (LinearError K) (LU K n) :=
  if !a.isFinite then .error .notFinite
  else
    let f := LU.ofMatrix a
    match f.zeroPivot with
    | some k => .error (.zeroPivot (k.val + 1))
    | none =>
      let rcond := Condition.reciprocal f a.columnNorm
      if n = 0 || Scalar.le tolerance rcond then .ok f else .error (.illConditioned rcond)

/-- Make a matrix ready.  `allowLeastSquares` admits matrices that are not square. -/
def ofMatrix (a : RowMatrix K m n) (tolerance : K) (allowLeastSquares : Bool) :
    Except (LinearError K) (LinearOperator K m n) :=
  if h : m = n then (factor (a.cast h) tolerance).map (.factored h)
  else if allowLeastSquares then .ok (.leastSquares a)
  else .error (.notSquare m n)

/-- The solution for a right-hand side, which has to be finite. -/
def solve (op : LinearOperator K m n) (b : Vector K m) : Except (LinearError K) (Vector K n) :=
  if !b.toList.all Scalar.isFinite then .error .notFinite
  else
    match op with
    | .factored h f => .ok (f.solve (b.cast h))
    | .leastSquares a => if a.isFinite then .ok (LeastSquares.solve a b) else .error .notFinite

/-- The solution for a right-hand side of any length. -/
def solveArray (op : LinearOperator K m n) (b : Array K) : Except (LinearError K) (Vector K n) :=
  if h : b.size = m then op.solve ⟨b, h⟩ else .error .wrongLength

end LinearOperator

end NetBalance
