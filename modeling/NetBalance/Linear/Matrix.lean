import NetBalance.Summation

/-! # Vectors and matrices of numbers

    A matrix is a vector of rows.  Sums over indices run through
    `List.finRange`, in ascending order unless said otherwise. -/

namespace NetBalance

/-- A matrix of `m` rows with `n` entries each. -/
abbrev RowMatrix (K : Type) (m n : Nat) := Vector (Vector K n) m

namespace RowMatrix

variable {K : Type} {m n : Nat}

def ofFn (f : Fin m → Fin n → K) : RowMatrix K m n := Vector.ofFn fun i => Vector.ofFn (f i)

def entry (a : RowMatrix K m n) (i : Fin m) (j : Fin n) : K := (a.get i).get j

def column (a : RowMatrix K m n) (j : Fin n) : Vector K m := Vector.ofFn fun i => a.entry i j

def columns (a : RowMatrix K m n) : List (Vector K m) := (List.finRange n).map a.column

/-- Whether every entry is finite. -/
def isFinite [Scalar K] (a : RowMatrix K m n) : Bool :=
  a.toList.all fun row => row.toList.all Scalar.isFinite

/-- The largest sum of absolute values down a column; zero without columns. -/
def columnNorm [Add K] [Zero K] [Scalar K] (a : RowMatrix K m n) : K :=
  let sums := a.columns.map fun c => sumLeft (c.toList.map Scalar.abs)
  sums.foldl (fun most s => if Scalar.le s most then most else s) 0

end RowMatrix

namespace Linear

variable {K : Type} [Add K] [Sub K] [Mul K] [Zero K] {n : Nat}

/-- The inner product. -/
def dot (u v : Vector K n) : K := sumLeft ((u.zipWith (· * ·) v).toList)

/-- `u + c * v`. -/
def addScaled (u : Vector K n) (c : K) (v : Vector K n) : Vector K n :=
  u.zipWith (fun a b => a + c * b) v

/-- `u - c * v`. -/
def subScaled (u : Vector K n) (c : K) (v : Vector K n) : Vector K n :=
  u.zipWith (fun a b => a - c * b) v

/-- The sum of the absolute values. -/
def absSum [Scalar K] (v : Vector K n) : K := sumLeft (v.toList.map Scalar.abs)

/-- The unit vector of an index. -/
def unit [One K] (j : Fin n) : Vector K n := Vector.ofFn fun i => if i = j then 1 else 0

/-- The first index of those given at which the absolute value is largest. -/
def argmaxAbs [Scalar K] (v : Fin n → K) : List (Fin n) → Option (Fin n)
  | [] => none
  | i :: rest =>
    some (rest.foldl (fun best j =>
      if Scalar.lt (Scalar.abs (v best)) (Scalar.abs (v j)) then j else best) i)

end Linear

end NetBalance
