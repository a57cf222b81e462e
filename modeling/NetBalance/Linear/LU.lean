import NetBalance.Linear.Matrix

/-! # Elimination with row exchanges

    A square matrix is turned into two triangles, column by column.  In each
    column the first entry of the largest absolute value becomes the pivot.
    The multipliers are kept below the diagonal, where the entries would
    become zero.  `LU.solve` undoes the row exchanges and both triangles. -/

namespace NetBalance

/-- The two triangles of a square matrix, in one matrix: the upper one with the diagonal, the
    lower one without its ones. -/
structure LU (K : Type) (n : Nat) where
  packed : RowMatrix K n n
  /-- The row of the given matrix that stands at each place. -/
  order : Vector (Fin n) n
  /-- The first column without a pivot. -/
  zeroPivot : Option (Fin n)

namespace LU

variable {K : Type} [Sub K] [Mul K] [Div K] [Zero K] [Scalar K] {n : Nat}

/-- The indices from `k` on. -/
def fromIndex (k : Fin n) : List (Fin n) := (List.finRange n).filter fun i => k.val ≤ i.val

/-- Exchange two entries. -/
def exchange {α : Type} (v : Vector α n) (i j : Fin n) : Vector α n := v.swap i j i.isLt j.isLt

/-- Clear the entries of column `k` below the diagonal, and keep the multipliers there. -/
def eliminate (a : RowMatrix K n n) (k : Fin n) : RowMatrix K n n :=
  let pivotRow := a.get k
  Vector.ofFn fun i =>
    if i.val ≤ k.val then a.get i
    else
      let multiplier := a.entry i k / pivotRow.get k
      Vector.ofFn fun j =>
        if j.val < k.val then a.entry i j
        else if j = k then multiplier
        else a.entry i j - multiplier * pivotRow.get j

/-- Choose the pivot of column `k`, bring its row up, and clear the column.  A column without a
    pivot is clear already. -/
def step (f : LU K n) (k : Fin n) : LU K n :=
  let p := (Linear.argmaxAbs (fun i => f.packed.entry i k) (fromIndex k)).getD k
  let rows := exchange f.packed k p
  let order := exchange f.order k p
  if Scalar.isZero (RowMatrix.entry rows k k) then ⟨rows, order, f.zeroPivot.or (some k)⟩
  else ⟨eliminate rows k, order, f.zeroPivot⟩

/-- The two triangles of a matrix. -/
def ofMatrix (a : RowMatrix K n n) : LU K n :=
  (List.finRange n).foldl step ⟨a, Vector.ofFn id, none⟩

/-! ### Triangular systems -/

/-- Subtract from the entry `i` what the entries `js` contribute to it. -/
def reduceEntry (coefficient : Fin n → Fin n → K) (js : List (Fin n)) (x : Vector K n) (i : Fin n) : K :=
  js.foldl (fun s j => s - coefficient i j * x.get j) (x.get i)

/-- The indices before `i`. -/
def before (i : Fin n) : List (Fin n) := (List.finRange n).filter fun j => j.val < i.val

/-- The indices after `i`, from the last one down. -/
def after (i : Fin n) : List (Fin n) :=
  ((List.finRange n).filter fun j => i.val < j.val).reverse

/-- Go through entries in an order, and replace each by a value read off the vector so far. -/
def sweep (order : List (Fin n)) (value : Vector K n → Fin n → K) (b : Vector K n) : Vector K n :=
  order.foldl (fun x (i : Fin n) => x.set i (value x i) i.isLt) b

/-- Solve with the lower triangle, which has ones on its diagonal. -/
def solveLower (f : LU K n) : Vector K n → Vector K n :=
  sweep (List.finRange n) fun x i => reduceEntry f.packed.entry (before i) x i

/-- Solve with the upper triangle. -/
def solveUpper (f : LU K n) : Vector K n → Vector K n :=
  sweep (List.finRange n).reverse fun x i =>
    reduceEntry f.packed.entry (after i) x i / f.packed.entry i i

/-- Solve with the transposed upper triangle. -/
def solveUpperTransposed (f : LU K n) : Vector K n → Vector K n :=
  sweep (List.finRange n) fun x i =>
    reduceEntry (fun i j => f.packed.entry j i) (before i) x i / f.packed.entry i i

/-- Solve with the transposed lower triangle. -/
def solveLowerTransposed (f : LU K n) : Vector K n → Vector K n :=
  sweep (List.finRange n).reverse fun x i =>
    reduceEntry (fun i j => f.packed.entry j i) (after i) x i

/-- The solution for a right-hand side. -/
def solve (f : LU K n) (b : Vector K n) : Vector K n :=
  f.solveUpper (f.solveLower (Vector.ofFn fun i => b.get (f.order.get i)))

end LU

end NetBalance
