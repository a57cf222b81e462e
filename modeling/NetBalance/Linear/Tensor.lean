import NetBalance.Error
import NetBalance.Linear.Matrix

/-! # Nested rows of numbers

    Numbers may come in rows of rows, to any depth.  They form a table when
    all rows of one depth have one length; a table of depth two is a matrix. -/

namespace NetBalance

/-- A number, or a row of nested rows. -/
inductive Tensor (K : Type) where
  | number (x : K)
  | row (entries : List (Tensor K))

namespace Tensor

variable {K : Type}

/-- The lengths of the rows, from the outermost depth inwards; nothing when two rows of one depth
    differ in length. -/
def shape? : Tensor K → Option (List Nat)
  | .number _ => some []
  | .row entries => do
    let shapes ← entries.attach.mapM fun ⟨e, _⟩ => shape? e
    match shapes with
    | [] => return [0]
    | first :: rest => if rest.all (· = first) then return entries.length :: first else none

/-- All numbers, in order. -/
def numbers : Tensor K → List K
  | .number x => [x]
  | .row entries => entries.attach.flatMap fun ⟨e, _⟩ => numbers e

/-- Numbers with the lengths of the rows that they stand in. -/
structure Table (K : Type) where
  shape : List Nat
  entries : List K

/-- The table of nested rows of equal lengths. -/
def table? (t : Tensor K) : Option (Table K) := t.shape?.map fun shape => ⟨shape, t.numbers⟩

namespace Table

/-- The number of outermost rows. -/
def rowCount (t : Table K) : Nat := t.shape.headD 0

/-- The same numbers in rows of another length; nothing when their count does not fit. -/
def reshape? (t : Table K) (rows cols : Nat) : Option (Table K) :=
  if t.entries.length = rows * cols then some { t with shape := [rows, cols] } else none

/-- The matrix of a table of depth two. -/
def matrix [Zero K] (t : Table K) : Except (LinearError K) ((m n : Nat) × RowMatrix K m n) :=
  match t.shape with
  | [m, n] =>
    let entries := t.entries.toArray
    .ok ⟨m, n, RowMatrix.ofFn fun i j => entries[i.val * n + j.val]?.getD 0⟩
  | shape => .error (.notAMatrix shape)

end Table

end Tensor

end NetBalance
