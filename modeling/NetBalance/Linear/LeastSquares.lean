import NetBalance.Linear.Matrix

/-! # Least squares of minimum norm

    The columns of the matrix are made orthogonal one after the other, the
    longest remaining one first, until nothing but rounding is left of any.
    That writes the matrix as orthogonal columns times a table of
    coefficients, and the right-hand side as the same columns plus what no
    column reaches.  Orthogonal rows of the table then give the shortest
    solution.  No roots are taken, so all of it is exact over a field. -/

namespace NetBalance.LeastSquares

variable {K : Type} [Add K] [Sub K] [Mul K] [Div K] [Zero K] [One K] [Scalar K] {m n : Nat}

/-- A column with what is left of it. -/
structure Remaining (K : Type) (m n : Nat) where
  index : Fin n
  /-- The squared length at the start. -/
  initial : K
  rest : Vector K m

/-- The orthogonal columns found so far, each with its row of coefficients and with the share that
    the right-hand side has in it. -/
structure Direction (K : Type) (n : Nat) where
  coefficients : Vector K n
  share : K

def squaredLength (v : Vector K n) : K := Linear.dot v v

/-- The share of a vector in a direction. -/
def share (q v : Vector K m) : K := Linear.dot q v / Linear.dot q q

/-- How many times `Scalar.epsilon` of a column's own length count as rounding. -/
def noise : K := (1 + 1) * (1 + 1) * (1 + 1) * Scalar.epsilon

/-- Whether more than rounding is left of a column, seen against its own squared length and
    against that of the longest column. -/
def Remaining.isAlive (longest : K) (c : Remaining K m n) : Bool :=
  let left := squaredLength c.rest
  Scalar.lt (noise * noise * c.initial) left &&
    Scalar.lt (Scalar.epsilon * Scalar.epsilon * longest) left

/-- The longest of several columns, the first one of equals. -/
def longestOf : List (Remaining K m n) → Option (Remaining K m n)
  | [] => none
  | c :: cs => some <| cs.foldl (fun best d =>
      if Scalar.lt (squaredLength best.rest) (squaredLength d.rest) then d else best) c

/-- Take directions out of the columns and out of the right-hand side until no column is alive;
    there are at most `budget` of them. -/
def directions (longest : K) (budget : Nat) (columns : List (Remaining K m n)) (b : Vector K m) :
    List (Direction K n) :=
  match budget with
  | 0 => []
  | budget + 1 =>
    let alive := columns.filter (Remaining.isAlive longest)
    match longestOf alive with
    | none => []
    | some pivot =>
      let q := pivot.rest
      let others := alive.filter (·.index ≠ pivot.index)
      let row := others.foldl (fun row c => row.set c.index (share q c.rest))
        (Linear.unit pivot.index)
      let next := others.map fun c => { c with rest := Linear.subScaled c.rest (share q c.rest) q }
      let part := share q b
      ⟨row, part⟩ :: directions longest budget next (Linear.subScaled b part q)

/-- What is left of a row beside earlier ones that are orthogonal to each other. -/
def orthogonalTo (earlier : List (Vector K n)) (row : Vector K n) : Vector K n :=
  earlier.foldl (fun r p => Linear.subScaled r (share p r) p) row

/-- The shortest vector whose products with the rows are the given shares. -/
def shortest (ds : List (Direction K n)) : Vector K n :=
  (ds.foldl (fun (rows, x) d =>
    let p := orthogonalTo rows d.coefficients
    let missing := d.share - Linear.dot d.coefficients x
    (rows ++ [p], Linear.addScaled x (missing / Linear.dot p p) p))
    (([] : List (Vector K n)), (Vector.replicate n 0 : Vector K n))).2

/-- The largest of some absolute values; zero for none. -/
def largest (xs : List K) : K :=
  xs.foldl (fun most x => if Scalar.lt most (Scalar.abs x) then Scalar.abs x else most) 0

/-- The vector of minimum norm among those that bring `a * x` nearest to `b`. -/
def solve (a : RowMatrix K m n) (b : Vector K m) : Vector K n :=
  -- dividing by the largest entry keeps squares in range
  let scale := largest (a.toList.flatMap Vector.toList)
  if Scalar.isZero scale then Vector.replicate n 0
  else
    let columns : List (Remaining K m n) := (List.finRange n).map fun j =>
      let c := (a.column j).map (· / scale)
      ⟨j, squaredLength c, c⟩
    let longest := (longestOf columns).elim 0 fun c => c.initial
    (shortest (directions longest n columns b)).map (· / scale)

end NetBalance.LeastSquares
