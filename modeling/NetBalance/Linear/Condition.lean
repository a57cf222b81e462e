import NetBalance.Linear.LU

/-! # Estimating the condition of a factored matrix

    The norm of an inverse is estimated from a few solutions of systems with
    the matrix and its transpose.  The estimate climbs from one unit vector to
    the next as long as it grows, and is compared with a last vector of
    alternating signs. -/

namespace NetBalance.Condition

variable {K : Type} [Add K] [Sub K] [Mul K] [Div K] [Neg K] [Zero K] [One K] [Scalar K] {n : Nat}

/-- The sign of a number as one or minus one; zero counts as positive. -/
def sign (x : K) : K := if Scalar.lt x 0 then -1 else 1

def signs (v : Vector K n) : Vector K n := v.map sign

/-- Whether two vectors of signs are equal. -/
def sameSigns (u v : Vector K n) : Bool :=
  (u.zipWith Scalar.same v).toList.all id

/-- Climb from the unit vector of `j`.  `best` is the estimate so far, `s` the signs that it came
    with, and `probes` says how many more unit vectors may follow. -/
def climb (solve solveTransposed : Vector K n → Vector K n) (probes : Nat) (best : K)
    (s : Vector K n) (j : Fin n) : K :=
  let x := solve (Linear.unit j)
  let found := Linear.absSum x
  if sameSigns (signs x) s || Scalar.le found best then found
  else
    match probes with
    | 0 => found
    | probes + 1 =>
      let z := solveTransposed (signs x)
      match Linear.argmaxAbs (z.get) (List.finRange n) with
      | none => found
      | some next =>
        if Scalar.same (z.get j) (Scalar.abs (z.get next)) then found
        else climb solve solveTransposed probes found (signs x) next

/-- A natural number as a scalar. -/
def ofNat (k : Nat) : K := (Scalar.ofInt? (k : Int)).getD 0

/-- The vector `1, -(1 + 1/(n-1)), 1 + 2/(n-1), …` of alternating signs. -/
def alternating (n : Nat) : Vector K n :=
  Vector.ofFn fun i =>
    let size := 1 + ofNat i.val / ofNat (n - 1)
    if i.val % 2 = 0 then size else -size

/-- An estimate of the column norm of the inverse, given how to solve with the matrix and with
    its transpose. -/
def inverseNorm (solve solveTransposed : Vector K n → Vector K n) : K :=
  let x := solve (Vector.replicate n (1 / ofNat n))
  let first := Linear.absSum x
  if n ≤ 1 then first
  else
    let z := solveTransposed (signs x)
    match Linear.argmaxAbs (z.get) (List.finRange n) with
    | none => first
    | some j =>
      let climbed := climb solve solveTransposed 3 first (signs x) j
      let last := (1 + 1) * (Linear.absSum (solve (alternating n)) / ofNat (3 * n))
      if Scalar.lt climbed last then last else climbed

/-- The estimated reciprocal condition number of a factored matrix of a column norm.  It is zero
    when the norm is zero or not finite, or when the inverse overflows. -/
def reciprocal (f : LU K n) (norm : K) : K :=
  -- the row exchanges change neither norm
  let inverse := inverseNorm (fun b => f.solveUpper (f.solveLower b))
    (fun b => f.solveLowerTransposed (f.solveUpperTransposed b))
  if Scalar.isFinite norm && Scalar.isFinite inverse && Scalar.lt 0 norm && Scalar.lt 0 inverse then
    1 / inverse / norm
  else 0

end NetBalance.Condition
