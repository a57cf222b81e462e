import NetBalance.Scalar

/-! # Sums, means, medians, products and norms of lists of numbers

    A short sum runs from left to right.  A longer one runs in eight lanes
    side by side, and a very long one is halved first, so that rounding
    errors grow slowly.  Over exact numbers all of these are the plain sum.
    A row that holds something that is not a number has that as its median. -/

namespace NetBalance

variable {K : Type} [Add K] [Mul K] [Div K] [Zero K] [One K] [Scalar K]

/-- The sum from left to right. -/
def sumLeft (xs : List K) : K := xs.foldl (· + ·) 0

/-- Add the rest of a row to its lanes, a block of one entry per lane at a time.  What does not
    fill a block is left over. -/
def addLanes (lanes xs : List K) : List K × List K :=
  if _h : lanes.length ≤ xs.length ∧ 0 < lanes.length then
    addLanes (List.zipWith (· + ·) lanes (xs.take lanes.length)) (xs.drop lanes.length)
  else (lanes, xs)
termination_by xs.length
decreasing_by simp only [List.length_drop]; omega

/-- Add neighbours until one number is left. -/
def sumPairs : List K → List K
  | a :: b :: rest => (a + b) :: sumPairs rest
  | xs => xs

/-- The sum in eight lanes, of a row with at least eight entries. -/
def sumLanes (xs : List K) : K :=
  let (lanes, rest) := addLanes (xs.take 8) (xs.drop 8)
  rest.foldl (· + ·) (sumLeft (sumPairs (sumPairs (sumPairs lanes))))

/-- The sum of a row of numbers. -/
def sum (xs : List K) : K :=
  if xs.length < 8 then sumLeft xs
  else if _h : 128 < xs.length then
    let half := xs.length / 2 / 8 * 8
    sum (xs.take half) + sum (xs.drop half)
  else sumLanes xs
termination_by xs.length
decreasing_by all_goals simp only [List.length_take, List.length_drop]; omega

/-- The mean of a row of numbers, nothing for an empty one. -/
def mean? (xs : List K) : Option K :=
  if xs.isEmpty then none else (Scalar.ofInt? (xs.length : Int)).map (sum xs / ·)

/-- The product from left to right. -/
def product (xs : List K) : K := xs.foldl (· * ·) 1

/-- The Euclidean norm. -/
def norm (xs : List K) : K := Scalar.sqrt (sumLeft (xs.map fun x => x * x))

/-! ### Medians -/

/-- The median of an ascending row. -/
def middle? (sorted : List K) : Option K :=
  let half := sorted.length / 2
  if sorted.length % 2 = 1 then sorted[half]?
  else do
    let below ← sorted[half - 1]?
    let above ← sorted[half]?
    return (below + above) / (1 + 1)

/-- The median of a row in any order; nothing for an empty one. -/
def median? (xs : List K) : Option K :=
  match xs.find? fun x => !Scalar.le x x with
  | some x => some x
  | none => middle? (xs.mergeSort Scalar.le)

end NetBalance
