import NetBalance.Summation

/-! # Equations between nets

    An equation holds of the values of a few nets.  At a vector of values it
    has a residual, which is zero where it holds, and a row of the derivatives
    of the residual by every net.

    The derivative of a product by one of its factors is the product of the
    others.  It is computed without a division, from the running products
    from both ends. -/

namespace NetBalance

/-! ### Products of all factors but one -/

section Partials

variable {K : Type} [Mul K] [One K]

/-- The products of the factors before each position, starting from `acc`. -/
def productsBefore (acc : K) : List K → List K
  | [] => []
  | x :: xs => acc :: productsBefore (acc * x) xs

/-- The products of the factors after each position. -/
def productsAfter (xs : List K) : List K := (productsBefore 1 xs.reverse).reverse

/-- For each position the product of the factors at all other positions. -/
def partials (xs : List K) : List K := List.zipWith (· * ·) (productsBefore 1 xs) (productsAfter xs)

omit [One K] in
@[simp] theorem length_productsBefore (acc : K) (xs : List K) :
    (productsBefore acc xs).length = xs.length := by
  induction xs generalizing acc with
  | nil => rfl
  | cons x xs ih => simp [productsBefore, ih]

@[simp] theorem length_partials (xs : List K) : (partials xs).length = xs.length := by
  simp [partials, productsAfter]

end Partials

/-! ### Equations -/

/-- A constraint on the values of nets, given by their numbers. -/
inductive Equation (K : Type) where
  /-- The net has the value. -/
  | pin (net : Nat) (value : K)
  /-- The two nets have one value. -/
  | equate (first second : Nat)
  /-- The sums over the two rows of nets are equal. -/
  | equalSums (top bottom : List Nat)
  /-- The products over the two rows of nets are equal. -/
  | equalProducts (top bottom : List Nat)

/-- A row of coefficients, one for each of `n` nets. -/
abbrev Row (K : Type) (n : Nat) := Vector K n

/-- An equation at one point: the derivatives and the value of its residual. -/
structure Linearised (K : Type) (n : Nat) where
  row : Row K n
  residual : K

variable {K : Type}

namespace Row

variable {n : Nat}

/-- All coefficients are zero. -/
def zero [Zero K] : Row K n := Vector.replicate n 0

/-- Set one coefficient; a number that is no net's changes nothing. -/
def put (row : Row K n) (net : Nat) (v : K) : Row K n :=
  if h : net < n then row.set net v h else row

/-- Add to one coefficient. -/
def addAt [Add K] (row : Row K n) (net : Nat) (v : K) : Row K n :=
  if h : net < n then row.set net (row[net] + v) h else row

/-- Subtract from one coefficient. -/
def subAt [Sub K] (row : Row K n) (net : Nat) (v : K) : Row K n :=
  if h : net < n then row.set net (row[net] - v) h else row

end Row

namespace Equation

/-- The nets that the equation is about, as often as it mentions them. -/
def nets : Equation K → List Nat
  | .pin net _ => [net]
  | .equate first second => [first, second]
  | .equalSums top bottom => top ++ bottom
  | .equalProducts top bottom => top ++ bottom

variable [Add K] [Sub K] [Mul K] [Neg K] [Zero K] [One K]

/-- The residual at the values `x` of the nets. -/
def residual (x : Nat → K) : Equation K → K
  | .pin net value => x net - value
  | .equate first second => x first - x second
  | .equalSums top bottom =>
    bottom.foldl (fun r net => r - x net) (top.foldl (fun r net => r + x net) 0)
  | .equalProducts top bottom =>
    (top.map x).foldl (· * ·) 1 - (bottom.map x).foldl (· * ·) 1

/-- The derivatives of the residual at the values `x`, net by net.  A net that stands at several
    positions collects the derivatives of all of them. -/
def row (n : Nat) (x : Nat → K) : Equation K → Row K n
  | .pin net _ => Row.zero |> (Row.put · net 1)
  | .equate first second => Row.zero |> (Row.put · first 1) |> (Row.put · second (-1))
  | .equalSums top bottom =>
    bottom.foldl (fun row net => Row.subAt row net 1)
      (top.foldl (fun row net => Row.addAt row net 1) Row.zero)
  | .equalProducts top bottom =>
    (bottom.zip (partials (bottom.map x))).foldl (fun row (net, v) => Row.subAt row net v)
      ((top.zip (partials (top.map x))).foldl (fun row (net, v) => Row.addAt row net v) Row.zero)

/-- The equation at a vector of values, if the vector and the row reach all of its nets. -/
def linearise? (n : Nat) (x : Array K) (e : Equation K) : Option (Linearised K n) :=
  if e.nets.all fun net => net < n && net < x.size then
    let value := fun net => x[net]?.getD 0
    some ⟨e.row n value, e.residual value⟩
  else none

end Equation

end NetBalance
