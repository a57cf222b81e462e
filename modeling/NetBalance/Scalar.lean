import NetBalance.Decimal.Format
import NetBalance.Decimal.Numeral

/-! # The numbers that equations are computed in

    Everything numeric is written once, over any type `K` with the arithmetic
    operations and the few extra ones of `Scalar`.  Programs run on doubles;
    exact statements read the same definitions over a field.  No laws are
    assumed here. -/

namespace NetBalance

/-- Comparisons, conversions and limits of a number type, next to its arithmetic. -/
class Scalar (K : Type) where
  /-- Strictly less; false when either side is not a number. -/
  lt : K → K → Bool
  /-- Less or equal; false when either side is not a number. -/
  le : K → K → Bool
  /-- Equal to zero, of either sign. -/
  isZero : K → Bool
  /-- Neither infinite nor not-a-number. -/
  isFinite : K → Bool
  abs : K → K
  sqrt : K → K
  /-- The distance from one to the next number; zero where arithmetic is exact. -/
  epsilon : K
  /-- The nearest number, or nothing beyond the range. -/
  ofInt? : Int → Option K
  /-- The number nearest to what a numeral denotes. -/
  ofNumeral? : Decimal.Numeral → Option K
  /-- The whole number next to a number in the direction of zero; nothing where there is none. -/
  truncate? : K → Option Int

namespace Scalar

variable {K : Type} [Scalar K]

/-- The number `digits * 10 ^ exponent`, for constants. -/
def literal [Zero K] (digits : Nat) (exponent : Int) : K :=
  (ofNumeral? (.finite false digits exponent)).getD 0

/-- Equal as numbers: each is at most the other. -/
def same (a b : K) : Bool := le a b && le b a

end Scalar

/-! ## Doubles -/

instance zeroFloat : Zero Float := ⟨0.0⟩

instance oneFloat : One Float := ⟨1.0⟩

/-- The double nearest to `digits * 10 ^ exponent`.  Exponents far outside the range are cut
    off first: they give infinity or zero whatever the digits are. -/
def Decimal.nearestFloat (digits : Nat) (exponent : Int) : Float :=
  if digits = 0 then 0.0
  else
    let magnitude : Int := exponent + (Nat.toDigits 10 digits).length
    if 400 < magnitude then 1.0 / 0.0
    else if magnitude < -400 then 0.0
    else Float.ofScientific digits (exponent < 0) exponent.natAbs

/-- The double that a numeral denotes. -/
def Decimal.Numeral.toFloat : Numeral → Float
  | .nan => 0.0 / 0.0
  | .infinite negative => if negative then -1.0 / 0.0 else 1.0 / 0.0
  | .finite negative digits exponent =>
    let x := nearestFloat digits exponent
    if negative then -x else x

/-- The whole part of a double, computed from its exact value. -/
def Decimal.Binary.truncate? : Binary → Option Int
  | .nan | .infinite _ => none
  | .finite negative mantissa exponent =>
    let (num, den) := quotient mantissa exponent
    let n : Int := (num / den : Nat)
    some (if negative then -n else n)

instance : Scalar Float where
  lt a b := a < b
  le a b := a ≤ b
  isZero x := x == 0.0
  isFinite x := x.isFinite
  abs x := x.abs
  sqrt x := x.sqrt
  epsilon := 2.220446049250313e-16
  ofInt? n :=
    let x := Decimal.Numeral.toFloat (.finite (n < 0) n.natAbs 0)
    if x.isInf then none else some x
  ofNumeral? n := some n.toFloat
  truncate? x := (Decimal.Binary.ofFloat x).truncate?

end NetBalance
