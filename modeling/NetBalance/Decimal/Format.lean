/-! # Printed doubles

    Every double is a NaN, an infinity, or a sign with a natural number times
    a power of two, and printing starts from that exact value.

    `scientific places x` has one digit before the point, `places` digits after
    it and an exponent with a sign and at least two digits.
    `general precision x` has at most `precision` significant digits, no
    trailing zeros, and is positional where the exponent is small.  Both round
    the exact value once, ties to the even neighbour.

    `shortest x` has the fewest significant digits that still lie closer to `x`
    than to any other double; among those of one length the nearest is taken.
    All tests are exact, on natural numbers. -/

namespace NetBalance.Decimal

/-! ### Doubles as exact numbers -/

/-- The exact content of a double. -/
inductive Binary where
  | nan
  | infinite (negative : Bool)
  /-- The number `± mantissa * 2 ^ exponent`. -/
  | finite (negative : Bool) (mantissa : Nat) (exponent : Int)
deriving DecidableEq

/-- The exponent of the smallest positive double. -/
def Binary.minExponent : Int := -1074

/-- Read the 64 bits of a double: one sign bit, eleven exponent bits and
    fifty-two fraction bits, with an implied leading one above the subnormals. -/
def Binary.ofBits (bits : UInt64) : Binary :=
  let negative := bits >>> 63 == 1
  let biased := ((bits >>> 52) &&& 0x7FF).toNat
  let fraction := (bits &&& 0xFFFFFFFFFFFFF).toNat
  if biased = 0x7FF then
    if fraction = 0 then .infinite negative else .nan
  else if biased = 0 then .finite negative fraction minExponent
  else .finite negative (Nat.pow 2 52 + fraction) (minExponent + (biased - 1 : Nat))

def Binary.ofFloat (x : Float) : Binary := ofBits x.toBits

/-- The number `mantissa * 2 ^ exponent` as a quotient of natural numbers. -/
def Binary.quotient (mantissa : Nat) (exponent : Int) : Nat × Nat :=
  if 0 ≤ exponent then (mantissa * Nat.pow 2 exponent.toNat, 1) else (mantissa, Nat.pow 2 (-exponent).toNat)

/-- The texts of the values that have no digits. -/
def specialText (negative : Bool) (word : String) : String :=
  if negative then "-" ++ word else word

/-! ### Rounding a positive quotient -/

/-- Round `num / den` to the nearest natural number; a half goes to the even neighbour. -/
def roundHalfEven (num den : Nat) : Nat :=
  let quotient := num / den
  let twice := 2 * (num % den)
  if twice < den then quotient
  else if den < twice then quotient + 1
  else if quotient % 2 = 0 then quotient
  else quotient + 1

/-- How many decimal digits `n` is written with. -/
def digitCount (n : Nat) : Nat := (Nat.toDigits 10 n).length

/-- The exponent `e` with `10 ^ e ≤ num / den < 10 ^ (e + 1)`, for a positive quotient. -/
def decimalExponent (num den : Nat) : Int :=
  let guess : Int := (digitCount num : Int) - digitCount den
  let reaches : Bool :=
    if 0 ≤ guess then den * Nat.pow 10 guess.toNat ≤ num else den ≤ num * Nat.pow 10 (-guess).toNat
  if reaches then guess else guess - 1

/-- Round `num / (den * 10 ^ exponent)` to the nearest natural number, half to even. -/
def roundAt (num den : Nat) (exponent : Int) : Nat :=
  if 0 ≤ exponent then roundHalfEven num (den * Nat.pow 10 exponent.toNat)
  else roundHalfEven (num * Nat.pow 10 (-exponent).toNat) den

/-- A decimal number in scientific form: the first digit of `digits` has the
    place value `10 ^ exponent`. -/
structure Scientific where
  digits   : Nat
  exponent : Int
deriving DecidableEq

/-- The positive quotient `num / den`, rounded to `places + 1` significant digits. -/
def Scientific.ofQuotient (places num den : Nat) : Scientific :=
  let e := decimalExponent num den
  let digits := roundAt num den (e - places)
  -- rounding up may carry into a digit more
  if digits = Nat.pow 10 (places + 1) then ⟨Nat.pow 10 places, e + 1⟩ else ⟨digits, e⟩

/-! ### A fixed precision -/

/-- An exponent is written with its sign and at least two digits. -/
def exponentText (e : Int) : String :=
  let digits := toString e.natAbs
  "e" ++ (if e < 0 then "-" else "+") ++ (if digits.length < 2 then "0" ++ digits else digits)

/-- The digits of `n`, with zeros in front up to a length of `width`. -/
def paddedDigits (width n : Nat) : List Char :=
  let digits := Nat.toDigits 10 n
  List.replicate (width - digits.length) '0' ++ digits

/-- Digits with a point after the first `whole` of them; no point when nothing follows it. -/
def pointed (whole : Nat) (digits : List Char) : String :=
  match digits.drop whole with
  | [] => String.ofList digits
  | fraction => String.ofList (digits.take whole) ++ "." ++ String.ofList fraction

/-- Drop the zeros at the end. -/
def dropTrailingZeros (digits : List Char) : List Char :=
  (digits.reverse.dropWhile (· == '0')).reverse

/-- Round the double given exactly to `places + 1` significant digits; zero has exponent zero. -/
def Scientific.ofBinary (places mantissa : Nat) (exponent : Int) : Scientific :=
  if mantissa = 0 then ⟨0, 0⟩
  else
    let (num, den) := Binary.quotient mantissa exponent
    Scientific.ofQuotient places num den

/-- One digit, a point, `places` digits and an exponent: `1.500e+00` for three places. -/
def scientific (places : Nat) (x : Float) : String :=
  match Binary.ofFloat x with
  | .nan => "nan"
  | .infinite negative => specialText negative "inf"
  | .finite negative mantissa exponent =>
    let s := Scientific.ofBinary places mantissa exponent
    specialText negative (pointed 1 (paddedDigits (places + 1) s.digits) ++ exponentText s.exponent)

/-- At most `precision` significant digits without trailing zeros; positional for an
    exponent from `-4` to `precision - 1`. -/
def general (precision : Nat) (x : Float) : String :=
  match Binary.ofFloat x with
  | .nan => "nan"
  | .infinite negative => specialText negative "inf"
  | .finite negative mantissa exponent =>
    let s := Scientific.ofBinary (precision - 1) mantissa exponent
    let digits := paddedDigits precision s.digits
    specialText negative <|
      if s.exponent < -4 ∨ (precision : Int) ≤ s.exponent then
        pointed 1 (digits.take 1 ++ dropTrailingZeros (digits.drop 1)) ++ exponentText s.exponent
      else
        -- the digit of place value one stands at index `e`, with zeros in front of a small number
        let e := s.exponent
        let shifted := List.replicate (-e).toNat '0' ++ digits
        let whole := e.toNat + 1
        pointed whole (shifted.take whole ++ dropTrailingZeros (shifted.drop whole))

/-! ### The fewest digits that read back -/

/-- A number `num / den` between the two midpoints around a double. -/
structure Interval where
  /-- Lower end, value and upper end, over the common denominator `den`. -/
  low   : Nat
  value : Nat
  high  : Nat
  den   : Nat
  /-- Whether the ends themselves round to the double. -/
  closed : Bool

/-- The reals that round to the positive double `mantissa * 2 ^ exponent`.  Below a power of
    two the next double is half as far away as above it. -/
def Interval.ofBinary (mantissa : Nat) (exponent : Int) : Interval :=
  let below := if mantissa = Nat.pow 2 52 ∧ Binary.minExponent < exponent then 1 else 2
  -- in units of a quarter of the last place
  let (unit, den) := Binary.quotient 1 (exponent - 2)
  ⟨(4 * mantissa - below) * unit, 4 * mantissa * unit, (4 * mantissa + 2) * unit, den,
    mantissa % 2 = 0⟩

/-- Whether `digits * 10 ^ scale` lies in the interval. -/
def Interval.admits (i : Interval) (digits : Nat) (scale : Int) : Bool :=
  let up := if 0 ≤ scale then Nat.pow 10 scale.toNat else 1
  let down := if 0 ≤ scale then 1 else Nat.pow 10 (-scale).toNat
  let candidate := digits * up * i.den
  if i.closed then i.low * down ≤ candidate ∧ candidate ≤ i.high * down
  else i.low * down < candidate ∧ candidate < i.high * down

/-- The nearest number of `places + 1` digits that the interval admits: the value's two
    neighbours on that decimal grid are the only candidates. -/
def Interval.nearest? (i : Interval) (places : Nat) : Option Scientific :=
  let e := decimalExponent i.value i.den
  let scale := e - places
  let nearest := roundAt i.value i.den scale
  let candidates := [nearest, nearest + 1, nearest - 1]
  (candidates.find? (i.admits · scale)).map fun digits =>
    if digits = Nat.pow 10 (places + 1) then ⟨Nat.pow 10 places, e + 1⟩ else ⟨digits, e⟩

/-- The shortest admitted form; seventeen digits always suffice. -/
def Interval.shortest (i : Interval) : Scientific × Nat :=
  match (List.range 17).findSome? fun places => (i.nearest? places).map (·, places) with
  | some found => found
  | none => (Scientific.ofQuotient 16 i.value i.den, 16)

/-- A double in its shortest form.  It is positional for exponents from `-4` to `15`, and then
    a whole number keeps one zero after its point. -/
def shortest (x : Float) : String :=
  match Binary.ofFloat x with
  | .nan => "nan"
  | .infinite negative => specialText negative "inf"
  | .finite negative 0 _ => specialText negative "0.0"
  | .finite negative mantissa exponent =>
    let (s, places) := (Interval.ofBinary mantissa exponent).shortest
    let digits := paddedDigits (places + 1) s.digits
    let e := s.exponent
    specialText negative <|
      if e < -4 ∨ 16 ≤ e then pointed 1 digits ++ exponentText e
      else
        let shifted := List.replicate (-e).toNat '0' ++ digits
        let whole := e.toNat + 1
        -- a whole number may need zeros up to its point
        pointed whole (shifted ++ List.replicate (whole + 1 - shifted.length) '0')

end NetBalance.Decimal
