import NetBalance.Scalar
import NetBalance.Yaml.Tag

/-! # The numbers and bytes of scalars

    A whole number may be written in base two, eight, ten, sixteen or sixty,
    with underscores anywhere.  Under a tag of its own a scalar may have
    forms that a plain one has not, so every reading can fail.

    Bytes are written as letters of an alphabet of sixty-four, four letters
    for three bytes; equals signs fill the last group up.  Other characters
    are skipped. -/

namespace NetBalance.Yaml

/-- Split a sign off; an empty text has nothing to split. -/
def splitSign? (text : String) : Except Error (Bool × List Char) :=
  match text.toList.filter (· ≠ '_') with
  | [] => .error .emptyNumeral
  | c :: rest => .ok (if Tag.isSign c then (c = '-', rest) else (false, c :: rest))

/-- The letter that may stand behind a zero in front of a number of a base. -/
def baseMark? : Nat → Option Char
  | 2 => some 'b'
  | 8 => some 'o'
  | 16 => some 'x'
  | _ => none

/-- A whole number of a base, with a sign, the mark of the base, and blanks around it. -/
def wholeInBase? (base : Nat) (s : List Char) : Option Int :=
  let (negative, body) := Decimal.splitSign (Decimal.trimmed (Decimal.asciiDigits s))
  let digits := match body with
    | '0' :: mark :: rest => if some mark.toLower = baseMark? base then rest else body
    | _ => body
  if digits.isEmpty then none
  else do
    let n : Nat ← digits.foldlM (fun n c => do
      let d ← Scalar.hexDigit? c
      if d < base then some (base * n + d) else none) 0
    return if negative then -(n : Int) else n

/-- The number that places of base sixty make, the highest first. -/
def sixtieths (places : List Int) : Int := places.foldl (fun n place => 60 * n + place) 0

/-- The whole number of a scalar. -/
def wholeOfScalar (text : String) : Except Error Int := do
  let (negative, body) ← splitSign? text
  let size : Option Int ← match body with
    | [] => throw .emptyNumeral
    | ['0'] => pure (some 0)
    | '0' :: 'b' :: rest => pure (wholeInBase? 2 rest)
    | '0' :: 'x' :: rest => pure (wholeInBase? 16 rest)
    | '0' :: rest => pure (wholeInBase? 8 ('0' :: rest))
    | _ =>
      let places := (Tag.colonPieces body).mapM fun piece =>
        Decimal.wholeOfText? (String.ofList piece)
      pure (places.map sixtieths)
  match size with
  | some n => return if negative then -n else n
  | none => throw .badNumeral

section Numbers

variable {K : Type} [Add K] [Mul K] [Neg K] [Zero K] [One K] [Scalar K]

/-- The sum of places of base sixty, the lowest first, starting from the place worth
    `60 ^ power`. -/
def addSixtieths (power : Nat) (sum : K) : List K → Option K
  | [] => some sum
  | place :: rest => do
    let worth ← Scalar.ofInt? (60 ^ power)
    addSixtieths (power + 1) (sum + place * worth) rest

/-- The number of a scalar. -/
def numberOfScalar (text : String) : Except Error K := do
  let (negative, body) ← splitSign? text
  let word := (String.ofList body).toLower
  let number (numeral? : Option Decimal.Numeral) : Except Error K :=
    match numeral?.bind Scalar.ofNumeral? with
    | some x => .ok x
    | none => .error .badNumeral
  let size ←
    if word = ".inf" then number (some (.infinite false))
    else if word = ".nan" then number (some .nan)
    else if body.contains ':' then do
      let places ← (Tag.colonPieces body).mapM fun piece =>
        number (Decimal.Numeral.ofText? (String.ofList piece))
      match addSixtieths 0 0 places.reverse with
      | some x => pure x
      | none => throw .hugeNumeral
    else number (Decimal.Numeral.ofText? word)
  return if negative then -size else size

end Numbers

/-! ### Bytes as letters -/

namespace Base64

/-- The six bits that a letter stands for. -/
def sixBits? (c : Char) : Option Nat :=
  if 'A' ≤ c ∧ c ≤ 'Z' then some (c.toNat - 'A'.toNat)
  else if 'a' ≤ c ∧ c ≤ 'z' then some (c.toNat - 'a'.toNat + 26)
  else if '0' ≤ c ∧ c ≤ '9' then some (c.toNat - '0'.toNat + 52)
  else if c = '+' then some 62
  else if c = '/' then some 63
  else none

/-- Decode the rest of a text behind `count` letters of a group, of which `left` are the bits not
    used yet, and `fill` equals signs.  Nothing when a group stays open. -/
def decodeFrom (count left fill : Nat) : List Char → Option (List UInt8)
  | [] => if count = 0 then some [] else none
  | c :: rest =>
    if c = '=' then
      if 2 ≤ count then
        if 4 ≤ count + (fill + 1) then some [] else decodeFrom count left (fill + 1) rest
      else decodeFrom count left fill rest
    else
      match sixBits? c with
      | none => decodeFrom count left fill rest
      | some bits =>
        -- bits of the letter in front and of this one make a byte
        match count with
        | 0 => decodeFrom 1 bits 0 rest
        | 1 => (decodeFrom 2 (bits % 16) 0 rest).map (UInt8.ofNat (4 * left + bits / 16) :: ·)
        | 2 => (decodeFrom 3 (bits % 4) 0 rest).map (UInt8.ofNat (16 * left + bits / 4) :: ·)
        | _ => (decodeFrom 0 0 0 rest).map (UInt8.ofNat (64 * left + bits) :: ·)

/-- The bytes of a text of ASCII. -/
def decode? (s : String) : Option (List UInt8) :=
  if s.toList.all (·.toNat < 0x80) then decodeFrom 0 0 0 s.toList else none

end Base64

end NetBalance.Yaml
