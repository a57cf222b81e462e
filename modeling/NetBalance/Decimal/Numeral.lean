import NetBalance.Text.Character

/-! # Reading numerals

    A numeral may stand between blanks, may use the decimal digits of any
    script, and may hold single underscores between digits.  A whole numeral
    is an optional sign and digits; a decimal one also takes a point, an
    exponent, or one of the words for infinity and not-a-number. -/

namespace NetBalance.Decimal

/-- What a decimal numeral denotes. -/
inductive Numeral where
  | nan
  | infinite (negative : Bool)
  /-- The number `± digits * 10 ^ exponent`. -/
  | finite (negative : Bool) (digits : Nat) (exponent : Int)
deriving DecidableEq

/-- The value of a row of ASCII digits. -/
def natOfDigits (digits : List Char) : Nat :=
  digits.foldl (fun n c => 10 * n + (c.toNat - '0'.toNat)) 0

/-- Digits and blanks of other scripts, written in ASCII.  A text of ASCII alone is left as
    it is. -/
def asciiDigits (s : List Char) : List Char :=
  if s.all (·.toNat < 0x80) then s
  else s.map fun c =>
    if c.toNat < 0x7F then c
    else if Text.isBlank c then ' '
    else match Text.decimalDigit? c with
      | some d => Char.ofNat ('0'.toNat + d)
      | none => c

/-- Drop the blanks at both ends. -/
def trimmed (s : List Char) : List Char :=
  ((s.dropWhile Text.isAsciiBlank).reverse.dropWhile Text.isAsciiBlank).reverse

/-- Remove the underscores, if each of them stands between two digits. -/
def dropUnderscores? (s : List Char) : Option (List Char) :=
  go false s
where
  /-- `afterDigit` tells whether the character before was a digit. -/
  go (afterDigit : Bool) : List Char → Option (List Char)
    | [] => some []
    | '_' :: rest =>
      match rest with
      | d :: _ => if afterDigit && d.isDigit then go false rest else none
      | [] => none
    | c :: rest => (go c.isDigit rest).map (c :: ·)

/-- Split an optional sign off. -/
def splitSign : List Char → Bool × List Char
  | '-' :: rest => (true, rest)
  | '+' :: rest => (false, rest)
  | s => (false, s)

/-- The exponent part: nothing, or the letter e with an optional sign and digits. -/
def exponent? : List Char → Option Int
  | [] => some 0
  | c :: rest =>
    if c = 'e' ∨ c = 'E' then
      let (negative, digits) := splitSign rest
      if digits.isEmpty ∨ ¬ digits.all Char.isDigit then none
      else
        let n : Int := natOfDigits digits
        some (if negative then -n else n)
    else none

/-- A numeral without sign, blanks and underscores. -/
def unsignedNumeral? (negative : Bool) (s : List Char) : Option Numeral :=
  let word := s.map Char.toLower
  if word = "inf".toList ∨ word = "infinity".toList then some (.infinite negative)
  else if word = "nan".toList then some .nan
  else
    let whole := s.takeWhile Char.isDigit
    let rest := s.dropWhile Char.isDigit
    let (fraction, rest) := match rest with
      | '.' :: tail => (tail.takeWhile Char.isDigit, tail.dropWhile Char.isDigit)
      | _ => ([], rest)
    if whole.isEmpty ∧ fraction.isEmpty then none
    else (exponent? rest).map fun e =>
      .finite negative (natOfDigits (whole ++ fraction)) (e - fraction.length)

/-- Read a decimal numeral. -/
def Numeral.ofText? (s : String) : Option Numeral := do
  let plain ← dropUnderscores? (trimmed (asciiDigits s.toList))
  let (negative, body) := splitSign plain
  unsignedNumeral? negative body

/-- The longest row of digits that a whole numeral may have. -/
def maxWholeDigits : Nat := 4300

/-- Read a whole numeral. -/
def wholeOfText? (s : String) : Option Int := do
  let (negative, body) := splitSign (trimmed (asciiDigits s.toList))
  let digits ← dropUnderscores? body
  if digits.isEmpty ∨ ¬ digits.all Char.isDigit ∨ maxWholeDigits < digits.length then none
  else
    let n : Int := natOfDigits digits
    some (if negative then -n else n)

end NetBalance.Decimal
