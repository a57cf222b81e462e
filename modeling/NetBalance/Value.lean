import NetBalance.Scalar

/-! # Payload values

    A node carries a payload of named values, written by an editor and not
    checked by it.  The library reads each value only where it needs it, and
    a value of the wrong form is an error there. -/

namespace NetBalance

/-- A value of a node's payload.  Whole numbers are kept apart from other numbers. -/
inductive Value (K : Type) where
  | null
  | bool (b : Bool)
  | int (n : Int)
  | real (x : K)
  | text (s : String)
  | list (entries : List (Value K))
  | object (fields : List (String × Value K))

/-- A payload: named values in the order in which the names were first written. -/
abbrev Payload (K : Type) := List (String × Value K)

/-- Why a payload value cannot be used as its node needs it. -/
inductive ValueError where
  /-- Null, a list or an object in the place of a number. -/
  | notANumber
  /-- A text that is no numeral. -/
  | notANumeral
  /-- A whole number beyond the range of the number type. -/
  | tooLarge
  /-- Null, a truth value or a number in the place of a row. -/
  | notARow
  /-- A list or an object in the place of a name. -/
  | notAName
deriving DecidableEq

namespace Payload

variable {K : Type}

/-- The value of a name. -/
def get? (p : Payload K) (key : String) : Option (Value K) := p.lookup key

/-- Give a name a value; a name that is there already keeps its place. -/
def put (p : Payload K) (key : String) (v : Value K) : Payload K :=
  match p with
  | [] => [(key, v)]
  | (k, w) :: rest => if k = key then (k, v) :: rest else (k, w) :: put rest key v

@[simp] theorem get?_nil (k : String) : get? ([] : Payload K) k = none := rfl

@[simp] theorem get?_cons (name : String) (v : Value K) (p : Payload K) (k : String) :
    get? ((name, v) :: p) k = if k = name then some v else get? p k := by
  by_cases h : k = name
  · simp [get?, h]
  · have : (k == name) = false := by simpa using h
    simp [get?, List.lookup_cons, h, this]

theorem get?_put (p : Payload K) (key k : String) (v : Value K) :
    (p.put key v).get? k = if k = key then some v else p.get? k := by
  induction p with
  | nil => simp [put]
  | cons field rest ih =>
    obtain ⟨name, w⟩ := field
    by_cases h : name = key <;> by_cases hk : k = name <;> simp_all [put]

end Payload

namespace Value

variable {K : Type}

/-- Whether a value counts as yes: null, zero and whatever is empty count as no. -/
def isTrue [Scalar K] : Value K → Bool
  | .null => false
  | .bool b => b
  | .int n => n ≠ 0
  | .real x => !Scalar.isZero x
  | .text s => !s.isEmpty
  | .list entries => !entries.isEmpty
  | .object fields => !fields.isEmpty

/-- The number that a value stands for: a number itself, a truth value as one or zero, or a
    text that is a numeral. -/
def toScalar [Zero K] [One K] [Scalar K] : Value K → Except ValueError K
  | .null => .error .notANumber
  | .bool b => .ok (if b then 1 else 0)
  | .int n => (Scalar.ofInt? n).elim (.error .tooLarge) .ok
  | .real x => .ok x
  | .text s =>
    ((Decimal.Numeral.ofText? s).bind Scalar.ofNumeral?).elim (.error .notANumeral) .ok
  | .list _ => .error .notANumber
  | .object _ => .error .notANumber

/-- The entries of a row: of a list its entries, of a text its characters, of an object its
    names. -/
def entries : Value K → Except ValueError (List (Value K))
  | .list entries => .ok entries
  | .text s => .ok (s.toList.map fun c => .text c.toString)
  | .object fields => .ok (fields.map fun field => .text field.1)
  | .null | .bool _ | .int _ | .real _ => .error .notARow

/-- Whether a value can name something: lists and objects cannot. -/
def isAtom : Value K → Bool
  | .list _ | .object _ => false
  | .null | .bool _ | .int _ | .real _ | .text _ => true

end Value

end NetBalance
