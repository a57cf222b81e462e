import NetBalance.Decimal.Format
import NetBalance.Scalar
import NetBalance.Text.Quoted

/-! # Configuration documents

    A document is what a configuration text says before anyone asks whether
    it makes sense: scalars, lists and mappings.  The keys of a mapping are
    documents themselves, and keys that are equal as numbers count as one. -/

namespace NetBalance

inductive Document (K : Type) where
  | null
  | bool (b : Bool)
  | int (n : Int)
  | real (x : K)
  | text (s : String)
  | bytes (content : List UInt8)
  /-- A date, or a date with a time, as it is written out. -/
  | moment (written : String)
  | list (entries : List (Document K))
  | mapping (entries : List (Document K × Document K))

namespace Document

variable {K : Type}

/-- The entries of a mapping. -/
abbrev Entries (K : Type) := List (Document K × Document K)

/-- The text of bytes that are all of ASCII. -/
def asciiText? (content : List UInt8) : Option String :=
  if content.all (· < 0x80) then some (String.ofList (content.map fun b => Char.ofNat b.toNat))
  else none

section Numbers

variable [Zero K] [One K] [Scalar K]

/-- The number that a document stands for: a number itself, a truth value as one or zero, or a
    text that is a numeral. -/
def toScalar? : Document K → Option K
  | .bool b => some (if b then 1 else 0)
  | .int n => Scalar.ofInt? n
  | .real x => some x
  | .text s => (Decimal.Numeral.ofText? s).bind Scalar.ofNumeral?
  | .bytes content => do Scalar.ofNumeral? (← Decimal.Numeral.ofText? (← asciiText? content))
  | .null | .moment _ | .list _ | .mapping _ => none

/-- The whole number that a document stands for; other numbers lose what is behind their point,
    numerals must not have any. -/
def toWhole? : Document K → Option Int
  | .bool b => some (if b then 1 else 0)
  | .int n => some n
  | .real x => Scalar.truncate? x
  | .text s => Decimal.wholeOfText? s
  | .bytes content => do Decimal.wholeOfText? (← asciiText? content)
  | .null | .moment _ | .list _ | .mapping _ => none

/-- Whether a whole number and a number are equal, without rounding either. -/
def sameNumber (n : Int) (x : K) : Bool :=
  Scalar.truncate? x = some n && ((Scalar.ofInt? n).map (Scalar.same x ·)).getD false

/-- Whether two documents are one key.  A truth value is the number one or zero. -/
def sameKey : Document K → Document K → Bool
  | .null, .null => true
  | .text s, .text t => s = t
  | .bytes b, .bytes c => b = c
  | .moment s, .moment t => s = t
  | .real x, .real y => Scalar.same x y
  | .real x, d | d, .real x =>
    match d with
    | .bool b => sameNumber (if b then 1 else 0) x
    | .int n => sameNumber n x
    | _ => false
  | .int n, d | d, .int n =>
    match d with
    | .bool b => n = if b then 1 else 0
    | .int m => n = m
    | _ => false
  | .bool a, .bool b => a = b
  | _, _ => false

/-- Give a key a value; a key that is there already keeps its place. -/
def put {α : Type} (pairs : List (Document K × α)) (key : Document K) (value : α) :
    List (Document K × α) :=
  match pairs with
  | [] => [(key, value)]
  | (k, v) :: rest => if sameKey k key then (k, value) :: rest else (k, v) :: put rest key value

end Numbers

/-- Whether a document can be a key: lists and mappings cannot. -/
def isAtom : Document K → Bool
  | .list _ | .mapping _ => false
  | .null | .bool _ | .int _ | .real _ | .text _ | .bytes _ | .moment _ => true

/-- The name that a key is, if it is a text. -/
def name? : Document K → Option String
  | .text s => some s
  | .null | .bool _ | .int _ | .real _ | .bytes _ | .moment _ | .list _ | .mapping _ => none

/-- The value of a name. -/
def Entries.get? (entries : Entries K) (name : String) : Option (Document K) :=
  (entries.find? fun entry => entry.1.name? = some name).map (·.2)

/-- Bytes between quotes behind the letter b; all outside of printable ASCII are escaped. -/
def bytesText (content : List UInt8) : String :=
  let chars := content.map fun b => Char.ofNat b.toNat
  let q := Text.quoteFor chars
  let one (c : Char) : List Char :=
    if 0x7F ≤ c.toNat then '\\' :: 'x' :: Text.hex 2 c.toNat else Text.quotedChar q c
  String.ofList ('b' :: q :: chars.flatMap one ++ [q])

/-- A key as it is shown. -/
def keyText : Document Float → String
  | .null => "None"
  | .bool b => if b then "True" else "False"
  | .int n => toString n
  | .real x => Decimal.shortest x
  | .text s => s
  | .bytes content => bytesText content
  | .moment written => written
  | .list _ => "[]"
  | .mapping _ => "\x7b\x7d"

end Document

end NetBalance
