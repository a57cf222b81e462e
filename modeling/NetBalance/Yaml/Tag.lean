import NetBalance.Yaml.Timestamp

/-! # Tags

    A tag says what kind of value a node stands for.  Plain scalars without a
    tag get one by their form. -/

namespace NetBalance.Yaml

inductive Tag where
  | null
  | bool
  | int
  | float
  | str
  | binary
  | timestamp
  | seq
  | map
  | set
  | omap
  | pairs
  /-- The key whose value is merged into the mapping around it. -/
  | merge
  /-- The key whose value stands for the mapping around it. -/
  | value
  /-- A tag without a meaning here. -/
  | unknown
deriving DecidableEq

namespace Tag

/-- What the names of all standard tags start with. -/
def standardStart : String := "tag:yaml.org,2002:"

def standardNames : List (String × Tag) :=
  [("null", .null), ("bool", .bool), ("int", .int), ("float", .float), ("str", .str),
    ("binary", .binary), ("timestamp", .timestamp), ("seq", .seq), ("map", .map), ("set", .set),
    ("omap", .omap), ("pairs", .pairs), ("merge", .merge), ("value", .value)]

/-- The tag of a full name. -/
def ofName (name : String) : Tag :=
  ((standardNames.find? fun (short, _) => standardStart ++ short = name).map (·.2)).getD .unknown

/-! ### The forms of plain scalars -/

def isDigitOrBar (c : Char) : Bool := c.isDigit || c = '_'

def isSign (c : Char) : Bool := c = '+' || c = '-'

/-- The text behind an optional sign. -/
def unsigned : List Char → List Char
  | c :: rest => if isSign c then rest else c :: rest
  | [] => []

/-- A digit, and behind it digits and underscores. -/
def isDigits : List Char → Bool
  | c :: rest => c.isDigit && rest.all isDigitOrBar
  | [] => false

/-- A place of a number in base sixty. -/
def isSixtieth : List Char → Bool
  | [c] => c.isDigit
  | [c, d] => '0' ≤ c && c ≤ '5' && d.isDigit
  | _ => false

/-- The pieces of a text between its colons. -/
def colonPieces (s : List Char) : List (List Char) :=
  ((String.ofList s).splitOn ":").map String.toList

/-- A whole number: binary, octal, decimal, hexadecimal, or in base sixty. -/
def isInt (s : List Char) : Bool :=
  match unsigned s with
  | [] => false
  | ['0'] => true
  | '0' :: 'b' :: rest => !rest.isEmpty && rest.all fun c => "01_".contains c
  | '0' :: 'x' :: rest => !rest.isEmpty && rest.all fun c => (Scalar.hexDigit? c).isSome || c = '_'
  | '0' :: rest => rest.all fun c => "01234567_".contains c
  | body =>
    match colonPieces body with
    | first :: places => isDigits first && places.all isSixtieth
    | [] => false

/-- An optional exponent; it has a sign. -/
def isExponent : List Char → Bool
  | [] => true
  | e :: sign :: digits =>
    (e = 'e' || e = 'E') && isSign sign && !digits.isEmpty && digits.all Char.isDigit
  | [_] => false

/-- What may follow the point of a decimal number. -/
def isFraction (s : List Char) : Bool := isExponent (s.dropWhile isDigitOrBar)

/-- A number with a point, an infinity, or not-a-number. -/
def isFloat (s : List Char) : Bool :=
  let body := unsigned s
  match body.takeWhile (· ≠ '.'), body.dropWhile (· ≠ '.') with
  | _, [] => false
  | [], _ :: rest =>
    [".inf", ".Inf", ".INF"].contains (String.ofList body) ||
      [".nan", ".NaN", ".NAN"].contains (String.ofList s) ||
      -- without a digit in front of the point there is no sign either
      (s.length = body.length && isDigits (rest.takeWhile isDigitOrBar) && isFraction rest)
  | whole, _ :: rest =>
    match colonPieces whole with
    | [_] => isDigits whole && isFraction rest
    | first :: places => isDigits first && places.all isSixtieth && rest.all isDigitOrBar
    | [] => false

def truths : List (String × Bool) :=
  [("yes", true), ("no", false), ("true", true), ("false", false), ("on", true), ("off", false)]

/-- The spellings of a word: lower case, capitalised, upper case. -/
def spellings (word : String) : List String := [word, word.capitalize, word.toUpper]

/-- The tag of a plain scalar.  A line break at its end does not count. -/
def ofPlain (text : String) : Tag :=
  let s := text.toList
  let body := if s.getLast? = some '\n' then s.dropLast else s
  let word := String.ofList body
  if s.isEmpty then .null
  else if (truths.flatMap fun t => spellings t.1).contains word then .bool
  else if isFloat body then .float
  else if isInt body then .int
  else if word = "<<" then .merge
  else if ("~" :: spellings "null").contains word then .null
  else if Timestamp.isPlain body then .timestamp
  else if word = "=" then .value
  else if ["!", "&", "*"].contains word then .unknown
  else .str

end Tag

end NetBalance.Yaml
