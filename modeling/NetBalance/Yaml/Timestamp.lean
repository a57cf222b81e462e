import NetBalance.Yaml.Token.Scalar

/-! # Dates and times

    A timestamp is a date, or a date with a time of day and perhaps a
    distance to universal time.  It is written out in one canonical form. -/

namespace NetBalance.Yaml

/-- The time of day of a timestamp. -/
structure TimeOfDay where
  hour : Nat
  minute : Nat
  second : Nat
  microsecond : Nat
  /-- Minutes ahead of universal time, where the text says so. -/
  offset : Option Int

structure Timestamp where
  year : Nat
  month : Nat
  day : Nat
  time : Option TimeOfDay

namespace Timestamp

/-! ### Reading -/

/-- A reader takes something off the front of a text. -/
abbrev Reader := StateT (List Char) Option

/-- A number of at least `least` and at most `most` digits. -/
def digits (least most : Nat) : Reader Nat := fun s =>
  let ds := (s.take most).takeWhile Char.isDigit
  if ds.length < least then none
  else some (ds.foldl (fun n c => 10 * n + (c.toNat - '0'.toNat)) 0, s.drop ds.length)

/-- Exactly this character. -/
def mark (c : Char) : Reader Unit := fun s =>
  match s with
  | d :: rest => if d = c then some ((), rest) else none
  | [] => none

/-- The digits behind a point as millionths; more than six are cut off. -/
def fraction : Reader Nat := fun s =>
  match s with
  | '.' :: rest =>
    let ds := rest.takeWhile Char.isDigit
    let six := (ds ++ List.replicate 6 '0').take 6
    some (six.foldl (fun n c => 10 * n + (c.toNat - '0'.toNat)) 0, rest.drop ds.length)
  | _ => some (0, s)

/-- The distance to universal time, with blanks in front; no text at all says nothing. -/
def zone : Reader (Option Int) := fun s =>
  if s.isEmpty then some (none, [])
  else
    match s.dropWhile isSpaceOrTab with
    | 'Z' :: rest => some (some 0, rest)
    | sign :: rest =>
      if sign = '+' || sign = '-' then do
        let (hours, rest) ← (digits 1 2).run rest
        let (minutes, rest) ← match rest with
          | ':' :: rest => (digits 2 2).run rest
          | _ => some (0, rest)
        let total : Int := 60 * hours + minutes
        return (some (if sign = '-' then -total else total), rest)
      else none
    | [] => none

def timeOfDay : Reader TimeOfDay := do
  let hour ← digits 1 2
  mark ':'
  let minute ← digits 2 2
  mark ':'
  let second ← digits 2 2
  let microsecond ← fraction
  let offset ← zone
  return ⟨hour, minute, second, microsecond, offset⟩

/-- What divides the date from the time: the letter T, or blanks. -/
def divider : Reader Unit := fun s =>
  match s with
  | c :: rest =>
    if c = 't' || c = 'T' then some ((), rest)
    else if isSpaceOrTab c then some ((), rest.dropWhile isSpaceOrTab)
    else none
  | [] => none

def date (least : Nat) : Reader (Nat × Nat × Nat) := do
  let year ← digits 4 4
  mark '-'
  let month ← digits least 2
  mark '-'
  let day ← digits least 2
  return (year, month, day)

/-- Read a whole text as a timestamp.  Month and day of a date alone have at least `least`
    digits. -/
def read? (least : Nat) (s : List Char) : Option Timestamp := do
  let ((year, month, day), rest) ← (date 1).run s
  if rest.isEmpty then
    let _ ← (date least).run s
    return ⟨year, month, day, none⟩
  else
    let (_, rest) ← divider.run rest
    let (time, rest) ← timeOfDay.run rest
    if rest.isEmpty then return ⟨year, month, day, some time⟩ else none

/-- Whether a plain scalar is a timestamp. -/
def isPlain (s : List Char) : Bool := (read? 2 s).isSome

/-! ### The calendar -/

def isLeap (year : Nat) : Bool := year % 4 = 0 && (year % 100 ≠ 0 || year % 400 = 0)

def daysOfMonth (year month : Nat) : Nat :=
  if month = 2 then (if isLeap year then 29 else 28)
  else if [4, 6, 9, 11].contains month then 30
  else 31

def isTimeOfDay (t : TimeOfDay) : Bool :=
  t.hour < 24 && t.minute < 60 && t.second < 60 && t.offset.all (·.natAbs < 24 * 60)

/-- Whether the calendar has this date, and the day this time. -/
def isValid (t : Timestamp) : Bool :=
  1 ≤ t.year && 1 ≤ t.month && t.month ≤ 12 && 1 ≤ t.day &&
    t.day ≤ daysOfMonth t.year t.month && t.time.all isTimeOfDay

/-! ### Writing -/

/-- A number with zeros in front. -/
def padded (width n : Nat) : String :=
  let ds := Nat.toDigits 10 n
  String.ofList (List.replicate (width - ds.length) '0' ++ ds)

def offsetText (minutes : Int) : String :=
  (if minutes < 0 then "-" else "+") ++ padded 2 (minutes.natAbs / 60) ++ ":" ++
    padded 2 (minutes.natAbs % 60)

def timeText (t : TimeOfDay) : String :=
  padded 2 t.hour ++ ":" ++ padded 2 t.minute ++ ":" ++ padded 2 t.second ++
    (if t.microsecond = 0 then "" else "." ++ padded 6 t.microsecond) ++
    (t.offset.map offsetText).getD ""

/-- A timestamp in its canonical form. -/
def text (t : Timestamp) : String :=
  padded 4 t.year ++ "-" ++ padded 2 t.month ++ "-" ++ padded 2 t.day ++
    (t.time.map fun time => " " ++ timeText time).getD ""

end Timestamp

end NetBalance.Yaml
