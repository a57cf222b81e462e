import NetBalance.Decimal.Numeral
import NetBalance.Yaml.Spot
import NetBalance.Yaml.Token.Basic
import NetBalance.Yaml.Token.Scalar

/-! # Names, tags and directives

    Anchors and aliases are names; tags are written in full or behind a
    handle, and may hold characters as escaped bytes; a directive takes a
    line of its own. -/

namespace NetBalance.Yaml.Word

open Spots

def isNameChar (c : Char) : Bool := c.isAlphanum || c = '-' || c = '_'

/-- The name behind the mark of an anchor or an alias. -/
def anchorName (s : Spots) : Except Error (String × Spots) :=
  let (name, rest) := span (s.drop 1) isNameChar
  let next := peek rest
  if name.isEmpty || !(endsIndicator next || "?:,]\x7d%@\x60".contains next) then
    .error (.malformed .badAnchor)
  else .ok (String.ofList name, rest)

/-! ### Tags -/

def isUriChar (c : Char) : Bool := c.isAlphanum || "-;/?:@&=+$,_.!~*'()[]".contains c

/-- The bytes of a row of escapes; nothing behind a percent sign without two digits. -/
def escapedBytes : Spots → Option (List UInt8 × Spots)
  | percent :: high :: low :: rest =>
    if percent.char = '%' then do
      let h ← Scalar.hexDigit? high.char
      let l ← Scalar.hexDigit? low.char
      let (bytes, after) ← escapedBytes rest
      return (UInt8.ofNat (16 * h + l) :: bytes, after)
    else some ([], percent :: high :: low :: rest)
  | s => if peek s = '%' then none else some ([], s)

/-- A row of escapes as the text that it encodes. -/
def escapedText (s : Spots) : Except Error (List Char × Spots) :=
  match escapedBytes s with
  | none => .error (.malformed .badTag)
  | some (bytes, rest) =>
    match String.fromUTF8? ⟨bytes.toArray⟩ with
    | some text => .ok (text.toList, rest)
    | none => .error (.malformed .badTag)

/-- The characters of a tag; none at all is possible here. -/
def uriChars (s : Spots) : Except Error (List Char × Spots) :=
  let (plain, afterPlain) := span s isUriChar
  if peek afterPlain = '%' then
    match escapedText afterPlain with
    | .error e => .error e
    | .ok (text, rest) =>
      if rest.length < s.length then do
        let (more, last) ← uriChars rest
        return (plain ++ text ++ more, last)
      else .ok (plain ++ text, rest)
  else .ok (plain, afterPlain)
termination_by s.length

/-- The text of a tag. -/
def uri (s : Spots) : Except Error (String × Spots) := do
  let (chars, rest) ← uriChars s
  if chars.isEmpty then throw (.malformed .badTag)
  return (String.ofList chars, rest)

/-- A handle: one exclamation mark, or a name between two of them. -/
def handle (s : Spots) : Except Error (String × Spots) :=
  if peek s ≠ '!' then .error (.malformed .badTag)
  else if peekAt s 1 = ' ' then .ok ("!", s.drop 1)
  else
    let (name, rest) := span (s.drop 1) isNameChar
    if peek rest = '!' then .ok (String.ofList ('!' :: name ++ ['!']), rest.drop 1)
    else .error (.malformed .badTag)

/-- A tag from its exclamation mark on. -/
def tag (s : Spots) : Except Error (WrittenTag × Spots) := do
  let (t, rest) ←
    if peekAt s 1 = '<' then do
      let (name, rest) ← uri (s.drop 2)
      if peek rest ≠ '>' then throw (.malformed .badTag)
      pure (WrittenTag.mk none name, rest.drop 1)
    else if endsIndicator (peekAt s 1) then pure (WrittenTag.mk none "!", s.drop 1)
    else do
      -- another exclamation mark in the word closes a handle
      let closesHandle := (span (s.drop 1) (!endsWord ·)).1.contains '!'
      let (h, rest) ← if closesHandle then handle s else pure ("!", s.drop 1)
      let (suffix, rest) ← uri rest
      pure (WrittenTag.mk (some h) suffix, rest)
  if endsWord (peek rest) then return (t, rest) else throw (.malformed .badTag)

/-! ### Directives -/

/-- A row of digits as a number. -/
def digits (s : Spots) : Except Error (Nat × Spots) :=
  let (ds, rest) := span s Char.isDigit
  if ds.isEmpty then .error (.malformed .badDirective)
  else if Decimal.maxWholeDigits < ds.length then .error .badNumeral
  else .ok (ds.foldl (fun n c => 10 * n + (c.toNat - '0'.toNat)) 0, rest)

/-- A version: two numbers with a point between them. -/
def version (s : Spots) : Except Error (Directive × Spots) := do
  let (major, rest) ← digits (skip s (· = ' '))
  if peek rest ≠ '.' then throw (.malformed .badDirective)
  let (_, rest) ← digits (rest.drop 1)
  if !endsWord (peek rest) then throw (.malformed .badDirective)
  return (.version major, rest)

/-- A handle and what it stands for. -/
def declaration (s : Spots) : Except Error (Directive × Spots) := do
  let (h, rest) ← handle (skip s (· = ' '))
  if peek rest ≠ ' ' then throw (.malformed .badDirective)
  let (meaning, rest) ← uri (skip rest (· = ' '))
  if !endsWord (peek rest) then throw (.malformed .badDirective)
  return (.handle h meaning, rest)

/-- A directive from its percent sign to the end of its line. -/
def directive (s : Spots) : Except Error (Directive × Spots) := do
  let (name, rest) := span (s.drop 1) isNameChar
  if name.isEmpty || !endsWord (peek rest) then throw (.malformed .badDirective)
  let (d, rest) ← match String.ofList name with
    | "YAML" => version rest
    | "TAG" => declaration rest
    | _ => pure (.other, skip rest (!isBreakOrEnd ·))
  let rest := skipComment rest
  if !isBreakOrEnd (peek rest) then throw (.malformed .badDirective)
  return (d, (lineBreak rest).2)

end NetBalance.Yaml.Word
