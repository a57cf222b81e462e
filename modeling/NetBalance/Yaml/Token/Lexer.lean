import NetBalance.Yaml.Token.Word

/-! # From characters to tokens

    Most tokens follow from the next one or two characters.  A key without a
    mark is the exception: it is known as a key only at the colon behind it.
    So the place of every possible key is remembered, and the colon puts the
    mark, and the start of a mapping, in front of what is there already. -/

namespace NetBalance.Yaml

open Spots

/-- What may turn out to be a key. -/
structure OpenKey where
  /-- How many tokens stand in front of it. -/
  token : Nat
  /-- At this indentation nothing but a key can stand. -/
  required : Bool
  index : Nat
  line : Nat
  column : Nat

/-- What is known between two tokens. -/
structure Lexer where
  rest : Spots
  tokens : Array Token
  /-- The column of the innermost block. -/
  indent : Int
  /-- The columns of the blocks around it. -/
  outerIndents : List Int
  /-- Whether a key without a mark can start here. -/
  keyAllowed : Bool
  /-- The open key of the innermost flow collection, or of the block outside of all of them. -/
  openKey : Option OpenKey
  /-- The open keys of the collections around it; none outside of flow collections. -/
  outerKeys : List (Option OpenKey)

namespace Lexer

def start (text : Spots) : Lexer := ⟨text, #[], -1, [], true, none, []⟩

def inFlow (s : Lexer) : Bool := !s.outerKeys.isEmpty

def push (s : Lexer) (t : Token) : Lexer := { s with tokens := s.tokens.push t }

def moveTo (s : Lexer) (rest : Spots) : Lexer := { s with rest }

def allowKey (s : Lexer) (allowed : Bool) : Lexer := { s with keyAllowed := allowed }

/-- Put a token in front of the tokens from a place on. -/
def insertAt (s : Lexer) (place : Nat) (t : Token) : Lexer :=
  { s with tokens := s.tokens.insertIdxIfInBounds place t }

/-! ### Indentation -/

/-- Leave the blocks right of a column: how many they are, and what stays. -/
def leave (column : Int) (indent : Int) : List Int → Nat × Int × List Int
  | [] => (0, indent, [])
  | outer :: rest =>
    if column < indent then
      let (count, indent, rest) := leave column outer rest
      (count + 1, indent, rest)
    else (0, indent, outer :: rest)

/-- End the blocks right of a column; flow collections do not care. -/
def closeBlocks (s : Lexer) (column : Int) : Lexer :=
  if s.inFlow then s
  else
    let (count, indent, outerIndents) := leave column s.indent s.outerIndents
    { s with tokens := s.tokens ++ Array.replicate count .blockEnd, indent, outerIndents }

/-- Start a block at a column, unless one starts there already. -/
def enter (s : Lexer) (column : Nat) (place : Nat) (t : Token) : Lexer :=
  if s.indent < column then
    { s.insertAt place t with indent := column, outerIndents := s.indent :: s.outerIndents }
  else s

/-! ### Open keys -/

/-- Whether an open key is out of reach: on another line, or too far off. -/
def isOutOfReach (s : Lexer) (k : OpenKey) : Bool :=
  k.line != s.rest.line || k.index + 1024 < s.rest.index

/-- Forget a key that cannot be one any more. -/
def dropOutOfReach (s : Lexer) (key : Option OpenKey) : Except Error (Option OpenKey) :=
  match key with
  | none => .ok none
  | some k =>
    if !s.isOutOfReach k then .ok (some k)
    else if k.required then .error (.malformed .missingColon)
    else .ok none

/-- Close the open key without a colon. -/
def dropKey (s : Lexer) : Except Error Lexer :=
  match s.openKey with
  | some k =>
    if k.required then .error (.malformed .missingColon) else .ok { s with openKey := none }
  | none => .ok s

/-- Remember this place as that of a possible key. -/
def saveKey (s : Lexer) : Except Error Lexer :=
  if s.keyAllowed then do
    let s ← s.dropKey
    let required := !s.inFlow && s.indent = s.rest.column
    let key : OpenKey := ⟨s.tokens.size, required, s.rest.index, s.rest.line, s.rest.column⟩
    return { s with openKey := some key }
  else .ok s

/-- The tokens up to the first open key, and the fault that keeps it open. -/
def brokenBy (s : Lexer) (e : Error) : Array Token :=
  let open? (k : Option OpenKey) : Option Nat :=
    k.bind fun k => if s.isOutOfReach k then none else some k.token
  let firstOpen := (s.openKey :: s.outerKeys).filterMap open? |>.foldl min s.tokens.size
  (s.tokens.take firstOpen).push (.broken e)

/-! ### Single tokens -/

/-- Skip to the next token and close what ends in front of it. -/
def settle (s : Lexer) : Except Error Lexer := do
  let text := if s.rest.index = 0 && s.rest.peek = byteOrderMark then s.rest.drop 1 else s.rest
  let (leftLine, rest) := skipToToken text
  let s := { s with rest, keyAllowed := s.keyAllowed || (leftLine && !s.inFlow) }
  let openKey ← s.dropOutOfReach s.openKey
  let outerKeys ← s.outerKeys.mapM s.dropOutOfReach
  return { s with openKey, outerKeys }.closeBlocks (column rest)

/-- The end of all blocks. -/
def finish (s : Lexer) : Except Error Lexer := do
  let s ← (s.closeBlocks (-1)).dropKey
  return s.allowKey false

def directive (s : Lexer) : Except Error Lexer := do
  let s ← s.finish
  let (d, rest) ← Word.directive s.rest
  return (s.push (.directive d)).moveTo rest

def marker (s : Lexer) (t : Token) : Except Error Lexer := do
  let s ← s.finish
  return (s.push t).moveTo (s.rest.drop 3)

def openFlow (s : Lexer) (t : Token) : Except Error Lexer := do
  let s ← s.saveKey
  return { s.push t with
    rest := s.rest.drop 1, keyAllowed := true, openKey := none,
    outerKeys := s.openKey :: s.outerKeys }

def closeFlow (s : Lexer) (t : Token) : Except Error Lexer := do
  let s ← s.dropKey
  match s.outerKeys with
  | [] => throw (.malformed .unexpectedToken)
  | key :: outerKeys =>
    return { s.push t with
      rest := s.rest.drop 1, keyAllowed := false, openKey := key, outerKeys }

def comma (s : Lexer) : Except Error Lexer := do
  let s ← s.dropKey
  return ((s.push .flowEntry).moveTo (s.rest.drop 1)).allowKey true

def entry (s : Lexer) : Except Error Lexer := do
  if !s.inFlow && !s.keyAllowed then throw (.malformed .entryNotAllowed)
  let s := if s.inFlow then s else s.enter s.rest.column s.tokens.size .blockSequenceStart
  let s ← s.dropKey
  return ((s.push .blockEntry).moveTo (s.rest.drop 1)).allowKey true

def key (s : Lexer) : Except Error Lexer := do
  if !s.inFlow && !s.keyAllowed then throw (.malformed .keyNotAllowed)
  let s := if s.inFlow then s else s.enter s.rest.column s.tokens.size .blockMappingStart
  let s ← s.dropKey
  return ((s.push .key).moveTo (s.rest.drop 1)).allowKey (!s.inFlow)

def value (s : Lexer) : Except Error Lexer := do
  match s.openKey with
  | some k =>
    let s := { s.insertAt k.token .key with openKey := none }
    let s := if s.inFlow then s else s.enter k.column k.token .blockMappingStart
    return ((s.push .value).moveTo (s.rest.drop 1)).allowKey false
  | none =>
    if !s.inFlow && !s.keyAllowed then throw (.malformed .valueNotAllowed)
    let s := if s.inFlow then s else s.enter s.rest.column s.tokens.size .blockMappingStart
    return ((s.push .value).moveTo (s.rest.drop 1)).allowKey (!s.inFlow)

/-- A token that may start a key. -/
def word (s : Lexer) (read : Spots → Except Error (Token × Spots)) :
    Except Error Lexer := do
  let s ← s.saveKey
  let (t, rest) ← read s.rest
  return ((s.push t).moveTo rest).allowKey false

def block (s : Lexer) (folded : Bool) : Except Error Lexer := do
  let s ← s.dropKey
  let (text, rest) ← Scalar.block folded s.indent (s.rest.drop 1)
  return ((s.push (.scalar false (String.ofList text))).moveTo rest).allowKey true

def plain (s : Lexer) : Except Error Lexer := do
  let s ← s.saveKey
  let (text, newLine, rest) := Scalar.plain s.inFlow (s.indent + 1) s.rest []
  return ((s.push (.scalar true (String.ofList text))).moveTo rest).allowKey newLine

/-- Whether a plain scalar can start with `c`, given the character behind it. -/
def startsPlain (inFlow : Bool) (c next : Char) : Bool :=
  !(endsIndicator c || "-?:,[]\x7b\x7d#&*!|>'\"%@\x60".contains c) ||
    (!endsIndicator next && (c = '-' || (!inFlow && (c = '?' || c = ':'))))

def readAnchor (make : String → Token) (s : Spots) : Except Error (Token × Spots) := do
  let (name, rest) ← Word.anchorName s
  return (make name, rest)

def readTag (s : Spots) : Except Error (Token × Spots) := do
  let (t, rest) ← Word.tag s
  return (.tag t, rest)

def readQuoted (s : Spots) : Except Error (Token × Spots) := do
  let (text, rest) ← Scalar.quoted s.peek (s.drop 1) []
  return (.scalar false (String.ofList text), rest)

/-- The next token, and with it the tokens that its place implies. -/
def step (s : Lexer) : Except Error Lexer :=
  let c := s.rest.peek
  let next := s.rest.peekAt 1
  let atLineStart := s.rest.column = 0
  let standsAlone := s.inFlow || endsIndicator next
  if c = '%' && atLineStart then s.directive
  else if atLineStart && s.rest.atMarker then
    s.marker (if c = '-' then .documentStart else .documentEnd)
  else if c = '[' then s.openFlow .flowSequenceStart
  else if c = '{' then s.openFlow .flowMappingStart
  else if c = ']' then s.closeFlow .flowSequenceEnd
  else if c = '}' then s.closeFlow .flowMappingEnd
  else if c = ',' then s.comma
  else if c = '-' && endsIndicator next then s.entry
  else if c = '?' && standsAlone then s.key
  else if c = ':' && standsAlone then s.value
  else if c = '*' then s.word (readAnchor .alias)
  else if c = '&' then s.word (readAnchor .anchor)
  else if c = '!' then s.word readTag
  else if (c = '|' || c = '>') && !s.inFlow then s.block (c = '>')
  else if c = '\'' || c = '"' then s.word readQuoted
  else if startsPlain s.inFlow c next then s.plain
  else .error (.malformed .badStart)

/-- All tokens from here on.  A fault ends them where it would be met. -/
def run (s : Lexer) : Array Token :=
  match s.settle with
  | .error e => s.brokenBy e
  | .ok settled =>
    if settled.rest.peek = endMark then
      match settled.finish with
      | .ok last => last.tokens
      | .error e => s.brokenBy e
    else
      match settled.step with
      | .error e => s.brokenBy e
      | .ok next => if next.rest.length < s.rest.length then next.run else next.tokens
termination_by s.rest.length

end Lexer

/-- The tokens of a text. -/
def Token.scan (text : Spots) : List Token := (Lexer.start text).run.toList

end NetBalance.Yaml
