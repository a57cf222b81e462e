import NetBalance.Yaml.Spot

/-! # Scalars as they are written

    A scalar is plain, quoted or a block.  Line breaks inside of plain and
    quoted scalars are folded: a single one becomes a space, of several the
    first is dropped.  A folded block does the same between lines that do not
    start with a blank. -/

namespace NetBalance.Yaml.Scalar

open Spots

/-! ### Plain scalars -/

/-- Whether a plain scalar ends in front of a character, given the one behind it. -/
def endsPlain (inFlow : Bool) (c next : Char) : Bool :=
  endsIndicator c ||
    (c = ':' && (endsIndicator next || (inFlow && ",[]\x7b\x7d".contains next))) ||
    (inFlow && ",?[]\x7b\x7d".contains c)

/-- A run of characters of a plain scalar without blanks. -/
def plainWord (inFlow : Bool) : Spots → List Char × Spots
  | [] => ([], [])
  | c :: rest =>
    if endsPlain inFlow c.char (peek rest) then ([], c :: rest)
    else
      let (word, after) := plainWord inFlow rest
      (c.char :: word, after)

/-- The breaks after the first one between the lines of a plain scalar; nothing when a document
    marker ends it. -/
def plainBreaks (s : Spots) : Option (List Char) × Spots :=
  match s with
  | [] => (some [], [])
  | c :: rest =>
    if c.char = ' ' then plainBreaks rest
    else if isBreak c.char then
      let (first, after) := lineBreak (c :: rest)
      if atMarker after then (none, after)
      else
        let (more, last) := plainBreaks rest
        (more.map (first ++ ·), last)
    else (some [], c :: rest)

/-- What stands between two words of a plain scalar: the text that it counts as, whether a line
    was left, and the rest.  No text means that the scalar ends here. -/
def plainGap (s : Spots) : List Char × Bool × Spots :=
  let (spaces, afterSpaces) := span s (· = ' ')
  if isBreak (peek afterSpaces) then
    let (first, after) := lineBreak afterSpaces
    if atMarker after then ([], true, after)
    else
      match plainBreaks after with
      | (none, rest) => ([], true, rest)
      | (some breaks, rest) =>
        let folded := if first = ['\n'] then (if breaks.isEmpty then [' '] else []) else first
        (folded ++ breaks, true, rest)
  else (spaces, false, afterSpaces)

/-- A plain scalar whose further lines are indented by at least `indent`: its text, whether the
    text is followed by a new line, and the rest. -/
def plain (inFlow : Bool) (indent : Int) (s : Spots) (acc : List Char) : List Char × Bool × Spots :=
  let (word, afterWord) := plainWord inFlow s
  if word.isEmpty then (acc, false, s)
  else
    let acc := acc ++ word
    let (gap, newLine, rest) := plainGap afterWord
    let next := peek rest
    if gap.isEmpty || next = '#' || (!inFlow && (rest.column : Int) < indent) then
      (acc, newLine, rest)
    -- a gap that nothing follows does not count
    else if (plainWord inFlow rest).1.isEmpty then (acc, newLine, rest)
    else if rest.length < s.length then plain inFlow indent rest (acc ++ gap)
    else (acc, newLine, rest)
termination_by s.length

/-! ### Quoted scalars -/

/-- The characters that a backslash and a letter stand for. -/
def escapes : List (Char × Char) :=
  [('0', '\x00'), ('a', '\x07'), ('b', '\x08'), ('t', '\t'), ('\t', '\t'), ('n', '\n'),
    ('v', '\x0b'), ('f', '\x0c'), ('r', '\r'), ('e', '\x1b'), (' ', ' '), ('"', '"'),
    ('\\', '\\'), ('/', '/'), ('N', '\u0085'), ('_', '\u00a0'), ('L', '\u2028'), ('P', '\u2029')]

/-- How many hexadecimal digits follow a backslash and a letter. -/
def escapeWidth : Char → Option Nat
  | 'x' => some 2
  | 'u' => some 4
  | 'U' => some 8
  | _ => none

def hexDigit? (c : Char) : Option Nat :=
  if c.isDigit then some (c.toNat - '0'.toNat)
  else if 'a' ≤ c && c ≤ 'f' then some (c.toNat - 'a'.toNat + 10)
  else if 'A' ≤ c && c ≤ 'F' then some (c.toNat - 'A'.toNat + 10)
  else none

/-- The number that the first `width` characters write in hexadecimal. -/
def hexNumber? (s : Spots) (width : Nat) : Option Nat :=
  (List.range width).foldlM (fun n k => (hexDigit? (peekAt s k)).map (16 * n + ·)) 0

/-- The character of a code point. -/
def charOfCode (code : Nat) : Except Error Char :=
  if code < 0x110000 then .ok (Char.ofNat code)
  else if code < 0x80000000 then .error .noCodePoint
  else .error .hugeCodePoint

/-- The blank lines at the start of a line of a quoted scalar, which no document marker may
    start. -/
def quotedBreaks (s : Spots) : Except Error (List Char × Spots) :=
  if atMarker s then .error (.malformed .markerInScalar)
  else
    let afterBlanks := skip s isSpaceOrTab
    let (first, rest) := lineBreak afterBlanks
    if _h : !first.isEmpty ∧ rest.length < s.length then do
      let (more, last) ← quotedBreaks rest
      return (first ++ more, last)
    else .ok ([], afterBlanks)
termination_by s.length

/-- Blanks inside of a quoted scalar: kept within a line, folded around a line break. -/
def quotedGap (s : Spots) : Except Error (List Char × Spots) := do
  let (blanks, rest) := span s isSpaceOrTab
  if peek rest = endMark then throw (.malformed .unexpectedEnd)
  else if isBreak (peek rest) then
    let (first, rest) := lineBreak rest
    let (breaks, rest) ← quotedBreaks rest
    let folded := if first = ['\n'] then (if breaks.isEmpty then [' '] else []) else first
    return (folded ++ breaks, rest)
  else return (blanks, rest)

/-- What a backslash and the characters behind it stand for; `s` starts behind the backslash. -/
def escape (s : Spots) : Except Error (List Char × Spots) := do
  let c := peek s
  match escapes.lookup c with
  | some meant => return ([meant], s.drop 1)
  | none =>
    match escapeWidth c with
    | some width =>
      match hexNumber? (s.drop 1) width with
      | some code => return ([← charOfCode code], s.drop (1 + width))
      | none => throw (.malformed .badEscape)
    | none =>
      if isBreak c then quotedBreaks (lineBreak s).2
      else throw (.malformed .badEscape)

/-- One piece of a quoted scalar, or nothing at its closing quote. -/
def quotedPiece (quote : Char) (s : Spots) : Except Error (Option (List Char × Spots)) :=
  let c := peek s
  if c = quote then
    if quote = '\'' && peekAt s 1 = '\'' then .ok (some (['\''], s.drop 2)) else .ok none
  else if c = '\\' && quote = '"' then (escape (s.drop 1)).map some
  else if endsIndicator c then (quotedGap s).map some
  else .ok (some ([c], s.drop 1))

/-- A quoted scalar from behind its opening quote: its text and the rest behind the closing
    one. -/
def quoted (quote : Char) (s : Spots) (acc : List Char) : Except Error (List Char × Spots) :=
  match quotedPiece quote s with
  | .error e => .error e
  | .ok none => .ok (acc, s.drop 1)
  | .ok (some (piece, rest)) =>
    if rest.length < s.length then quoted quote rest (acc ++ piece)
    else .error (.malformed .unexpectedEnd)
termination_by s.length

/-! ### Block scalars -/

/-- What happens to the line breaks at the end of a block. -/
inductive Chomping where
  /-- All of them stay. -/
  | keep
  /-- One of them stays. -/
  | clip
  /-- None stays. -/
  | strip
deriving DecidableEq

def chomping? : Char → Option Chomping
  | '+' => some .keep
  | '-' => some .strip
  | _ => none

/-- The indentation that a digit asks for. -/
def increment? (c : Char) : Option Nat := if c.isDigit then some (c.toNat - '0'.toNat) else none

/-- The header of a block scalar behind its indicator: an indentation and a chomping in either
    order, a comment and the end of the line. -/
def blockHeader (s : Spots) : Except Error (Chomping × Option Nat × Spots) := do
  let (chomping, increment, rest) :=
    match chomping? (peek s) with
    | some chomping =>
      match increment? (peekAt s 1) with
      | some k => (chomping, some k, s.drop 2)
      | none => (chomping, none, s.drop 1)
    | none =>
      match increment? (peek s) with
      | some k =>
        match chomping? (peekAt s 1) with
        | some chomping => (chomping, some k, s.drop 2)
        | none => (.clip, some k, s.drop 1)
      | none => (.clip, none, s)
  if increment = some 0 || !endsWord (peek rest) then throw (.malformed .badBlockHeader)
  let rest := skipComment rest
  if !isBreakOrEnd (peek rest) then throw (.malformed .badBlockHeader)
  return (chomping, increment, (lineBreak rest).2)

/-- Skip spaces up to a column. -/
def indentTo (indent : Nat) : Spots → Spots
  | [] => []
  | c :: rest => if c.char = ' ' && c.column < indent then indentTo indent rest else c :: rest

/-- The blank lines in front of a line of a block, and that line from its indentation on. -/
def blockBreaks (indent : Nat) (s : Spots) : List Char × Spots :=
  let start := indentTo indent s
  let (first, rest) := lineBreak start
  if _h : !first.isEmpty ∧ rest.length < s.length then
    let (more, last) := blockBreaks indent rest
    (first ++ more, last)
  else ([], start)
termination_by s.length

/-- The blank lines at the start of a block that says nothing of its indentation, with the widest
    column that they reach. -/
def detectIndent : Spots → List Char × Nat × Spots
  | [] => ([], 0, [])
  | c :: rest =>
    if c.char = ' ' then
      let (breaks, widest, last) := detectIndent rest
      (breaks, max (column rest) widest, last)
    else if isBreak c.char then
      let (breaks, widest, last) := detectIndent rest
      ((lineBreak (c :: rest)).1 ++ breaks, widest, last)
    else ([], 0, c :: rest)

/-- The lines of a block: its text without the last line break, that break, the blank lines
    behind, and the rest.  `breaks` are the blank lines in front of the first line. -/
def blockLines (folded : Bool) (indent : Nat) (s : Spots) (breaks acc : List Char) :
    List Char × List Char × List Char × Spots :=
  if column s = indent && peek s ≠ endMark then
    let (line, afterLine) := span s (!isBreakOrEnd ·)
    let (lineEnd, next) := lineBreak afterLine
    let (blank, rest) := blockBreaks indent next
    let acc := acc ++ breaks ++ line
    if column rest = indent && peek rest ≠ endMark && rest.length < s.length then
      let joint :=
        if folded && lineEnd = ['\n'] && !isSpaceOrTab (peek s) && !isSpaceOrTab (peek rest) then
          (if blank.isEmpty then [' '] else [])
        else lineEnd
      if rest.length < s.length then blockLines folded indent rest blank (acc ++ joint)
      else (acc, lineEnd, blank, rest)
    else (acc, lineEnd, blank, rest)
  else (acc, [], breaks, s)
termination_by s.length

/-- A block scalar behind its indicator, in a block that is indented by `parent`. -/
def block (folded : Bool) (parent : Int) (s : Spots) : Except Error (List Char × Spots) := do
  let (chomping, increment, body) ← blockHeader s
  let least := (max (parent + 1) 1).toNat
  let (indent, breaks, start) :=
    match increment with
    | none =>
      let (breaks, widest, start) := detectIndent body
      (max least widest, breaks, start)
    | some k =>
      let indent := least + k - 1
      let (breaks, start) := blockBreaks indent body
      (indent, breaks, start)
  let (text, lineEnd, blank, rest) := blockLines folded indent start breaks []
  match chomping with
  | .strip => return (text, rest)
  | .clip => return (text ++ lineEnd, rest)
  | .keep => return (text ++ lineEnd ++ blank, rest)

end NetBalance.Yaml.Scalar
