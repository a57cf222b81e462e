import NetBalance.Yaml.Error

/-! # Characters with their places

    A text is read as a list of characters that know their line and their
    column.  A mark of the end closes the list, so every place has a
    character.  Indentation is then a question about a single character. -/

namespace NetBalance.Yaml

/-- A character with its place. -/
structure Spot where
  char : Char
  index : Nat
  line : Nat
  column : Nat

/-- The rest of a text, with the mark of the end as its last character. -/
abbrev Spots := List Spot

/-- The mark of the end; no text holds it. -/
def endMark : Char := '\x00'

/-- The byte order mark. -/
def byteOrderMark : Char := '\uFEFF'

def isBreak (c : Char) : Bool := c = '\n' || c = '\u0085' || c = '\u2028' || c = '\u2029'

def isBreakOrEnd (c : Char) : Bool := c = endMark || isBreak c

/-- A space, a line break or the end. -/
def endsWord (c : Char) : Bool := c = ' ' || isBreakOrEnd c

/-- A space, a tab, a line break or the end. -/
def endsIndicator (c : Char) : Bool := c = '\t' || endsWord c

def isSpaceOrTab (c : Char) : Bool := c = ' ' || c = '\t'

/-- Whether a YAML text may hold the character. -/
def isAllowed (c : Char) : Bool :=
  let n := c.toNat
  n = 0x9 || n = 0xA || n = 0xD || (0x20 ≤ n && n ≤ 0x7E) || n = 0x85 ||
    (0xA0 ≤ n && n ≤ 0xD7FF) || (0xE000 ≤ n && n ≤ 0xFFFD) || 0x10000 ≤ n

/-- Give the characters their places; a byte order mark takes no column. -/
def place (index line column : Nat) : List Char → Spots
  | [] => [⟨endMark, index, line, column⟩]
  | c :: rest =>
    ⟨c, index, line, column⟩ ::
      if isBreak c then place (index + 1) (line + 1) 0 rest
      else if c = byteOrderMark then place (index + 1) line column rest
      else place (index + 1) line (column + 1) rest

/-- The characters of a text, if all of them are allowed. -/
def Spots.ofText (s : String) : Except Error Spots :=
  if s.toList.all isAllowed then .ok (place 0 0 0 s.toList) else .error (.malformed .unprintable)

namespace Spots

/-- The character a few places on. -/
def peekAt (s : Spots) (k : Nat) : Char := (s[k]?.map (·.char)).getD endMark

def peek (s : Spots) : Char := s.peekAt 0

def column (s : Spots) : Nat := (s.head?.map (·.column)).getD 0

def line (s : Spots) : Nat := (s.head?.map (·.line)).getD 0

def index (s : Spots) : Nat := (s.head?.map (·.index)).getD 0

/-- Split off the characters that satisfy a test. -/
def span (s : Spots) (p : Char → Bool) : List Char × Spots :=
  ((s.takeWhile fun c => p c.char).map (·.char), s.dropWhile fun c => p c.char)

def skip (s : Spots) (p : Char → Bool) : Spots := s.dropWhile fun c => p c.char

theorem length_skip_le (s : Spots) (p : Char → Bool) : (s.skip p).length ≤ s.length :=
  (List.dropWhile_suffix _).length_le

/-- A line break as it counts in scalars: the two special separators stay, all others become a
    line feed.  Nothing when there is none. -/
def lineBreak (s : Spots) : List Char × Spots :=
  match s with
  | c :: rest =>
    if c.char = '\n' || c.char = '\u0085' then (['\n'], rest)
    else if c.char = '\u2028' || c.char = '\u2029' then ([c.char], rest)
    else ([], s)
  | [] => ([], [])

/-- Whether a document marker stands here: three hyphens or three points as a word. -/
def atMarker (s : Spots) : Bool :=
  ((s.peekAt 0 = '-' && s.peekAt 1 = '-' && s.peekAt 2 = '-') ||
    (s.peekAt 0 = '.' && s.peekAt 1 = '.' && s.peekAt 2 = '.')) && endsIndicator (s.peekAt 3)

/-- Skip spaces and a comment. -/
def skipComment (s : Spots) : Spots :=
  let s := s.skip (· = ' ')
  if s.peek = '#' then s.skip (!isBreakOrEnd ·) else s

theorem length_skipComment_le (s : Spots) : s.skipComment.length ≤ s.length := by
  unfold skipComment
  simp only
  split
  · exact Nat.le_trans (length_skip_le _ _) (length_skip_le _ _)
  · exact length_skip_le _ _

/-- Skip spaces, comments and line breaks; tells whether a line was left. -/
def skipToToken (s : Spots) : Bool × Spots :=
  match s.skipComment, s.length_skipComment_le with
  | c :: rest, _ => if isBreak c.char then (true, (skipToToken rest).2) else (false, c :: rest)
  | [], _ => (false, [])
termination_by s.length

end Spots

end NetBalance.Yaml
