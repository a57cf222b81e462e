import NetBalance.Yaml.Error

/-! # Tokens

    Indentation is told by tokens: a block collection starts and ends with a
    token of its own, and a key has a mark in front of it even where the text
    has none. -/

namespace NetBalance.Yaml

/-- A tag as it is written: behind a handle, or in full. -/
structure WrittenTag where
  handle : Option String
  suffix : String
deriving DecidableEq

/-- A directive in front of a document. -/
inductive Directive where
  | version (major : Nat)
  /-- What a handle stands for. -/
  | handle (handle meaning : String)
  /-- A directive of which nothing is known. -/
  | other
deriving DecidableEq

inductive Token where
  | directive (d : Directive)
  | documentStart
  | documentEnd
  | blockSequenceStart
  | blockMappingStart
  | blockEnd
  | flowSequenceStart
  | flowSequenceEnd
  | flowMappingStart
  | flowMappingEnd
  /-- The hyphen in front of an entry of a block. -/
  | blockEntry
  /-- The comma between entries. -/
  | flowEntry
  | key
  | value
  | alias (name : String)
  | anchor (name : String)
  | tag (t : WrittenTag)
  | scalar (isPlain : Bool) (text : String)
  /-- The text cannot be read from here on. -/
  | broken (e : Error)
deriving DecidableEq

end NetBalance.Yaml
