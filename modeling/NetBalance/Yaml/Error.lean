/-! # What can be wrong with a YAML text

    Most faults lie in the text itself.  A few lie in a single scalar whose
    tag promises a value that the scalar does not denote, and one lies in the
    depth of the text. -/

namespace NetBalance.Yaml

/-- A fault of the text as YAML. -/
inductive SyntaxError where
  /-- A character that no YAML text may hold. -/
  | unprintable
  /-- The text ends inside of something. -/
  | unexpectedEnd
  /-- No token starts with this character. -/
  | badStart
  | badDirective
  | badAnchor
  | badTag
  /-- An unknown escape, or one with too few digits. -/
  | badEscape
  /-- Something unknown behind the indicator of a block scalar. -/
  | badBlockHeader
  /-- A document marker inside of a quoted scalar. -/
  | markerInScalar
  | entryNotAllowed
  | keyNotAllowed
  | valueNotAllowed
  /-- What has to be a key is not followed by a colon. -/
  | missingColon
  | unexpectedToken
  | undefinedAlias
  | duplicateAnchor
  /-- A tag with a handle that no directive declares. -/
  | undefinedHandle
  | severalDocuments
  /-- A tag that stands for no kind of value here. -/
  | unknownTag
  /-- A collection in the place of a key. -/
  | unhashableKey
  /-- Something other than mappings to merge. -/
  | badMerge
  /-- A tag for another shape of node. -/
  | wrongShape
  | badBinary
deriving DecidableEq

inductive Error where
  | malformed (cause : SyntaxError)
  /-- An escape beyond the last code point. -/
  | noCodePoint
  /-- An escape beyond every range of code points. -/
  | hugeCodePoint
  /-- A text in the place of a number. -/
  | badNumeral
  /-- Nothing in the place of a number. -/
  | emptyNumeral
  /-- A number with more places of base sixty than the number type has room for. -/
  | hugeNumeral
  /-- A text in the place of a truth value. -/
  | badTruth
  /-- A text in the place of a date. -/
  | badDate
  /-- A mapping in the place of a date; its value key does not help it. -/
  | mappedDate
  /-- A date or a time that no calendar has. -/
  | noSuchDate
  /-- A recursion goes deeper than there is room for. -/
  | tooDeep
deriving DecidableEq

end NetBalance.Yaml
