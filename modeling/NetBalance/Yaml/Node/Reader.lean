import NetBalance.Yaml.Node.Basic
import NetBalance.Yaml.Token.Lexer

/-! # From tokens to nodes

    Every kind of collection has tokens around it, and an item or a pair
    starts with a token of its own.  What stands between them is a node or
    nothing at all.  A collection has its number, and its name, before its
    parts are read, so they can name it.  A text holds at most one document. -/

namespace NetBalance.Yaml

/-- What is known between two nodes. -/
structure ReaderState where
  tokens : List Token
  /-- The nodes so far.  Collections that are not complete are still empty. -/
  graph : Graph
  /-- The nodes that have a name. -/
  anchors : List (String × Nat)
  /-- What the handles of tags stand for. -/
  handles : List (String × String)
  /-- How many more collections may stand inside of each other. -/
  room : Nat

abbrev NodeReader := StateT ReaderState (Except Error)

namespace NodeReader

def fail {α : Type} (e : SyntaxError) : NodeReader α := throw (.malformed e)

/-- The next token, if there is one that can be read. -/
def peek : NodeReader (Option Token) := do
  match (← get).tokens with
  | [] => return none
  | .broken e :: _ => throw e
  | t :: _ => return some t

def advance : NodeReader Unit := modify fun c => { c with tokens := c.tokens.drop 1 }

/-- Whether the next token is one of a list. -/
def nextIs (tokens : List Token) : NodeReader Bool := do
  return ((← peek).map (tokens.contains ·)).getD false

/-- Take the next token if it is `t`. -/
def take (t : Token) : NodeReader Bool := do
  if ← nextIs [t] then
    advance
    return true
  else return false

/-- Take the next token if `f` has a meaning for it. -/
def takeAs {α : Type} (f : Token → Option α) : NodeReader (Option α) := do
  match (← peek).bind f with
  | some a =>
    advance
    return some a
  | none => return none

/-! ### Properties -/

def aliasName? : Token → Option String
  | .alias name => some name
  | _ => none

def anchorName? : Token → Option String
  | .anchor name => some name
  | _ => none

def writtenTag? : Token → Option WrittenTag
  | .tag t => some t
  | _ => none

/-- Whether a scalar is plain, and its text. -/
def scalar? : Token → Option (Bool × String)
  | .scalar isPlain text => some (isPlain, text)
  | _ => none

def directive? : Token → Option Directive
  | .directive d => some d
  | _ => none

/-- An anchor and a tag, in either order; each may be missing. -/
def properties : NodeReader (Option String × Option WrittenTag) := do
  match ← takeAs anchorName? with
  | some name => return (some name, ← takeAs writtenTag?)
  | none =>
    match ← takeAs writtenTag? with
    | some t => return (← takeAs anchorName?, some t)
    | none => return (none, none)

/-- The full name of a tag. -/
def fullName (t : WrittenTag) : NodeReader String := do
  match t.handle with
  | none => return t.suffix
  | some handle =>
    match (← get).handles.lookup handle with
    | some meaning => return meaning ++ t.suffix
    | none => fail .undefinedHandle

/-- The tag that asks for what the node would be without one. -/
def noTag : String := "!"

/-- The tag of a collection. -/
def collectionTag (name : Option String) (ordinary : Tag) : Tag :=
  match name with
  | none => ordinary
  | some name => if name = noTag then ordinary else .ofName name

/-- The tag of a scalar. -/
def scalarTag (name : Option String) (isPlain : Bool) (text : String) : Tag :=
  match name with
  | none => if isPlain then .ofPlain text else .str
  | some name => if name = noTag then .ofPlain text else .ofName name

/-! ### Numbers and names -/

/-- Give a node a number. -/
def add (n : Node) : NodeReader Nat := do
  let c ← get
  set { c with graph := c.graph.push n }
  return c.graph.size

/-- Nothing, where a node could be. -/
def nothing : NodeReader Nat := add .nothing

/-- A name may be given once. -/
def checkNew (anchor : Option String) : NodeReader Unit := do
  match anchor with
  | none => return ()
  | some name => if ((← get).anchors.lookup name).isSome then fail .duplicateAnchor

/-- Give a node its name. -/
def record (anchor : Option String) (i : Nat) : NodeReader Unit :=
  match anchor with
  | none => pure ()
  | some name => modify fun c => { c with anchors := (name, i) :: c.anchors }

/-- What an alias stands for. -/
def resolve (name : String) : NodeReader Nat := do
  match (← get).anchors.lookup name with
  | some i => return i
  | none => fail .undefinedAlias

def named (anchor : Option String) (n : Node) : NodeReader Nat := do
  let i ← add n
  record anchor i
  return i

/-- Read one level deeper, if there is room. -/
def nested {α : Type} (content : NodeReader α) : NodeReader α := do
  match (← get).room with
  | 0 => throw .tooDeep
  | room + 1 =>
    modify fun c => { c with room }
    let a ← content
    modify fun c => { c with room := room + 1 }
    return a

/-- A collection; its number and its name are known inside of it. -/
def collection (anchor : Option String) (tag : Tag) (content : NodeReader Content) :
    NodeReader Nat := do
  let i ← named anchor ⟨tag, .sequence []⟩
  let content ← nested content
  modify fun c => { c with graph := c.graph.modify i fun n => { n with content } }
  return i

/-! ### Nodes

    Every step takes a token or goes into a node that starts with one, so
    the tokens bound the depth of the recursion. -/

mutual

/-- A node.  Blocks may stand here only if `block` says so, a sequence without an indentation of
    its own only if `indentless` does. -/
def node : Nat → (block indentless : Bool) → NodeReader Nat
  | 0, _, _ => fail .unexpectedToken
  | fuel + 1, block, indentless => do
    if let some name ← takeAs aliasName? then return ← resolve name
    let (anchor, written) ← properties
    let tag ← written.mapM fullName
    let next ← peek
    checkNew anchor
    if let some (isPlain, text) ← takeAs scalar? then
      return ← named anchor ⟨scalarTag tag isPlain text, .scalar text⟩
    if ← take .flowSequenceStart then
      collection anchor (collectionTag tag .seq) (.sequence <$> flowItems fuel true)
    else if ← take .flowMappingStart then
      collection anchor (collectionTag tag .map) (.mapping <$> flowPairs fuel true)
    else if ← pure block <&&> take .blockSequenceStart then
      collection anchor (collectionTag tag .seq) (.sequence <$> blockItems fuel)
    else if ← pure block <&&> take .blockMappingStart then
      collection anchor (collectionTag tag .map) (.mapping <$> blockPairs fuel)
    else if indentless && next = some .blockEntry then
      collection anchor (collectionTag tag .seq) (.sequence <$> indentlessItems fuel)
    else if anchor.isSome || tag.isSome then named anchor ⟨scalarTag tag true "", .scalar ""⟩
    else fail .unexpectedToken

/-- A node, or nothing in front of certain tokens. -/
def nodeUnless : Nat → List Token → (block indentless : Bool) → NodeReader Nat
  | 0, _, _, _ => fail .unexpectedToken
  | fuel + 1, ends, block, indentless => do
    if ← nextIs ends then nothing else node fuel block indentless

/-- The items of a block sequence, each behind a hyphen. -/
def blockItems : Nat → NodeReader (List Nat)
  | 0 => fail .unexpectedToken
  | fuel + 1 => do
    if ← take .blockEntry then
      let item ← nodeUnless fuel [.blockEntry, .blockEnd] true false
      return item :: (← blockItems fuel)
    else if ← take .blockEnd then return []
    else fail .unexpectedToken

/-- The items of a sequence that is indented like the mapping around it. -/
def indentlessItems : Nat → NodeReader (List Nat)
  | 0 => fail .unexpectedToken
  | fuel + 1 => do
    if ← take .blockEntry then
      let item ← nodeUnless fuel [.blockEntry, .key, .value, .blockEnd] true false
      return item :: (← indentlessItems fuel)
    else return []

/-- The pairs of a block mapping, each with a mark in front of its key. -/
def blockPairs : Nat → NodeReader (List (Nat × Nat))
  | 0 => fail .unexpectedToken
  | fuel + 1 => do
    if ← take .key then
      let key ← nodeUnless fuel [.key, .value, .blockEnd] true true
      let value ←
        if ← take .value then nodeUnless fuel [.key, .value, .blockEnd] true true else nothing
      return (key, value) :: (← blockPairs fuel)
    else if ← take .blockEnd then return []
    else fail .unexpectedToken

/-- The items of a flow sequence; a key among them makes a mapping of one pair. -/
def flowItems : Nat → (first : Bool) → NodeReader (List Nat)
  | 0, _ => fail .unexpectedToken
  | fuel + 1, first => do
    if ← take .flowSequenceEnd then return []
    if !first then
      if !(← take .flowEntry) then fail .unexpectedToken
    if ← take .key then
      let item ← collection none .map do
        let key ← nodeUnless fuel [.value, .flowEntry, .flowSequenceEnd] false false
        let value ←
          if ← take .value then nodeUnless fuel [.flowEntry, .flowSequenceEnd] false false
          else nothing
        return .mapping [(key, value)]
      return item :: (← flowItems fuel false)
    else if ← take .flowSequenceEnd then return []
    else
      let item ← node fuel false false
      return item :: (← flowItems fuel false)

/-- The pairs of a flow mapping; a node alone is a key without a value. -/
def flowPairs : Nat → (first : Bool) → NodeReader (List (Nat × Nat))
  | 0, _ => fail .unexpectedToken
  | fuel + 1, first => do
    if ← take .flowMappingEnd then return []
    if !first then
      if !(← take .flowEntry) then fail .unexpectedToken
    if ← take .key then
      let key ← nodeUnless fuel [.value, .flowEntry, .flowMappingEnd] false false
      let value ←
        if ← take .value then nodeUnless fuel [.flowEntry, .flowMappingEnd] false false
        else nothing
      return (key, value) :: (← flowPairs fuel false)
    else if ← take .flowMappingEnd then return []
    else
      let key ← node fuel false false
      let value ← nothing
      return (key, value) :: (← flowPairs fuel false)

end

/-! ### Documents -/

/-- The handles that every document knows. -/
def standardHandles : List (String × String) := [("!", "!"), ("!!", Tag.standardStart)]

/-- The directives in front of a document: at most one version, which has to be a first one, and
    at most one meaning for each handle. -/
def directives : Nat → (versionSeen : Bool) → List (String × String) → NodeReader Unit
  | 0, _, _ => fail .unexpectedToken
  | fuel + 1, versionSeen, declared => do
    match ← takeAs directive? with
    | some (.version major) =>
      if versionSeen || major ≠ 1 then fail .badDirective
      directives fuel true declared
    | some (.handle h meaning) =>
      if (declared.lookup h).isSome then fail .badDirective
      directives fuel versionSeen ((h, meaning) :: declared)
    | some .other => directives fuel versionSeen declared
    | none => modify fun c => { c with handles := declared ++ standardHandles }

/-- A bound for the recursion over all tokens. -/
def depthBound : NodeReader Nat := do return 4 * (← get).tokens.length + 4

/-- The directives and the mark in front of a document. -/
def documentHead : NodeReader Unit := do
  directives (← depthBound) false []
  if !(← take .documentStart) then fail .unexpectedToken

/-- The content of a document behind its mark, which may be missing. -/
def documentBody : NodeReader Nat := do
  match ← peek with
  | none | some (.directive _) | some .documentStart | some .documentEnd => nothing
  | _ => node (← depthBound) true false

/-- Behind a document stands nothing but marks of its end. -/
def streamEnd : NodeReader Unit := do
  modify fun c => { c with tokens := c.tokens.dropWhile (· = .documentEnd) }
  match ← peek with
  | none => return ()
  | some _ =>
    documentHead
    fail .severalDocuments

/-- The document of a text; without one it is nothing. -/
def document : NodeReader Nat := do
  match ← peek with
  | none => nothing
  | some (.directive _) | some .documentStart =>
    documentHead
    let i ← documentBody
    streamEnd
    return i
  | some _ =>
    let i ← node (← depthBound) true false
    streamEnd
    return i

end NodeReader

/-- The document of a text. -/
def Composition.ofText (nesting : Nat) (text : String) : Except Error Composition := do
  let spots ← Spots.ofText text
  let (root, c) ← NodeReader.document.run
    ⟨Token.scan spots, .empty, [], NodeReader.standardHandles, nesting⟩
  return ⟨c.graph, root⟩

end NetBalance.Yaml
