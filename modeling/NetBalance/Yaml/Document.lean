import NetBalance.Config.Document
import NetBalance.Yaml.Number
import NetBalance.Yaml.Node.Reader

/-! # Documents from nodes

    Nodes are met in one pass and entered in another.  A scalar is read where
    it is met.  A collection waits, in the order in which collections are met,
    until it is entered, and then its parts are met.  So of two faults the one
    at the lower level comes first, and each node is read only once however
    many places it has. -/

namespace NetBalance.Yaml

/-- Whether a tag stands for a collection. -/
def Tag.isCollection (tag : Tag) : Bool := [Tag.seq, .map, .set, .omap, .pairs].contains tag

/-! ## Texts of nodes -/

namespace Graph

/-- The pairs of a mapping whose keys have a tag. -/
def marked (g : Graph) (t : Tag) (i : Nat) : List (Nat × Nat) :=
  (g.entries i).filter fun entry => g.tag entry.1 = t

/-- The text of a node: of a scalar its own, of a mapping that of its first value key.  A mapping
    that is the value of its own value key has no end of it. -/
def text (g : Graph) : (room : Nat) → Nat → Except Error String
  | 0, _ => throw .tooDeep
  | room + 1, i =>
    match g.content i with
    | .scalar text => return text
    | .mapping _ =>
      match g.marked .value i with
      | (_, value) :: _ => g.text room value
      | [] => throw (.malformed .wrongShape)
    | .sequence _ => throw (.malformed .wrongShape)

end Graph

section Scalars

variable {K : Type} [Add K] [Mul K] [Neg K] [Zero K] [Scalar K]

/-- The value of a scalar tag and a text.  Collections have other tags. -/
def scalarValue (tag : Tag) (text : String) : Except Error (Document K) := do
  match tag with
  | .null => return .null
  | .bool =>
    match Tag.truths.lookup text.toLower with
    | some b => return .bool b
    | none => throw .badTruth
  | .int => return .int (← wholeOfScalar text)
  | .float => return .real (← numberOfScalar text)
  | .str => return .text text
  | .binary =>
    match Base64.decode? text with
    | some bytes => return .bytes bytes
    | none => throw (.malformed .badBinary)
  | .timestamp =>
    let body := if text.endsWith "\n" then text.toList.dropLast else text.toList
    match Timestamp.read? 1 body with
    | some t => if t.isValid then return .moment t.text else throw .noSuchDate
    | none => throw .badDate
  | .seq | .map | .set | .omap | .pairs | .merge | .value | .unknown =>
    throw (.malformed .unknownTag)

/-- The document of a node that is no collection. -/
def Graph.scalarDocument (g : Graph) (room i : Nat) : Except Error (Document K) :=
  if [Tag.merge, .value, .unknown].contains (g.tag i) then throw (.malformed .unknownTag)
  else do
    let text ← g.text room i
    match g.tag i, g.content i with
    | .timestamp, .mapping _ => throw .mappedDate
    | tag, _ => scalarValue tag text

end Scalars

/-! ## Merging

    Before a mapping is entered, its merge keys give way to the pairs of the
    mappings that they name.  Those are merged first, and may be the mapping
    itself. -/

namespace Graph

/-- What a value key is where its mapping is a mapping: an ordinary text. -/
def retag (g : Graph) (key : Nat) : Graph :=
  g.modify key fun n => if n.tag = .value then { n with tag := .str } else n

def modifyEntries (g : Graph) (i : Nat) (f : List (Nat × Nat) → List (Nat × Nat)) : Graph :=
  g.modify i fun n => { n with content := n.content.mapEntries f }

/-- Take the first merge key out of a mapping. -/
def dropMerge (g : Graph) (i : Nat) : Graph :=
  g.modifyEntries i fun entries => entries.eraseP fun entry => g.tag entry.1 = .merge

end Graph

abbrev Merging := StateT Graph (Except Error)

namespace Merging

/-- The pairs of a mapping that is to be merged. -/
def ofMapping (flatten : Nat → Merging Unit) (i : Nat) : Merging (List (Nat × Nat)) := do
  match (← get).content i with
  | .mapping _ =>
    flatten i
    return (← get).entries i
  | .scalar _ | .sequence _ => throw (.malformed .badMerge)

/-- The pairs of what a merge key names; of several mappings the first one wins and so comes
    last. -/
def ofNode (flatten : Nat → Merging Unit) (i : Nat) : Merging (List (Nat × Nat)) := do
  match (← get).content i with
  | .sequence items => return (← items.mapM (ofMapping flatten)).reverse.flatten
  | .mapping _ | .scalar _ => ofMapping flatten i

/-- The pairs that the merge keys of a mapping bring in, of which there are at most `count`. -/
def ofKeys (flatten : Nat → Merging Unit) (i : Nat) : (count : Nat) → Merging (List (Nat × Nat))
  | 0 => return []
  | count + 1 => do
    match (← get).marked .merge i with
    | [] => return []
    | (_, value) :: _ =>
      modify (·.dropMerge i)
      return (← ofNode flatten value) ++ (← ofKeys flatten i count)

/-- Make the keys of a mapping ordinary ones.  Merged pairs come first. -/
def flatten : (room : Nat) → Nat → Merging Unit
  | 0, _ => throw .tooDeep
  | room + 1, i => do
    modify fun g => (g.entries i).foldl (fun g entry => g.retag entry.1) g
    let merged ← ofKeys (flatten room) i ((← get).marked .merge i).length
    modify (·.modifyEntries i (merged ++ ·))

end Merging

/-! ## Reading -/

/-- What is read so far of a document. -/
structure Reading (K : Type) where
  graph : Graph
  root : Nat
  /-- The scalars that are met, with what they stand for. -/
  scalars : List (Nat × Document K)
  /-- The collections that are met, in that order. -/
  collections : List Nat

abbrev DocumentReader (K : Type) := StateT (Reading K) (Except Error)

namespace DocumentReader

variable {K : Type} [Add K] [Mul K] [Neg K] [Zero K] [Scalar K]

/-- Meet a node; the second time this changes nothing. -/
def meet (room : Room) (i : Nat) : DocumentReader K Unit := do
  let s ← get
  if !(s.collections.contains i || (s.scalars.lookup i).isSome) then
    if (s.graph.tag i).isCollection then set { s with collections := s.collections ++ [i] }
    else
      let d ← s.graph.scalarDocument room.values i
      set { s with scalars := (i, d) :: s.scalars }

/-- Meet the key and the value of a mapping.  Collections are no keys. -/
def meetEntry (room : Room) (entry : Nat × Nat) : DocumentReader K Unit := do
  meet room entry.1
  if ((← get).graph.tag entry.1).isCollection then throw (.malformed .unhashableKey)
  meet room entry.2

/-- Meet an item of a list of pairs: a mapping of a single pair. -/
def meetSingle (room : Room) (item : Nat) : DocumentReader K Unit := do
  match (← get).graph.content item with
  | .mapping [(key, value)] =>
    meet room key
    meet room value
  | _ => throw (.malformed .wrongShape)

def flatten (room : Room) (i : Nat) : DocumentReader K Unit := do
  let s ← get
  let ((), graph) ← (Merging.flatten room.merges i).run s.graph
  set { s with graph }

/-- Meet all parts of a collection. -/
def enter (room : Room) (i : Nat) : DocumentReader K Unit := do
  let g := (← get).graph
  match g.tag i, g.content i with
  | .seq, .sequence items => items.forM (meet room)
  | .map, .mapping _ | .set, .mapping _ =>
    flatten room i
    ((← get).graph.entries i).forM (meetEntry room)
  | .omap, .sequence items | .pairs, .sequence items => items.forM (meetSingle room)
  | _, _ => throw (.malformed .wrongShape)

/-- Enter all collections, of which there are no more than nodes. -/
def enterAll (room : Room) : DocumentReader K Unit := do
  (List.range (← get).graph.size).forM fun n => do
    if let some i := (← get).collections[n]? then enter room i

/-- Meet the root, and from there on all nodes. -/
def all (room : Room) : DocumentReader K Unit := do
  meet room (← get).root
  enterAll room

end DocumentReader

/-- Read the document of a text. -/
def Reading.ofText {K : Type} [Add K] [Mul K] [Neg K] [Zero K] [Scalar K] (room : Room)
    (text : String) : Except Error (Reading K) := do
  let c ← Composition.ofText room.nesting text
  let ((), r) ← (DocumentReader.all room).run ⟨c.graph, c.root, [], []⟩
  return r

/-! ## What is read -/

namespace Reading

variable {K : Type} [Scalar K] (r : Reading K)

/-- What a scalar stands for. -/
def scalar (i : Nat) : Document K := (r.scalars.lookup i).getD .null

/-- The pairs of a mapping.  Of several with one key the last one gives the value. -/
def pairs (i : Nat) : List (Document K × Nat) :=
  (r.graph.entries i).foldl (fun pairs (key, value) => Document.put pairs (r.scalar key) value) []

/-- The pairs of a list of pairs. -/
def singles (i : Nat) : List (Nat × Nat) := (r.graph.items i).flatMap r.graph.entries

/-- The document of a node.  What is deeper than `depth` is an empty collection there. -/
def document : (depth : Nat) → Nat → Document K
  | 0, i =>
    match r.graph.tag i with
    | .map => .mapping []
    | .seq | .set | .omap | .pairs => .list []
    | _ => r.scalar i
  | depth + 1, i =>
    match r.graph.tag i with
    | .seq => .list ((r.graph.items i).map (document depth))
    | .map => .mapping ((r.pairs i).map fun (key, value) => (key, document depth value))
    | .set => .list ((r.pairs i).map (·.1))
    | .omap | .pairs =>
      .list ((r.singles i).map fun (key, value) => .list [document depth key, document depth value])
    | _ => r.scalar i

/-- What is copied with a node. -/
def parts (i : Nat) : List Nat :=
  match r.graph.tag i with
  | .seq => r.graph.items i
  | .map => (r.pairs i).map (·.2)
  | .omap | .pairs => (r.singles i).flatMap fun (key, value) => [key, value]
  | _ => []

/-- Copy a node with its parts, each once: what is copied afterwards. -/
def copy : (room : Nat) → (copied : List Nat) → Nat → Except Error (List Nat)
  | 0, _, _ => throw .tooDeep
  | room + 1, copied, i =>
    if copied.contains i then return copied else (r.parts i).foldlM (copy room) (i :: copied)

/-- Copy the values of the document, each for itself. -/
def copyValues (room : Room) : Except Error Unit :=
  (r.parts r.root).forM fun i => do
    let _ ← r.copy room.copies [] i

end Reading

end NetBalance.Yaml
