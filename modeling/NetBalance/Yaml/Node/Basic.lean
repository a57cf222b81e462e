import NetBalance.Yaml.Tag

/-! # Nodes

    A document is a graph of scalars, sequences and mappings.  Its nodes have
    numbers, and a collection holds the numbers of its parts.  So an alias is
    the number of the node that it names, all places of a node see what
    becomes of it, and a collection can hold itself. -/

namespace NetBalance.Yaml

/-- How deep the recursions over a document can go until there is no room left for them. -/
structure Room where
  /-- Collections inside of each other, as they are read. -/
  nesting : Nat
  /-- Mappings that stand for the value of a key in them. -/
  values : Nat
  /-- Mappings that are merged into each other. -/
  merges : Nat
  /-- Collections inside of each other, as they are copied. -/
  copies : Nat

inductive Content where
  | scalar (text : String)
  | sequence (items : List Nat)
  | mapping (entries : List (Nat × Nat))

/-- Change the pairs of a mapping. -/
def Content.mapEntries (f : List (Nat × Nat) → List (Nat × Nat)) : Content → Content
  | .mapping entries => .mapping (f entries)
  | .scalar text => .scalar text
  | .sequence items => .sequence items

structure Node where
  tag : Tag
  content : Content

/-- The scalar that stands where nothing is written. -/
def Node.nothing : Node := ⟨.null, .scalar ""⟩

/-- The nodes of a document, in the order of their numbers. -/
structure Graph where
  nodes : Array Node

namespace Graph

def empty : Graph := ⟨#[]⟩

def size (g : Graph) : Nat := g.nodes.size

/-- The node of a number. -/
def node (g : Graph) (i : Nat) : Node := g.nodes[i]?.getD .nothing

def tag (g : Graph) (i : Nat) : Tag := (g.node i).tag

def content (g : Graph) (i : Nat) : Content := (g.node i).content

/-- The items of a sequence; other nodes have none. -/
def items (g : Graph) (i : Nat) : List Nat :=
  match g.content i with
  | .sequence items => items
  | .scalar _ | .mapping _ => []

/-- The pairs of a mapping; other nodes have none. -/
def entries (g : Graph) (i : Nat) : List (Nat × Nat) :=
  match g.content i with
  | .mapping entries => entries
  | .scalar _ | .sequence _ => []

/-- One more node. -/
def push (g : Graph) (n : Node) : Graph := ⟨g.nodes.push n⟩

def modify (g : Graph) (i : Nat) (f : Node → Node) : Graph := ⟨g.nodes.modify i f⟩

end Graph

/-- A document: its nodes, and which of them is all of it. -/
structure Composition where
  graph : Graph
  root : Nat

end NetBalance.Yaml
