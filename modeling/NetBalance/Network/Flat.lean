import NetBalance.Diagram.ConnectionPorts
import NetBalance.Log.Logged

/-! # Flattened diagrams

    A flattened diagram has no references left to follow: it lists nodes under
    ids that are unique in the whole, and links between their ports. -/

namespace NetBalance

/-- A port of a flattened node. -/
structure Port where
  node : String
  name : PortName
deriving DecidableEq

/-- Where a link comes from. -/
inductive LinkKind where
  /-- An edge of a diagram. -/
  | edge
  /-- A reference port and the node behind it. -/
  | boundary
  /-- Two ports of one node that share a net. -/
  | alias
  /-- A link made by hand, under a label of its own. -/
  | labelled (label : String)
deriving DecidableEq

def LinkKind.label : LinkKind → String
  | .edge => "edge"
  | .boundary => "boundary"
  | .alias => "alias"
  | .labelled label => label

/-- Two ports that share a net. -/
structure Link where
  first : Port
  second : Port
  kind : LinkKind
deriving DecidableEq

/-- A node of a flattened diagram. -/
structure FlatNode (K : Type) where
  /-- The ids of the references around the node and its own, joined by points. -/
  id : String
  /-- The id within its own diagram. -/
  localId : String
  /-- What stands before the local id; empty for a node of the root diagram. -/
  scope : String
  kind : Kind
  payload : Payload K
  /-- The nets of the connected ports, in the order in which they were recorded. -/
  ports : List (PortName × Nat)

namespace FlatNode

variable {K : Type}

/-- Whether the node belongs to the root diagram itself. -/
def isTopLevel (n : FlatNode K) : Bool := n.scope.isEmpty

/-- The net of a port; nothing for an unconnected or unknown one. -/
def net? (n : FlatNode K) (name : PortName) : Option Nat := n.ports.lookup name

/-- Record the net of a port; a port that is there already keeps its place. -/
def record (n : FlatNode K) (name : PortName) (net : Nat) : FlatNode K :=
  { n with ports := go n.ports }
where
  go : List (PortName × Nat) → List (PortName × Nat)
    | [] => [(name, net)]
    | (other, old) :: rest => if other = name then (other, net) :: rest else (other, old) :: go rest

/-- One line about a node: its id, its kind and the nets of its ports. -/
def summary (n : FlatNode K) : String :=
  let entry := fun ((name, net) : PortName × Nat) =>
    name.elim "None" Text.quoted ++ ": " ++ toString net
  "<CalcNode " ++ n.id ++ " (" ++ n.kind.name ++ "): ports=\x7b" ++
    ", ".intercalate (n.ports.map entry) ++ "\x7d>"

end FlatNode

/-- Nodes and links, in the order in which they were made. -/
structure Flat (K : Type) where
  nodes : List (FlatNode K)
  links : List Link

namespace Flat

variable {K : Type}

def empty : Flat K := ⟨[], []⟩

def append (f g : Flat K) : Flat K := ⟨f.nodes ++ g.nodes, f.links ++ g.links⟩

instance : Append (Flat K) := ⟨append⟩

@[simp] theorem nodes_append (f g : Flat K) : (f ++ g).nodes = f.nodes ++ g.nodes := rfl

@[simp] theorem links_append (f g : Flat K) : (f ++ g).links = f.links ++ g.links := rfl

def ids (f : Flat K) : List String := f.nodes.map (·.id)

end Flat

end NetBalance
