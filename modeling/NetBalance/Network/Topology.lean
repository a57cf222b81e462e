import NetBalance.Network.PortGraph
import NetBalance.Summation

/-! # Nets over flattened nodes

    A topology holds flattened nodes and the graph of links between their
    ports.  Its components become nets, numbered from zero in the order of
    their first port; each net starts from the mean of the values that sources
    propose for its ports. -/

namespace NetBalance

variable {K : Type}

/-- A class of connected ports, with the one value that they share. -/
structure Net (K : Type) where
  value : K
  members : List Port

structure Topology (K : Type) where
  nodes : List (FlatNode K)
  graph : PortGraph

namespace Topology

/-- Nodes without links; of several with one id the last wins, in the place of the first. -/
def ofNodes (nodes : List (FlatNode K)) : Topology K :=
  ⟨nodes.foldl place [], .empty⟩
where
  place (placed : List (FlatNode K)) (n : FlatNode K) : List (FlatNode K) :=
    if placed.any (·.id = n.id) then placed.map fun m => if m.id = n.id then n else m
    else placed ++ [n]

def node? (t : Topology K) (id : String) : Option (FlatNode K) := t.nodes.find? (·.id = id)

def isConnected (t : Topology K) (p : Port) : Bool := t.graph.isConnected p

/-- Link two ports.  Both of their nodes have to be there; a link from a port to itself is told
    and left out. -/
def connect (t : Topology K) (a b : Port) (kind : LinkKind) :
    Topology K × Logged K NetworkError Unit :=
  if (t.node? a.node).isNone then (t, .fail (.unknownNode a.node))
  else if (t.node? b.node).isNone then (t, .fail (.unknownNode b.node))
  else if a = b then (t, .tell (.selfLink a.node a.name))
  else ({ t with graph := t.graph.join a b kind }, pure ())

/-- The topology with one more link, where the link can be made. -/
def link (t : Topology K) (l : Link) : Logged K NetworkError (Topology K) := do
  let (after, linked) := t.connect l.first l.second l.kind
  linked
  return after

/-- Link the ports of a node that always share a net, wherever one of them is connected. -/
def aliasNode (g : PortGraph) (n : FlatNode K) : PortGraph :=
  n.kind.aliasPorts.foldl (fun g (first, second) =>
    let a : Port := ⟨n.id, some first⟩
    let b : Port := ⟨n.id, some second⟩
    if g.isConnected a || g.isConnected b then g.join a b .alias else g) g

def foldAliases (t : Topology K) : Topology K :=
  { t with graph := t.nodes.foldl aliasNode t.graph }

section Seeds

variable [Add K] [Mul K] [Div K] [Zero K] [One K] [Scalar K]

/-- The value that a source proposes for one of its ports, if any. -/
def proposal (t : Topology K) (p : Port) : Except ValueError (Option K) :=
  match t.node? p.node with
  | none => .ok none
  | some n => (n.kind.initialValues n.payload).map fun values =>
      p.name.bind fun name => values.lookup name

/-- The mean of the proposals for the members of a net; the default value when there is none. -/
def seed (t : Topology K) (members : List Port) (default : K) : Except ValueError K := do
  let proposals ← members.mapM t.proposal
  return (mean? (proposals.filterMap id)).getD default

/-- Record a net at the nodes of its members. -/
def recordNet (t : Topology K) (net : Nat) (members : List Port) : Topology K :=
  { t with nodes := members.foldl (fun nodes p =>
      nodes.map fun n => if n.id = p.node then n.record p.name net else n) t.nodes }

/-- Make nets of a list of components, numbered from `nets.length` on.  A proposal that is no
    number ends it, with the nets before it recorded. -/
def allocate (default : K) (nets : List (Net K)) :
    List (List Port) → Topology K → Topology K × Except NetworkError (List (Net K))
  | [], t => (t, .ok nets)
  | members :: rest, t =>
    match t.seed members default with
    | .error e => (t, .error (.value e))
    | .ok value =>
      allocate default (nets ++ [⟨value, members⟩]) rest (t.recordNet nets.length members)

/-- Make one net of each component of the graph. -/
def buildNets (t : Topology K) (default : K) :
    Topology K × Logged K NetworkError (List (Net K)) :=
  let (after, nets) := allocate default [] t.graph.components t
  (after, do
    let nets ← .ofExcept nets
    .tell (.netsAllocated nets.length t.graph.ports.length)
    return nets)

end Seeds

/-- One line about a topology. -/
def summary (t : Topology K) : String :=
  "<TopologyManager nodes=" ++ toString t.nodes.length ++ " ports=" ++
    toString t.graph.ports.length ++ " links=" ++ toString t.graph.links.length ++ ">"

end Topology

/-- One line about a net: its number, its value and its members. -/
def Net.summary (net : Net Float) (number : Nat) : String :=
  "<Net " ++ toString number ++ " value=" ++ Decimal.general 6 net.value ++ " ports=[" ++
    ", ".intercalate (net.members.map fun p => p.node ++ "." ++ p.name.text) ++ "]>"

end NetBalance
