import NetBalance.Network.Inlining
import NetBalance.Network.Topology

/-! # Networks

    A network is a flattened diagram with its ports gathered into nets.  It is
    what equations are read off. -/

namespace NetBalance

variable {K : Type}

/-- Flattened nodes with the nets of their ports; a net's number is its index. -/
structure Network (K : Type) where
  nodes : List (FlatNode K)
  nets : List (Net K)

namespace Network

def empty : Network K := ⟨[], []⟩

/-- The number of nets, and so of unknowns. -/
def size (n : Network K) : Nat := n.nets.length

/-- The values of the nets, in the order of their numbers. -/
def values (n : Network K) : List K := n.nets.map (·.value)

/-- Give every net the value of its number; a net without one keeps its own. -/
def withValues (n : Network K) (values : List K) : Network K :=
  { n with nets := n.nets.mapIdx fun i net => { net with value := values[i]?.getD net.value } }

end Network

variable [Add K] [Mul K] [Div K] [Zero K] [One K] [Scalar K]

/-- Join the ports of a flattened diagram by its links. -/
def Flat.topology (f : Flat K) : Logged K NetworkError (Topology K) :=
  f.links.foldlM Topology.link ⟨f.nodes, .empty⟩

/-- Build the network of a diagram of a project.  `default` is the value of the nets that no
    source proposes one for. -/
def Diagram.build (d : Diagram K) (project : Project K) (strict : Bool) (default : K) :
    Logged K NetworkError (Network K) := do
  let flat ← d.flatten project strict
  let linked ← flat.topology
  let (after, allocated) := linked.foldAliases.buildNets default
  let nets ← allocated
  .tell (.networkBuilt d.id after.nodes.length nets.length)
  return ⟨after.nodes, nets⟩

end NetBalance
