import NetBalance.Diagram.Basic
import NetBalance.Error
import NetBalance.Summation

/-! # Connection ports

    The nodes of a diagram that show up as ports where the diagram is
    referenced.  They stand in two columns: those at or left of the median
    horizontal position, and those right of it, each from top to bottom. -/

namespace NetBalance

/-- The two columns of a reference node, as ids of the nodes behind its ports. -/
structure ConnectionPorts where
  left : List String
  right : List String

/-- All ports, the left column first. -/
def ConnectionPorts.all (p : ConnectionPorts) : List String := p.left ++ p.right

/-- A connection port with its coordinates. -/
structure ExposedNode (K : Type) where
  id : String
  x : K
  y : K

variable {K : Type} [Add K] [Div K] [Zero K] [One K] [Scalar K]

/-- The kind of a placed node. -/
def PlacedNode.kind (n : PlacedNode K) : Except NetworkError Kind :=
  (Kind.ofTag n.tag).mapError .tag

/-- Whether a placed node is a connection port. -/
def PlacedNode.isConnectionPort (n : PlacedNode K) : Except NetworkError Bool :=
  n.kind.map (·.isConnectionPort n.payload)

/-- A connection port needs both coordinates. -/
def PlacedNode.exposed (n : PlacedNode K) : Except NetworkError (ExposedNode K) :=
  match n.position with
  | x :: y :: _ => .ok ⟨n.id, x, y⟩
  | _ => .error .missingCoordinate

namespace ExposedNode

/-- Whether `a` stands strictly before `b` in its column: higher up, or at the same height with
    the smaller id. -/
def before (a b : ExposedNode K) : Bool :=
  if Scalar.same a.y b.y then a.id < b.id else Scalar.lt a.y b.y

/-- From top to bottom; nodes of which neither stands before the other keep their order. -/
def topToBottom (nodes : List (ExposedNode K)) : List (ExposedNode K) :=
  nodes.mergeSort fun a b => !before b a

/-- Split the nodes at a horizontal position. -/
def columns (nodes : List (ExposedNode K)) (split : K) : ConnectionPorts :=
  let sorted := topToBottom nodes
  { left := (sorted.filter fun n => Scalar.le n.x split).map (·.id)
    right := (sorted.filter fun n => Scalar.lt split n.x).map (·.id) }

end ExposedNode

/-- The connection ports of a diagram that are not yet sorted. -/
def Diagram.exposedNodes (d : Diagram K) : Except NetworkError (List (ExposedNode K)) := do
  let flagged ← d.nodes.mapM fun n => n.isConnectionPort.map (n, ·)
  (flagged.filterMap fun (n, isPort) => if isPort then some n else none).mapM PlacedNode.exposed

/-- The connection ports of a diagram, column by column. -/
def Diagram.connectionPorts (d : Diagram K) : Except NetworkError ConnectionPorts := do
  let nodes ← d.exposedNodes
  match median? (nodes.map (·.x)) with
  | none => return ⟨[], []⟩
  | some split => return ExposedNode.columns nodes split

end NetBalance
