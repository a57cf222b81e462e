import NetBalance.Network.Basic
import NetBalance.Node.Equations

/-! # Systems of equations

    The equations of all nodes of a network at one point, in the order of the
    nodes, each with the id of the node that it comes from. -/

namespace NetBalance

/-- One equation of a system. -/
structure SystemRow (K : Type) (n : Nat) extends Linearised K n where
  /-- The id of the node that contributes the equation. -/
  source : String

/-- A linearised system in `n` unknowns. -/
structure EquationSystem (K : Type) (n : Nat) where
  rows : List (SystemRow K n)

namespace EquationSystem

variable {K : Type} {n : Nat}

def jacobian (s : EquationSystem K n) : List (Row K n) := s.rows.map (·.row)

def residual (s : EquationSystem K n) : List K := s.rows.map (·.residual)

def sources (s : EquationSystem K n) : List String := s.rows.map (·.source)

def isSquare (s : EquationSystem K n) : Bool := s.rows.length = n

end EquationSystem

/-- One line about a system of a shape. -/
def shapeSummary (rows cols : Nat) : String := "<EquationSystem shape=" ++ shapeText [rows, cols] ++ ">"

variable {K : Type} [Add K] [Sub K] [Mul K] [Neg K] [Zero K] [One K] [Scalar K]

/-- The equations of a flattened node. -/
def FlatNode.equations (n : FlatNode K) : Except ValueError (List (Equation K)) :=
  n.kind.equations n.payload n.net?

/-- Linearise equations in order up to the first that reads beyond the vector. -/
def Equation.lineariseAll (n : Nat) (x : Array K) (es : List (Equation K)) :
    Except AssemblyError (List (Linearised K n)) :=
  es.mapM fun e => (e.linearise? n x).elim (.error .vectorTooShort) .ok

/-- The rows of one node. -/
def FlatNode.systemRows (node : FlatNode K) (n : Nat) (x : Array K) :
    Except AssemblyError (List (SystemRow K n)) := do
  let es ← node.equations.mapError .value
  let rows ← Equation.lineariseAll n x es
  return rows.map fun row => { row with source := node.id }

/-- The system of a network at a vector of values. -/
def Network.assemble (net : Network K) (x : Array K) :
    Except AssemblyError (EquationSystem K net.size) := do
  let rows ← net.nodes.mapM fun node => node.systemRows net.size x
  return ⟨rows.flatten⟩

end NetBalance
