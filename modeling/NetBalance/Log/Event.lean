import NetBalance.Node.Kind
import NetBalance.Diagram.Basic
import NetBalance.Decimal.Format
import NetBalance.Text.Quoted

/-! # What is worth telling while a network is built and solved

    Events are data; their severity, their channel and their wording are
    decided here, in one place. -/

namespace NetBalance

/-- How urgent a message is. -/
inductive Severity where
  | debug
  | info
  | warning
  | error
  | critical
deriving DecidableEq

namespace Severity

def all : List Severity := [.debug, .info, .warning, .error, .critical]

def name : Severity → String
  | .debug => "DEBUG"
  | .info => "INFO"
  | .warning => "WARNING"
  | .error => "ERROR"
  | .critical => "CRITICAL"

/-- The rank of a severity on the scale of levels. -/
def rank : Severity → Int
  | .debug => 10
  | .info => 20
  | .warning => 30
  | .error => 40
  | .critical => 50

end Severity

/-- The activity that an event belongs to. -/
inductive Channel where
  | flattening
  | topology
  | solver
deriving DecidableEq

/-- One Newton step, as it was taken. -/
structure NewtonStep (K : Type) where
  /-- The number of the step, from one. -/
  iteration : Nat
  /-- The damping factor that the step was multiplied by. -/
  damping : K
  /-- The norm of the residual at the point where the step starts. -/
  residualNorm : K
  /-- The norm of the undamped step. -/
  stepNorm : K

inductive Event (K : Type) where
  /-- A node whose id occurred earlier in its diagram is dropped. -/
  | duplicateNode (diagram id : String)
  /-- A reference names no diagram of the project. -/
  | unknownDiagram (id : String) (target : Value K)
  /-- A reference leads back into a diagram that is being inlined. -/
  | closedCycle (id diagram : String)
  /-- An edge of a diagram names a node that is not there. -/
  | missingNode (edge : Edge) (diagram id : String)
  /-- An edge of a diagram names a port that its node does not declare. -/
  | undeclaredPort (edge : Edge) (diagram id port : String)
  /-- A link joins a port to itself. -/
  | selfLink (id : String) (port : PortName)
  | netsAllocated (nets ports : Nat)
  | networkBuilt (diagram : String) (nodes nets : Nat)
  | stepTaken (step : NewtonStep K)
  | converged (iterations nets : Nat)
  /-- The solve gave up; the damping and the norms are those after the last step. -/
  | aborted (iterations : Nat) (damping residualNorm stepNorm : K)

namespace Event

variable {K : Type}

def severity : Event K → Severity
  | .duplicateNode .. | .unknownDiagram .. | .closedCycle .. | .missingNode .. => .warning
  | .undeclaredPort .. | .selfLink .. | .netsAllocated .. | .stepTaken .. => .debug
  | .networkBuilt .. | .converged .. => .info
  | .aborted .. => .warning

def channel : Event K → Channel
  | .duplicateNode .. | .unknownDiagram .. | .closedCycle .. | .missingNode ..
  | .undeclaredPort .. | .networkBuilt .. => .flattening
  | .selfLink .. | .netsAllocated .. => .topology
  | .stepTaken .. | .converged .. | .aborted .. => .solver

end Event

/-! ### Wording -/

/-- An edge with the names of its four parts. -/
def Edge.text (e : Edge) : String :=
  "Edge(source=" ++ Text.quoted e.source ++ ", source_port=" ++ Text.quoted e.sourcePort ++
    ", target=" ++ Text.quoted e.target ++ ", target_port=" ++ Text.quoted e.targetPort ++ ")"

/-- The bare text of a port name. -/
def PortName.text (name : PortName) : String := name.getD "None"

/-- The bare text of a value that names something; a value with parts has no such text. -/
def Value.nameText : Value Float → String
  | .null => "None"
  | .bool b => if b then "True" else "False"
  | .int n => toString n
  | .real x => Decimal.shortest x
  | .text s => s
  | .list _ => "[...]"
  | .object _ => "\x7b...\x7d"

def Event.message : Event Float → String
  | .duplicateNode diagram id =>
    "Diagram '" ++ diagram ++ "' has duplicate node id '" ++ id ++ "'; keeping the first."
  | .unknownDiagram id target =>
    "Node '" ++ id ++ "' references unknown diagram '" ++ target.nameText ++ "'; skipping."
  | .closedCycle id diagram =>
    "Node '" ++ id ++ "' closes a reference cycle through diagram '" ++ diagram ++ "'; skipping."
  | .missingNode edge diagram id =>
    "Edge " ++ edge.text ++ " in diagram '" ++ diagram ++ "' refers to missing node '" ++ id ++
      "'; ignoring."
  | .undeclaredPort edge diagram id port =>
    "Edge " ++ edge.text ++ " in diagram '" ++ diagram ++ "' refers to undeclared port '" ++ id ++
      "." ++ port ++ "'; ignoring."
  | .selfLink id port => "Ignoring self-connection on " ++ id ++ "." ++ port.text
  | .netsAllocated nets ports =>
    "Allocated " ++ toString nets ++ " nets over " ++ toString ports ++ " ports"
  | .networkBuilt diagram nodes nets =>
    "Built diagram '" ++ diagram ++ "': " ++ toString nodes ++ " nodes, " ++ toString nets ++ " nets"
  | .stepTaken step =>
    "iteration " ++ toString step.iteration ++ ": alpha=" ++ Decimal.general 6 step.damping ++
      " residual=" ++ Decimal.scientific 3 step.residualNorm ++
      " step=" ++ Decimal.scientific 3 step.stepNorm
  | .converged iterations nets =>
    "Converged after " ++ toString iterations ++ " iterations (" ++ toString nets ++ " nets)"
  | .aborted iterations damping residualNorm stepNorm =>
    "Aborted after " ++ toString iterations ++ " iterations: damping=" ++
      Decimal.general 6 damping ++ " residual=" ++ Decimal.scientific 3 residualNorm ++
      " step=" ++ Decimal.scientific 3 stepNorm ++ "; applying best-effort values"

end NetBalance
