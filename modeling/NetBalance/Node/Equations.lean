import NetBalance.Equation.Basic
import NetBalance.Node.Kind

/-! # The equations of a node

    A locked source pins its nets, a source that lies between two nets equates
    them, a sum balances the sums of its two rows, and a product balances
    their products as soon as both rows have a connected port. -/

namespace NetBalance.Kind

variable {K : Type} [Zero K] [One K] [Scalar K]

/-- The name of a port that a payload value stands for: texts name ports, null the nameless one,
    and other atoms none. -/
def portName? : Value K → Except ValueError (Option PortName)
  | .text s => .ok (some (some s))
  | .null => .ok (some none)
  | .bool _ | .int _ | .real _ => .ok none
  | .list _ | .object _ => .error .notAName

/-- The nets of the connected ports of a row, one for each time that a port is listed. -/
def rowNets (net? : PortName → Option Nat) (p : Payload K) (key : String) :
    Except ValueError (List Nat) := do
  let names ← (← row p key).mapM portName?
  return names.filterMap fun name => name.bind net?

/-- The distinct nets of the terminals of a source. -/
def terminalNets (net? : PortName → Option Nat) : List Nat :=
  (sourceTerminals.filterMap fun t => net? (some t)).eraseDups

/-- The equations that a node contributes, given the nets of its ports. -/
def equations (kind : Kind) (p : Payload K) (net? : PortName → Option Nat) :
    Except ValueError (List (Equation K)) :=
  match kind with
  | .source => do
    if isLocked p then
      let value ← configuredValue p
      return (terminalNets net?).map (.pin · value)
    else
      match terminalNets net? with
      | [first, second] => return [.equate first second]
      | _ => return []
  | .sum => do
    let top ← rowNets net? p "top_ports"
    let bottom ← rowNets net? p "bottom_ports"
    return if top.isEmpty && bottom.isEmpty then [] else [.equalSums top bottom]
  | .product => do
    let top ← rowNets net? p "top_ports"
    let bottom ← rowNets net? p "bottom_ports"
    return if top.isEmpty || bottom.isEmpty then [] else [.equalProducts top bottom]
  | .reference => return []

/-- The payload after a solve.  An unlocked source takes over the value of the net of its first
    connected terminal; everything else stays. -/
def finish (kind : Kind) (p : Payload K) (netValue? : PortName → Option K) : Payload K :=
  match kind with
  | .source =>
    if isLocked p then p
    else match sourceTerminals.findSome? fun t => netValue? (some t) with
      | some value => p.put "value" (.real value)
      | none => p
  | .sum | .product | .reference => p

end NetBalance.Kind
