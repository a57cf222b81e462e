import NetBalance.Solver.Newton

/-! # Solving a network

    A solve starts from the values of the nets, iterates, and writes the
    values that it ends with back into the nets and into the payloads of
    unlocked sources.  A solve that fails writes nothing. -/

namespace NetBalance

/-- What a solve reports. -/
structure Solution (K : Type) where
  status : SolveStatus
  /-- The payloads of the nodes of the root diagram, under their local ids. -/
  payloads : List (String × Payload K)
  iterations : Nat
  /-- The length of the last step. -/
  stepNorm : K
  /-- The norm of the residual at the point where the last step started. -/
  residualNorm : K
  /-- The damping factor after the last step. -/
  damping : K

def Solution.converged {K : Type} (s : Solution K) : Bool := s.status = .converged

/-- One line about a solution. -/
def Solution.summary (s : Solution Float) : String :=
  "<SolveResult " ++ s.status.name ++ ": iterations=" ++ toString s.iterations ++ ", step=" ++
    Decimal.scientific 3 s.stepNorm ++ ", residual=" ++ Decimal.scientific 3 s.residualNorm ++
    ", damping=" ++ Decimal.general 6 s.damping ++ ">"

variable {K : Type} [Add K] [Sub K] [Mul K] [Div K] [Neg K] [Zero K] [One K] [Scalar K]

namespace Network

/-- The values of the nets as a vector. -/
def start (net : Network K) : Vector K net.size := ⟨net.values.toArray, by simp [values, size]⟩

/-- The payload of a node after the nets have got their values. -/
def finishNode (net : Network K) (node : FlatNode K) : FlatNode K :=
  { node with payload := node.kind.finish node.payload fun p =>
      (node.net? p).bind fun i => net.nets[i]?.map (·.value) }

/-- The network with every payload finished. -/
def finish (net : Network K) : Network K := { net with nodes := net.nodes.map net.finishNode }

/-- The payloads of the nodes of the root diagram. -/
def topLevelPayloads (net : Network K) : List (String × Payload K) :=
  (net.nodes.filter (·.isTopLevel)).map fun node => (node.localId, node.payload)

/-- Iterate from a vector of values, with a way to solve linear systems; without nets there is
    nothing to do. -/
def iterateFrom (net : Network K) (cfg : SolverConfig K)
    (linearStep : EquationSystem K net.size → Except (SolveError K) (Vector K net.size))
    (x : Vector K net.size) : Logged K (Error K) (SolveStatus × NewtonState K net.size) :=
  if net.size = 0 then pure (.converged, .initial x)
  else iterate cfg (fun x => net.assemble x.toArray) linearStep cfg.followingSteps (.initial x)

/-- The event that ends a solve. -/
def endEvent {n : Nat} (status : SolveStatus) (s : NewtonState K n) : Event K :=
  if status = .converged then .converged s.iterations n
  else .aborted s.iterations s.damping (s.lastResidual.getD 0) s.stepNorm

/-- Solve a network with a given way to solve linear systems. -/
def solveWith (net : Network K) (cfg : SolverConfig K)
    (linearStep : EquationSystem K net.size → Except (SolveError K) (Vector K net.size)) :
    Logged K (Error K) (Solution K × Network K) := do
  let (status, final) ← net.iterateFrom cfg linearStep net.start
  if !final.x.toList.all Scalar.isFinite then .fail (.solve .solutionNotFinite)
  .tell (endEvent status final)
  let solved := (net.withValues final.x.toList).finish
  return (
    { status
      payloads := solved.topLevelPayloads
      iterations := final.iterations
      stepNorm := final.stepNorm
      residualNorm := final.lastResidual.getD 0
      damping := final.damping },
    solved)

/-- Solve a network. -/
def solve (net : Network K) (cfg : SolverConfig K) : Logged K (Error K) (Solution K × Network K) :=
  net.solveWith cfg cfg.newtonStep

end Network

end NetBalance
