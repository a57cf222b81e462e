import NetBalance.Solver.Solution

/-! # Solving in place

    A network that is shared with its users is solved by writing to it.  What is
    written stays written when a later step fails, since nothing is ever undone;
    so a solve reads while it iterates, and writes only after the last step that
    can fail. -/

namespace NetBalance

/-- A computation on a state, which ends with a value or an error and in both cases leaves the
    state as the last step that was taken left it. -/
structure InPlace (σ K ε α : Type) where
  run : σ → σ × Logged K ε α

namespace InPlace

variable {σ K ε α β : Type}

/-- The state as it stands. -/
def read : InPlace σ K ε σ := ⟨fun s => (s, pure s)⟩

/-- Change the state. -/
def write (f : σ → σ) : InPlace σ K ε Unit := ⟨fun s => (f s, pure ())⟩

/-- A computation that leaves the state alone. -/
def lift (m : Logged K ε α) : InPlace σ K ε α := ⟨fun s => (s, m)⟩

protected def bind (m : InPlace σ K ε α) (f : α → InPlace σ K ε β) : InPlace σ K ε β :=
  ⟨fun s =>
    let (s', first) := m.run s
    match first.result with
    | .ok a =>
      let (s'', next) := (f a).run s'
      (s'', ⟨first.events ++ next.events, next.result⟩)
    | .error e => (s', ⟨first.events, .error e⟩)⟩

instance : Monad (InPlace σ K ε) where
  pure a := lift (pure a)
  bind := InPlace.bind

end InPlace

variable {K : Type} [Add K] [Sub K] [Mul K] [Div K] [Neg K] [Zero K] [One K] [Scalar K]

namespace Network

/-- Solve a network by writing to it. -/
def solveInPlace (cfg : SolverConfig K) : InPlace (Network K) K (Error K) (Solution K) := do
  let net ← .read
  let (status, final) ← .lift (net.iterateFrom cfg cfg.newtonStep net.start)
  if !final.x.toList.all Scalar.isFinite then .lift (.fail (.solve .solutionNotFinite))
  .lift (.tell (endEvent status final))
  .write fun net => net.withValues final.x.toList
  .write finish
  let solved ← .read
  return {
    status
    payloads := solved.topLevelPayloads
    iterations := final.iterations
    stepNorm := final.stepNorm
    residualNorm := final.lastResidual.getD 0
    damping := final.damping }

/-- The network after several solves in a row, whether they return or fail. -/
def afterSolves (net : Network K) (cfgs : List (SolverConfig K)) : Network K :=
  cfgs.foldl (fun net cfg => ((solveInPlace cfg).run net).1) net

end Network

end NetBalance
