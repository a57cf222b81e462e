import NetBalance.Solver.Solution

/-! # Calculating diagrams

    An engine builds the network of a diagram, solves it, and puts the solved
    payloads into a copy of the diagram. -/

namespace NetBalance

structure EngineConfig (K : Type) where
  solver : SolverConfig K
  /-- The value to start from on nets that no source proposes one for. -/
  defaultNetValue : K
  /-- Whether a reference that closes a cycle is an error. -/
  strictReferences : Bool
  /-- The severity from which messages are kept; nothing leaves logging alone. -/
  logLevel : Option String
  logFile : Option String

variable {K : Type} [Zero K] [One K] [Scalar K]

/-- The configuration that holds where nothing else is said. -/
def EngineConfig.standard : EngineConfig K := ⟨.standard, 1, false, none, none⟩

variable [Add K] [Sub K] [Mul K] [Div K] [Neg K]

/-- Build the network of a diagram of a project. -/
def EngineConfig.build (cfg : EngineConfig K) (project : Project K) (d : Diagram K) :
    Logged K (Error K) (Network K) :=
  (d.build project cfg.strictReferences cfg.defaultNetValue).mapError .network

/-- Build and solve a diagram; the diagram that comes back differs in payloads only. -/
def EngineConfig.calculate (cfg : EngineConfig K) (project : Project K) (d : Diagram K) :
    Logged K (Error K) (Solution K × Diagram K) := do
  let net ← cfg.build project d
  let (solution, _) ← net.solve cfg.solver
  return (solution, d.withPayloads solution.payloads)

end NetBalance
