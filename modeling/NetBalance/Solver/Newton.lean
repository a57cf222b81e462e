import NetBalance.Equation.System
import NetBalance.Linear.Operator

/-! # Damped Newton iteration

    Each step solves the linearised system for a step and walks along it by
    the damping factor.  The factor starts at one and shrinks whenever the
    residual stops improving.  The iteration has converged as soon as a step
    is short enough; it is given up when the factor has become too small or
    the budget of steps is used up.

    How the linear system is solved, and where the systems come from, are
    arguments of the iteration. -/

namespace NetBalance

/-- The settings of a solve. -/
structure SolverConfig (K : Type) where
  /-- A step shorter than this ends the iteration. -/
  tolerance : K
  /-- The iteration ends at the latest with this step, but never before the first. -/
  maxIterations : Int
  /-- The smallest damping factor to go on with. -/
  minDamping : K
  /-- What the damping factor is multiplied by when the residual stops improving. -/
  dampingBackoff : K
  /-- The share of the last residual that the next one has to fall below. -/
  stallRatio : K
  /-- The smallest reciprocal condition number accepted of a square system. -/
  singularTolerance : K
  /-- Whether systems that are not square are solved by least squares. -/
  leastSquares : Bool

/-- The settings that hold where nothing else is said. -/
def SolverConfig.standard {K : Type} [Zero K] [Scalar K] : SolverConfig K :=
  { tolerance := Scalar.literal 1 (-8)
    maxIterations := 100
    minDamping := Scalar.literal 1 (-1)
    dampingBackoff := Scalar.literal 9 (-1)
    stallRatio := Scalar.literal 99 (-2)
    singularTolerance := Scalar.epsilon
    leastSquares := false }

inductive SolveStatus where
  | iterating
  | converged
  | aborted
deriving DecidableEq

namespace SolveStatus

def all : List SolveStatus := [.iterating, .converged, .aborted]

def name : SolveStatus → String
  | .iterating => "iterating"
  | .converged => "converged"
  | .aborted => "aborted"

def ofName? (name : String) : Option SolveStatus := all.find? fun s => s.name = name

end SolveStatus

/-- Where an iteration stands. -/
structure NewtonState (K : Type) (n : Nat) where
  x : Vector K n
  /-- The factor for the next step. -/
  damping : K
  /-- The steps taken so far. -/
  iterations : Nat
  /-- The norm of the residual at the start of the last step; nothing before the first. -/
  lastResidual : Option K
  /-- The length of the last step. -/
  stepNorm : K

/-- The iteration before its first step. -/
def NewtonState.initial {K : Type} [Zero K] [One K] {n : Nat} (x : Vector K n) : NewtonState K n :=
  ⟨x, 1, 0, none, 0⟩

variable {K : Type} [Add K] [Sub K] [Mul K] [Div K] [Neg K] [Zero K] [One K] [Scalar K] {n : Nat}

/-! ### Checks -/

/-- The ids of the nodes whose residuals are not finite, sorted and each once. -/
def EquationSystem.badSources (s : EquationSystem K n) : List String :=
  let bad := (s.rows.filter fun row => !Scalar.isFinite row.residual).map (·.source)
  bad.eraseDups.mergeSort fun a b => !(b < a)

/-- All numbers of a system have to be finite. -/
def EquationSystem.checkFinite (s : EquationSystem K n) : Except (SolveError K) Unit :=
  if !s.residual.all Scalar.isFinite then .error (.residualNotFinite s.badSources)
  else if !s.jacobian.all fun row => row.toList.all Scalar.isFinite then .error .jacobianNotFinite
  else .ok ()

/-! ### The linear step -/

/-- The derivatives of a system as a matrix. -/
def EquationSystem.matrix (s : EquationSystem K n) : RowMatrix K s.rows.length n :=
  ⟨(s.rows.map (·.row)).toArray, by simp⟩

/-- The residuals of a system with the opposite sign. -/
def EquationSystem.rightHandSide (s : EquationSystem K n) : Vector K s.rows.length :=
  ⟨(s.rows.map fun row => -row.residual).toArray, by simp⟩

/-- The Newton step of a system. -/
def SolverConfig.newtonStep (cfg : SolverConfig K) (s : EquationSystem K n) :
    Except (SolveError K) (Vector K n) :=
  (do
    let op ← LinearOperator.ofMatrix s.matrix cfg.singularTolerance cfg.leastSquares
    op.solve s.rightHandSide).mapError .linear

/-! ### The iteration -/

/-- Take one step: the state after it, with its record. -/
def takeStep (cfg : SolverConfig K)
    (assemble : Vector K n → Except AssemblyError (EquationSystem K n))
    (linearStep : EquationSystem K n → Except (SolveError K) (Vector K n)) (s : NewtonState K n) :
    Except (Error K) (NewtonState K n × NewtonStep K) := do
  let system ← (assemble s.x).mapError .assembly
  system.checkFinite.mapError .solve
  let delta ← (linearStep system).mapError .solve
  if !delta.toList.all Scalar.isFinite then throw (.solve .stepNotFinite)
  let residualNorm := norm system.residual
  let stepNorm := norm delta.toList
  let stalled := s.lastResidual.any fun last => Scalar.le (cfg.stallRatio * last) residualNorm
  let iterations := s.iterations + 1
  return (
    { x := Linear.addScaled s.x s.damping delta
      damping := if stalled then s.damping * cfg.dampingBackoff else s.damping
      iterations
      lastResidual := some residualNorm
      stepNorm },
    ⟨iterations, s.damping, residualNorm, stepNorm⟩)

/-- Step until a step is short enough, the damping too small, or no step is left.  `left` counts
    the steps that may follow the next one. -/
def iterate (cfg : SolverConfig K)
    (assemble : Vector K n → Except AssemblyError (EquationSystem K n))
    (linearStep : EquationSystem K n → Except (SolveError K) (Vector K n)) (left : Nat)
    (s : NewtonState K n) : Logged K (Error K) (SolveStatus × NewtonState K n) := do
  let (next, record) ← .ofExcept (takeStep cfg assemble linearStep s)
  .tell (.stepTaken record)
  if Scalar.lt next.stepNorm cfg.tolerance then return (.converged, next)
  else if Scalar.lt next.damping cfg.minDamping then return (.aborted, next)
  else match left with
    | 0 => return (.aborted, next)
    | left + 1 => iterate cfg assemble linearStep left next

/-- The steps that may follow the first one. -/
def SolverConfig.followingSteps (cfg : SolverConfig K) : Nat := cfg.maxIterations.toNat - 1

end NetBalance
