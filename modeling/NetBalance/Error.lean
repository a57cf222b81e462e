import NetBalance.Node.Kind
import NetBalance.Decimal.Format
import NetBalance.Text.Quoted

/-! # Errors

    Each error is a cause with the data that its wording needs.  Building a
    network, assembling its equations and solving them fail for causes of
    their own. -/

namespace NetBalance

/-- Why no network can be built from a diagram. -/
inductive NetworkError where
  /-- A type tag that names no kind. -/
  | tag (cause : Kind.TagError)
  /-- A payload value that a node cannot use. -/
  | value (cause : ValueError)
  /-- A connection port without two coordinates. -/
  | missingCoordinate
  /-- Two nodes flatten to one id. -/
  | idTaken (localId diagram id : String)
  /-- A reference leads back into a diagram that is being inlined, where that is forbidden. -/
  | closedCycle (id diagram : String)
  /-- A link names a node that is not there. -/
  | unknownNode (id : String)
deriving DecidableEq

/-- Why the equations cannot be evaluated. -/
inductive AssemblyError where
  | value (cause : ValueError)
  /-- An equation reads an entry beyond the end of the vector of unknowns. -/
  | vectorTooShort
deriving DecidableEq

/-- Why a matrix cannot be factored, or a right-hand side not solved for. -/
inductive LinearError (K : Type) where
  /-- A table of numbers with another number of dimensions than two. -/
  | notAMatrix (shape : List Nat)
  | notSquare (rows cols : Nat)
  /-- Elimination meets a column without a pivot, counted from one. -/
  | zeroPivot (index : Nat)
  /-- The estimate of the reciprocal condition number is below the accepted one. -/
  | illConditioned (rcond : K)
  /-- An infinite entry, or one that is not a number. -/
  | notFinite
  /-- A right-hand side of another length than the matrix has rows. -/
  | wrongLength

/-- Why a solve fails. -/
inductive SolveError (K : Type) where
  | linear (cause : LinearError K)
  /-- The residual of an equation of these nodes is not finite. -/
  | residualNotFinite (ids : List String)
  | jacobianNotFinite
  | stepNotFinite
  | solutionNotFinite

/-- Anything that can go wrong between a diagram and its solution. -/
inductive Error (K : Type) where
  | network (cause : NetworkError)
  | assembly (cause : AssemblyError)
  | solve (cause : SolveError K)

/-! ### Wording -/

def ValueError.message : ValueError → String
  | .notANumber => "A payload value is neither a number nor a text."
  | .notANumeral => "A payload text is not a numeral."
  | .tooLarge => "A payload number is too large."
  | .notARow => "A payload value is not a row of port names."
  | .notAName => "A payload value cannot name anything."

def NetworkError.message : NetworkError → String
  | .tag cause => cause.message
  | .value cause => cause.message
  | .missingCoordinate => "A connection port has no position."
  | .idTaken localId diagram id =>
    "Node '" ++ localId ++ "' of diagram '" ++ diagram ++ "' flattens to id '" ++ id ++
      "', which is already taken by another node."
  | .closedCycle id diagram =>
    "Node '" ++ id ++ "' references diagram '" ++ diagram ++ "' which is already being inlined."
  | .unknownNode id => "Node '" ++ id ++ "' is not part of the flattened diagram."

def AssemblyError.message : AssemblyError → String
  | .value cause => cause.message
  | .vectorTooShort => "The vector of unknowns is too short."

/-- A shape in round brackets; a single dimension keeps its comma. -/
def shapeText (shape : List Nat) : String :=
  match shape with
  | [n] => "(" ++ toString n ++ ",)"
  | _ => "(" ++ ", ".intercalate (shape.map toString) ++ ")"

def LinearError.message : LinearError Float → String
  | .notAMatrix shape => "Expected a 2-D system matrix, got shape " ++ shapeText shape ++ "."
  | .notSquare rows cols =>
    "System has " ++ toString rows ++ " equations for " ++ toString cols ++ " unknowns."
  | .zeroPivot index =>
    "System matrix is singular: Diagonal number " ++ toString index ++
      " is exactly zero. Singular matrix."
  | .illConditioned rcond =>
    "System matrix is singular to working precision (rcond " ++ Decimal.scientific 3 rcond ++ ")."
  | .notFinite => "An entry is infinite or not a number."
  | .wrongLength => "The right-hand side has another length than the system."

def SolveError.message : SolveError Float → String
  | .linear cause => cause.message
  | .residualNotFinite ids =>
    "Non-finite residual contributed by " ++ Text.bracketed (ids.map Text.quoted) ++ "."
  | .jacobianNotFinite => "Jacobian contains non-finite values."
  | .stepNotFinite => "Newton step contains non-finite values."
  | .solutionNotFinite => "Solution contains non-finite values."

def Error.message : Error Float → String
  | .network cause => cause.message
  | .assembly cause => cause.message
  | .solve cause => cause.message

end NetBalance
