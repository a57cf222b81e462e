import NetBalance.Config.Setting
import NetBalance.Engine

/-! # Engine configurations from documents

    A configuration has three sections: one for the solver, one for building
    networks, one for logging.  What a document leaves out keeps its standard
    value; what it adds is refused. -/

namespace NetBalance

namespace Config

/-- What is wrong with one key of a configuration. -/
inductive SectionProblem (K : Type) where
  | unknownField
  | nullValue
  | notAMapping
  /-- Problems of the settings inside. -/
  | inside (problems : List (SettingProblem K))

/-- The wording of a problem that is not inside of the section. -/
def SectionProblem.message? {K : Type} : SectionProblem K → Option String
  | .unknownField => some "unknown field"
  | .nullValue => some "null value not allowed"
  | .notAMapping => some "must be of dict type"
  | .inside _ => none

inductive ConfigError (K : Type) where
  | notAMapping
  /-- The keys that have problems, with them. -/
  | refused (problems : List (Document K × SectionProblem K))

def ConfigError.message {K : Type} : ConfigError K → String
  | .notAMapping => "Engine config must be a mapping at the top level."
  | .refused _ => "Engine config schema validation errors"

variable {K α : Type}

/-- Read the section `name`, or take what holds where it is missing. -/
def readSection (entries : Document.Entries K) (name : String)
    (read : Document.Entries K → Checked (SettingProblem K) α) (otherwise : α) :
    Checked (Document K × SectionProblem K) α :=
  match entries.get? name with
  | none => pure otherwise
  | some (.mapping settings) =>
    match (read settings).toExcept with
    | .ok a => pure a
    | .error problems => ⟨otherwise, [(.text name, .inside problems)]⟩
  | some .null => ⟨otherwise, [(.text name, .nullValue)]⟩
  | some _ => ⟨otherwise, [(.text name, .notAMapping)]⟩

/-- The severities that a configuration can ask for. -/
def levelNames : List String := Severity.all.map Severity.name

variable [Zero K] [One K] [Scalar K]

/-- The settings of the section `solver`. -/
def readSolver (entries : Document.Entries K) : Checked (SettingProblem K) (SolverConfig K) := do
  let otherwise : SolverConfig K := .standard
  noOthers entries ["tolerance", "max_iterations", "min_damping", "damping_backoff",
    "stall_ratio", "singular_tolerance", "least_squares"]
  let tolerance ← setting entries "tolerance" (number .nonNegative) otherwise.tolerance
  let maxIterations ← setting entries "max_iterations" count otherwise.maxIterations
  let minDamping ← setting entries "min_damping" (number .unit) otherwise.minDamping
  let dampingBackoff ← setting entries "damping_backoff" (number .unit) otherwise.dampingBackoff
  let stallRatio ← setting entries "stall_ratio" (number .nonNegative) otherwise.stallRatio
  let singularTolerance ←
    setting entries "singular_tolerance" (number .nonNegative) otherwise.singularTolerance
  let leastSquares ← setting entries "least_squares" truth otherwise.leastSquares
  return { tolerance, maxIterations, minDamping, dampingBackoff, stallRatio, singularTolerance,
           leastSquares }

/-- The settings of the section `builder`: the value to start from, and whether references are
    strict. -/
def readBuilder (entries : Document.Entries K) : Checked (SettingProblem K) (K × Bool) := do
  noOthers entries ["default_net_value", "strict_references"]
  let start ← setting entries "default_net_value" (number .any) 1
  let strict ← setting entries "strict_references" truth false
  return (start, strict)

omit [Zero K] [One K] [Scalar K] in
/-- The settings of the section `logging`: a level and a file. -/
def readLogging (entries : Document.Entries K) :
    Checked (SettingProblem K) (Option String × Option String) := do
  noOthers entries ["level", "file"]
  let level ← setting entries "level" (fun d => some <$> choice levelNames d) none
  let file ← setting entries "file" (fun d => some <$> text d) none
  return (level, file)

/-- All sections of a configuration. -/
def readSections (entries : Document.Entries K) :
    Checked (Document K × SectionProblem K) (EngineConfig K) := do
  ⟨(), (unknownKeys entries ["solver", "builder", "logging"]).map (·, .unknownField)⟩
  let solver ← readSection entries "solver" readSolver .standard
  let (start, strict) ← readSection entries "builder" readBuilder (1, false)
  let (level, file) ← readSection entries "logging" readLogging (none, none)
  return ⟨solver, start, strict, level, file⟩

end Config

/-- The configuration that a document describes.  No document at all leaves everything as it
    is. -/
def EngineConfig.ofDocument {K : Type} [Zero K] [One K] [Scalar K] (d : Document K) :
    Except (Config.ConfigError K) (EngineConfig K) :=
  match d with
  | .null => .ok .standard
  | .mapping entries => (Config.readSections entries).toExcept.mapError .refused
  | _ => .error .notAMapping

end NetBalance
