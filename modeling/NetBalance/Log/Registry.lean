import NetBalance.Engine
import NetBalance.Log.Event
import NetBalance.Text.Character

/-! # Where messages go

    A level is any whole number; the severities and a few other names stand
    for some of them.  Level zero says nothing, and a logger that has it
    takes the level of the logger around it.

    Loggers have dotted names and stand inside of each other, all of them
    inside of the root.  A message counts if it is at least as urgent as the
    level in force, and then goes to the handlers of the root: the console,
    and perhaps a file. -/

namespace NetBalance

/-! ### Levels -/

abbrev Level := Int

namespace Level

/-- The level that says nothing. -/
def unset : Level := 0

/-- The names of levels that are no severities. -/
def otherNames : List (String × Level) := [("NOTSET", unset), ("WARN", 30), ("FATAL", 50)]

/-- All names of levels. -/
def names : List (String × Level) := Severity.all.map (fun s => (s.name, s.rank)) ++ otherNames

def ofName? (name : String) : Option Level := names.lookup name

/-- The level of a name in lower or upper case. -/
def ofAnyCase? (name : String) : Option Level := ofName? (Text.upper name)

/-- The first name of a level, or its number. -/
def text (l : Level) : String :=
  ((names.find? fun entry => entry.2 = l).map (·.1)).getD ("Level " ++ toString l)

/-- A level as it is asked for. -/
inductive Choice where
  | number (l : Level)
  | name (s : String)
deriving DecidableEq

/-- The level that is asked for; a name has to be one in this very case. -/
def Choice.level? : Choice → Option Level
  | .number l => some l
  | .name s => ofName? s

/-- The message about a name that no level has. -/
def unknownText (name : String) : String := "Unknown logging level: " ++ name

end Level

/-! ### Registries -/

inductive Handler where
  | console
  | file (path : String)
deriving DecidableEq

/-- The levels of all loggers, the handlers of the root, and what the files hold. -/
structure Registry where
  rootLevel : Level
  handlers : List Handler
  /-- The levels that loggers have of their own. -/
  levels : List (String × Level)
  files : List (String × String)

inductive LogError where
  /-- No level has this name. -/
  | unknownLevel (name : String)
  /-- The directory of a file does not exist. -/
  | noDirectory
deriving DecidableEq

namespace Registry

/-- Nothing but the root, which lets warnings pass. -/
def initial : Registry := ⟨Severity.warning.rank, [], [], []⟩

/-- The name of the root; no name at all means it, too. -/
def rootName : String := "root"

def isRoot (name : String) : Bool := name.isEmpty || name = rootName

/-- The names around a dotted name, the innermost first. -/
def outerNames (name : String) : List String :=
  let parts := name.splitOn "."
  ((List.range parts.length).map fun k => ".".intercalate (parts.take k)).reverse.filter (· ≠ "")

/-- The level that a logger has of its own. -/
def ownLevel (r : Registry) (name : String) : Level :=
  if isRoot name then r.rootLevel else (r.levels.lookup name).getD Level.unset

/-- The level in force at a logger: the innermost that is set. -/
def levelAt (r : Registry) (name : String) : Level :=
  if isRoot name then r.rootLevel
  else
    (((name :: outerNames name).map r.ownLevel).find? (· ≠ Level.unset)).getD r.rootLevel

/-- Give a logger a level of its own. -/
def setLevel (r : Registry) (name : String) (l : Level) : Registry :=
  if isRoot name then { r with rootLevel := l }
  else { r with levels := (name, l) :: r.levels.filter (·.1 ≠ name) }

/-! ### Files -/

/-- What a file holds. -/
def file? (r : Registry) (path : String) : Option String := r.files.lookup path

/-- Add to a file, which is made if it does not exist. -/
def append (r : Registry) (path text : String) : Registry :=
  { r with files := go r.files }
where
  go : List (String × String) → List (String × String)
    | [] => [(path, text)]
    | (other, old) :: rest =>
      if other = path then (other, old ++ text) :: rest else (other, old) :: go rest

/-- Whether a file lies in a directory of its own; there are none. -/
def hasDirectory (path : String) : Bool := path.toList.contains '/'

/-! ### Setting up -/

/-- Send the messages of the root to the console and perhaps to a file.  If the file cannot be made
    the console stays. -/
def handle (r : Registry) (file : Option String) : Registry × Except LogError Unit :=
  let r := { r with handlers := [.console] }
  match file.filter (!·.isEmpty) with
  | none => (r, .ok ())
  | some path =>
    if hasDirectory path then (r, .error .noDirectory)
    else ({ r.append path "" with handlers := [.console, .file path] }, .ok ())

/-- Let the root pass messages from a level on, to the console and perhaps to a file.  What was
    set up before is given up; the name of a level may be in any case. -/
def setUp (r : Registry) (level : Level.Choice) (file : Option String) :
    Registry × Except LogError Unit :=
  match level with
  | .number l => { r with rootLevel := l }.handle file
  | .name s =>
    match Level.ofAnyCase? s with
    | some l => { r with rootLevel := l }.handle file
    | none => (r, .error (.unknownLevel s))

/-- Set up as a configuration says; tells whether it says anything. -/
def configure {K : Type} (r : Registry) (c : EngineConfig K) : Registry × Except LogError Bool :=
  match c.logLevel with
  | none => (r, .ok false)
  | some level =>
    let (r, result) := r.setUp (.name level) c.logFile
    (r, result.map fun _ => true)

/-! ### Messages -/

/-- Whether a logger lets messages of a level pass; those without a level never do. -/
def passes (r : Registry) (name : String) (l : Level) : Bool := Level.unset < l && r.levelAt name ≤ l

/-- A message as it is written, behind the time of writing. -/
def line (time name : String) (l : Level) (message : String) : String :=
  time ++ " [" ++ l.text ++ "] " ++ (if isRoot name then rootName else name) ++ ": " ++ message ++
    "\n"

/-- Send a message through a logger. -/
def log (r : Registry) (time name : String) (l : Level) (message : String) : Registry :=
  if r.passes name l then
    r.handlers.foldl (fun r h => match h with
      | .console => r
      | .file path => r.append path (line time name l message)) r
  else r

end Registry

def LogError.message : LogError → String
  | .unknownLevel name => Level.unknownText name
  | .noDirectory => "The directory of the file does not exist."

end NetBalance
