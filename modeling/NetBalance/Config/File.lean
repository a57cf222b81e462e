import NetBalance.Config.Engine
import NetBalance.Yaml.Document

/-! # Engine configurations from files

    A configuration file is a YAML text in UTF-8.  Whatever can stand at a
    path is looked at here; fetching it is left to the caller. -/

namespace NetBalance

namespace Config

/-- What stands at a path. -/
inductive File where
  | missing
  | directory
  | content (bytes : ByteArray)

inductive LoadError (K : Type) where
  /-- There is nothing to read. -/
  | noFile
  /-- The bytes are no text. -/
  | notText
  | yaml (cause : Yaml.Error)
  | config (cause : ConfigError K)

/-- The start of the message about a file at `path` that cannot be read. -/
def unreadableText (path : String) : String := "Failed to read engine config YAML '" ++ path ++ "'"

/-- Count every way to end a line as a line feed. -/
def lineFeeds : List Char → List Char
  | '\r' :: '\n' :: rest => '\n' :: lineFeeds rest
  | '\r' :: rest => '\n' :: lineFeeds rest
  | c :: rest => c :: lineFeeds rest
  | [] => []

/-- The text of a file. -/
def File.text {K : Type} : File → Except (LoadError K) String
  | .missing | .directory => .error .noFile
  | .content bytes =>
    match String.fromUTF8? bytes with
    | some text => .ok (String.ofList (lineFeeds text.toList))
    | none => .error .notText

/-- How deep the settings of a configuration are: the document holds sections, and they hold
    settings. -/
def depth : Nat := 2

end Config

variable {K : Type} [Add K] [Mul K] [Neg K] [Zero K] [One K] [Scalar K]

/-- The configuration that a file describes.  A document is looked at down to its settings.  If
    it is refused, its values are copied for whoever is told. -/
def EngineConfig.ofFile (room : Yaml.Room) (file : Config.File) :
    Except (Config.LoadError K) (EngineConfig K) := do
  let text ← file.text
  let r ← (Yaml.Reading.ofText room text).mapError .yaml
  match EngineConfig.ofDocument (r.document Config.depth r.root) with
  | .ok c => return c
  | .error .notAMapping => throw (.config .notAMapping)
  | .error (.refused problems) =>
    (r.copyValues room).mapError .yaml
    throw (.config (.refused problems))

end NetBalance
