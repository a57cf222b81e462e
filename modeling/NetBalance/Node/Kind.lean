import NetBalance.Value

/-! # Kinds of nodes

    A node is a source, a sum, a product, or a reference to another diagram.
    The kind and the payload together decide which ports a node declares, how
    it seeds the value of its net, and what it stands for when its diagram is
    referenced. -/

namespace NetBalance

/-- The name of a port.  The nameless port is where a reference port ends inside, when the node
    behind it has no connection terminal. -/
abbrev PortName := Option String

/-- The closed set of node kinds. -/
inductive Kind where
  /-- A constant, or a variable that takes over the value of its net. -/
  | source
  /-- Two rows of ports with equal sums. -/
  | sum
  /-- Two rows of ports with equal products. -/
  | product
  /-- A stand-in for another diagram. -/
  | reference
deriving DecidableEq

namespace Kind

/-- All kinds, in the order of their names. -/
def all : List Kind := [.product, .sum, .reference, .source]

/-- The name of a kind in documents. -/
def name : Kind → String
  | .source => "source"
  | .sum => "plus"
  | .product => "mul"
  | .reference => "reference"

/-- Why a type tag names no kind. -/
inductive TagError where
  | notText
  | unknown (tag : String)
deriving DecidableEq

/-- The wording of a bad tag. -/
def TagError.message : TagError → String
  | .notText => "Node type name must be a string."
  | .unknown tag => "Unknown node type: " ++ tag

/-- The kind that a tag names, in any mixture of cases.  No letter outside ASCII has a letter of
    the four names as its lower case. -/
def ofName? (tag : String) : Option Kind :=
  all.find? fun kind => kind.name.toList = tag.toList.map Char.toLower

theorem ofName?_name (kind : Kind) : ofName? kind.name = some kind := by
  cases kind <;> decide +kernel

variable {K : Type}

/-- The kind that a type tag names. -/
def ofTag : Value K → Except TagError Kind
  | .text tag => (ofName? tag).elim (.error (.unknown tag)) .ok
  | _ => .error .notText

/-- The payload of a freshly placed node. -/
def defaultPayload [Zero K] : Kind → Payload K
  | .source => [("value", .real 0), ("locked", .bool false), ("input", .bool false)]
  | .sum | .product =>
    [("top_ports", .list [.text "top_0"]), ("bottom_ports", .list [.text "bottom_0"])]
  | .reference => [("graph_id", .null)]

/-- The port that a reference port is wired to when the node is a connection port. -/
def connectionTerminal : Kind → PortName
  | .source => some "a"
  | .sum | .product | .reference => none

/-- The two terminals of a source. -/
def sourceTerminals : List String := ["a", "b"]

/-- A row of a payload; a missing one is empty. -/
def row (p : Payload K) (key : String) : Except ValueError (List (Value K)) :=
  ((p.get? key).map Value.entries).getD (.ok [])

/-- The ports that a node writes into its payload, as they stand there. -/
def listedPorts (kind : Kind) (p : Payload K) : Except ValueError (List (Value K)) :=
  match kind with
  | .source => .ok (sourceTerminals.map .text)
  | .sum | .product => do
    let top ← row p "top_ports"
    let bottom ← row p "bottom_ports"
    return top ++ bottom
  | .reference => .ok []

/-- The ports that an edge may name.  A listed value that is no text names none, and a list or
    an object among them is an error. -/
def declaredPorts (kind : Kind) (p : Payload K) : Except ValueError (List String) := do
  let listed ← kind.listedPorts p
  if listed.all Value.isAtom then
    return listed.filterMap fun
      | .text s => some s
      | _ => none
  else throw .notAName

/-- The pairs of ports that always share one net. -/
def aliasPorts : Kind → List (String × String)
  | .source => [("a", "b")]
  | .sum | .product | .reference => []

section Numbers

variable [Zero K] [One K] [Scalar K]

/-- The configured value of a source; zero when the payload has none. -/
def configuredValue (p : Payload K) : Except ValueError K :=
  ((p.get? "value").map Value.toScalar).getD (.ok 0)

/-- The values that a node proposes for the nets of its ports. -/
def initialValues (kind : Kind) (p : Payload K) : Except ValueError (List (String × K)) :=
  match kind with
  | .source => do return [("a", ← configuredValue p)]
  | .sum | .product | .reference => .ok []

/-- Whether a flag of a payload is set. -/
def flag (p : Payload K) (key : String) : Bool := ((p.get? key).map Value.isTrue).getD false

/-- Whether the node shows up as a port where its diagram is referenced. -/
def isConnectionPort (kind : Kind) (p : Payload K) : Bool :=
  match kind with
  | .source => flag p "input"
  | .sum | .product | .reference => false

/-- Whether a source holds its net at the configured value. -/
def isLocked (p : Payload K) : Bool := flag p "locked"

end Numbers

/-- What names the diagram that the node stands for. -/
def referencedDiagram (kind : Kind) (p : Payload K) : Value K :=
  match kind with
  | .reference => (p.get? "graph_id").getD .null
  | .source | .sum | .product => .null

end Kind

end NetBalance
