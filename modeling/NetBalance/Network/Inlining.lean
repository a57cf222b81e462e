import NetBalance.Network.Flat

/-! # Inlining of references

    A diagram is flattened by listing its nodes and, right behind each
    reference, a copy of the diagram that it names, under the reference's id
    and a point.  A reference that leads back into a diagram on the way down
    is left out, or refused.

    Every function here returns what it adds to the flattened diagram.  What
    is there already matters only as the ids that are taken.  The descent ends
    because each step enters a diagram of the project that is not on the way
    down yet. -/

namespace NetBalance

variable {K : Type}

/-- A diagram of the project that may be entered from the diagrams on the way down. -/
abbrev Target (project : Project K) (stack : List String) :=
  { target : Diagram K // target ∈ project.diagrams ∧ target.id ∉ stack }

/-- How a diagram copy is made: of a target, under a scope, beside the ids that are taken. -/
abbrev Enter (project : Project K) (stack : List String) :=
  Target project stack → String → List String → Logged K NetworkError (Flat K)

/-- What the edges of a diagram may use of one of its nodes. -/
structure Slot where
  localId : String
  /-- The ports that an edge may name. -/
  ports : List String
  /-- For a reference that was inlined: each of its ports with the port behind it. -/
  inner : List (String × Port)

/-! ### References -/

/-- Find the diagram that the value names, if it is one to enter.  Null names nothing; what is no
    diagram of the project, or is on the way down already, is told and left out. -/
def resolve (project : Project K) (strict : Bool) (stack : List String) (id : String) :
    Value K → Logged K NetworkError (Option (Target project stack))
  | .null => pure none
  | .list _ | .object _ => .fail (.value .notAName)
  | .text name =>
    match h : project.get? name with
    | none => do
      .tell (.unknownDiagram id (.text name))
      return none
    | some target =>
      if hs : target.id ∈ stack then
        if strict then .fail (.closedCycle id name)
        else do
          .tell (.closedCycle id name)
          return none
      else pure (some ⟨target, List.mem_of_find?_eq_some h, hs⟩)
  | value => do
    .tell (.unknownDiagram id value)
    return none

variable [Add K] [Div K] [Zero K] [One K] [Scalar K]

/-- The port behind a port of a reference: the connection terminal of the first node with the
    port's id. -/
def innerPort (target : Diagram K) (scope port : String) : Except NetworkError (String × Port) :=
  match target.node? port with
  | none => .ok (port, ⟨scope ++ port, none⟩)
  | some node => node.kind.map fun kind => (port, ⟨scope ++ port, kind.connectionTerminal⟩)

/-! ### Nodes -/

section Level

variable (project : Project K) (strict : Bool) (stack : List String)
  (enter : Enter project stack) (diagram scope : String)

/-- Flatten one node: itself, and the copy of the diagram that it refers to. -/
def inlineNode (taken : List String) (n : PlacedNode K) :
    Logged K NetworkError (Flat K × Slot) := do
  let id := scope ++ n.id
  if id ∈ taken then .fail (.idTaken n.id diagram id)
  let kind ← .ofExcept n.kind
  let ports ← .ofExcept ((kind.declaredPorts n.payload).mapError .value)
  let node : FlatNode K := ⟨id, n.id, scope, kind, n.payload, []⟩
  match ← resolve project strict stack id (kind.referencedDiagram n.payload) with
  | none => return (⟨[node], []⟩, ⟨n.id, ports, []⟩)
  | some target =>
    let innerScope := id ++ "."
    let copy ← enter target innerScope (id :: taken)
    let exposed ← .ofExcept target.val.connectionPorts
    let inner ← .ofExcept (exposed.all.mapM (innerPort target.val innerScope))
    return (⟨node :: copy.nodes, copy.links⟩, ⟨n.id, exposed.all, inner⟩)

/-- Flatten a list of nodes; of several with one id the first is kept.  `seen` holds the nodes
    of the same diagram before them. -/
def inlineNodes (taken : List String) (seen : List Slot) :
    List (PlacedNode K) → Logged K NetworkError (Flat K × List Slot)
  | [] => pure (.empty, seen)
  | n :: rest => do
    if seen.any (·.localId = n.id) then
      .tell (.duplicateNode diagram n.id)
      inlineNodes taken seen rest
    else
      let (own, slot) ← inlineNode project strict stack enter diagram scope taken n
      let (others, slots) ← inlineNodes (own.ids ++ taken) (seen ++ [slot]) rest
      return (own ++ others, slots)

end Level

/-! ### Edges -/

/-- What is wrong with an end of an edge, if anything. -/
def endEvents (slots : List Slot) (diagram : String) (e : Edge) (stop : String × String) :
    List (Event K) :=
  match slots.find? (·.localId = stop.1) with
  | none => [.missingNode e diagram stop.1]
  | some slot =>
    if stop.2 ∈ slot.ports then [] else [.undeclaredPort e diagram stop.1 stop.2]

/-- Whether an end of an edge names a port that its node declares. -/
def endIsUsable (slots : List Slot) (stop : String × String) : Bool :=
  match slots.find? (·.localId = stop.1) with
  | none => false
  | some slot => stop.2 ∈ slot.ports

/-- An edge is used when both of its ends are. -/
def Edge.isUsable (slots : List Slot) (e : Edge) : Bool := e.ends.all (endIsUsable slots)

/-- The link of an edge under a scope. -/
def Edge.link (scope : String) (e : Edge) : Link :=
  ⟨⟨scope ++ e.source, some e.sourcePort⟩, ⟨scope ++ e.target, some e.targetPort⟩, .edge⟩

/-- The links from the ports of a reference to what is behind them, as far as an edge touches
    the port. -/
def boundaryLinks (scope : String) (wired : List (String × String)) (slot : Slot) : List Link :=
  slot.inner.filterMap fun (port, inner) =>
    if (slot.localId, port) ∈ wired then
      some ⟨⟨scope ++ slot.localId, some port⟩, inner, .boundary⟩
    else none

/-- The links that a diagram itself adds: those of its usable edges, then those of its
    references. -/
def levelLinks (scope : String) (slots : List Slot) (edges : List Edge) : List Link :=
  let usable := edges.filter (Edge.isUsable slots)
  usable.map (Edge.link scope) ++ slots.flatMap (boundaryLinks scope (usable.flatMap Edge.ends))

/-- Flatten one diagram, given how the diagrams that it refers to are entered. -/
def inlineLevel (project : Project K) (strict : Bool) (stack : List String)
    (enter : Enter project stack) (d : Diagram K) (scope : String) (taken : List String) :
    Logged K NetworkError (Flat K) := do
  let (flat, slots) ← inlineNodes project strict stack enter d.id scope taken [] d.nodes
  .tellAll (d.edges.flatMap fun e => e.ends.flatMap (endEvents slots d.id e))
  return ⟨flat.nodes, flat.links ++ levelLinks scope slots d.edges⟩

/-! ### The descent -/

/-- The diagrams of the project that are not on the way down yet. -/
def Project.outside (project : Project K) (stack : List String) : List (Diagram K) :=
  project.diagrams.filter (·.id ∉ stack)

omit [Add K] [Div K] [Zero K] [One K] [Scalar K] in
theorem Project.length_outside_lt {project : Project K} {stack : List String}
    (target : Target project stack) :
    (project.outside (target.val.id :: stack)).length < (project.outside stack).length := by
  obtain ⟨t, hmem, hout⟩ := target
  have key : project.outside (t.id :: stack) = (project.outside stack).filter (·.id ≠ t.id) := by
    simp only [outside, List.filter_filter, List.mem_cons]
    congr 1
    funext d
    grind
  rw [key]
  refine List.length_filter_lt_length_iff_exists.2 ⟨t, ?_, by simp⟩
  simp [outside, hmem, hout]

/-- Flatten a diagram and all that it refers to, under a scope.  `stack` holds the ids of the
    diagrams on the way down, `taken` the ids that are in use. -/
def inline (project : Project K) (strict : Bool) (stack : List String) (d : Diagram K)
    (scope : String) (taken : List String) : Logged K NetworkError (Flat K) :=
  inlineLevel project strict stack
    (fun target innerScope innerTaken =>
      inline project strict (target.val.id :: stack) target.val innerScope innerTaken)
    d scope taken
termination_by (project.outside stack).length
decreasing_by exact Project.length_outside_lt target

/-- Flatten a diagram of a project.  In strict mode a reference that closes a cycle is an error. -/
def Diagram.flatten (d : Diagram K) (project : Project K) (strict : Bool) :
    Logged K NetworkError (Flat K) :=
  inline project strict [d.id] d "" []

end NetBalance
