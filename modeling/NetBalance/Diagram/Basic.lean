import NetBalance.Value

/-! # Diagrams and projects

    A diagram holds placed nodes and the edges between their ports; a project
    holds diagrams under distinct ids.  Neither is checked: ids may repeat
    within a diagram, and edges may name nodes and ports that do not exist. -/

namespace NetBalance

variable {K : Type}

/-- One placed node. -/
structure PlacedNode (K : Type) where
  id : String
  /-- What names the node's kind; any value may stand here. -/
  tag : Value K
  payload : Payload K
  /-- The horizontal and the vertical coordinate, downward; either may be missing. -/
  position : List K

/-- A connection between two ports, without a direction of its own. -/
structure Edge where
  source : String
  sourcePort : String
  target : String
  targetPort : String
deriving DecidableEq

/-- The two ends of an edge, as pairs of a local node id and a port name. -/
def Edge.ends (e : Edge) : List (String × String) :=
  [(e.source, e.sourcePort), (e.target, e.targetPort)]

structure Diagram (K : Type) where
  id : String
  name : String
  nodes : List (PlacedNode K)
  edges : List Edge

namespace Diagram

/-- The first node with an id. -/
def node? (d : Diagram K) (id : String) : Option (PlacedNode K) := d.nodes.find? (·.id = id)

/-- Replace the payload of every node whose id is listed; ids without a node are ignored. -/
def withPayloads (d : Diagram K) (updates : List (String × Payload K)) : Diagram K :=
  { d with nodes := d.nodes.map fun n => { n with payload := (updates.lookup n.id).getD n.payload } }

/-- Place another node at the end. -/
def addNode (d : Diagram K) (n : PlacedNode K) : Diagram K := { d with nodes := d.nodes ++ [n] }

/-- Remove every node with an id; its edges stay. -/
def removeNodes (d : Diagram K) (id : String) : Diagram K :=
  { d with nodes := d.nodes.filter (·.id ≠ id) }

def addEdge (d : Diagram K) (e : Edge) : Diagram K := { d with edges := d.edges ++ [e] }

/-- Remove the first edge equal to `e`, in the same direction; nothing when there is none. -/
def removeEdge? (d : Diagram K) (e : Edge) : Option (Diagram K) :=
  if e ∈ d.edges then some { d with edges := d.edges.erase e } else none

/-- One line about a diagram. -/
def summary (d : Diagram K) : String :=
  "<Diagram " ++ d.id ++ " (" ++ d.name ++ "): nodes=" ++ toString d.nodes.length ++
    " edges=" ++ toString d.edges.length ++ ">"

end Diagram

/-! ### Projects -/

/-- Put a diagram in the place of the one with its id, or at the end. -/
def placeDiagram (d : Diagram K) : List (Diagram K) → List (Diagram K)
  | [] => [d]
  | other :: rest => if other.id = d.id then d :: rest else other :: placeDiagram d rest

theorem mem_ids_placeDiagram (d : Diagram K) (ds : List (Diagram K)) (id : String) :
    id ∈ (placeDiagram d ds).map (·.id) ↔ id = d.id ∨ id ∈ ds.map (·.id) := by
  induction ds with
  | nil => simp [placeDiagram]
  | cons other rest ih =>
    by_cases h : other.id = d.id
    · simp [placeDiagram, h]
    · simp only [placeDiagram, h, if_false, List.map_cons, List.mem_cons, ih]
      grind

theorem nodup_placeDiagram (d : Diagram K) (ds : List (Diagram K)) (h : (ds.map (·.id)).Nodup) :
    ((placeDiagram d ds).map (·.id)).Nodup := by
  induction ds with
  | nil => simp [placeDiagram]
  | cons other rest ih =>
    rw [List.map_cons, List.nodup_cons] at h
    by_cases hid : other.id = d.id
    · simpa [placeDiagram, hid, hid ▸ h.1] using h.2
    · rw [placeDiagram, if_neg hid, List.map_cons, List.nodup_cons, mem_ids_placeDiagram]
      exact ⟨fun hm => hm.elim hid h.1, ih h.2⟩

/-- Diagrams under distinct ids, in the order in which the ids were first added. -/
structure Project (K : Type) where
  diagrams : List (Diagram K)
  nodup : (diagrams.map (·.id)).Nodup

namespace Project

def empty : Project K := ⟨[], List.nodup_nil⟩

/-- Add a diagram; one with the same id is replaced and keeps its place. -/
def add (p : Project K) (d : Diagram K) : Project K :=
  ⟨placeDiagram d p.diagrams, nodup_placeDiagram d p.diagrams p.nodup⟩

/-- The project of a list of diagrams, of which a later one wins. -/
def ofList (ds : List (Diagram K)) : Project K := ds.foldl add empty

def get? (p : Project K) (id : String) : Option (Diagram K) := p.diagrams.find? (·.id = id)

def contains (p : Project K) (id : String) : Bool := (p.get? id).isSome

def ids (p : Project K) : List String := p.diagrams.map (·.id)

def size (p : Project K) : Nat := p.diagrams.length

end Project

end NetBalance
