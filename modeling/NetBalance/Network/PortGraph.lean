import NetBalance.Network.Flat

/-! # Port graphs and their components

    A port graph is a list of links, each pair of ports linked at most once;
    its ports are those that a link touches, in the order in which the links
    first mention them.  The components partition the ports: two ports are in
    one component exactly when a chain of links joins them. -/

namespace NetBalance

/-- Links between ports, in the order in which the pairs were first joined. -/
structure PortGraph where
  links : List Link
deriving DecidableEq

namespace Link

/-- Whether the link joins two ports, in either direction. -/
def joins (l : Link) (a b : Port) : Bool :=
  (l.first = a && l.second = b) || (l.first = b && l.second = a)

def touches (l : Link) (p : Port) : Bool := l.first = p || l.second = p

/-- The ports of a link. -/
def ports (l : Link) : List Port := [l.first, l.second]

/-- The end of the link across from a port. -/
def across (l : Link) (p : Port) : Port := if l.first = p then l.second else l.first

end Link

/-- Keep the first of equal entries. -/
def distinct {α : Type} [DecidableEq α] (xs : List α) : List α :=
  xs.foldl (fun seen x => if x ∈ seen then seen else seen ++ [x]) []

namespace PortGraph

def empty : PortGraph := ⟨[]⟩

/-- Join two ports.  A pair that is linked already keeps its place and takes the new kind. -/
def join (g : PortGraph) (a b : Port) (kind : LinkKind) : PortGraph :=
  if g.links.any (·.joins a b) then
    ⟨g.links.map fun l => if l.joins a b then { l with kind } else l⟩
  else ⟨g.links ++ [⟨a, b, kind⟩]⟩

/-- Whether a link touches the port. -/
def isConnected (g : PortGraph) (p : Port) : Bool := g.links.any (·.touches p)

/-- The connected ports, in the order of their first link. -/
def ports (g : PortGraph) : List Port := distinct (g.links.flatMap Link.ports)

/-- Each link once, seen from the earlier one of its ports: port by port, and for each port in the
    order of its links. -/
def linksByPort (g : PortGraph) : List Link :=
  go [] g.ports
where
  go (passed : List Port) : List Port → List Link
    | [] => []
    | p :: rest =>
      let here := g.links.filter fun l => l.touches p && l.across p ∉ passed
      here.map (fun l => ⟨p, l.across p, l.kind⟩) ++ go (p :: passed) rest

/-! ### Components -/

/-- Two ports are joined when a link has them as its ends. -/
def Adjacent (g : PortGraph) (a b : Port) : Prop := ∃ l ∈ g.links, l.joins a b

/-- A chain of links leads from one port to the other. -/
inductive Joined (g : PortGraph) : Port → Port → Prop where
  | refl (p : Port) : Joined g p p
  | step {a b c : Port} (h : g.Adjacent a b) (rest : Joined g b c) : Joined g a c

/-- Ports with the number of the class that they are in so far. -/
abbrev Classes := List (Port × Nat)

/-- Each port alone in a class of its own. -/
def Classes.singletons (ports : List Port) : Classes := ports.zipIdx

/-- Move all ports of the second class into the first. -/
def Classes.merge (classes : Classes) (first second : Nat) : Classes :=
  classes.map fun (p, c) => (p, if c = second then first else c)

/-- Merge the classes of the two ends of a link. -/
def Classes.joinLink (classes : Classes) (l : Link) : Classes :=
  match classes.lookup l.first, classes.lookup l.second with
  | some first, some second => if first = second then classes else classes.merge first second
  | _, _ => classes

/-- The ports with the number of their component. -/
def classes (g : PortGraph) : Classes :=
  g.links.foldl Classes.joinLink (Classes.singletons g.ports)

/-- The components in the order of their first port, each with its ports in order. -/
def components (g : PortGraph) : List (List Port) :=
  let classes := g.classes
  (distinct (classes.map (·.2))).map fun number =>
    (classes.filter (·.2 = number)).map (·.1)

end PortGraph

end NetBalance
