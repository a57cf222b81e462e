import NetBalance.Proofs.Exposure
import NetBalance.Proofs.IgnoredEdges
import NetBalance.Proofs.Regrouping

/-! # Where nodes stand

    Positions say in which column and how far up a reference shows a port, and
    nothing else.  As long as they are pairs of finite numbers, every connection
    port shows up wherever it stands.  So two projects that differ only in
    positions accept and ignore the same edges and are flattened into the same
    nodes and links; only the order in which the ports of a reference are linked
    to what is behind them may change. -/

namespace NetBalance

variable {K : Type}

/-! ### Moved diagrams -/

/-- The diagram without the positions of its nodes. -/
def Diagram.unplaced (d : Diagram K) : Diagram K :=
  { d with nodes := d.nodes.map PlacedNode.unplaced }

theorem Diagram.firsts_unplaced (d : Diagram K) :
    d.unplaced.firsts = d.firsts.map PlacedNode.unplaced :=
  keepFirst_map PlacedNode.id_unplaced d.nodes

variable [Scalar K]

/-- Every node stands at a pair of finite numbers. -/
def Diagram.IsPlaced (d : Diagram K) : Prop :=
  ∀ n ∈ d.nodes, ∃ x y, n.position = [x, y] ∧ Scalar.isFinite x ∧ Scalar.isFinite y

/-- The same diagram but for the positions, which are pairs of finite numbers on both sides. -/
structure Diagram.Moves (d d' : Diagram K) : Prop where
  unplaced : d.unplaced = d'.unplaced
  placed : d.IsPlaced
  placed' : d'.IsPlaced

/-- The same diagrams but for positions, in the same order. -/
def Project.Moves (p p' : Project K) : Prop := List.Forall₂ Diagram.Moves p.diagrams p'.diagrams

namespace Diagram.Moves

variable {d d' : Diagram K}

theorem id_eq (h : d.Moves d') : d.id = d'.id := by
  show d.unplaced.id = d'.unplaced.id
  rw [h.unplaced]

theorem edges_eq (h : d.Moves d') : d.edges = d'.edges := by
  show d.unplaced.edges = d'.unplaced.edges
  rw [h.unplaced]

theorem map_firsts (h : d.Moves d') :
    d.firsts.map PlacedNode.unplaced = d'.firsts.map PlacedNode.unplaced := by
  rw [← firsts_unplaced, ← firsts_unplaced, h.unplaced]

/-- What is listed node by node is related entry by entry, as long as positions do not count for
    it. -/
theorem forall₂_flatMap {α β : Type} {r : α → β → Prop} {f : PlacedNode K → List α}
    {f' : PlacedNode K → List β} (h : d.Moves d') (hf : ∀ n, f n.unplaced = f n)
    (hf' : ∀ n, f' n.unplaced = f' n) (hff' : ∀ n, List.Forall₂ r (f n) (f' n)) :
    List.Forall₂ r (d.firsts.flatMap f) (d'.firsts.flatMap f') := by
  rw [← flatMap_unplaced hf, ← flatMap_unplaced hf', h.map_firsts]
  refine List.rel_flatMap (List.forall₂_same.2 fun _ _ => rfl) ?_
  rintro n _ rfl
  exact hff' n

end Diagram.Moves

/-! ### Ports of placed diagrams -/

/-- The id of a node that says it is a connection port. -/
def PlacedNode.portId? (n : PlacedNode K) : Option String :=
  if n.isConnectionPort.toOption = some true then some n.id else none

namespace Diagram

variable {d d' : Diagram K}

/-- The ids of the nodes that say they are connection ports, in the order of the nodes. -/
def portIds (d : Diagram K) : List String := d.nodes.filterMap PlacedNode.portId?

theorem IsPlaced.exposed {n : PlacedNode K} (h : d.IsPlaced) (hn : n ∈ d.nodes) :
    ∃ x y, n.exposed = .ok ⟨n.id, x, y⟩ ∧ Scalar.isFinite x := by
  obtain ⟨x, y, hposition, hx, -⟩ := h n hn
  refine ⟨x, y, ?_, hx⟩
  rw [PlacedNode.exposed, hposition]

/-- Where all nodes are placed, all connection ports have their coordinates. -/
theorem IsPlaced.map_shown (h : d.IsPlaced) : d.shown.map (·.id) = d.unplaced.portIds := by
  rw [shown, portIds, unplaced, List.map_filterMap, List.filterMap_map]
  refine List.filterMap_congr fun n hn => ?_
  obtain ⟨x, y, hexposed, -⟩ := h.exposed hn
  show n.shown?.map (·.id) = n.portId?
  rw [PlacedNode.shown?, PlacedNode.portId?, hexposed]
  split <;> rfl

theorem IsPlaced.isFinite_of_mem_shown {e : ExposedNode K} (h : d.IsPlaced) (he : e ∈ d.shown) :
    Scalar.isFinite e.x := by
  obtain ⟨n, hn, hshown⟩ := List.mem_filterMap.1 he
  obtain ⟨x, y, hexposed, hx⟩ := h.exposed hn
  rw [PlacedNode.shown?, hexposed] at hshown
  split at hshown
  · obtain rfl := Option.some.inj hshown
    exact hx
  · cases hshown

variable [Add K] [Div K] [One K]

/-- Where all nodes are placed, the connection ports can be read if all kinds are known. -/
theorem IsPlaced.reads_iff (h : d.IsPlaced) :
    (∃ ports, d.connectionPorts = .ok ports) ↔
      ∀ n ∈ d.unplaced.nodes, ∃ flag, n.isConnectionPort = .ok flag := by
  rw [exists_connectionPorts_iff, exists_exposedNodes_iff, unplaced, List.forall_mem_map]
  refine forall_congr' fun n => forall_congr' fun hn => exists_congr fun flag => ?_
  obtain ⟨x, y, hexposed, -⟩ := h.exposed hn
  exact and_iff_left fun _ => ⟨_, hexposed⟩

/-- Wherever placed nodes stand, the same ports show up. -/
theorem IsPlaced.perm_exposedIds {ports : ConnectionPorts} (hK : Scalar.Compares K)
    (h : d.IsPlaced) (hports : d.connectionPorts = .ok ports) :
    d.exposedIds.Perm d.unplaced.portIds := by
  rw [← h.map_shown]
  exact perm_exposedIds_of_isFinite hK hports fun _ => h.isFinite_of_mem_shown

/-- A moved diagram resembles the old one. -/
theorem Moves.resembles (hK : Scalar.Compares K) (h : d.Moves d') : d.Resembles d' := by
  have hreads : (∃ ports, d.connectionPorts = .ok ports) ↔
      ∃ ports, d'.connectionPorts = .ok ports := by
    rw [h.placed.reads_iff, h.placed'.reads_iff, h.unplaced]
  refine ⟨h.id_eq, .of_eq h.map_firsts, .of_eq (by rw [h.edges_eq]), hreads, ?_⟩
  by_cases hread : ∃ ports, d.connectionPorts = .ok ports
  · obtain ⟨ports, hports⟩ := hread
    obtain ⟨ports', hports'⟩ := hreads.1 ⟨ports, hports⟩
    have hperm' := h.placed'.perm_exposedIds hK hports'
    rw [← h.unplaced] at hperm'
    exact (h.placed.perm_exposedIds hK hports).trans hperm'.symm
  · rw [exposedIds_of_not_read hread, exposedIds_of_not_read (mt hreads.2 hread)]

end Diagram

/-! ### Moved copies -/

namespace Copy

variable {p p' : Project K} {c c' : Copy K}

section Moved

variable (hp : p.Related Diagram.Moves p') (hc : c.Related Diagram.Moves c')
include hp hc

/-- The nodes of a moved copy are the same. -/
theorem nodes_of_moves : c.nodes p = c'.nodes p' := by
  refine Related.induction (motive := fun c c' => c.nodes p = c'.nodes p')
    (fun _ _ h => h.id_eq) hp ?_ hc
  intro c c' hc ih
  rw [nodes_eq, nodes_eq, ← List.forall₂_eq_eq_eq]
  refine hc.diagram.forall₂_flatMap (fun _ => rfl) (fun _ => rfl) fun n => ?_
  rw [List.forall₂_eq_eq_eq, branch, branch, hc.scope]
  exact congrArg _ (elim_of_rel (ih n) rfl fun _ _ hnodes => hnodes)

/-- The copies below a moved copy are moved, one by one. -/
theorem forall₂_descendants :
    List.Forall₂ (Related Diagram.Moves) (c.descendants p) (c'.descendants p') := by
  refine Related.induction (motive := fun c c' =>
    List.Forall₂ (Related Diagram.Moves) (c.descendants p) (c'.descendants p'))
    (fun _ _ h => h.id_eq) hp ?_ hc
  intro c c' hc ih
  rw [descendants_eq, descendants_eq]
  refine List.rel_append ?_ (.cons hc .nil)
  refine hc.diagram.forall₂_flatMap (fun _ => rfl) (fun _ => rfl) fun n => ?_
  rw [below, below]
  exact elim_of_rel (ih n) .nil fun _ _ hbelow => hbelow

end Moved

variable [Add K] [Div K] [One K]

/-- Of two copies at the same place the same edges are accepted, and the same are ignored. -/
structure SameEdges (p p' : Project K) (c c' : Copy K) : Prop where
  scope : c.scope = c'.scope
  edges : c.diagram.edges = c'.diagram.edges
  accepted : c.accepted p = c'.accepted p'
  ignores : ∀ e, c.Ignores p e ↔ c'.Ignores p' e

section Ports

variable (hp : p.Related Diagram.Moves p') (hc : c.Related Diagram.Moves c')
  (hK : Scalar.Compares K)
include hp hc hK

theorem declares_of_moves (stop : String × String) : c.Declares p stop ↔ c'.Declares p' stop :=
  have hlike : ∀ d d' : Diagram K, d.Moves d' → d.Resembles d' := fun _ _ h => h.resembles hK
  declares_congr (hp.imp hlike) (hc.imp hlike) stop

theorem sameEdges : SameEdges p p' c c' := by
  have hdeclares := declares_of_moves hp hc hK
  refine ⟨hc.scope, hc.diagram.edges_eq, ?_, fun e => ?_⟩
  · rw [accepted, accepted, hc.diagram.edges_eq]
    refine List.filter_congr fun e _ => ?_
    rw [Bool.eq_iff_iff, isUsable_iff, isUsable_iff, hdeclares, hdeclares]
  · rw [Ignores, Ignores, hdeclares, hdeclares]

/-- The links of a moved copy are the same, but for the order at its references. -/
theorem perm_links_of_moves : (c.links p).Perm (c'.links p') := by
  have hlike : ∀ d d' : Diagram K, d.Moves d' → d.Resembles d' := fun _ _ h => h.resembles hK
  rw [links_eq, links_eq, (sameEdges hp hc hK).accepted, hc.scope]
  refine .append (.refl _) ?_
  exact (hc.diagram.resembles hK).perm_flatMap (fun _ => rfl) (fun _ => rfl)
    (perm_boundary (hp.imp hlike) (hc.imp hlike))

theorem perm_unfold_links_of_moves : (c.unfold p).links.Perm (c'.unfold p').links := by
  have hcopies := forall₂_descendants hp hc
  rw [unfold, unfold]
  -- copy by copy, whatever the lists of copies are
  generalize c.descendants p = cs at hcopies
  generalize c'.descendants p' = cs' at hcopies
  induction hcopies with
  | nil => exact .refl _
  | cons hrelated _ ih =>
    rw [List.flatMap_cons, List.flatMap_cons]
    exact (perm_links_of_moves hp hrelated hK).append ih

end Ports

end Copy

/-! ### Building moved diagrams -/

variable [Add K] [Div K] [Zero K] [One K]

/-- Positions do not count as long as all are pairs of finite numbers: a diagram whose nodes are
    moved is built if the old one is, and then it has the same nodes in the same order, the same
    links and nets, but for their order, and in each copy the same edges are accepted and the same
    are ignored. -/
theorem build_moved {p p' : Project K} {d d' : Diagram K} (hK : Scalar.Compares K)
    (hp : p.Moves p') (hd : d.Moves d') (strict : Bool) (default : K) :
    ((∃ built, (d.build p strict default).result = .ok built) ↔
      ∃ built', (d'.build p' strict default).result = .ok built') ∧
    (∀ flat flat', (d.flatten p strict).result = .ok flat →
      (d'.flatten p' strict).result = .ok flat' →
        flat.nodes = flat'.nodes ∧ flat.links.Perm flat'.links) ∧
    List.Forall₂ (Copy.SameEdges p p') (d.root.descendants p) (d'.root.descendants p') ∧
    ∀ built built', (d.build p strict default).result = .ok built →
      (d'.build p' strict default).result = .ok built' →
        built.nodes.map FlatNode.bare = built'.nodes.map FlatNode.bare ∧
        (built.nets.map (·.members.toFinset)).Perm (built'.nets.map (·.members.toFinset)) := by
  have hlike : ∀ d d' : Diagram K, d.Moves d' → d.Resembles d' := fun _ _ h => h.resembles hK
  have hmoves : p.Related Diagram.Moves p' := fun id =>
    rel_find?_of_forall₂ (fun _ _ h => h.id_eq) hp id
  have hroot : d.root.Related Diagram.Moves d'.root :=
    Diagram.related_root (fun _ _ h => h.id_eq) hd
  have hrelated := hmoves.imp hlike
  refine ⟨Diagram.exists_build_iff hrelated (hlike _ _ hd), ?_, ?_, ?_⟩
  · intro flat flat' hflat hflat'
    obtain ⟨rfl, -, -⟩ := Diagram.flatten_eq_ok.1 hflat
    obtain ⟨rfl, -, -⟩ := Diagram.flatten_eq_ok.1 hflat'
    exact ⟨Copy.nodes_of_moves hmoves hroot, Copy.perm_unfold_links_of_moves hmoves hroot hK⟩
  · exact (Copy.forall₂_descendants hmoves hroot).imp fun c c' hc => Copy.sameEdges hmoves hc hK
  · intro built built' h h'
    obtain ⟨-, hnets, -⟩ := Diagram.perm_build_of_related hrelated (hlike _ _ hd) h h'
    refine ⟨?_, hnets⟩
    rw [Diagram.bare_build h, Diagram.bare_build h']
    exact Copy.nodes_of_moves hmoves hroot

/-! ### A scattered project -/

omit [Scalar K] [Add K] [Div K] [Zero K] [One K] in
/-- The diagram with its nodes put where their ids say. -/
def Diagram.scattered (d : Diagram K) (place : String → K × K) : Diagram K :=
  { d with nodes := d.nodes.map fun n => { n with position := [(place n.id).1, (place n.id).2] } }

theorem Diagram.isPlaced_scattered (d : Diagram ℚ) (place : String → ℚ × ℚ) :
    (d.scattered place).IsPlaced := by
  intro m hm
  obtain ⟨n, -, rfl⟩ := List.mem_map.1 hm
  exact ⟨_, _, rfl, rfl, rfl⟩

theorem Diagram.moves_scattered (d : Diagram ℚ) (place place' : String → ℚ × ℚ) :
    (d.scattered place).Moves (d.scattered place') := by
  refine ⟨?_, d.isPlaced_scattered place, d.isPlaced_scattered place'⟩
  rw [unplaced, unplaced, scattered, scattered, List.map_map, List.map_map]
  rfl

/-- A diagram of two sources, both connection ports. -/
def Diagram.twin : Diagram ℚ := ⟨"twin", "twin", [.source "p" true, .source "q" true], []⟩

/-- A source and a reference to the twin, with an edge to each of its ports. -/
def Diagram.aroundTwin : Diagram ℚ :=
  ⟨"around", "around", [.source "s" false, .reference "r" "twin"],
    [⟨"s", "a", "r", "p"⟩, ⟨"s", "b", "r", "q"⟩]⟩

/-- With the sources of the twin on either side and then the other way round, the same ports are
    joined. -/
theorem build_moved_aroundTwin :
    ∃ built built' : Network ℚ,
      ((Diagram.aroundTwin.scattered fun _ => (0, 0)).build
        (.ofList [Diagram.twin.scattered fun id => if id = "p" then (-1, 0) else (1, 0)])
        true 1).result = .ok built ∧
      ((Diagram.aroundTwin.scattered fun _ => (2, 3)).build
        (.ofList [Diagram.twin.scattered fun id => if id = "p" then (1, 0) else (-1, 0)])
        true 1).result = .ok built' ∧
      built.nodes.map FlatNode.bare = built'.nodes.map FlatNode.bare ∧
      (built.nets.map (·.members.toFinset)).Perm (built'.nets.map (·.members.toFinset)) := by
  have hp : (Project.ofList
      [Diagram.twin.scattered fun id => if id = "p" then (-1, 0) else (1, 0)]).Moves
      (.ofList [Diagram.twin.scattered fun id => if id = "p" then (1, 0) else (-1, 0)]) :=
    .cons (Diagram.moves_scattered _ _ _) .nil
  have hmoved := build_moved Scalar.compares_rat hp
    (Diagram.moves_scattered Diagram.aroundTwin (fun _ => (0, 0)) fun _ => (2, 3)) true 1
  have hmembers : ((Diagram.aroundTwin.scattered fun _ => (0, 0)).build
      (.ofList [Diagram.twin.scattered fun id => if id = "p" then (-1, 0) else (1, 0)])
      true 1).result.map (·.nets.map (·.members)) =
      .ok [[⟨"s", some "a"⟩, ⟨"r", some "p"⟩, ⟨"s", some "b"⟩, ⟨"r", some "q"⟩,
        ⟨"r.p", some "a"⟩, ⟨"r.q", some "a"⟩, ⟨"r.p", some "b"⟩, ⟨"r.q", some "b"⟩]] := by
    cbv
  obtain ⟨built, hbuilt, -⟩ := map_eq_ok.1 hmembers
  obtain ⟨built', hbuilt'⟩ := hmoved.1.1 ⟨built, hbuilt⟩
  exact ⟨built, built', hbuilt, hbuilt', hmoved.2.2.2 built built' hbuilt hbuilt'⟩

end NetBalance
