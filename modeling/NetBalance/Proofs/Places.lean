import NetBalance.Proofs.Allocation
import NetBalance.Proofs.Inlining
import Mathlib.Data.List.Pairwise
import Mathlib.Data.List.Perm.Basic

/-! # Where the nodes and links of an unfolding come from

    Each flattened node stands for one node of one copy, and where ids are
    distinct for no other.  Each link comes from an edge of a copy whose two
    ends exist and are declared, or leads from a port of a reference that such
    an edge touches to what is behind the port. -/

namespace NetBalance

variable {K : Type}

namespace Copy

variable {project : Project K} {c d d' : Copy K} {n n' : PlacedNode K}

/-! ### Nodes -/

/-- The nodes that count in the copies on the way down, each with its copy. -/
def placements (project : Project K) (c : Copy K) : List (Copy K × PlacedNode K) :=
  (c.descendants project).flatMap fun d => d.diagram.firsts.map fun n => (d, n)

theorem mem_placements :
    (d, n) ∈ c.placements project ↔ d ∈ c.descendants project ∧ n ∈ d.diagram.firsts := by
  simp [placements]

/-- Each node of each copy is flattened once. -/
theorem perm_nodes (c : Copy K) :
    (c.nodes project).Perm ((c.placements project).map fun x => x.2.flat x.1.scope) := by
  simp only [placements, List.map_flatMap, List.map_map, Function.comp_def]
  induction c using Copy.induction project with
  | step c ih =>
    -- behind a node stand the nodes of the copies below it
    have hbranch : ∀ n ∈ c.diagram.firsts, (c.branch project n).Perm
        (((c.below project n).flatMap fun d => d.diagram.firsts.map (·.flat d.scope)) ++
          [n.flat c.scope]) := by
      intro n _
      refine List.Perm.trans (.cons _ ?_) (List.perm_append_singleton _ _).symm
      rw [below]
      cases hb : c.behind? project n with
      | none => exact .nil
      | some c' => exact ih n c' hb
    rw [nodes_eq, descendants_eq, List.flatMap_append, List.flatMap_singleton, List.flatMap_assoc]
    refine (List.Perm.flatMap_left _ hbranch).trans ?_
    rw [List.map_eq_flatMap]
    exact (List.flatMap_append_perm _ _ _).symm

/-- The flattened nodes are those of the copies on the way down. -/
theorem mem_nodes {m : FlatNode K} :
    m ∈ c.nodes project ↔
      ∃ d ∈ c.descendants project, ∃ n ∈ d.diagram.firsts, m = n.flat d.scope := by
  simp only [(perm_nodes c).mem_iff, List.mem_map, Prod.exists, mem_placements, and_assoc,
    exists_and_left, eq_comm]

theorem nodup_ids_placements (h : ((c.nodes project).map (·.id)).Nodup) :
    ((c.placements project).map fun x => x.1.scope ++ x.2.id).Nodup := by
  have hids := ((perm_nodes c).map (·.id)).nodup_iff.1 h
  rwa [List.map_map] at hids

/-- Where ids are distinct, each id belongs to one node of one copy. -/
theorem eq_of_flatId (h : ((c.nodes project).map (·.id)).Nodup)
    (hd : d ∈ c.descendants project) (hn : n ∈ d.diagram.firsts)
    (hd' : d' ∈ c.descendants project) (hn' : n' ∈ d'.diagram.firsts)
    (hid : d.scope ++ n.id = d'.scope ++ n'.id) : d = d' ∧ n = n' :=
  Prod.mk.inj (List.inj_on_of_nodup_map (nodup_ids_placements h) (mem_placements.2 ⟨hd, hn⟩)
    (mem_placements.2 ⟨hd', hn'⟩) hid)

theorem mem_ids_of_node? {id : String} (hd : d ∈ c.descendants project)
    (h : d.diagram.node? id = some n) : d.scope ++ id ∈ (c.nodes project).map (·.id) := by
  refine List.mem_map.2 ⟨n.flat d.scope, ?_, by rw [PlacedNode.flat, Diagram.id_of_node? h]⟩
  exact mem_nodes.2 ⟨d, hd, n, Diagram.mem_firsts_of_node? h, rfl⟩

/-- What stands behind a node of a copy below is below, too. -/
theorem mem_descendants_of_behind? (hd : d ∈ c.descendants project) (hn : n ∈ d.diagram.firsts)
    (h : d.behind? project n = some d') : d' ∈ c.descendants project :=
  mem_descendants.2 ((mem_descendants.1 hd).tail ⟨n, hn, h⟩)

/-- Only references have anything behind them. -/
theorem kind_of_behind? (h : c.behind? project n = some c') : n.kind = .ok .reference := by
  obtain ⟨target, ht, -⟩ := Option.map_eq_some_iff.1 h
  rw [PlacedNode.target?] at ht
  cases hk : n.kind with
  | error e => simp [hk] at ht
  | ok kind =>
    rw [hk] at ht
    cases kind with
    | reference => rfl
    | source => exact absurd ht (by simp [Kind.referencedDiagram, Project.enterable?])
    | sum => exact absurd ht (by simp [Kind.referencedDiagram, Project.enterable?])
    | product => exact absurd ht (by simp [Kind.referencedDiagram, Project.enterable?])

end Copy

/-! ### Edges -/

variable [Add K] [Div K] [One K] [Scalar K]

namespace Copy

variable {project : Project K} {c c' : Copy K} {n : PlacedNode K} {e : Edge} {l : Link}

/-- The ports of a node that an edge may name: for a reference that was inlined the connection ports
    of what is behind it. -/
def portsOf (project : Project K) (c : Copy K) (n : PlacedNode K) : List String :=
  (c.behind? project n).elim n.ownPorts (·.diagram.exposedIds)

/-- The node of an end exists and declares the port. -/
def Declares (project : Project K) (c : Copy K) (stop : String × String) : Prop :=
  ∃ n, c.diagram.node? stop.1 = some n ∧ stop.2 ∈ c.portsOf project n

/-- The edges that are not ignored. -/
def accepted (project : Project K) (c : Copy K) : List Edge :=
  c.diagram.edges.filter (Edge.isUsable (c.slots project))

/-- The ports of an inlined reference that an accepted edge touches. -/
def wired (project : Project K) (c : Copy K) (n : PlacedNode K) : List String :=
  ((c.behind? project n).elim [] (·.diagram.exposedIds)).filter fun id =>
    ((c.accepted project).flatMap Edge.ends).contains (n.id, id)

/-- The links from the wired ports of a reference to what is behind them. -/
def boundary (project : Project K) (c : Copy K) (n : PlacedNode K) : List Link :=
  (c.behind? project n).elim [] fun c' => (c.wired project n).map fun id =>
    ⟨⟨c.scope ++ n.id, some id⟩, c'.port id, .boundary⟩

theorem localId_slot : (c.slot project n).localId = n.id := by
  rw [slot]
  split <;> rfl

theorem ports_slot : (c.slot project n).ports = c.portsOf project n := by
  rw [slot, portsOf]
  cases c.behind? project n <;> rfl

theorem endIsUsable_iff {stop : String × String} :
    endIsUsable (c.slots project) stop ↔ c.Declares project stop := by
  -- the slot with the id is that of the first node with it
  have hfind : (c.slots project).find? (·.localId = stop.1) =
      (c.diagram.node? stop.1).map (c.slot project) := by
    rw [← Diagram.find?_firsts, slots, List.find?_map]
    simp only [Function.comp_def, localId_slot]
  rw [endIsUsable, hfind, Declares]
  cases c.diagram.node? stop.1 with
  | none => simp
  | some n => simp [ports_slot]

theorem isUsable_iff :
    Edge.isUsable (c.slots project) e ↔ c.Declares project (e.source, e.sourcePort) ∧
      c.Declares project (e.target, e.targetPort) := by
  simp only [Edge.isUsable, Edge.ends, List.all_cons, List.all_nil, Bool.and_true,
    Bool.and_eq_true, endIsUsable_iff]

theorem mem_accepted :
    e ∈ c.accepted project ↔ e ∈ c.diagram.edges ∧ c.Declares project (e.source, e.sourcePort) ∧
      c.Declares project (e.target, e.targetPort) := by
  rw [accepted, List.mem_filter, isUsable_iff]

theorem mem_wired {id : String} (h : c.behind? project n = some c') :
    id ∈ c.wired project n ↔
      id ∈ c'.diagram.exposedIds ∧ ∃ e ∈ c.accepted project, (n.id, id) ∈ e.ends := by
  rw [wired, h, Option.elim_some, List.mem_filter, List.contains_iff_mem, List.mem_flatMap]

theorem exists_of_mem_wired {id : String} (h : id ∈ c.wired project n) :
    ∃ c', c.behind? project n = some c' := by
  cases hb : c.behind? project n with
  | none =>
    rw [wired, hb] at h
    exact absurd h List.not_mem_nil
  | some c' => exact ⟨c', rfl⟩

omit [Add K] [Div K] [One K] [Scalar K] in
theorem boundaryLinks_map (scope localId : String) (ports : List String)
    (wired : List (String × String)) (ids : List String) (inner : String → Port) :
    boundaryLinks scope wired ⟨localId, ports, ids.map fun id => (id, inner id)⟩ =
      (ids.filter fun id => wired.contains (localId, id)).map fun id =>
        ⟨⟨scope ++ localId, some id⟩, inner id, .boundary⟩ := by
  rw [boundaryLinks, List.filterMap_map]
  induction ids with
  | nil => rfl
  | cons id ids ih =>
    rw [List.filterMap_cons, List.filter_cons, Function.comp_apply, ih]
    by_cases h : (localId, id) ∈ wired
    · simp [h]
    · simp [h]

/-- The links of a copy: one for each accepted edge, and one for each wired port. -/
theorem links_eq (c : Copy K) :
    c.links project = (c.accepted project).map (Edge.link c.scope) ++
      c.diagram.firsts.flatMap (c.boundary project) := by
  rw [links, levelLinks, slots, List.flatMap_map]
  -- the slots of references hold their ports, those of other nodes none
  congr 2
  funext n
  rw [boundary]
  cases h : c.behind? project n with
  | none => rw [slot_of_none h]; rfl
  | some c' =>
    rw [slot_of_some h, boundaryLinks_map, Option.elim_some, wired, h, Option.elim_some]
    rfl

theorem mem_boundary :
    l ∈ c.boundary project n ↔ ∃ c', c.behind? project n = some c' ∧ ∃ id ∈ c.wired project n,
      l = ⟨⟨c.scope ++ n.id, some id⟩, c'.port id, .boundary⟩ := by
  rw [boundary]
  cases c.behind? project n with
  | none => simp
  | some c' => simp [eq_comm]

theorem node_of_mem_boundary (h : l ∈ c.boundary project n) : l.first.node = c.scope ++ n.id := by
  obtain ⟨c', -, id, -, rfl⟩ := mem_boundary.1 h
  rfl

/-- A link of a copy is that of an accepted edge, or leads from a wired port to what is behind. -/
theorem mem_links :
    l ∈ c.links project ↔ (∃ e ∈ c.accepted project, l = e.link c.scope) ∨
      ∃ n ∈ c.diagram.firsts, ∃ c', c.behind? project n = some c' ∧ ∃ id ∈ c.wired project n,
        l = ⟨⟨c.scope ++ n.id, some id⟩, c'.port id, .boundary⟩ := by
  rw [links_eq, List.mem_append, List.mem_map, List.mem_flatMap]
  exact or_congr (by simp only [eq_comm])
    (exists_congr fun n => and_congr_right fun _ => mem_boundary)

theorem kind_of_mem_edges (h : l ∈ (c.accepted project).map (Edge.link c.scope)) :
    l.kind = .edge := by
  obtain ⟨e, -, rfl⟩ := List.mem_map.1 h
  rfl

theorem kind_of_mem_boundary (h : l ∈ c.diagram.firsts.flatMap (c.boundary project)) :
    l.kind = .boundary := by
  obtain ⟨n, -, hl⟩ := List.mem_flatMap.1 h
  obtain ⟨c', -, id, -, rfl⟩ := mem_boundary.1 hl
  rfl

/-- The links of edges tell from their kind. -/
theorem filter_edge_links :
    ((c.links project).filter fun l => l.kind = .edge) =
      (c.accepted project).map (Edge.link c.scope) := by
  rw [links_eq, List.filter_append, List.filter_eq_self.2, List.filter_eq_nil_iff.2,
    List.append_nil]
  · intro l hl
    simp [kind_of_mem_boundary hl]
  · intro l hl
    simp [kind_of_mem_edges hl]

/-- So do the links from wired ports. -/
theorem filter_boundary_links :
    ((c.links project).filter fun l => l.kind = .boundary) =
      c.diagram.firsts.flatMap (c.boundary project) := by
  rw [links_eq, List.filter_append, List.filter_eq_nil_iff.2, List.nil_append,
    List.filter_eq_self.2]
  · intro l hl
    simp [kind_of_mem_boundary hl]
  · intro l hl
    simp [kind_of_mem_edges hl]

theorem names_boundary :
    (c.boundary project n).map (·.first.name) = (c.wired project n).map some := by
  rw [boundary, wired]
  cases c.behind? project n with
  | none => rfl
  | some c' => rw [Option.elim_some, Option.elim_some, List.map_map]; rfl

theorem mem_unfold_links :
    l ∈ (c.unfold project).links ↔ ∃ d ∈ c.descendants project, l ∈ d.links project :=
  List.mem_flatMap

/-- The links of an unfolding from wired ports, reference by reference. -/
theorem filter_boundary_unfold (c : Copy K) :
    ((c.unfold project).links.filter fun l => l.kind = .boundary) =
      (c.placements project).flatMap fun x => x.1.boundary project x.2 := by
  simp only [unfold, List.filter_flatMap, filter_boundary_links, placements, List.flatMap_assoc,
    List.flatMap_map]

/-- The links of an unfolding join nodes of the unfolding. -/
theorem isClosed_unfold (c : Copy K) : (c.unfold project).IsClosed := by
  intro l hl
  obtain ⟨d, hd, hl⟩ := mem_unfold_links.1 hl
  rcases mem_links.1 hl with ⟨e, he, rfl⟩ | ⟨n, hn, c', hc', id, hid, rfl⟩
  · obtain ⟨-, ⟨n, hn, -⟩, ⟨m, hm, -⟩⟩ := mem_accepted.1 he
    exact ⟨mem_ids_of_node? hd hn, mem_ids_of_node? hd hm⟩
  · refine ⟨mem_ids_of_node? hd (Diagram.mem_firsts_iff.1 hn), ?_⟩
    -- a connection port is a node of the diagram behind the reference
    obtain ⟨k, hk⟩ := Diagram.node?_of_mem_exposedIds ((mem_wired hc').1 hid).1
    exact mem_ids_of_node? (mem_descendants_of_behind? hd hn hc') hk

end Copy

/-! ### Building from the unfolding -/

variable [Zero K]

namespace Diagram

variable {project : Project K} {strict : Bool} {d : Diagram K} {default : K}

/-- Once a diagram is flattened, its network is that of the joined graph. -/
theorem build_result_of_flatten {flat : Flat K}
    (h : (d.flatten project strict).result = .ok flat) :
    (d.build project strict default).result = flat.joined.network default := by
  obtain ⟨rfl, -, -⟩ := flatten_eq_ok.1 h
  rw [build_result, h, ok_bind, Flat.topology_result (Copy.isClosed_unfold d.root), ok_bind,
    Flat.joined]

theorem build_result_of_error {e : NetworkError}
    (h : (d.flatten project strict).result = .error e) :
    (d.build project strict default).result = .error e := by
  rw [build_result, h, error_bind]

/-- A network is built exactly when the diagram can be flattened and each net has a seed. -/
theorem build_eq_ok {built : Network K} :
    (d.build project strict default).result = .ok built ↔
      (d.flatten project strict).result = .ok (d.root.unfold project) ∧
        (d.root.unfold project).joined.network default = .ok built := by
  constructor
  · intro h
    rw [build_result] at h
    obtain ⟨flat, hflat, -⟩ := bind_eq_ok.1 h
    obtain ⟨rfl, -, -⟩ := flatten_eq_ok.1 hflat
    rw [← build_result, build_result_of_flatten hflat] at h
    exact ⟨hflat, h⟩
  · intro h
    obtain ⟨hflat, h⟩ := h
    rw [build_result_of_flatten hflat, h]

section Nodes

variable {net : Network K} (h : (d.build project strict default).result = .ok net)
include h

/-- Each node of a network stands in a copy of a diagram, where it can be flattened, and knows the
    nets of its ports. -/
theorem exists_place_of_build {m : FlatNode K} (hm : m ∈ net.nodes) :
    ∃ c ∈ d.root.descendants project, ∃ n ∈ c.diagram.firsts, c.Reads project strict n ∧
      m = (n.flat c.scope).recordNets 0 (d.root.unfold project).joined.graph.components := by
  obtain ⟨hflat, hnet⟩ := build_eq_ok.1 h
  obtain ⟨-, hsound, -⟩ := flatten_eq_ok.1 hflat
  rw [Topology.nodes_network hnet] at hm
  obtain ⟨fresh, hfresh, rfl⟩ := List.mem_map.1 hm
  obtain ⟨c, hc, n, hn, rfl⟩ := Copy.mem_nodes.1 hfresh
  exact ⟨c, hc, n, hn, hsound c hc n hn, rfl⟩

/-- The net that a node knows of a port is the one that lists the port. -/
theorem net?_of_build {m : FlatNode K} (hm : m ∈ net.nodes) {name : PortName} {i : Nat} :
    m.net? name = some i ↔ ∃ n, net.nets[i]? = some n ∧ ⟨m.id, name⟩ ∈ n.members := by
  obtain ⟨-, hnet⟩ := build_eq_ok.1 h
  refine Topology.net?_network hnet (fun m' hm' => ?_) hm
  obtain ⟨c, -, k, -, rfl⟩ := Copy.mem_nodes.1 hm'
  rfl

end Nodes

end Diagram

end NetBalance
