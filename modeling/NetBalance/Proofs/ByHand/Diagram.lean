import NetBalance.Proofs.NetPartition

/-! # Writing a flattened diagram down by hand

    Instead of following references one can place the nodes of the flattened
    diagram in a single diagram, without the references, and draw each edge
    between the ports behind its ends.  Such a diagram flattens to the nodes
    and edges that it was made of. -/

namespace NetBalance

variable {K : Type}

/-- The node as it is placed by hand: under its flattened id, with the same kind and payload. -/
def FlatNode.placed (n : FlatNode K) : PlacedNode K := ⟨n.id, .text n.kind.name, n.payload, []⟩

/-- The edge between two ports. -/
def Edge.between (p q : Port) : Edge := ⟨p.node, p.name.getD "", q.node, q.name.getD ""⟩

namespace Flat

/-- Whether an id is that of a reference. -/
def isReference (f : Flat K) (id : String) : Bool :=
  f.nodes.any fun n => n.id = id && n.kind = .reference

/-- The port that a port of a reference stands for; every other port stands for itself. -/
def behind (f : Flat K) (p : Port) : Port :=
  if f.isReference p.node then ⟨p.node ++ "." ++ p.name.getD "", some "a"⟩ else p

/-- The links that come from edges. -/
def edgeLinks (f : Flat K) : List Link := f.links.filter fun l => l.kind = .edge

/-- The nodes of a flattened diagram that are no references, with its edges between them. -/
def byHand (f : Flat K) (id name : String) : Diagram K where
  id := id
  name := name
  nodes := (f.nodes.filter fun n => n.kind ≠ .reference).map FlatNode.placed
  edges := f.edgeLinks.map fun l => .between (f.behind l.first) (f.behind l.second)

theorem behind_of_not_isReference {f : Flat K} {p : Port} (h : f.isReference p.node = false) :
    f.behind p = p := by
  rw [behind, h]
  rfl

/-- Just the ports of references stand for others. -/
theorem behind_eq_self_iff {f : Flat K} {p : Port} :
    f.behind p = p ↔ f.isReference p.node = false := by
  refine ⟨fun h => ?_, behind_of_not_isReference⟩
  by_contra href
  rw [behind, if_pos (by simpa using href)] at h
  have hlen := congrArg (fun p : Port => p.node.length) h
  have hpoint : ".".length = 1 := by decide
  simp only [String.length_append] at hlen
  omega

end Flat

/-- Ids are distinct, and no edge joins a port to itself. -/
structure Diagram.IsPlain (d : Diagram K) : Prop where
  nodup : (d.nodes.map (·.id)).Nodup
  ends : ∀ e ∈ d.edges, (e.source, e.sourcePort) ≠ (e.target, e.targetPort)

theorem Diagram.IsPlain.firsts {d : Diagram K} (h : d.IsPlain) : d.firsts = d.nodes :=
  keepFirst_of_nodup h.nodup

namespace Copy

variable {project : Project K} {c c' : Copy K} {n : PlacedNode K}

theorem isPlain_of_behind? (hp : ∀ t ∈ project.diagrams, t.IsPlain)
    (h : c.behind? project n = some c') : c'.diagram.IsPlain := by
  obtain ⟨target, -, rfl⟩ := Option.map_eq_some_iff.1 h
  exact hp _ target.property.1

/-- With plain diagrams all copies are plain. -/
theorem isPlain_of_mem_descendants (hc : c.diagram.IsPlain)
    (hp : ∀ t ∈ project.diagrams, t.IsPlain) (h : c' ∈ c.descendants project) :
    c'.diagram.IsPlain := by
  induction mem_descendants.1 h with
  | refl => exact hc
  | tail hd he _ =>
    obtain ⟨n, -, hn⟩ := he
    exact isPlain_of_behind? hp hn

/-- A node with ports of its own is no reference. -/
theorem kind_of_mem_ownPorts {port : String} (h : port ∈ n.ownPorts) :
    ∃ kind, n.kind = .ok kind ∧ kind ≠ .reference := by
  rw [PlacedNode.ownPorts] at h
  cases hk : n.kind with
  | error e => simp [hk] at h
  | ok kind =>
    refine ⟨kind, rfl, ?_⟩
    -- references list no ports of their own in the payload
    rintro rfl
    simp [hk, Kind.declaredPorts, Kind.listedPorts, pure, Except.pure] at h

end Copy

/-! ### Projects without diagrams -/

namespace Copy

variable {c : Copy K} {n : PlacedNode K}

theorem behind?_empty : c.behind? .empty n = none := by
  rw [Option.eq_none_iff_forall_ne_some]
  intro c' h
  obtain ⟨target, -, -⟩ := Option.map_eq_some_iff.1 h
  exact List.not_mem_nil target.property.1

theorem descendants_empty : c.descendants .empty = [c] := by
  have hbelow : c.below .empty = fun _ => [] := by
    funext n
    rw [below, behind?_empty, Option.elim_none]
  rw [descendants_eq, hbelow]
  simp

theorem nodes_empty : c.nodes .empty = c.diagram.firsts.map (·.flat c.scope) := by
  have hbranch : c.branch .empty = fun n => [n.flat c.scope] := by
    funext n
    rw [branch, behind?_empty, Option.elim_none]
  rw [nodes_eq, hbranch, List.map_eq_flatMap]

end Copy

/-! ### Nodes placed by hand -/

namespace FlatNode

variable {n : FlatNode K}

theorem kind_placed : n.placed.kind = .ok n.kind := by
  rw [PlacedNode.kind, placed, Kind.ofTag, Kind.ofName?_name]
  rfl

/-- Placing a flattened node and flattening it again gives the node, without its place. -/
theorem flat_placed : n.placed.flat "" = ⟨n.id, n.id, "", n.kind, n.payload, []⟩ := by
  rw [PlacedNode.flat, kind_placed]
  simp [placed, Except.toOption]

theorem ownPorts_placed {m : PlacedNode K} {scope : String} {kind : Kind} (h : m.kind = .ok kind) :
    (m.flat scope).placed.ownPorts = m.ownPorts := by
  rw [PlacedNode.ownPorts, kind_placed, PlacedNode.ownPorts]
  simp [PlacedNode.flat, placed, h, Except.toOption]

end FlatNode

/-! ### The diagram made by hand -/

namespace Flat

variable {f : Flat K}

theorem firsts_byHand (h : f.ids.Nodup) (id name : String) :
    (f.byHand id name).firsts =
      (f.nodes.filter fun n => n.kind ≠ .reference).map FlatNode.placed := by
  refine keepFirst_of_nodup ?_
  rw [byHand, List.map_map]
  exact h.sublist (List.filter_sublist.map _)

/-- The nodes that are no references are found under their ids. -/
theorem node?_byHand (h : f.ids.Nodup) (id name : String) {n : FlatNode K} (hn : n ∈ f.nodes)
    (hkind : n.kind ≠ .reference) : (f.byHand id name).node? n.id = some n.placed := by
  refine Diagram.mem_firsts_iff (n := n.placed).1 ?_
  rw [firsts_byHand h id name]
  exact List.mem_map_of_mem (List.mem_filter.2 ⟨hn, by simpa using hkind⟩)

end Flat

/-! ### Where the ends of edges lead -/

variable [Add K] [Div K] [One K] [Scalar K]

namespace Copy

/-- The node and the port that an end of an edge leads to: those it names, or the source behind a
    port of a reference. -/
inductive LeadsTo (project : Project K) (c : Copy K) (stop : String × String) :
    Copy K → PlacedNode K → String → Prop where
  | own {n : PlacedNode K} (hn : c.diagram.node? stop.1 = some n) (hport : stop.2 ∈ n.ownPorts) :
      LeadsTo project c stop c n stop.2
  | behind {n m : PlacedNode K} {c' : Copy K} (hn : c.diagram.node? stop.1 = some n)
      (hb : c.behind? project n = some c') (hid : stop.2 ∈ c'.diagram.exposedIds)
      (hm : c'.diagram.node? stop.2 = some m) (hkind : m.kind = .ok .source)
      (ht : c'.diagram.terminal stop.2 = some "a") : LeadsTo project c stop c' m "a"

variable {project : Project K} {c c' e e' : Copy K} {n m m' : PlacedNode K}
  {stop stop' : String × String} {port port' : String}

/-- Every end that is declared leads to a port. -/
theorem exists_leadsTo (hp : ∀ t ∈ project.diagrams, t.IsPlain) (h : c.Declares project stop) :
    ∃ e m port, c.LeadsTo project stop e m port := by
  obtain ⟨n, hn, hport⟩ := h
  rw [portsOf] at hport
  cases hb : c.behind? project n with
  | none =>
    rw [hb, Option.elim_none] at hport
    exact ⟨c, n, stop.2, .own hn hport⟩
  -- in a plain diagram the connection port is itself the source that shows up
  | some c' =>
    rw [hb, Option.elim_some] at hport
    obtain ⟨m, hm, hkind, ht⟩ :=
      Diagram.source_of_mem_exposedIds (isPlain_of_behind? hp hb).nodup hport
    exact ⟨c', m, "a", .behind hn hb hport hm hkind ht⟩

omit [Add K] [Div K] [One K] [Scalar K] in
/-- What stands behind a node is under a longer scope. -/
theorem ne_of_behind? (h : c.behind? project n = some c') : c ≠ c' := by
  rintro rfl
  have hlen := congrArg String.length (scope_of_behind? h)
  have hpoint : ".".length = 1 := by decide
  simp only [String.length_append] at hlen
  omega

/-- Different ends of a copy lead to different ports. -/
theorem LeadsTo.inj (h : c.LeadsTo project stop e m port) (h' : c.LeadsTo project stop' e' m' port')
    (he : e = e') (hm : m = m') (hport : port = port') : stop = stop' := by
  rcases h with ⟨hn, -⟩ | ⟨hn, hb, -, hmid, -, -⟩
  · rcases h' with ⟨hn', -⟩ | ⟨-, hb', -, -, -, -⟩
    · have hid : stop.1 = stop'.1 := by
        rw [← Diagram.id_of_node? hn, ← Diagram.id_of_node? hn', hm]
      exact Prod.ext hid hport
    -- one port is of the copy itself, the other of a copy below
    · exact absurd he (ne_of_behind? hb')
  · rcases h' with ⟨-, -⟩ | ⟨hn', hb', -, hmid', -, -⟩
    · exact absurd he.symm (ne_of_behind? hb)
    · -- one copy stands behind one node only, because its scope ends with that node's id
      have hscope := (scope_of_behind? hb).symm.trans (he ▸ scope_of_behind? hb')
      have hid : stop.1 = stop'.1 := by
        rw [String.append_left_inj, String.append_right_inj] at hscope
        rw [← Diagram.id_of_node? hn, ← Diagram.id_of_node? hn', hscope]
      have hname : stop.2 = stop'.2 := by
        rw [← Diagram.id_of_node? hmid, ← Diagram.id_of_node? hmid', hm]
      exact Prod.ext hid hname

/-- An end leads to a port that its node declares; the node is no reference. -/
theorem LeadsTo.spec (h : c.LeadsTo project stop e m port) :
    (e = c ∨ ∃ n ∈ c.diagram.firsts, c.behind? project n = some e) ∧ m ∈ e.diagram.firsts ∧
      port ∈ m.ownPorts := by
  rcases h with ⟨hn, hport⟩ | ⟨hn, hb, -, hm, hkind, -⟩
  · exact ⟨Or.inl rfl, Diagram.mem_firsts_of_node? hn, hport⟩
  · refine ⟨Or.inr ⟨_, Diagram.mem_firsts_of_node? hn, hb⟩, Diagram.mem_firsts_of_node? hm, ?_⟩
    rw [PlacedNode.ownPorts_of_source hkind]
    exact List.mem_cons_self

theorem LeadsTo.mem_descendants {r : Copy K} (h : c.LeadsTo project stop e m port)
    (hc : c ∈ r.descendants project) : e ∈ r.descendants project := by
  obtain ⟨rfl | ⟨n, hn, hb⟩, -, -⟩ := h.spec
  · exact hc
  · exact mem_descendants_of_behind? hc hn hb

end Copy

/-! ### References in the unfolding -/

namespace Copy

variable {project : Project K} {c c' r : Copy K} {n : PlacedNode K}
  (hnodup : ((r.nodes project).map (·.id)).Nodup)
include hnodup

/-- Whether a flattened id is that of a reference is told by the node that it belongs to. -/
theorem isReference_iff (hc : c ∈ r.descendants project) (hn : n ∈ c.diagram.firsts) :
    (r.unfold project).isReference (c.scope ++ n.id) = true ↔
      (n.flat c.scope).kind = .reference := by
  simp only [Flat.isReference, List.any_eq_true, Bool.and_eq_true, decide_eq_true_eq]
  constructor
  · intro h
    obtain ⟨m, hm, hid, hkind⟩ := h
    obtain ⟨e, he, k, hk, rfl⟩ := mem_nodes.1 hm
    -- no other node has the id
    obtain ⟨rfl, rfl⟩ := eq_of_flatId hnodup he hk hc hn hid
    exact hkind
  · intro hkind
    exact ⟨n.flat c.scope, mem_nodes.2 ⟨c, hc, n, hn, rfl⟩, rfl, hkind⟩

theorem not_isReference {kind : Kind} (hc : c ∈ r.descendants project) (hn : n ∈ c.diagram.firsts)
    (hkind : n.kind = .ok kind) (hne : kind ≠ .reference) :
    (r.unfold project).isReference (c.scope ++ n.id) = false := by
  rw [← Bool.not_eq_true, isReference_iff hnodup hc hn, PlacedNode.kind_flat hkind]
  exact hne

/-- The port behind the port of an end is the one that the end leads to. -/
theorem behind_of_leadsTo {stop : String × String} {e : Copy K} {m : PlacedNode K} {port : String}
    (hc : c ∈ r.descendants project) (h : c.LeadsTo project stop e m port) :
    (r.unfold project).behind ⟨c.scope ++ stop.1, some stop.2⟩ = ⟨e.scope ++ m.id, some port⟩ := by
  rcases h with ⟨hn, hport⟩ | ⟨hn, hb, -, hm, -, -⟩
  · obtain ⟨kind, hkind, hne⟩ := kind_of_mem_ownPorts hport
    rw [← Diagram.id_of_node? hn]
    exact Flat.behind_of_not_isReference
      (not_isReference hnodup hc (Diagram.mem_firsts_of_node? hn) hkind hne)
  · have href := (isReference_iff hnodup hc (Diagram.mem_firsts_of_node? hn)).2
      (PlacedNode.kind_flat (kind_of_behind? hb) c.scope)
    rw [Diagram.id_of_node? hn] at href
    rw [Flat.behind, if_pos href, scope_of_behind? hb, Diagram.id_of_node? hn,
      Diagram.id_of_node? hm]
    rfl

end Copy

/-! ### Links without references -/

namespace Copy

variable {c : Copy K}

theorem links_empty : c.links .empty = (c.accepted .empty).map (Edge.link c.scope) := by
  have hboundary : c.boundary .empty = fun _ => [] := by
    funext n
    rw [boundary, behind?_empty, Option.elim_none]
  rw [links_eq, hboundary]
  simp

theorem unfold_empty : c.unfold .empty = ⟨c.nodes .empty, c.links .empty⟩ := by
  rw [unfold, descendants_empty, List.flatMap_singleton]

end Copy

/-! ### What the diagram made by hand flattens to -/

namespace Copy

variable {project : Project K} {r : Copy K} {l : Link}

/-- The edge links of an unfolding are those of the accepted edges, copy by copy. -/
theorem edgeLinks_unfold :
    (r.unfold project).edgeLinks =
      (r.descendants project).flatMap fun c => (c.accepted project).map (Edge.link c.scope) := by
  rw [Flat.edgeLinks, unfold, List.filter_flatMap]
  exact List.flatMap_congr fun c _ => filter_edge_links

theorem mem_edgeLinks :
    l ∈ (r.unfold project).edgeLinks ↔
      ∃ c ∈ r.descendants project, ∃ e ∈ c.accepted project, l = e.link c.scope := by
  simp only [edgeLinks_unfold, List.mem_flatMap, List.mem_map, eq_comm]

variable (hp : ∀ t ∈ project.diagrams, t.IsPlain)
  (hnodup : ((r.nodes project).map (·.id)).Nodup)
include hp hnodup

/-- Both ends of an edge link lead to ports, of which the diagram made by hand has the nodes. -/
theorem declares_byHand (id name : String) {c : Copy K} {stop : String × String}
    (hc : c ∈ r.descendants project) (h : c.Declares project stop) :
    ∃ node port, (r.unfold project).behind ⟨c.scope ++ stop.1, some stop.2⟩ = ⟨node, some port⟩ ∧
      ((r.unfold project).byHand id name).root.Declares .empty (node, port) := by
  obtain ⟨e, m, port, hlead⟩ := exists_leadsTo hp h
  obtain ⟨-, hm, hport⟩ := hlead.spec
  -- the node that the end leads to is no reference, so it is placed by hand
  obtain ⟨kind, hkind, hne⟩ := kind_of_mem_ownPorts hport
  refine ⟨e.scope ++ m.id, port, behind_of_leadsTo hnodup hc hlead, (m.flat e.scope).placed, ?_, ?_⟩
  · refine Flat.node?_byHand (f := r.unfold project) (n := m.flat e.scope) hnodup id name ?_ ?_
    · exact mem_nodes.2 ⟨e, hlead.mem_descendants hc, m, hm, rfl⟩
    · rw [PlacedNode.kind_flat hkind]
      exact hne
  · rw [portsOf, behind?_empty, Option.elim_none, FlatNode.ownPorts_placed hkind]
    exact hport

/-- No edge of the diagram made by hand is ignored. -/
theorem accepted_byHand (id name : String) :
    ((r.unfold project).byHand id name).root.accepted .empty =
      ((r.unfold project).byHand id name).edges := by
  refine List.filter_eq_self.2 fun e' he' => ?_
  obtain ⟨l, hl, heq⟩ := List.mem_map.1 he'
  obtain ⟨c, hc, e, he, rfl⟩ := mem_edgeLinks.1 hl
  obtain ⟨-, hs, ht⟩ := mem_accepted.1 he
  -- both ends of the edge that the drawn one is made of lead to declared ports
  obtain ⟨node, port, hfirst, hdecl⟩ := declares_byHand hp hnodup id name hc hs
  obtain ⟨node', port', hsecond, hdecl'⟩ := declares_byHand hp hnodup id name hc ht
  have hends : e' = ⟨node, port, node', port'⟩ := by
    rw [← heq, Edge.link, hfirst, hsecond]
    rfl
  have hacc : e' ∈ ((r.unfold project).byHand id name).root.accepted .empty :=
    mem_accepted.2 ⟨he', by rw [hends]; exact hdecl, by rw [hends]; exact hdecl'⟩
  exact (List.mem_filter.1 hacc).2

/-- The diagram made by hand has the link between what is behind the ends, for each edge link. -/
theorem links_byHand (id name : String) :
    ((r.unfold project).byHand id name).root.links .empty =
      (r.unfold project).edgeLinks.map fun l =>
        ⟨(r.unfold project).behind l.first, (r.unfold project).behind l.second, .edge⟩ := by
  rw [links_empty, accepted_byHand hp hnodup, Flat.byHand, List.map_map]
  refine List.map_congr_left fun l hl => ?_
  obtain ⟨c, hc, e, he, rfl⟩ := mem_edgeLinks.1 hl
  obtain ⟨-, hs, ht⟩ := mem_accepted.1 he
  obtain ⟨node, port, hfirst, -⟩ := declares_byHand hp hnodup id name hc hs
  obtain ⟨node', port', hsecond, -⟩ := declares_byHand hp hnodup id name hc ht
  have hfirst' : (r.unfold project).behind (e.link c.scope).first = ⟨node, some port⟩ := hfirst
  have hsecond' : (r.unfold project).behind (e.link c.scope).second = ⟨node', some port'⟩ := hsecond
  rw [Function.comp_apply, hfirst', hsecond']
  simp [Edge.link, Edge.between, Diagram.root]

omit hp in
theorem nodes_byHand (id name : String) :
    ((r.unfold project).byHand id name).root.nodes .empty =
      ((r.nodes project).filter fun n => n.kind ≠ .reference).map fun n =>
        ⟨n.id, n.id, "", n.kind, n.payload, []⟩ := by
  rw [nodes_empty]
  show ((r.unfold project).byHand id name).firsts.map (·.flat "") = _
  rw [Flat.firsts_byHand (f := r.unfold project) hnodup, List.map_map]
  exact List.map_congr_left fun n _ => FlatNode.flat_placed

end Copy

/-- What a diagram flattens to can be written down by hand. -/
theorem Diagram.flatten_byHand {project : Project K} {strict : Bool} {d : Diagram K}
    (hp : ∀ t ∈ project.diagrams, t.IsPlain) {flat : Flat K}
    (hflat : (d.flatten project strict).result = .ok flat) (id name : String) (strict' : Bool) :
    ((flat.byHand id name).flatten .empty strict').result = .ok
      ⟨(flat.nodes.filter fun n => n.kind ≠ .reference).map fun n =>
          ⟨n.id, n.id, "", n.kind, n.payload, []⟩,
        flat.edgeLinks.map fun l => ⟨flat.behind l.first, flat.behind l.second, .edge⟩⟩ := by
  obtain ⟨rfl, hsound, hnodup⟩ := flatten_eq_ok.1 hflat
  refine flatten_eq_ok.2 ⟨?_, ?_, ?_⟩
  · rw [Copy.unfold_empty, Copy.nodes_byHand hnodup, Copy.links_byHand hp hnodup]
    rfl
  · rw [Copy.descendants_empty]
    intro c hc n hn
    obtain rfl := List.mem_singleton.1 hc
    have hn' : n ∈ ((d.root.unfold project).byHand id name).firsts := hn
    rw [Flat.firsts_byHand (f := d.root.unfold project) hnodup] at hn'
    obtain ⟨m, hm, rfl⟩ := List.mem_map.1 hn'
    obtain ⟨hm, hne⟩ := List.mem_filter.1 hm
    obtain ⟨e, he, k, hk, rfl⟩ := Copy.mem_nodes.1 hm
    -- the node can be read where it is placed by hand, because it could be where it was
    obtain ⟨kind, ports, hkind, hports, -⟩ := (hsound e he k hk).kind
    have hflatKind : (k.flat e.scope).kind = kind := PlacedNode.kind_flat hkind e.scope
    refine ⟨⟨kind, ports, ?_, hports, ?_⟩, fun c' hb => ?_⟩
    · rw [FlatNode.kind_placed, hflatKind]
    · rw [hflatKind] at hne
      cases kind with
      | reference => simp at hne
      | source => trivial
      | sum => trivial
      | product => trivial
    · rw [Copy.behind?_empty] at hb
      cases hb
  · rw [Copy.nodes_byHand hnodup, List.map_map]
    exact hnodup.sublist (List.filter_sublist.map _)

end NetBalance
