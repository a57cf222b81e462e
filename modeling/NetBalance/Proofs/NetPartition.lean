import NetBalance.Proofs.Places
import NetBalance.Proofs.Rational

/-! # The partition of ports into nets

    Three sorts of links hold ports together: edges, the passage from a port
    of a reference to what stands behind it, and the two terminals of a source
    that either of the others touches.  The nets of a network are the classes
    of the ports that some link touches, under chains of links in either
    direction. -/

namespace NetBalance

variable {K : Type}

/-! ### Chains of links -/

/-- Where a relation says which ports are adjacent, chains of links are chains of the relation. -/
theorem PortGraph.joined_iff_eqvGen {g : PortGraph} {linked : Port → Port → Prop}
    (h : ∀ p q, g.Adjacent p q ↔ linked p q ∨ linked q p) {p q : Port} :
    g.Joined p q ↔ Relation.EqvGen linked p q := by
  constructor
  · intro hpq
    -- a chain is a sequence of links, each taken in one of its directions
    induction hpq with
    | refl p => exact .refl p
    | step hadj _ ih =>
      rcases (h _ _).1 hadj with hl | hl
      · exact .trans _ _ _ (.rel _ _ hl) ih
      · exact .trans _ _ _ (.symm _ _ (.rel _ _ hl)) ih
  · intro hpq
    induction hpq with
    | rel p q hl => exact Adjacent.joined ((h p q).2 (Or.inl hl))
    | refl p => exact .refl p
    | symm p q _ ih => exact ih.symm
    | trans p q r _ _ ih ih' => exact ih.trans ih'

/-! ### What holds ports together -/

variable [Add K] [Div K] [One K] [Scalar K]

namespace Diagram

/-- The copy is reached from the diagram by following references that are inlined. -/
def Inlines (project : Project K) (d : Diagram K) (c : Copy K) : Prop :=
  Relation.ReflTransGen (Copy.Enters project) d.root c

/-- Ports that an edge or the passage through a reference holds together. -/
inductive Wired (project : Project K) (d : Diagram K) : Port → Port → Prop where
  /-- An edge whose ends exist, are declared and differ. -/
  | edge {c : Copy K} {e : Edge} (hc : d.Inlines project c) (he : e ∈ c.diagram.edges)
      (hs : c.Declares project (e.source, e.sourcePort))
      (ht : c.Declares project (e.target, e.targetPort))
      (hne : (e.source, e.sourcePort) ≠ (e.target, e.targetPort)) :
      Wired project d ⟨c.scope ++ e.source, some e.sourcePort⟩
        ⟨c.scope ++ e.target, some e.targetPort⟩
  /-- A connection port of what stands behind a reference, as soon as an edge whose ends exist and
      are declared touches the reference there. -/
  | boundary {c c' : Copy K} {n : PlacedNode K} {id : String} {e : Edge}
      (hc : d.Inlines project c) (hn : c.diagram.node? n.id = some n)
      (hb : c.behind? project n = some c') (hid : id ∈ c'.diagram.exposedIds)
      (he : e ∈ c.diagram.edges) (hs : c.Declares project (e.source, e.sourcePort))
      (ht : c.Declares project (e.target, e.targetPort)) (hend : (n.id, id) ∈ e.ends) :
      Wired project d ⟨c.scope ++ n.id, some id⟩ (c'.port id)

/-- A port that an edge or a passage touches. -/
def IsWired (project : Project K) (d : Diagram K) (p : Port) : Prop :=
  ∃ q, d.Wired project p q ∨ d.Wired project q p

/-- Ports that a link holds together: an edge, a passage, or a source that one of them touches. -/
inductive Linked (project : Project K) (d : Diagram K) : Port → Port → Prop where
  | wired {p q : Port} (h : d.Wired project p q) : Linked project d p q
  /-- The two terminals of a source of which one is touched. -/
  | alias {c : Copy K} {n : PlacedNode K} (hc : d.Inlines project c)
      (hn : c.diagram.node? n.id = some n) (hkind : n.kind = .ok .source)
      (ht : d.IsWired project ⟨c.scope ++ n.id, some "a"⟩ ∨
        d.IsWired project ⟨c.scope ++ n.id, some "b"⟩) :
      Linked project d ⟨c.scope ++ n.id, some "a"⟩ ⟨c.scope ++ n.id, some "b"⟩

end Diagram

/-! ### Links of the unfolding -/

omit [Add K] [Div K] [One K] [Scalar K] in
theorem Edge.first_eq_second_link {scope : String} {e : Edge} :
    (e.link scope).first = (e.link scope).second ↔
      (e.source, e.sourcePort) = (e.target, e.targetPort) := by
  simp [Edge.link, String.append_right_inj]

namespace Copy

variable {project : Project K} {c c' : Copy K} {n : PlacedNode K}

omit [Add K] [Div K] [One K] [Scalar K] in
theorem scope_of_behind? (h : c.behind? project n = some c') :
    c'.scope = c.scope ++ n.id ++ "." := by
  obtain ⟨target, -, rfl⟩ := Option.map_eq_some_iff.1 h
  rfl

omit [Add K] [Div K] [One K] [Scalar K] in
/-- What stands behind a port of a reference has a longer id. -/
theorem node_port_ne (h : c.behind? project n = some c') (id : String) :
    c.scope ++ n.id ≠ (c'.port id).node := by
  intro heq
  have hlen := congrArg String.length heq
  rw [port, scope_of_behind? h] at hlen
  simp only [String.length_append] at hlen
  have hpoint : ".".length = 1 := by decide
  omega

end Copy

namespace Diagram

variable {project : Project K} {d : Diagram K} {p q : Port}

/-- The links of the unfolding that are not from a port to itself. -/
theorem wired_iff :
    d.Wired project p q ↔
      ∃ l ∈ (d.root.unfold project).links, l.first ≠ l.second ∧ l.first = p ∧ l.second = q := by
  constructor
  · intro h
    rcases h with ⟨hc, he, hs, ht, hne⟩ | ⟨hc, hn, hb, hid, he, hs, ht, hend⟩
    · refine ⟨_, Copy.mem_unfold_links.2 ⟨_, Copy.mem_descendants.2 hc, Copy.mem_links.2 (Or.inl
        ⟨_, Copy.mem_accepted.2 ⟨he, hs, ht⟩, rfl⟩)⟩, mt Edge.first_eq_second_link.1 hne, rfl, rfl⟩
    -- a passage leads one level down, so it does not end where it starts
    · refine ⟨_, Copy.mem_unfold_links.2 ⟨_, Copy.mem_descendants.2 hc, Copy.mem_links.2 (Or.inr
        ⟨_, mem_firsts_iff.2 hn, _, hb, _, (Copy.mem_wired hb).2
          ⟨hid, _, Copy.mem_accepted.2 ⟨he, hs, ht⟩, hend⟩, rfl⟩)⟩, ?_, rfl, rfl⟩
      intro heq
      exact Copy.node_port_ne hb _ (congrArg Port.node heq)
  · intro h
    obtain ⟨l, hl, hne, rfl, rfl⟩ := h
    obtain ⟨c, hc, hl⟩ := Copy.mem_unfold_links.1 hl
    have hc := Copy.mem_descendants.1 hc
    rcases Copy.mem_links.1 hl with ⟨e, he, rfl⟩ | ⟨n, hn, c', hb, id, hid, rfl⟩
    · obtain ⟨he, hs, ht⟩ := Copy.mem_accepted.1 he
      exact .edge hc he hs ht (mt Edge.first_eq_second_link.2 hne)
    · obtain ⟨hid, e, he, hend⟩ := (Copy.mem_wired hb).1 hid
      obtain ⟨he, hs, ht⟩ := Copy.mem_accepted.1 he
      exact .boundary hc (mem_firsts_iff.1 hn) hb hid he hs ht hend

/-- Joining the links of the unfolding makes just the wired ports adjacent. -/
theorem adjacent_joinLinks_unfold :
    (PortGraph.empty.joinLinks (d.root.unfold project).links).Adjacent p q ↔
      d.Wired project p q ∨ d.Wired project q p := by
  -- the links are joined one after another, starting from nothing
  have hempty : ¬PortGraph.empty.Adjacent p q := by
    intro h
    obtain ⟨l, hl, -⟩ := h
    exact List.not_mem_nil hl
  rw [PortGraph.adjacent_joinLinks, wired_iff, wired_iff]
  simp only [hempty, false_or, Link.joins_iff]
  constructor
  · intro h
    obtain ⟨l, hl, hne, h | h⟩ := h
    · exact Or.inl ⟨l, hl, hne, h⟩
    · exact Or.inr ⟨l, hl, hne, h⟩
  · intro h
    rcases h with ⟨l, hl, hne, h⟩ | ⟨l, hl, hne, h⟩
    · exact ⟨l, hl, hne, Or.inl h⟩
    · exact ⟨l, hl, hne, Or.inr h⟩

theorem mem_ports_joinLinks_unfold :
    p ∈ (PortGraph.empty.joinLinks (d.root.unfold project).links).ports ↔ d.IsWired project p := by
  rw [PortGraph.mem_ports_iff_adjacent]
  exact exists_congr fun q => adjacent_joinLinks_unfold

/-- Linked ports are wired, or they are the terminals of a flattened source that is. -/
theorem linked_iff :
    d.Linked project p q ↔ d.Wired project p q ∨ ∃ m ∈ (d.root.unfold project).nodes,
      m.kind = .source ∧
        (d.IsWired project (m.terminal "a") ∨ d.IsWired project (m.terminal "b")) ∧
        p = m.terminal "a" ∧ q = m.terminal "b" := by
  constructor
  · intro h
    rcases h with h | ⟨hc, hn, hkind, ht⟩
    · exact Or.inl h
    -- a source that counts in a copy is flattened there
    · rename_i c n
      refine Or.inr ⟨n.flat c.scope, ?_, PlacedNode.kind_flat hkind c.scope, ht, rfl, rfl⟩
      exact Copy.mem_nodes.2 ⟨c, Copy.mem_descendants.2 hc, n, mem_firsts_iff.2 hn, rfl⟩
  · intro h
    rcases h with h | ⟨m, hm, hkind, ht, rfl, rfl⟩
    · exact .wired h
    · obtain ⟨c, hc, n, hn, rfl⟩ := Copy.mem_nodes.1 hm
      exact .alias (Copy.mem_descendants.1 hc) (mem_firsts_iff.1 hn)
        (PlacedNode.kind_of_flat hkind (by simp)) ht

/-- In the graph that nets are read off, the linked ports are adjacent. -/
theorem adjacent_joined :
    (d.root.unfold project).joined.graph.Adjacent p q ↔
      d.Linked project p q ∨ d.Linked project q p := by
  rw [Flat.joined, Topology.adjacent_foldAliases, adjacent_joinLinks_unfold, linked_iff, linked_iff]
  simp only [Topology.Touched, mem_ports_joinLinks_unfold]
  constructor
  · intro h
    rcases h with (h | h) | ⟨m, hm, ⟨hkind, ht⟩, ⟨hp, hq⟩ | ⟨hp, hq⟩⟩
    · exact Or.inl (Or.inl h)
    · exact Or.inr (Or.inl h)
    · exact Or.inl (Or.inr ⟨m, hm, hkind, ht, hp, hq⟩)
    · exact Or.inr (Or.inr ⟨m, hm, hkind, ht, hq, hp⟩)
  · intro h
    rcases h with (h | ⟨m, hm, hkind, ht, hp, hq⟩) | (h | ⟨m, hm, hkind, ht, hq, hp⟩)
    · exact Or.inl (Or.inl h)
    · exact Or.inr ⟨m, hm, ⟨hkind, ht⟩, Or.inl ⟨hp, hq⟩⟩
    · exact Or.inl (Or.inr h)
    · exact Or.inr ⟨m, hm, ⟨hkind, ht⟩, Or.inr ⟨hp, hq⟩⟩

/-- Links join nodes that are there. -/
theorem mem_ids_of_linked (h : d.Linked project p q) :
    p.node ∈ (d.root.unfold project).ids ∧ q.node ∈ (d.root.unfold project).ids := by
  rcases h with h | ⟨hc, hn, -, -⟩
  · obtain ⟨l, hl, -, rfl, rfl⟩ := wired_iff.1 h
    exact Copy.isClosed_unfold d.root l hl
  · have hid := Copy.mem_ids_of_node? (Copy.mem_descendants.2 hc) hn
    exact ⟨hid, hid⟩

theorem mem_ports_joined :
    p ∈ (d.root.unfold project).joined.graph.ports ↔
      ∃ q, d.Linked project p q ∨ d.Linked project q p := by
  rw [PortGraph.mem_ports_iff_adjacent]
  exact exists_congr fun q => adjacent_joined

/-- A port of the graph is wired, or it is a terminal of a source that is. -/
theorem isWired_or_terminal (h : p ∈ (d.root.unfold project).joined.graph.ports) :
    d.IsWired project p ∨ ∃ m ∈ (d.root.unfold project).nodes, m.kind = .source ∧
      (d.IsWired project (m.terminal "a") ∨ d.IsWired project (m.terminal "b")) ∧
      (p = m.terminal "a" ∨ p = m.terminal "b") := by
  obtain ⟨q, h | h⟩ := mem_ports_joined.1 h
  · rcases linked_iff.1 h with h | ⟨m, hm, hkind, ht, hport, -⟩
    · exact Or.inl ⟨q, Or.inl h⟩
    · exact Or.inr ⟨m, hm, hkind, ht, Or.inl hport⟩
  · rcases linked_iff.1 h with h | ⟨m, hm, hkind, ht, -, hport⟩
    · exact Or.inl ⟨q, Or.inr h⟩
    · exact Or.inr ⟨m, hm, hkind, ht, Or.inr hport⟩

/-- The distinct keys of the ports, for keys that linked ports share, in the order in which the
    links mention them. -/
theorem distinct_keys_joined {β : Type} [DecidableEq β] {key : Port → β}
    (hkey : ∀ {p q}, d.Linked project p q → key p = key q) :
    distinct ((d.root.unfold project).joined.graph.ports.map key) =
      distinct (((d.root.unfold project).links.filter fun l => l.first ≠ l.second).flatMap
        fun l => l.ports.map key) := by
  rw [Flat.joined, Topology.foldAliases, Topology.distinct_keys_foldl_aliasNode key,
    PortGraph.distinct_keys_joinLinks]
  · rfl
  -- the terminals of a source that is touched are linked
  · intro m hm ht
    rw [Topology.Touched, mem_ports_joinLinks_unfold, mem_ports_joinLinks_unfold] at ht
    exact hkey (linked_iff.2 (Or.inr ⟨m, hm, ht.1, ht.2, rfl, rfl⟩))

/-! ### Ports of inlined references -/

section Reference

variable {c c' : Copy K} {n : PlacedNode K} {id : String}
  (hnodup : ((d.root.nodes project).map (·.id)).Nodup) (hc : c ∈ d.root.descendants project)
  (hn : n ∈ c.diagram.firsts) (hb : c.behind? project n = some c')
include hnodup hc hn hb

/-- Links at a port of an inlined reference are there only if an edge is accepted there. -/
theorem exists_accepted_of_mem_links {l : Link} (hl : l ∈ (d.root.unfold project).links)
    (hport : l.first = ⟨c.scope ++ n.id, some id⟩ ∨ l.second = ⟨c.scope ++ n.id, some id⟩) :
    ∃ e ∈ c.accepted project, (n.id, id) ∈ e.ends := by
  -- a node with the same id is the same node of the same copy
  have hsame : ∀ {b k}, b ∈ d.root.descendants project → k ∈ b.diagram.firsts →
      b.scope ++ k.id = c.scope ++ n.id → b = c ∧ k = n := fun hbmem hk hid =>
    Copy.eq_of_flatId hnodup hbmem hk hc hn hid
  obtain ⟨b, hbmem, hl⟩ := Copy.mem_unfold_links.1 hl
  rcases Copy.mem_links.1 hl with ⟨e, he, rfl⟩ | ⟨k, hk, b', hb', id', hid', rfl⟩
  · obtain ⟨-, ⟨s, hs, -⟩, ⟨t, ht, -⟩⟩ := Copy.mem_accepted.1 he
    have hsid : s.id = e.source := id_of_node? hs
    have htid : t.id = e.target := id_of_node? ht
    rcases hport with hport | hport
    · obtain ⟨hnode, hname⟩ := Port.mk.inj hport
      obtain ⟨rfl, rfl⟩ := hsame hbmem (mem_firsts_of_node? hs) (hsid ▸ hnode)
      refine ⟨e, he, ?_⟩
      rw [hsid, ← Option.some.inj hname]
      exact List.mem_cons_self
    · obtain ⟨hnode, hname⟩ := Port.mk.inj hport
      obtain ⟨rfl, rfl⟩ := hsame hbmem (mem_firsts_of_node? ht) (htid ▸ hnode)
      refine ⟨e, he, ?_⟩
      rw [htid, ← Option.some.inj hname]
      exact List.mem_cons_of_mem _ List.mem_cons_self
  · obtain ⟨hexposed, e, he, hend⟩ := (Copy.mem_wired hb').1 hid'
    rcases hport with hport | hport
    · obtain ⟨hnode, hname⟩ := Port.mk.inj hport
      obtain ⟨rfl, rfl⟩ := hsame hbmem hk hnode
      exact ⟨e, he, Option.some.inj hname ▸ hend⟩
    · -- behind a reference only sources have terminals
      obtain ⟨hnode, hname⟩ := Port.mk.inj hport
      obtain ⟨t, ht⟩ := node?_of_mem_exposedIds hexposed
      have htid : t.id = id' := id_of_node? ht
      obtain ⟨-, rfl⟩ := hsame (Copy.mem_descendants_of_behind? hbmem hk hb')
        (mem_firsts_of_node? ht) (htid ▸ hnode)
      have hkind := Copy.kind_of_behind? hb
      simp [terminal, ht, hkind, Except.toOption, Kind.connectionTerminal] at hname

/-- A port of an inlined reference is in the graph only if an edge is accepted there. -/
theorem exists_accepted_of_mem_ports
    (h : ⟨c.scope ++ n.id, some id⟩ ∈ (d.root.unfold project).joined.graph.ports) :
    ∃ e ∈ c.accepted project, (n.id, id) ∈ e.ends := by
  -- the port is not a terminal, as references are not sources
  have hterminal : ∀ m ∈ (d.root.unfold project).nodes, m.kind = .source →
      m.id ≠ c.scope ++ n.id := by
    intro m hm hsource hid
    obtain ⟨b, hbmem, k, hk, rfl⟩ := Copy.mem_nodes.1 hm
    obtain ⟨-, rfl⟩ := Copy.eq_of_flatId hnodup hbmem hk hc hn hid
    have hkind := PlacedNode.kind_of_flat hsource (by simp)
    rw [Copy.kind_of_behind? hb] at hkind
    cases hkind
  rcases isWired_or_terminal h with ⟨q, hw | hw⟩ | ⟨m, hm, hsource, -, hport | hport⟩
  · obtain ⟨l, hl, -, hfirst, -⟩ := wired_iff.1 hw
    exact exists_accepted_of_mem_links hnodup hc hn hb hl (Or.inl hfirst)
  · obtain ⟨l, hl, -, -, hsecond⟩ := wired_iff.1 hw
    exact exists_accepted_of_mem_links hnodup hc hn hb hl (Or.inr hsecond)
  · exact absurd (congrArg Port.node hport).symm (hterminal m hm hsource)
  · exact absurd (congrArg Port.node hport).symm (hterminal m hm hsource)

end Reference

/-- The wired ports of an inlined reference are in the graph. -/
theorem mem_ports_of_mem_wired {c : Copy K} {n : PlacedNode K} {id : String}
    (hc : c ∈ d.root.descendants project) (hn : n ∈ c.diagram.firsts)
    (hid : id ∈ c.wired project n) :
    ⟨c.scope ++ n.id, some id⟩ ∈ (d.root.unfold project).joined.graph.ports := by
  obtain ⟨c', hb⟩ := Copy.exists_of_mem_wired hid
  refine mem_ports_joined.2 ⟨c'.port id, Or.inl (.wired (wired_iff.2 ⟨_, Copy.mem_unfold_links.2
    ⟨c, hc, Copy.mem_links.2 (Or.inr ⟨n, hn, c', hb, id, hid, rfl⟩)⟩, ?_, rfl, rfl⟩))⟩
  intro heq
  exact Copy.node_port_ne hb id (congrArg Port.node heq)

end Diagram

/-! ### Nets -/

variable [Zero K]

/-- Two different ports share a net exactly when a chain of links leads from one to the other, and a
    port has a net exactly when a link touches it.  No port is listed twice, and what a node
    records for a port is the number of the net that lists it. -/
theorem net_partition {project : Project K} {strict : Bool} {d : Diagram K} {default : K}
    {built : Network K} (h : (d.build project strict default).result = .ok built) :
    (∀ p q, p ≠ q → ((∃ net ∈ built.nets, p ∈ net.members ∧ q ∈ net.members) ↔
      Relation.EqvGen (d.Linked project) p q)) ∧
    (∀ p, (∃ net ∈ built.nets, p ∈ net.members) ↔
      ∃ q, d.Linked project p q ∨ d.Linked project q p) ∧
    (built.nets.flatMap (·.members)).Nodup ∧
    (∀ net ∈ built.nets, ∀ p ∈ net.members, ∃ n ∈ built.nodes, n.id = p.node) ∧
    (built.nodes.map (·.id)).Nodup ∧
    (∀ n ∈ built.nodes, ∀ name i, n.net? name = some i ↔
      ∃ net, built.nets[i]? = some net ∧ ⟨n.id, name⟩ ∈ net.members) := by
  obtain ⟨hflat, hnet⟩ := Diagram.build_eq_ok.1 h
  have hchain : ∀ p q, (d.root.unfold project).joined.graph.Joined p q ↔
      Relation.EqvGen (d.Linked project) p q := fun p q =>
    PortGraph.joined_iff_eqvGen fun _ _ => Diagram.adjacent_joined
  have hshare := fun p q => Topology.exists_net_iff hnet (p := p) (q := q)
  have hlisted : ∀ p, (∃ net ∈ built.nets, p ∈ net.members) ↔
      ∃ q, d.Linked project p q ∨ d.Linked project q p := by
    intro p
    rw [Topology.isListed_iff hnet, Diagram.mem_ports_joined]
  refine ⟨?_, hlisted, Topology.nodup_network hnet, ?_, ?_, ?_⟩
  · intro p q hne
    rw [hshare, hchain]
    refine and_iff_right_of_imp fun hpq => ?_
    -- a chain between two different ports starts with a link
    cases (hchain p q).2 hpq with
    | refl => exact absurd rfl hne
    | step hadj _ => exact hadj.mem_ports
  · intro net hmem p hp
    obtain ⟨q, hq⟩ := (hlisted p).1 ⟨net, hmem, hp⟩
    have hid : p.node ∈ built.nodes.map (·.id) := by
      rw [Topology.ids_network hnet]
      exact hq.elim (fun h => (Diagram.mem_ids_of_linked h).1) fun h =>
        (Diagram.mem_ids_of_linked h).2
    simpa using List.mem_map.1 hid
  · rw [Topology.ids_network hnet]
    exact (Diagram.flatten_eq_ok.1 hflat).2.2
  · intro n hn name i
    refine Topology.net?_network hnet (fun m hm => ?_) hn
    obtain ⟨c, -, k, -, rfl⟩ := Copy.mem_nodes.1 hm
    rfl

/-- A source that an edge joins to a reference is linked to the source behind the reference. -/
theorem net_partition_aroundCell :
    ∃ built : Network ℚ,
      ((Diagram.aroundCell [⟨"s", "a", "r", "p"⟩]).build .ofCell true 1).result = .ok built ∧
      Relation.EqvGen ((Diagram.aroundCell [⟨"s", "a", "r", "p"⟩]).Linked .ofCell)
        ⟨"s", some "b"⟩ ⟨"r.p", some "b"⟩ := by
  have hmembers :
      ((Diagram.aroundCell [⟨"s", "a", "r", "p"⟩]).build .ofCell true 1).result.map
          (·.nets.map (·.members)) =
        .ok [[⟨"s", some "a"⟩, ⟨"r", some "p"⟩, ⟨"r.p", some "a"⟩, ⟨"s", some "b"⟩,
          ⟨"r.p", some "b"⟩]] := by
    decide +kernel
  -- the one net lists both terminals, so a chain of links joins them
  obtain ⟨built, hbuilt, hnets⟩ := map_eq_ok.1 hmembers
  obtain ⟨net, rest, hcons, hnet, -⟩ := List.map_eq_cons_iff.1 hnets
  refine ⟨built, hbuilt, ((net_partition hbuilt).1 _ _ (by decide)).1 ⟨net, ?_, ?_, ?_⟩⟩
  · rw [hcons]
    exact List.mem_cons_self
  · rw [hnet]
    decide
  · rw [hnet]
    decide

end NetBalance
