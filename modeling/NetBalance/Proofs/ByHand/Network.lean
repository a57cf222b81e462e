import NetBalance.Proofs.Assembling
import NetBalance.Proofs.ByHand.Diagram
import NetBalance.Proofs.Contraction
import NetBalance.Proofs.Seeds

/-! # Inlining and drawing by hand give one network

    The links from the ports of references to what is behind them shrink to
    points when a diagram is drawn by hand.  They come after the edges that
    touch the references and join nothing that was apart, so that the nets
    keep their numbers, and a net only loses the ports of references. -/

namespace NetBalance

variable {K : Type} [Add K] [Div K] [One K] [Scalar K]

/-- The diagram that is drawn by hand in place of a diagram with references. -/
abbrev Diagram.drawn (project : Project K) (d : Diagram K) (id name : String) : Diagram K :=
  (d.root.unfold project).byHand id name

/-- The port that a flattened port stands for in the diagram drawn by hand. -/
abbrev Diagram.behind (project : Project K) (d : Diagram K) (p : Port) : Port :=
  (d.root.unfold project).behind p

section Wired

variable {project : Project K} {d : Diagram K} (hp : ∀ t ∈ project.diagrams, t.IsPlain)
  (hnodup : ((d.root.nodes project).map (·.id)).Nodup)

/-! ### Ends of edges -/

namespace Copy

variable {c c' : Copy K} {n : PlacedNode K} {e : Edge} {stop : String × String} {id : String}

include hp hnodup

/-- Behind a port of a reference stands the connection port, and nothing behind that one. -/
theorem behind_boundary (hc : c ∈ d.root.descendants project)
    (hn : c.diagram.node? n.id = some n) (hb : c.behind? project n = some c')
    (hid : id ∈ c'.diagram.exposedIds) :
    d.behind project ⟨c.scope ++ n.id, some id⟩ = c'.port id ∧
      d.behind project (c'.port id) = c'.port id := by
  obtain ⟨m, hm, hkind, hterm⟩ :=
    Diagram.source_of_mem_exposedIds (isPlain_of_behind? hp hb).nodup hid
  have hport : c'.port id = ⟨c'.scope ++ m.id, some "a"⟩ := by
    rw [port, hterm, Diagram.id_of_node? hm]
  have hlead : c.LeadsTo project (n.id, id) c' m "a" := .behind hn hb hid hm hkind hterm
  have hc' := mem_descendants_of_behind? hc (Diagram.mem_firsts_iff.2 hn) hb
  rw [hport]
  exact ⟨behind_of_leadsTo hnodup hc hlead, Flat.behind_of_not_isReference
    (not_isReference hnodup hc' (Diagram.mem_firsts_of_node? hm) hkind (by simp))⟩

/-- The port of an end and the port behind it are one, or wired to each other; and there is nothing
    further behind. -/
theorem wired_behind_end (hc : c ∈ d.root.descendants project) (he : e ∈ c.accepted project)
    (hstop : stop ∈ e.ends) {p : Port} (hport : p = ⟨c.scope ++ stop.1, some stop.2⟩) :
    (d.behind project p = p ∨ d.Wired project p (d.behind project p)) ∧
      d.behind project (d.behind project p) = d.behind project p := by
  subst hport
  obtain ⟨hmem, hs, ht⟩ := mem_accepted.1 he
  have hdecl : c.Declares project stop := by
    rcases List.mem_cons.1 hstop with rfl | hstop
    · exact hs
    · exact (List.mem_singleton.1 hstop) ▸ ht
  obtain ⟨n, hn, hport⟩ := hdecl
  have hid := Diagram.id_of_node? hn
  rw [portsOf] at hport
  -- either the node is no reference, or its port is the end of a passage
  cases hb : c.behind? project n with
  | none =>
    rw [hb, Option.elim_none] at hport
    obtain ⟨kind, hkind, hne⟩ := kind_of_mem_ownPorts hport
    have hself : d.behind project ⟨c.scope ++ stop.1, some stop.2⟩ =
        ⟨c.scope ++ stop.1, some stop.2⟩ := by
      rw [← hid]
      exact Flat.behind_of_not_isReference
        (not_isReference hnodup hc (Diagram.mem_firsts_of_node? hn) hkind hne)
    exact ⟨Or.inl hself, by rw [hself, hself]⟩
  | some c' =>
    rw [hb, Option.elim_some] at hport
    rw [← hid] at hn ⊢
    obtain ⟨hbehind, hself⟩ := behind_boundary hp hnodup hc hn hb hport
    rw [hbehind]
    refine ⟨Or.inr (.boundary (mem_descendants.1 hc) hn hb hport hmem hs ht ?_), hself⟩
    rw [hid]
    exact hstop

end Copy

/-! ### Wired ports -/

namespace Diagram

variable (hd : d.IsPlain) {p q : Port}

/-- In plain diagrams an edge link never joins a port to itself. -/
theorem IsPlain.edgeLink_ne (hd : d.IsPlain) (hp : ∀ t ∈ project.diagrams, t.IsPlain) {c : Copy K}
    {e : Edge} (hc : c ∈ d.root.descendants project) (he : e ∈ c.accepted project) :
    (e.source, e.sourcePort) ≠ (e.target, e.targetPort) :=
  (Copy.isPlain_of_mem_descendants hd hp hc).ends e (Copy.mem_accepted.1 he).1

include hd hp hnodup

/-- Different ends of an edge stand for different ports. -/
theorem behind_edgeLink_ne {l : Link} (hl : l ∈ (d.root.unfold project).edgeLinks) :
    d.behind project l.first ≠ d.behind project l.second := by
  obtain ⟨c, hc, e, he, rfl⟩ := Copy.mem_edgeLinks.1 hl
  obtain ⟨-, hs, ht⟩ := Copy.mem_accepted.1 he
  obtain ⟨e₁, m₁, port₁, hlead₁⟩ := Copy.exists_leadsTo hp hs
  obtain ⟨e₂, m₂, port₂, hlead₂⟩ := Copy.exists_leadsTo hp ht
  intro heq
  have hfirst : d.behind project (e.link c.scope).first = ⟨e₁.scope ++ m₁.id, some port₁⟩ :=
    Copy.behind_of_leadsTo hnodup hc hlead₁
  have hsecond : d.behind project (e.link c.scope).second = ⟨e₂.scope ++ m₂.id, some port₂⟩ :=
    Copy.behind_of_leadsTo hnodup hc hlead₂
  rw [hfirst, hsecond, Port.mk.injEq, Option.some.injEq] at heq
  -- equal ports belong to one node, and then the ends are equal as well
  obtain ⟨he, hm⟩ := Copy.eq_of_flatId hnodup (hlead₁.mem_descendants hc) hlead₁.spec.2.1
    (hlead₂.mem_descendants hc) hlead₂.spec.2.1 heq.1
  exact hd.edgeLink_ne hp hc ‹_› (hlead₁.inj hlead₂ he hm heq.2)

omit hnodup in
theorem wired_of_edgeLink {l : Link} (hl : l ∈ (d.root.unfold project).edgeLinks) :
    d.Wired project l.first l.second := by
  obtain ⟨c, hc, e, he, rfl⟩ := Copy.mem_edgeLinks.1 hl
  obtain ⟨hmem, hs, ht⟩ := Copy.mem_accepted.1 he
  exact .edge (Copy.mem_descendants.1 hc) hmem hs ht (hd.edgeLink_ne hp hc he)

omit hd in
/-- The port of an edge link and the port behind it are one, or wired to each other. -/
theorem wired_behind_edgeLink {l : Link} (hl : l ∈ (d.root.unfold project).edgeLinks)
    (hport : p = l.first ∨ p = l.second) :
    (d.behind project p = p ∨ d.Wired project p (d.behind project p)) ∧
      d.behind project (d.behind project p) = d.behind project p := by
  obtain ⟨c, hc, e, he, rfl⟩ := Copy.mem_edgeLinks.1 hl
  rcases hport with hport | hport
  · exact Copy.wired_behind_end hp hnodup hc he List.mem_cons_self hport
  · exact Copy.wired_behind_end hp hnodup hc he (List.mem_cons_of_mem _ List.mem_cons_self) hport

omit hd in
/-- Wired ports are the ends of an edge link, or one of them is the end of an edge link and the
    other stands behind it. -/
theorem edgeLink_of_wired (h : d.Wired project p q) :
    (∃ l ∈ (d.root.unfold project).edgeLinks, p = l.first ∧ q = l.second) ∨
      (d.behind project p = q ∧ d.behind project q = q ∧
        ∃ l ∈ (d.root.unfold project).edgeLinks, p = l.first ∨ p = l.second) := by
  rcases h with ⟨hc, he, hs, ht, -⟩ | ⟨hc, hn, hb, hid, he, hs, ht, hend⟩
  · rename_i c e
    exact Or.inl ⟨e.link c.scope, Copy.mem_edgeLinks.2 ⟨c, Copy.mem_descendants.2 hc, e,
      Copy.mem_accepted.2 ⟨he, hs, ht⟩, rfl⟩, rfl, rfl⟩
  · rename_i c c' n id e
    -- a passage starts at the end of the edge that opens it
    obtain ⟨hbehind, hself⟩ := Copy.behind_boundary hp hnodup (Copy.mem_descendants.2 hc) hn hb hid
    refine Or.inr ⟨hbehind, hself, e.link c.scope, Copy.mem_edgeLinks.2 ⟨c,
      Copy.mem_descendants.2 hc, e, Copy.mem_accepted.2 ⟨he, hs, ht⟩, rfl⟩, ?_⟩
    simp only [Edge.ends, List.mem_cons, Prod.mk.injEq, List.not_mem_nil, or_false] at hend
    refine hend.imp ?_ ?_
    · intro h
      obtain ⟨hnode, hname⟩ := h
      rw [hnode, hname]
      rfl
    · intro h
      obtain ⟨hnode, hname⟩ := h
      rw [hnode, hname]
      rfl

omit hd in
/-- A wired port and the port behind it are one, or wired to each other. -/
theorem wired_behind (h : d.IsWired project p) :
    d.behind project p = p ∨ d.Wired project p (d.behind project p) := by
  obtain ⟨q, h | h⟩ := h
  · rcases edgeLink_of_wired hp hnodup h with ⟨l, hl, hfirst, -⟩ | ⟨-, -, l, hl, hport⟩
    · exact (wired_behind_edgeLink hp hnodup hl (Or.inl hfirst)).1
    · exact (wired_behind_edgeLink hp hnodup hl hport).1
  · rcases edgeLink_of_wired hp hnodup h with ⟨l, hl, -, hsecond⟩ | ⟨-, hself, -⟩
    · exact (wired_behind_edgeLink hp hnodup hl (Or.inr hsecond)).1
    · exact Or.inl hself

/-! ### Wired ports of the drawing -/

variable (id name : String)

omit hd in
theorem links_drawn :
    ((d.drawn project id name).root.unfold .empty).links =
      (d.root.unfold project).edgeLinks.map fun l =>
        ⟨d.behind project l.first, d.behind project l.second, .edge⟩ := by
  rw [Copy.unfold_empty]
  exact Copy.links_byHand hp hnodup id name

omit hd hp in
theorem nodes_drawn :
    ((d.drawn project id name).root.unfold .empty).nodes =
      ((d.root.unfold project).nodes.filter fun n => n.kind ≠ .reference).map fun n =>
        ⟨n.id, n.id, "", n.kind, n.payload, []⟩ := by
  rw [Copy.unfold_empty]
  exact Copy.nodes_byHand hnodup id name

/-- The drawing wires what is behind the ends of the edge links. -/
theorem drawn_wired_iff :
    (d.drawn project id name).Wired .empty p q ↔
      ∃ l ∈ (d.root.unfold project).edgeLinks,
        d.behind project l.first = p ∧ d.behind project l.second = q := by
  rw [wired_iff, links_drawn hp hnodup]
  constructor
  · intro h
    obtain ⟨_, hlink, -, rfl, rfl⟩ := h
    obtain ⟨l, hl, rfl⟩ := List.mem_map.1 hlink
    exact ⟨l, hl, rfl, rfl⟩
  · intro h
    obtain ⟨l, hl, rfl, rfl⟩ := h
    exact ⟨_, List.mem_map_of_mem hl, behind_edgeLink_ne hp hnodup hd hl, rfl, rfl⟩

/-- Wired ports shrink to one port, or stay wired in the drawing. -/
theorem drawn_wired (h : d.Wired project p q) :
    d.behind project p = d.behind project q ∨
      (d.drawn project id name).Wired .empty (d.behind project p) (d.behind project q) := by
  rcases edgeLink_of_wired hp hnodup h with ⟨l, hl, rfl, rfl⟩ | ⟨hbehind, hself, -⟩
  · exact Or.inr ((drawn_wired_iff hp hnodup hd id name).2 ⟨l, hl, rfl, rfl⟩)
  · exact Or.inl (by rw [hbehind, hself])

theorem drawn_isWired (h : d.IsWired project p) :
    (d.drawn project id name).IsWired .empty (d.behind project p) := by
  -- what is behind the end of an edge link is wired in the drawing
  have hlink : ∀ {l p}, l ∈ (d.root.unfold project).edgeLinks → p = l.first ∨ p = l.second →
      (d.drawn project id name).IsWired .empty (d.behind project p) := by
    rintro l p hl (rfl | rfl)
    · exact ⟨_, Or.inl ((drawn_wired_iff hp hnodup hd id name).2 ⟨l, hl, rfl, rfl⟩)⟩
    · exact ⟨_, Or.inr ((drawn_wired_iff hp hnodup hd id name).2 ⟨l, hl, rfl, rfl⟩)⟩
  obtain ⟨q, h | h⟩ := h
  · rcases edgeLink_of_wired hp hnodup h with ⟨l, hl, hfirst, -⟩ | ⟨-, -, l, hl, hport⟩
    · exact hlink hl (Or.inl hfirst)
    · exact hlink hl hport
  · rcases edgeLink_of_wired hp hnodup h with ⟨l, hl, -, hsecond⟩ | ⟨hbehind, hself, l, hl, hport⟩
    · exact hlink hl (Or.inr hsecond)
    · rw [hself, ← hbehind]
      exact hlink hl hport

/-- What the drawing wires was wired, and nothing stands behind it. -/
theorem isWired_of_drawn (h : (d.drawn project id name).IsWired .empty p) :
    d.IsWired project p ∧ d.behind project p = p := by
  -- the other way round, the end of an edge link is wired to what is behind it
  have hlink : ∀ {l p₀}, l ∈ (d.root.unfold project).edgeLinks → p₀ = l.first ∨ p₀ = l.second →
      d.behind project p₀ = p → d.IsWired project p ∧ d.behind project p = p := by
    rintro l p₀ hl hport rfl
    obtain ⟨hwired, hself⟩ := wired_behind_edgeLink hp hnodup hl hport
    refine ⟨?_, hself⟩
    rcases hwired with heq | hwired
    · rw [heq]
      have hlw := wired_of_edgeLink hp hd hl
      rcases hport with rfl | rfl
      · exact ⟨_, Or.inl hlw⟩
      · exact ⟨_, Or.inr hlw⟩
    · exact ⟨_, Or.inr hwired⟩
  obtain ⟨q, h | h⟩ := h
  · obtain ⟨l, hl, hfirst, -⟩ := (drawn_wired_iff hp hnodup hd id name).1 h
    exact hlink hl (Or.inl rfl) hfirst
  · obtain ⟨l, hl, -, hsecond⟩ := (drawn_wired_iff hp hnodup hd id name).1 h
    exact hlink hl (Or.inr rfl) hsecond

/-! ### The contraction -/

omit hd hp in
/-- Nothing stands behind the ports of a node that is no reference. -/
theorem behind_of_mem_nodes {m : FlatNode K} (hm : m ∈ (d.root.unfold project).nodes)
    (hne : m.kind ≠ .reference) (port : PortName) :
    d.behind project ⟨m.id, port⟩ = ⟨m.id, port⟩ := by
  obtain ⟨c, hc, n, hn, rfl⟩ := Copy.mem_nodes.1 hm
  exact Flat.behind_of_not_isReference
    (Copy.not_isReference hnodup hc hn (PlacedNode.kind_of_flat rfl hne) hne)

theorem drawn_isWired_iff {m : FlatNode K} (hm : m ∈ (d.root.unfold project).nodes)
    (hne : m.kind ≠ .reference) (port : PortName) :
    (d.drawn project id name).IsWired .empty ⟨m.id, port⟩ ↔ d.IsWired project ⟨m.id, port⟩ := by
  refine ⟨fun h => (isWired_of_drawn hp hnodup hd id name h).1, fun h => ?_⟩
  have hdrawn := drawn_isWired hp hnodup hd id name h
  rwa [behind_of_mem_nodes hnodup hm hne] at hdrawn

/-- The drawing links what it wires, and the terminals of the sources that were touched. -/
theorem drawn_linked_iff :
    (d.drawn project id name).Linked .empty p q ↔ (d.drawn project id name).Wired .empty p q ∨
      ∃ m ∈ (d.root.unfold project).nodes, m.kind = .source ∧
        (d.IsWired project (m.terminal "a") ∨ d.IsWired project (m.terminal "b")) ∧
        p = m.terminal "a" ∧ q = m.terminal "b" := by
  rw [linked_iff, nodes_drawn hnodup]
  -- sources are drawn, and their terminals are touched in both graphs or in none
  refine or_congr_right ⟨?_, ?_⟩
  · intro h
    obtain ⟨m', hm', hkind, ht, rfl, rfl⟩ := h
    obtain ⟨m, hm, rfl⟩ := List.mem_map.1 hm'
    obtain ⟨hm, hne⟩ := List.mem_filter.1 hm
    have hiff := drawn_isWired_iff hp hnodup hd id name hm (of_decide_eq_true hne)
    exact ⟨m, hm, hkind, ht.imp (hiff _).1 (hiff _).1, rfl, rfl⟩
  · intro h
    obtain ⟨m, hm, hkind, ht, rfl, rfl⟩ := h
    have hne : m.kind ≠ .reference := by simp [hkind]
    have hiff := drawn_isWired_iff hp hnodup hd id name hm hne
    exact ⟨_, List.mem_map_of_mem (List.mem_filter.2 ⟨hm, decide_eq_true hne⟩), hkind,
      ht.imp (hiff _).2 (hiff _).2, rfl, rfl⟩

omit hd hp in
theorem behind_terminal {m : FlatNode K} (hm : m ∈ (d.root.unfold project).nodes)
    (hkind : m.kind = .source) (s : String) :
    d.behind project (m.terminal s) = m.terminal s :=
  behind_of_mem_nodes hnodup hm (by simp [hkind]) _

omit hd in
/-- A port with a net is joined to the port behind it. -/
theorem joined_behind (h : p ∈ (d.root.unfold project).joined.graph.ports) :
    (d.root.unfold project).joined.graph.Joined p (d.behind project p) := by
  rcases isWired_or_terminal h with h | ⟨m, hm, hkind, -, rfl | rfl⟩
  · rcases wired_behind hp hnodup h with heq | hwired
    · rw [heq]
      exact .refl p
    · exact PortGraph.Adjacent.joined (adjacent_joined.2 (Or.inl (.wired hwired)))
  all_goals
    rw [behind_terminal hnodup hm hkind]
    exact .refl _

/-- Linked ports shrink to one port, or stay linked in the drawing. -/
theorem drawn_linked (h : d.Linked project p q) :
    d.behind project p = d.behind project q ∨
      (d.drawn project id name).Linked .empty (d.behind project p) (d.behind project q) := by
  rcases linked_iff.1 h with h | ⟨m, hm, hkind, ht, rfl, rfl⟩
  · exact (drawn_wired hp hnodup hd id name h).imp_right fun h => .wired h
  · rw [behind_terminal hnodup hm hkind, behind_terminal hnodup hm hkind]
    exact Or.inr ((drawn_linked_iff hp hnodup hd id name).2 (Or.inr ⟨m, hm, hkind, ht, rfl, rfl⟩))

/-- No port of the graph is lost in the drawing. -/
theorem mem_ports_drawn (h : p ∈ (d.root.unfold project).joined.graph.ports) :
    d.behind project p ∈ ((d.drawn project id name).root.unfold .empty).joined.graph.ports := by
  rcases isWired_or_terminal h with h | ⟨m, hm, hkind, ht, hport⟩
  · obtain ⟨q, h⟩ := drawn_isWired hp hnodup hd id name h
    exact mem_ports_joined.2 ⟨q, h.imp .wired .wired⟩
  · have hlinked : (d.drawn project id name).Linked .empty (m.terminal "a") (m.terminal "b") :=
      (drawn_linked_iff hp hnodup hd id name).2 (Or.inr ⟨m, hm, hkind, ht, rfl, rfl⟩)
    rcases hport with rfl | rfl
    · rw [behind_terminal hnodup hm hkind]
      exact mem_ports_joined.2 ⟨_, Or.inl hlinked⟩
    · rw [behind_terminal hnodup hm hkind]
      exact mem_ports_joined.2 ⟨_, Or.inr hlinked⟩

/-- What the drawing links was joined, and nothing stands behind it. -/
theorem joined_of_drawn_linked (h : (d.drawn project id name).Linked .empty p q) :
    (p ∈ (d.root.unfold project).joined.graph.ports ∧
      (d.root.unfold project).joined.graph.Joined p q) ∧
    d.behind project p = p ∧ d.behind project q = q := by
  rcases (drawn_linked_iff hp hnodup hd id name).1 h with h | ⟨m, hm, hkind, ht, rfl, rfl⟩
  · obtain ⟨l, hl, rfl, rfl⟩ := (drawn_wired_iff hp hnodup hd id name).1 h
    -- from the port behind one end to that end, along the edge, and on to what is behind the other
    have hadj := adjacent_joined.2 (Or.inl (.wired (wired_of_edgeLink hp hd hl)))
    have hfirst := joined_behind hp hnodup hadj.mem_ports
    have hsecond := joined_behind hp hnodup hadj.symm.mem_ports
    refine ⟨⟨hfirst.mem_ports hadj.mem_ports, ?_⟩,
      (wired_behind_edgeLink hp hnodup hl (Or.inl rfl)).2,
      (wired_behind_edgeLink hp hnodup hl (Or.inr rfl)).2⟩
    exact hfirst.symm.trans (hadj.joined.trans hsecond)
  · have hadj := adjacent_joined.2 (Or.inl (linked_iff.2 (Or.inr ⟨m, hm, hkind, ht, rfl, rfl⟩)))
    exact ⟨⟨hadj.mem_ports, hadj.joined⟩, behind_terminal hnodup hm hkind _,
      behind_terminal hnodup hm hkind _⟩

/-- The graph of a diagram contracts to that of the drawing. -/
theorem contracts_drawn :
    (d.root.unfold project).joined.graph.Contracts
      ((d.drawn project id name).root.unfold .empty).joined.graph (d.behind project) where
  step := by
    intro p q h
    rcases adjacent_joined.1 h with h | h
    · exact (drawn_linked hp hnodup hd id name h).imp_right fun h => adjacent_joined.2 (Or.inl h)
    · exact (drawn_linked hp hnodup hd id name h).imp Eq.symm fun h => adjacent_joined.2 (Or.inr h)
  mem_ports := mem_ports_drawn hp hnodup hd id name
  home := joined_behind hp hnodup
  lift := by
    intro p q h
    rcases adjacent_joined.1 h with h | h
    · exact (joined_of_drawn_linked hp hnodup hd id name h).1
    · obtain ⟨⟨hmem, hjoined⟩, -⟩ := joined_of_drawn_linked hp hnodup hd id name h
      exact ⟨hjoined.mem_ports hmem, hjoined.symm⟩
  fixed := by
    intro p h
    obtain ⟨q, h | h⟩ := mem_ports_joined.1 h
    · exact (joined_of_drawn_linked hp hnodup hd id name h).2.1
    · exact (joined_of_drawn_linked hp hnodup hd id name h).2.2

/-! ### The order of the nets -/

omit hnodup in
/-- No link of the unfolding of plain diagrams joins a port to itself. -/
theorem filter_links_unfold :
    ((d.root.unfold project).links.filter fun l => l.first ≠ l.second) =
      (d.root.unfold project).links := by
  refine List.filter_eq_self.2 fun l hl => decide_eq_true ?_
  obtain ⟨c, hc, hl⟩ := Copy.mem_unfold_links.1 hl
  rcases Copy.mem_links.1 hl with ⟨e, he, rfl⟩ | ⟨n, -, c', hb, id, -, rfl⟩
  · exact mt Edge.first_eq_second_link.1 (hd.edgeLink_ne hp hc he)
  · intro heq
    exact Copy.node_port_ne hb id (congrArg Port.node heq)

omit hd hp hnodup in
/-- The links from wired ports bring in no new key, because an edge of the same copy has touched
    the port before. -/
theorem distinct_keys_edgeLinks {β : Type} [DecidableEq β] {key : Port → β}
    (hkey : ∀ {p q}, d.Linked project p q → key p = key q) :
    distinct ((d.root.unfold project).links.flatMap fun l => l.ports.map key) =
      distinct ((d.root.unfold project).edgeLinks.flatMap fun l => l.ports.map key) := by
  have hparts : (d.root.unfold project).links.flatMap (fun l => l.ports.map key) =
      (d.root.descendants project).flatMap fun c =>
        ((c.accepted project).map (Edge.link c.scope)).flatMap (fun l => l.ports.map key) ++
          (c.diagram.firsts.flatMap (c.boundary project)).flatMap fun l => l.ports.map key := by
    rw [Copy.unfold, List.flatMap_assoc]
    congr 1
    funext c
    rw [Copy.links_eq, List.flatMap_append]
  rw [hparts, distinct_flatMap_append, Copy.edgeLinks_unfold, List.flatMap_assoc]
  intro c hc k hk
  obtain ⟨l, hl, hk⟩ := List.mem_flatMap.1 hk
  obtain ⟨n, hn, hl⟩ := List.mem_flatMap.1 hl
  obtain ⟨c', hb, id, hid, rfl⟩ := Copy.mem_boundary.1 hl
  obtain ⟨hexposed, e, he, hend⟩ := (Copy.mem_wired hb).1 hid
  obtain ⟨hmem, hs, ht⟩ := Copy.mem_accepted.1 he
  have hlinked : d.Linked project ⟨c.scope ++ n.id, some id⟩ (c'.port id) :=
    .wired (.boundary (Copy.mem_descendants.1 hc) (mem_firsts_iff.1 hn) hb hexposed hmem hs ht
      hend)
  -- the passage links its two ports, so they have the key of the one that the edge touches
  obtain rfl : k = key ⟨c.scope ++ n.id, some id⟩ := by
    simp only [Link.ports, List.map_cons, List.map_nil, List.mem_cons, List.not_mem_nil,
      or_false] at hk
    rcases hk with rfl | rfl
    · rfl
    · exact (hkey hlinked).symm
  refine List.mem_flatMap.2 ⟨e.link c.scope, List.mem_map_of_mem he, List.mem_map_of_mem ?_⟩
  simp only [Edge.ends, List.mem_cons, Prod.mk.injEq, List.not_mem_nil, or_false] at hend
  simp only [Link.ports, Edge.link, List.mem_cons, Port.mk.injEq, Option.some.injEq,
    String.append_right_inj, List.not_mem_nil, or_false]
  exact hend

/-- The classes of ports come up in one order in the graph of a diagram and in the drawing. -/
theorem distinct_keys_drawn :
    distinct (((d.drawn project id name).root.unfold .empty).joined.graph.ports.map
        (d.root.unfold project).joined.graph.classOf) =
      distinct ((d.root.unfold project).joined.graph.ports.map
        (d.root.unfold project).joined.graph.classOf) := by
  -- classes are keys that linked ports share, in the graph and in the drawing
  have hkey : ∀ {p q}, d.Linked project p q → (d.root.unfold project).joined.graph.classOf p =
      (d.root.unfold project).joined.graph.classOf q := by
    intro p q h
    have hadj := adjacent_joined.2 (Or.inl h)
    exact (PortGraph.classOf_eq_iff hadj.mem_ports).2 hadj.joined
  have hdrawn : ∀ {p q}, (d.drawn project id name).Linked .empty p q →
      (d.root.unfold project).joined.graph.classOf p =
        (d.root.unfold project).joined.graph.classOf q := by
    intro p q h
    obtain ⟨⟨hmem, hjoined⟩, -⟩ := joined_of_drawn_linked hp hnodup hd id name h
    exact (PortGraph.classOf_eq_iff hmem).2 hjoined
  have hne : ((d.drawn project id name).root.unfold .empty).links.filter
      (fun l => l.first ≠ l.second) = ((d.drawn project id name).root.unfold .empty).links := by
    refine List.filter_eq_self.2 fun l hl => decide_eq_true ?_
    rw [links_drawn hp hnodup] at hl
    obtain ⟨l', hl', rfl⟩ := List.mem_map.1 hl
    exact behind_edgeLink_ne hp hnodup hd hl'
  rw [distinct_keys_joined hdrawn, hne, links_drawn hp hnodup, List.flatMap_map,
    distinct_keys_joined hkey, filter_links_unfold hp hd, distinct_keys_edgeLinks hkey]
  congr 1
  refine List.flatMap_congr fun l hl => ?_
  -- the port behind the end of an edge is of one class with the end
  have hadj := adjacent_joined.2 (Or.inl (.wired (wired_of_edgeLink hp hd hl)))
  have hclass := fun {p} (h : p ∈ (d.root.unfold project).joined.graph.ports) =>
    (PortGraph.classOf_eq_iff h).2 (joined_behind hp hnodup h)
  simp only [Link.ports, List.map_cons, List.map_nil, ← hclass hadj.mem_ports,
    ← hclass hadj.symm.mem_ports]

/-- The components of the drawing are those of the full graph, less the ports of references. -/
theorem components_drawn :
    ((d.drawn project id name).root.unfold .empty).joined.graph.components.length =
        (d.root.unfold project).joined.graph.components.length ∧
      ∀ (i : Nat) (ms ms' : List Port),
        (d.root.unfold project).joined.graph.components[i]? = some ms →
        ((d.drawn project id name).root.unfold .empty).joined.graph.components[i]? = some ms' →
        ∀ p, p ∈ ms' ↔ p ∈ ms ∧ (d.root.unfold project).isReference p.node = false := by
  obtain ⟨hlen, hcomp⟩ := (contracts_drawn hp hnodup hd id name).components_correspond
    (distinct_keys_drawn hp hnodup hd id name)
  refine ⟨hlen, fun i ms ms' hms hms' p => ?_⟩
  rw [hcomp i ms ms' hms hms' p, Flat.behind_eq_self_iff]

/-! ### Seeds of the drawing -/

section Nets

variable [Zero K] {default : K}

omit hd hp in
/-- A node that is no reference proposes in the drawing what it proposed before. -/
theorem proposal_drawn (href : (d.root.unfold project).isReference p.node = false) :
    ((d.drawn project id name).root.unfold .empty).joined.proposal p =
      (d.root.unfold project).joined.proposal p := by
  have hids : (((d.drawn project id name).root.unfold .empty).joined.nodes.map (·.id)).Nodup := by
    show (((d.drawn project id name).root.unfold .empty).nodes.map (·.id)).Nodup
    rw [nodes_drawn hnodup, List.map_map]
    exact hnodup.sublist (List.filter_sublist.map _)
  -- the drawing has the nodes of the full graph that are no references
  have hmem : ∀ m', m' ∈ ((d.drawn project id name).root.unfold .empty).joined.nodes ↔
      ∃ m ∈ (d.root.unfold project).joined.nodes, m.kind ≠ .reference ∧
        (⟨m.id, m.id, "", m.kind, m.payload, []⟩ : FlatNode K) = m' := by
    intro m'
    show m' ∈ ((d.drawn project id name).root.unfold .empty).nodes ↔ _
    rw [nodes_drawn hnodup, List.mem_map]
    simp only [List.mem_filter, decide_eq_true_eq, and_assoc]
    rfl
  rw [Topology.proposal, Topology.proposal]
  cases hn : (d.root.unfold project).joined.node? p.node with
  | none =>
    cases hn' : ((d.drawn project id name).root.unfold .empty).joined.node? p.node with
    | none => rfl
    | some m' =>
      obtain ⟨hm', hid⟩ := (Topology.node?_eq_some_iff hids).1 hn'
      obtain ⟨m, hm, -, rfl⟩ := (hmem m').1 hm'
      have hsome := (Topology.node?_eq_some_iff (t := (d.root.unfold project).joined) hnodup).2
        ⟨hm, hid⟩
      exact absurd (hn.symm.trans hsome) (by simp)
  | some m =>
    obtain ⟨hm, hid⟩ :=
      (Topology.node?_eq_some_iff (t := (d.root.unfold project).joined) hnodup).1 hn
    -- the node with the id is the one that the hypothesis speaks about
    have hne : m.kind ≠ .reference := by
      intro hkind
      have hany : (d.root.unfold project).isReference p.node = true :=
        List.any_eq_true.2 ⟨m, hm, by simp [hid, hkind]⟩
      rw [href] at hany
      exact absurd hany (by simp)
    have hn' := (Topology.node?_eq_some_iff hids).2 ⟨(hmem _).2 ⟨m, hm, hne, rfl⟩, hid⟩
    rw [hn']

omit hd hp in
theorem proposal_reference (href : (d.root.unfold project).isReference p.node = true) :
    (d.root.unfold project).joined.proposal p = .ok none := by
  obtain ⟨m, hm, hmp⟩ := List.any_eq_true.1 href
  simp only [Bool.and_eq_true, decide_eq_true_eq] at hmp
  refine Topology.proposal_eq_none
    ((Topology.node?_eq_some_iff (t := (d.root.unfold project).joined) hnodup).2 ⟨hm, hmp.1⟩) ?_
  simp [hmp.2]

/-- The drawing has a seed for each net, over exact numbers the same one. -/
theorem exists_seed_drawn {i : Nat} {ms ms' : List Port} {value : K}
    (hms : (d.root.unfold project).joined.graph.components[i]? = some ms)
    (hms' : ((d.drawn project id name).root.unfold .empty).joined.graph.components[i]? = some ms')
    (hseed : (d.root.unfold project).joined.seed ms default = .ok value) :
    ∃ value', ((d.drawn project id name).root.unfold .empty).joined.seed ms' default = .ok value' ∧
      (AddsExactly K → value' = value) := by
  have hmem := (components_drawn hp hnodup hd id name).2 i ms ms' hms hms'
  -- no component lists a port twice, so equal members make a permutation
  have hnodupOf : ∀ {g : PortGraph} {ms : List Port}, g.components[i]? = some ms → ms.Nodup := by
    intro g ms h
    exact (List.nodup_flatten.1 g.nodup_flatten_components).1 ms (List.mem_of_getElem? h)
  refine Topology.exists_seed (fun p => !(d.root.unfold project).isReference p.node) ?_ ?_ ?_ hseed
  · refine (List.perm_ext_iff_of_nodup (hnodupOf hms') ((hnodupOf hms).filter _)).2 fun p => ?_
    rw [hmem, List.mem_filter, Bool.not_eq_true']
  · intro p _ hstays
    exact proposal_drawn hnodup id name (by simpa using hstays)
  · intro p _ hstays
    exact proposal_reference hnodup (by simpa using hstays)

/-! ### Networks of the drawing -/

theorem exists_network_drawn {built : Network K}
    (h : (d.root.unfold project).joined.network default = .ok built) :
    ∃ hand, ((d.drawn project id name).root.unfold .empty).joined.network default = .ok hand := by
  refine Topology.exists_network_iff.2 fun ms' hms' => ?_
  obtain ⟨i, hi'⟩ := List.getElem?_of_mem hms'
  -- the component with the same number has a seed
  have hlt : i < (d.root.unfold project).joined.graph.components.length := by
    rw [← (components_drawn hp hnodup hd id name).1]
    exact (List.getElem?_eq_some_iff.1 hi').1
  have hi := List.getElem?_eq_getElem hlt
  obtain ⟨value, hvalue⟩ := Topology.exists_network_iff.1 ⟨built, h⟩ _ (List.getElem_mem hlt)
  obtain ⟨value', hvalue', -⟩ := exists_seed_drawn hp hnodup hd id name hi hi' hvalue
  exact ⟨value', hvalue'⟩

variable {built hand : Network K}
  (h : (d.root.unfold project).joined.network default = .ok built)
  (h' : ((d.drawn project id name).root.unfold .empty).joined.network default = .ok hand)
include h h'

theorem size_drawn : hand.size = built.size := by
  have hlen := (components_drawn hp hnodup hd id name).1
  rw [← Topology.members_network h, ← Topology.members_network h', List.length_map,
    List.length_map] at hlen
  exact hlen

theorem members_drawn {i : Nat} {net net' : Net K} (hnet : built.nets[i]? = some net)
    (hnet' : hand.nets[i]? = some net') :
    p ∈ net'.members ↔ p ∈ net.members ∧ (d.root.unfold project).isReference p.node = false :=
  (components_drawn hp hnodup hd id name).2 i _ _
    ((Topology.getElem?_network h).1 ⟨net, hnet, rfl⟩)
    ((Topology.getElem?_network h').1 ⟨net', hnet', rfl⟩) p

theorem value_drawn (hK : AddsExactly K) {i : Nat} {net net' : Net K}
    (hnet : built.nets[i]? = some net) (hnet' : hand.nets[i]? = some net') :
    net'.value = net.value := by
  obtain ⟨value, hvalue, hexact⟩ := exists_seed_drawn hp hnodup hd id name
    ((Topology.getElem?_network h).1 ⟨net, hnet, rfl⟩)
    ((Topology.getElem?_network h').1 ⟨net', hnet', rfl⟩)
    (Topology.seed_network h (List.mem_of_getElem? hnet))
  have hvalue' := Topology.seed_network h' (List.mem_of_getElem? hnet')
  exact (Except.ok.inj (hvalue'.symm.trans hvalue)).trans (hexact hK)

/-- A port of a node that is no reference is in the net with one number in both networks. -/
theorem mem_net_drawn {node : String} {port : PortName}
    (href : (d.root.unfold project).isReference node = false) (i : Nat) :
    (∃ net, hand.nets[i]? = some net ∧ ⟨node, port⟩ ∈ net.members) ↔
      ∃ net, built.nets[i]? = some net ∧ ⟨node, port⟩ ∈ net.members := by
  have hsize : hand.nets.length = built.nets.length := size_drawn hp hnodup hd id name h h'
  -- as many nets, and net by net the same ports but those of references
  constructor
  · intro hlisted
    obtain ⟨net', hnet', hmem⟩ := hlisted
    have hlt := hsize ▸ (List.getElem?_eq_some_iff.1 hnet').1
    have hnet := List.getElem?_eq_getElem hlt
    exact ⟨_, hnet, ((members_drawn hp hnodup hd id name h h' hnet hnet').1 hmem).1⟩
  · intro hlisted
    obtain ⟨net, hnet, hmem⟩ := hlisted
    have hlt := hsize ▸ (List.getElem?_eq_some_iff.1 hnet).1
    have hnet' := List.getElem?_eq_getElem hlt
    exact ⟨_, hnet', (members_drawn hp hnodup hd id name h h' hnet hnet').2 ⟨hmem, href⟩⟩

/-- The nodes of the drawing are those of the network, less the references, with the same nets. -/
theorem alike_drawn :
    List.Forall₂ FlatNode.Alike hand.nodes (built.nodes.filter fun n => n.kind ≠ .reference) := by
  have hhand : hand.nodes = ((d.root.unfold project).nodes.filter fun n => n.kind ≠ .reference).map
      fun n => (⟨n.id, n.id, "", n.kind, n.payload, []⟩ : FlatNode K).recordNets 0
        ((d.drawn project id name).root.unfold .empty).joined.graph.components := by
    rw [Topology.nodes_network h']
    show ((d.drawn project id name).root.unfold .empty).nodes.map _ = _
    rw [nodes_drawn hnodup, List.map_map]
    rfl
  have hbuilt : built.nodes.filter (fun n => n.kind ≠ .reference) =
      ((d.root.unfold project).nodes.filter fun n => n.kind ≠ .reference).map
        fun n => n.recordNets 0 (d.root.unfold project).joined.graph.components := by
    rw [Topology.nodes_network h, List.filter_map]
    simp only [Function.comp_def, FlatNode.kind_recordNets]
    rfl
  -- before nets are allocated no node has recorded any
  have hfresh : ∀ {e : Diagram K} {p : Project K}, ∀ n ∈ (e.root.unfold p).joined.nodes,
      n.ports = [] := by
    intro e p n hn
    obtain ⟨c, -, m, -, rfl⟩ := Copy.mem_nodes.1 hn
    rfl
  rw [hhand, hbuilt, List.forall₂_map_left_iff, List.forall₂_map_right_iff, List.forall₂_same]
  intro m hm
  refine ⟨by simp, by simp, by simp, fun port => Option.ext fun i => ?_⟩
  have hm' := hhand ▸ List.mem_map_of_mem (f := fun n : FlatNode K =>
    (⟨n.id, n.id, "", n.kind, n.payload, []⟩ : FlatNode K).recordNets 0
      ((d.drawn project id name).root.unfold .empty).joined.graph.components) hm
  have hm'' := List.mem_of_mem_filter (hbuilt ▸ List.mem_map_of_mem (f := fun n : FlatNode K =>
    n.recordNets 0 (d.root.unfold project).joined.graph.components) hm)
  rw [Topology.net?_network h' hfresh hm', Topology.net?_network h hfresh hm'',
    FlatNode.id_recordNets, FlatNode.id_recordNets]
  obtain ⟨hm, hne⟩ := List.mem_filter.1 hm
  refine mem_net_drawn hp hnodup hd id name h h' ?_ i
  have hself := behind_of_mem_nodes hnodup hm (of_decide_eq_true hne) port
  exact Flat.behind_eq_self_iff.1 hself

end Nets

end Diagram

end Wired

/-! ### The two networks -/

variable [Sub K] [Mul K] [Neg K] [Zero K]

/-- With distinct ids and no edge from a port to itself, a diagram that can be built can be drawn by
    hand without references, and built to as many nets: net by net with the same ports but those
    of references, over exact numbers with the same seeds, and with the same system everywhere. -/
theorem build_byHand {project : Project K} {strict : Bool} {d : Diagram K} {default : K}
    {built : Network K} (hd : d.IsPlain) (hp : ∀ t ∈ project.diagrams, t.IsPlain)
    (h : (d.build project strict default).result = .ok built) (id name : String) (strict' : Bool) :
    ∃ flat hand, (d.flatten project strict).result = .ok flat ∧
      ((flat.byHand id name).build .empty strict' default).result = .ok hand ∧
      hand.size = built.size ∧
      (∀ (i : Nat) net net', built.nets[i]? = some net → hand.nets[i]? = some net' →
        (∀ p, p ∈ net'.members ↔ p ∈ net.members ∧ flat.isReference p.node = false) ∧
        (AddsExactly K → net'.value = net.value)) ∧
      ∀ x, (hand.assemble x).map EquationSystem.table =
        (built.assemble x).map EquationSystem.table := by
  obtain ⟨hflat, hnet⟩ := Diagram.build_eq_ok.1 h
  have hnodup := (Diagram.flatten_eq_ok.1 hflat).2.2
  obtain ⟨hand, hhand⟩ := Diagram.exists_network_drawn hp hnodup hd id name hnet
  -- the drawing flattens to the nodes and edges that it was made of
  have hdrawn := Diagram.flatten_byHand hp hflat id name strict'
  rw [(Diagram.flatten_eq_ok.1 hdrawn).1] at hdrawn
  have hsize := Diagram.size_drawn hp hnodup hd id name hnet hhand
  refine ⟨d.root.unfold project, hand, hflat, ?_, hsize, ?_, ?_⟩
  · rw [Diagram.build_result_of_flatten hdrawn, hhand]
  · intro i net net' hi hi'
    exact ⟨fun p => Diagram.members_drawn hp hnodup hd id name hnet hhand hi hi',
      fun hK => Diagram.value_drawn hp hnodup hd id name hnet hhand hK hi hi'⟩
  · exact Network.table_assemble_congr hsize
      (Diagram.alike_drawn hp hnodup hd id name hnet hhand)

/-- The source beside the cell and the one inside of it, drawn without the reference. -/
theorem build_byHand_aroundCell :
    ∃ (built hand : Network ℚ) (flat : Flat ℚ),
      ((Diagram.aroundCell [⟨"s", "a", "r", "p"⟩]).build .ofCell true 1).result = .ok built ∧
      ((flat.byHand "drawn" "drawn").build .empty false 1).result = .ok hand ∧
      hand.size = built.size ∧
      ∀ (i : Nat) net net', built.nets[i]? = some net → hand.nets[i]? = some net' →
        net'.value = net.value := by
  have hnets : ((Diagram.aroundCell [⟨"s", "a", "r", "p"⟩]).build .ofCell true 1).result.map
      (·.nets.length) = .ok 1 := by
    decide +kernel
  obtain ⟨built, hbuilt, -⟩ := map_eq_ok.1 hnets
  have hd : (Diagram.aroundCell [⟨"s", "a", "r", "p"⟩]).IsPlain := ⟨by decide, by decide⟩
  have hp : ∀ t ∈ Project.ofCell.diagrams, t.IsPlain := by
    intro t ht
    obtain rfl : t = .cell := List.mem_singleton.1 ht
    exact ⟨by decide, by decide⟩
  have hK : AddsExactly ℚ := ⟨Rat.add_assoc, Rat.add_comm, Rat.zero_add⟩
  obtain ⟨flat, hand, -, hhand, hsize, hmembers, -⟩ :=
    build_byHand hd hp hbuilt "drawn" "drawn" false
  exact ⟨built, hand, flat, hbuilt, hhand, hsize,
    fun i net net' hnet hnet' => (hmembers i net net' hnet hnet').2 hK⟩

end NetBalance
