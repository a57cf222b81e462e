import NetBalance.Proofs.NetPartition
import NetBalance.Proofs.Rational

/-! # Isolated copies

    What is inlined behind a reference is joined to what is around it through
    the ports of that reference only.  An edge joins two nodes of one copy, a
    source joins its own terminals, and a passage leads from a reference to the
    copy right behind it.  So a chain of links that leaves a copy takes a
    passage of the reference that the copy stands for. -/

namespace NetBalance

variable {K : Type}

/-! ### Chains across a border -/

/-- A chain of links that leads out of a set of ports has a link that leads out of it. -/
theorem PortGraph.Joined.exists_crossing {g : PortGraph} {p q : Port} {inside : Port → Prop}
    (h : g.Joined p q) (hp : inside p) (hq : ¬ inside q) :
    ∃ a b, g.Joined p a ∧ g.Adjacent a b ∧ inside a ∧ ¬ inside b := by
  induction h with
  | refl p => exact absurd hp hq
  | @step p b q hadj _ ih =>
    by_cases hb : inside b
    · obtain ⟨a, a', hjoined, hstep, ha, ha'⟩ := ih hb hq
      exact ⟨a, a', .step hadj hjoined, hstep, ha, ha'⟩
    · exact ⟨p, b, .refl p, hadj, hp, hb⟩

/-! ### Inside and outside of a copy -/

namespace Copy

variable {project : Project K} {root c c' d : Copy K} {n m : PlacedNode K} {p q : Port}

/-- The port belongs to a node inside the copy, at any depth. -/
def Encloses (project : Project K) (c : Copy K) (p : Port) : Prop :=
  p.node ∈ (c.nodes project).map (·.id)

instance : Decidable (c.Encloses project p) := inferInstanceAs (Decidable (_ ∈ _))

theorem encloses_congr (h : p.node = q.node) : c.Encloses project p ↔ c.Encloses project q := by
  rw [Encloses, Encloses, h]

theorem descendants_trans (hc : c ∈ root.descendants project) (hd : d ∈ c.descendants project) :
    d ∈ root.descendants project :=
  mem_descendants.2 ((mem_descendants.1 hc).trans (mem_descendants.1 hd))

section Distinct

variable (hnodup : ((root.nodes project).map (·.id)).Nodup)
include hnodup

/-- A copy encloses the nodes of the copies below it and no others. -/
theorem encloses_iff (hc : c ∈ root.descendants project) (hd : d ∈ root.descendants project)
    (hn : n ∈ d.diagram.firsts) (hp : p.node = d.scope ++ n.id) :
    c.Encloses project p ↔ d ∈ c.descendants project := by
  constructor
  · intro h
    obtain ⟨k, hk, hid⟩ := List.mem_map.1 h
    obtain ⟨e, he, m, hm, rfl⟩ := mem_nodes.1 hk
    have hsame : d.scope ++ n.id = e.scope ++ m.id := hp.symm.trans hid.symm
    have heq := eq_of_flatId hnodup hd hn (descendants_trans hc he) hm hsame
    exact heq.1 ▸ he
  · intro h
    have hmem : n.flat d.scope ∈ c.nodes project := mem_nodes.2 ⟨d, h, n, hn, rfl⟩
    exact List.mem_map.2 ⟨_, hmem, hp.symm⟩

/-- A copy stands behind one reference only. -/
theorem eq_of_behind? (hc : c ∈ root.descendants project) (hn : n ∈ c.diagram.firsts)
    (hb : c.behind? project n = some c') (hd : d ∈ root.descendants project)
    (hm : m ∈ d.diagram.firsts) (hb' : d.behind? project m = some c') : c = d ∧ n = m := by
  have hscope : c.scope ++ n.id ++ "." = d.scope ++ m.id ++ "." :=
    (scope_of_behind? hb).symm.trans (scope_of_behind? hb')
  have hid : c.scope ++ n.id = d.scope ++ m.id := (String.append_left_inj ".").1 hscope
  exact eq_of_flatId hnodup hc hn hd hm hid

/-- Whoever enters a copy below another is below that one, too, unless it enters just that one. -/
theorem mem_descendants_of_enters (hc : c ∈ root.descendants project)
    (hd : d ∈ root.descendants project) (hm : m ∈ d.diagram.firsts)
    (hb : d.behind? project m = some c') (hc' : c' ∈ c.descendants project) :
    c' = c ∨ d ∈ c.descendants project := by
  rcases Relation.ReflTransGen.cases_tail (mem_descendants.1 hc') with heq | ⟨e, hce, k, hk, hek⟩
  · exact Or.inl heq
  · have he : e ∈ c.descendants project := mem_descendants.2 hce
    have heq := eq_of_behind? hnodup hd hm hb (descendants_trans hc he) hk hek
    exact Or.inr (heq.1 ▸ he)

end Distinct

end Copy

/-! ### Links across the border of a copy -/

variable [Add K] [Div K] [One K] [Scalar K]

namespace Copy

variable {project : Project K} {c : Copy K} {l : Link}

/-- The link of an edge joins two nodes of one copy. -/
theorem exists_copy_of_edge (hl : l ∈ (c.unfold project).links) (hkind : l.kind = .edge) :
    ∃ d ∈ c.descendants project, ∃ s ∈ d.diagram.firsts, ∃ t ∈ d.diagram.firsts,
      l.first.node = d.scope ++ s.id ∧ l.second.node = d.scope ++ t.id := by
  obtain ⟨d, hd, hl⟩ := mem_unfold_links.1 hl
  rcases mem_links.1 hl with ⟨e, he, rfl⟩ | ⟨n, -, c', -, id, -, rfl⟩
  · obtain ⟨-, ⟨s, hs, -⟩, ⟨t, ht, -⟩⟩ := mem_accepted.1 he
    refine ⟨d, hd, s, Diagram.mem_firsts_of_node? hs, t, Diagram.mem_firsts_of_node? ht, ?_, ?_⟩
    · rw [Diagram.id_of_node? hs]
      rfl
    · rw [Diagram.id_of_node? ht]
      rfl
  · cases hkind

end Copy

namespace Diagram

variable {project : Project K} {d : Diagram K} {c c' : Copy K} {n : PlacedNode K} {a b : Port}

section Border

variable (hnodup : ((d.root.nodes project).map (·.id)).Nodup)
  (hc : c ∈ d.root.descendants project) (hn : n ∈ c.diagram.firsts)
  (hb : c.behind? project n = some c')
include hnodup hc hn hb

/-- A link of the unfolding stays on one side of the border, or it is a passage of the reference. -/
theorem encloses_or_passage {l : Link} (hl : l ∈ (d.root.unfold project).links) :
    (c'.Encloses project l.first ↔ c'.Encloses project l.second) ∨
      ∃ id ∈ c.wired project n, l = ⟨⟨c.scope ++ n.id, some id⟩, c'.port id, .boundary⟩ := by
  have hc' : c' ∈ d.root.descendants project := Copy.mem_descendants_of_behind? hc hn hb
  obtain ⟨e, he, hl'⟩ := Copy.mem_unfold_links.1 hl
  rcases Copy.mem_links.1 hl' with ⟨edge, hedge, rfl⟩ | ⟨m, hm, e', hbe, id, hid, rfl⟩
  -- both ends of an edge are in the copy that the edge is in
  · obtain ⟨f, hf, s, hs, t, ht, hfirst, hsecond⟩ := Copy.exists_copy_of_edge hl rfl
    have hside := Copy.encloses_iff hnodup hc' hf hs hfirst
    exact Or.inl (hside.trans (Copy.encloses_iff hnodup hc' hf ht hsecond).symm)
  -- a passage leads from one copy to the next
  · have hexposed : id ∈ e'.diagram.exposedIds := ((Copy.mem_wired hbe).1 hid).1
    obtain ⟨k, hk⟩ := node?_of_mem_exposedIds hexposed
    have he' : e' ∈ d.root.descendants project := Copy.mem_descendants_of_behind? he hm hbe
    have hport : (e'.port id).node = e'.scope ++ k.id := by
      rw [id_of_node? hk]
      rfl
    have hfirst : c'.Encloses project ⟨e.scope ++ m.id, some id⟩ ↔ e ∈ c'.descendants project :=
      Copy.encloses_iff hnodup hc' he hm rfl
    have hsecond : c'.Encloses project (e'.port id) ↔ e' ∈ c'.descendants project :=
      Copy.encloses_iff hnodup hc' he' (mem_firsts_of_node? hk) hport
    by_cases hbelow : e ∈ c'.descendants project
    · have hbelow' := Copy.mem_descendants_of_behind? hbelow hm hbe
      exact Or.inl (iff_of_true (hfirst.2 hbelow) (hsecond.2 hbelow'))
    by_cases hbelow' : e' ∈ c'.descendants project
    · -- it enters the copy from outside, so it is a passage of the reference in question
      have heq : e' = c' :=
        (Copy.mem_descendants_of_enters hnodup hc' he hm hbe hbelow').resolve_right hbelow
      subst heq
      obtain ⟨rfl, rfl⟩ := Copy.eq_of_behind? hnodup he hm hbe hc hn hb
      exact Or.inr ⟨id, hid, rfl⟩
    · exact Or.inl (iff_of_false (mt hfirst.1 hbelow) (mt hsecond.1 hbelow'))

/-- Linked ports on different sides of the border are the two ends of a passage of the
    reference. -/
theorem exists_passage_of_linked (h : d.Linked project a b) :
    (c'.Encloses project a ↔ c'.Encloses project b) ∨
      ∃ id ∈ c.wired project n, a = ⟨c.scope ++ n.id, some id⟩ ∧ b = c'.port id := by
  rcases linked_iff.1 h with hwired | ⟨m, -, -, -, rfl, rfl⟩
  · obtain ⟨l, hl, -, rfl, rfl⟩ := wired_iff.1 hwired
    rcases encloses_or_passage hnodup hc hn hb hl with hside | ⟨id, hid, rfl⟩
    · exact Or.inl hside
    · exact Or.inr ⟨id, hid, rfl, rfl⟩
  -- the terminals of a source belong to one node
  · have hnode : (m.terminal "a").node = (m.terminal "b").node := rfl
    exact Or.inl (Copy.encloses_congr hnode)

/-- A chain of links from inside the copy to outside takes a passage of the reference. -/
theorem exists_passage_of_joined {p q : Port}
    (h : (d.root.unfold project).joined.graph.Joined p q) (hp : c'.Encloses project p)
    (hq : ¬ c'.Encloses project q) :
    ∃ id ∈ c.wired project n,
      (d.root.unfold project).joined.graph.Joined p (c'.port id) ∧
        (d.root.unfold project).joined.graph.Joined p ⟨c.scope ++ n.id, some id⟩ := by
  obtain ⟨a, b, hpa, hab, ha, hb'⟩ := h.exists_crossing hp hq
  have hpb := hpa.trans hab.joined
  rcases adjacent_joined.1 hab with hlink | hlink
  · rcases exists_passage_of_linked hnodup hc hn hb hlink with hside | ⟨id, hid, rfl, rfl⟩
    · exact absurd (hside.1 ha) hb'
    · exact ⟨id, hid, hpb, hpa⟩
  · rcases exists_passage_of_linked hnodup hc hn hb hlink with hside | ⟨id, hid, rfl, rfl⟩
    · exact absurd (hside.2 ha) hb'
    · exact ⟨id, hid, hpa, hpb⟩

end Border

end Diagram

/-! ### Nets across the border of a copy -/

variable [Zero K]

/-- Flattening links only nodes that it lists, so linking them raises no error, and an edge links
    two nodes of one copy.  A net with ports inside and outside of the copy behind a reference
    holds a port of the reference that an edge touches, with the port behind it.  Where no edge
    touches the reference, no net leaves the copy. -/
theorem copies_isolated {project : Project K} {strict : Bool} {d : Diagram K} {default : K}
    {built : Network K} (h : (d.build project strict default).result = .ok built) :
    (∃ flat, (d.flatten project strict).result = .ok flat ∧
      (∀ l ∈ flat.links, l.first.node ∈ flat.ids ∧ l.second.node ∈ flat.ids) ∧
      (∃ t, flat.topology.result = .ok t) ∧
      ∀ l ∈ flat.links, l.kind = .edge → ∃ c ∈ d.root.descendants project,
        ∃ s ∈ c.diagram.firsts, ∃ t ∈ c.diagram.firsts,
          l.first.node = c.scope ++ s.id ∧ l.second.node = c.scope ++ t.id) ∧
    ∀ c ∈ d.root.descendants project, ∀ n ∈ c.diagram.firsts, ∀ c',
      c.behind? project n = some c' →
        (∀ net ∈ built.nets, ∀ p ∈ net.members, ∀ q ∈ net.members,
          c'.Encloses project p → ¬ c'.Encloses project q →
            ∃ id ∈ c'.diagram.exposedIds, (∃ e ∈ c.accepted project, (n.id, id) ∈ e.ends) ∧
              ⟨c.scope ++ n.id, some id⟩ ∈ net.members ∧ c'.port id ∈ net.members) ∧
        ((∀ e ∈ c.diagram.edges, ∀ stop ∈ e.ends, stop.1 ≠ n.id) →
          ∀ net ∈ built.nets, ∀ p ∈ net.members, ∀ q ∈ net.members,
            c'.Encloses project p → c'.Encloses project q) := by
  obtain ⟨hflat, hnet⟩ := Diagram.build_eq_ok.1 h
  obtain ⟨-, -, hnodup⟩ := Diagram.flatten_eq_ok.1 hflat
  have hclosed : (d.root.unfold project).IsClosed := Copy.isClosed_unfold d.root
  refine ⟨⟨_, hflat, hclosed, ⟨_, Flat.topology_result hclosed⟩, ?_⟩, ?_⟩
  · intro l hl hkind
    exact Copy.exists_copy_of_edge hl hkind
  intro c hc n hn c' hb
  have hpassage : ∀ net ∈ built.nets, ∀ p ∈ net.members, ∀ q ∈ net.members,
      c'.Encloses project p → ¬ c'.Encloses project q →
        ∃ id ∈ c'.diagram.exposedIds, (∃ e ∈ c.accepted project, (n.id, id) ∈ e.ends) ∧
          ⟨c.scope ++ n.id, some id⟩ ∈ net.members ∧ c'.port id ∈ net.members := by
    intro net hmem p hp q hq hin hout
    have hcomponent : net.members ∈ (d.root.unfold project).joined.graph.components := by
      rw [← Topology.members_network hnet]
      exact List.mem_map_of_mem hmem
    have hjoined : ∀ r, r ∈ net.members ↔ (d.root.unfold project).joined.graph.Joined p r :=
      fun r => PortGraph.mem_component_iff_joined hcomponent hp
    obtain ⟨id, hid, hinner, hport⟩ :=
      Diagram.exists_passage_of_joined hnodup hc hn hb ((hjoined q).1 hq) hin hout
    obtain ⟨hexposed, htouched⟩ := (Copy.mem_wired hb).1 hid
    exact ⟨id, hexposed, htouched, (hjoined _).2 hport, (hjoined _).2 hinner⟩
  refine ⟨hpassage, ?_⟩
  intro hfree net hmem p hp q hq hin
  by_contra hout
  obtain ⟨id, -, ⟨e, he, hend⟩, -⟩ := hpassage net hmem p hp q hq hin hout
  exact hfree e (Copy.mem_accepted.1 he).1 _ hend rfl

/-- The net of the cell behind a reference leaves it by the one port of the reference. -/
theorem copies_isolated_aroundCell :
    ∃ built : Network ℚ,
      ((Diagram.aroundCell [⟨"s", "a", "r", "p"⟩]).build .ofCell true 1).result = .ok built ∧
      ∃ net ∈ built.nets, ∃ id ∈ Diagram.cell.exposedIds,
        ⟨"r", some id⟩ ∈ net.members ∧ ⟨"r.p", some "a"⟩ ∈ net.members := by
  have hmembers :
      ((Diagram.aroundCell [⟨"s", "a", "r", "p"⟩]).build .ofCell true 1).result.map
          (·.nets.map (·.members)) =
        .ok [[⟨"s", some "a"⟩, ⟨"r", some "p"⟩, ⟨"r.p", some "a"⟩, ⟨"s", some "b"⟩,
          ⟨"r.p", some "b"⟩]] := by
    decide +kernel
  obtain ⟨built, hbuilt, hnets⟩ := map_eq_ok.1 hmembers
  obtain ⟨net, rest, hcons, hnet, -⟩ := List.map_eq_cons_iff.1 hnets
  have hmem : net ∈ built.nets := hcons ▸ List.mem_cons_self
  -- the copy of the cell encloses its source, and not the one beside the reference
  let c := (Diagram.aroundCell [⟨"s", "a", "r", "p"⟩]).root
  let n : PlacedNode ℚ := .reference "r" "cell"
  have hc : c ∈ c.descendants .ofCell := Copy.mem_descendants.2 .refl
  have hn : n ∈ c.diagram.firsts := Diagram.mem_firsts_iff.2 rfl
  have hb : c.behind? .ofCell n = some (c.inner n .cell) := rfl
  have hp : (c.inner n .cell).Encloses .ofCell ⟨"r.p", some "a"⟩ := by decide +kernel
  have hq : ¬ (c.inner n .cell).Encloses .ofCell ⟨"s", some "a"⟩ := by decide +kernel
  have hpnet : ⟨"r.p", some "a"⟩ ∈ net.members := by
    rw [hnet]
    decide
  have hqnet : ⟨"s", some "a"⟩ ∈ net.members := by
    rw [hnet]
    decide
  obtain ⟨id, hid, -, hport, -⟩ :=
    ((copies_isolated hbuilt).2 c hc n hn _ hb).1 net hmem _ hpnet _ hqnet hp hq
  exact ⟨built, hbuilt, net, hmem, id, hid, hport, hpnet⟩

end NetBalance
