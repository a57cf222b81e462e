import NetBalance.Proofs.Resemblance
import NetBalance.Proofs.Seeds
import Mathlib.Data.Finset.Dedup

/-! # Networks of the same nodes and links

    What a net holds depends on which ports are adjacent, and not on the order
    of nodes and links.  So two topologies with the same nodes and the same
    adjacent ports have the same nets, but for their numbers and for the order
    of their members; and over numbers that are added exactly the nets start
    from the same values. -/

namespace NetBalance

variable {K : Type}

namespace PortGraph

variable {g g' : PortGraph} {p q : Port} {ms : List Port}

/-! ### Graphs with the same adjacent ports -/

theorem joined_congr (h : ∀ p q, g.Adjacent p q ↔ g'.Adjacent p q) :
    g.Joined p q ↔ g'.Joined p q := by
  have hmono : ∀ {g g' : PortGraph}, (∀ p q, g.Adjacent p q → g'.Adjacent p q) →
      g.Joined p q → g'.Joined p q := by
    intro g g' hadj hpq
    induction hpq with
    | refl p => exact .refl p
    | step hstep _ ih => exact .step (hadj _ _ hstep) ih
  exact ⟨hmono fun p q => (h p q).1, hmono fun p q => (h p q).2⟩

theorem ports_congr (h : ∀ p q, g.Adjacent p q ↔ g'.Adjacent p q) :
    p ∈ g.ports ↔ p ∈ g'.ports := by
  rw [mem_ports_iff_adjacent, mem_ports_iff_adjacent]
  exact exists_congr fun q => h p q

/-- Every component of the one graph is one of the other, but for its order. -/
theorem exists_perm_component (h : ∀ p q, g.Adjacent p q ↔ g'.Adjacent p q)
    (hms : ms ∈ g.components) : ∃ ms' ∈ g'.components, ms.Perm ms' := by
  obtain ⟨p, hp⟩ := List.exists_mem_of_ne_nil ms (ne_nil_of_mem_components hms)
  have hport : p ∈ g'.ports := (ports_congr h).1 (mem_ports_of_mem_component hms hp)
  obtain ⟨ms', hms', hp'⟩ := exists_component hport
  have hnodup : ms.Nodup := (List.nodup_flatten.1 g.nodup_flatten_components).1 ms hms
  have hnodup' : ms'.Nodup := (List.nodup_flatten.1 g'.nodup_flatten_components).1 ms' hms'
  refine ⟨ms', hms', (List.perm_ext_iff_of_nodup hnodup hnodup').2 fun q => ?_⟩
  rw [mem_component_iff_joined hms hp, mem_component_iff_joined hms' hp', joined_congr h]

/-- No two components have the same ports. -/
theorem nodup_map_toFinset_components (g : PortGraph) :
    (g.components.map List.toFinset).Nodup := by
  obtain ⟨-, hdisj⟩ := List.nodup_flatten.1 g.nodup_flatten_components
  refine List.pairwise_map.2 (hdisj.imp_of_mem ?_)
  intro ms ms' hms _ hdisjoint heq
  obtain ⟨p, hp⟩ := List.exists_mem_of_ne_nil ms (ne_nil_of_mem_components hms)
  have hp' : p ∈ ms' := by
    rw [← List.mem_toFinset, ← heq, List.mem_toFinset]
    exact hp
  exact hdisjoint hp hp'

end PortGraph

/-! ### Topologies with the same nodes and the same adjacent ports -/

namespace Topology

/-- The nodes are the same, but for their order, and so are the adjacent ports. -/
structure Alike (t t' : Topology K) : Prop where
  nodup : (t.nodes.map (·.id)).Nodup
  nodes : t.nodes.Perm t'.nodes
  adjacent : ∀ p q, t.graph.Adjacent p q ↔ t'.graph.Adjacent p q

theorem Alike.symm {t t' : Topology K} (h : t.Alike t') : t'.Alike t :=
  ⟨(h.nodes.map (·.id)).nodup_iff.1 h.nodup, h.nodes.symm, fun p q => (h.adjacent p q).symm⟩

section Linked

variable {f f' : Flat K}

theorem adjacent_iff_undirected {links : List Link} {p q : Port} :
    (∃ l ∈ links, l.first ≠ l.second ∧ l.joins p q) ↔
      p ≠ q ∧ ∃ u ∈ links.map Link.undirected, u.1 = s(p, q) := by
  have hjoins : ∀ l : Link, l.joins p q ↔ l.undirected.1 = s(p, q) := fun l => by
    rw [Link.joins_iff, Link.undirected, Sym2.eq_iff]
  simp only [List.mem_map, exists_exists_and_eq_and, ← hjoins]
  constructor
  · intro h
    obtain ⟨l, hl, hne, hpq⟩ := h
    exact ⟨mt (Link.first_eq_second_iff hpq).2 hne, l, hl, hpq⟩
  · intro h
    obtain ⟨hne, l, hl, hpq⟩ := h
    exact ⟨l, hl, mt (Link.first_eq_second_iff hpq).1 hne, hpq⟩

/-- Linking the same ports, in any order and direction, makes the same ports adjacent. -/
theorem alike_joined (hnodes : f.nodes.Perm f'.nodes) (hnodup : (f.nodes.map (·.id)).Nodup)
    (hlinks : (f.links.map Link.undirected).Perm (f'.links.map Link.undirected)) :
    f.joined.Alike f'.joined := by
  have hlinked : ∀ p q, (PortGraph.empty.joinLinks f.links).Adjacent p q ↔
      (PortGraph.empty.joinLinks f'.links).Adjacent p q := by
    intro p q
    rw [PortGraph.adjacent_joinLinks, PortGraph.adjacent_joinLinks, adjacent_iff_undirected,
      adjacent_iff_undirected]
    refine or_congr_right (and_congr_right fun _ => ?_)
    exact exists_congr fun u => and_congr_left fun _ => hlinks.mem_iff
  refine ⟨hnodup, hnodes, fun p q => ?_⟩
  rw [Flat.joined, Flat.joined, adjacent_foldAliases, adjacent_foldAliases]
  refine or_congr (hlinked p q) (exists_congr fun n => ?_)
  have htouched : Touched (PortGraph.empty.joinLinks f.links) n ↔
      Touched (PortGraph.empty.joinLinks f'.links) n := by
    rw [Touched, Touched, PortGraph.ports_congr hlinked, PortGraph.ports_congr hlinked]
  rw [hnodes.mem_iff, htouched]

end Linked

variable [Add K] [Div K] [Zero K] [One K] [Scalar K] {t t' : Topology K} {default : K}
  {built built' : Network K}

namespace Alike

omit [Add K] [Div K] in
theorem proposal (h : t.Alike t') (p : Port) : t.proposal p = t'.proposal p := by
  have hnode : t.node? p.node = t'.node? p.node := find?_key_perm h.nodup h.nodes
  rw [Topology.proposal, Topology.proposal, hnode]

/-- A net with the same members has a seed, too, and over exact numbers the same. -/
theorem exists_seed (h : t.Alike t') {ms ms' : List Port} {value : K} (hms : ms.Perm ms')
    (hseed : t.seed ms default = .ok value) :
    ∃ value', t'.seed ms' default = .ok value' ∧ (AddsExactly K → value' = value) := by
  refine Topology.exists_seed (fun _ => true) ?_ (fun p _ _ => (h.proposal p).symm) ?_ hseed
  · rw [List.filter_true]
    exact hms.symm
  · intro p _ hstays
    cases hstays

/-- The one has a network if the other has one. -/
theorem exists_network (h : t.Alike t') (hnet : t.network default = .ok built) :
    ∃ built', t'.network default = .ok built' := by
  rw [exists_network_iff]
  intro ms' hms'
  obtain ⟨ms, hms, hperm⟩ := PortGraph.exists_perm_component h.symm.adjacent hms'
  obtain ⟨value, hvalue⟩ := exists_network_iff.1 ⟨built, hnet⟩ ms hms
  obtain ⟨value', hvalue', -⟩ := h.exists_seed hperm.symm hvalue
  exact ⟨value', hvalue'⟩

/-- Every net has its like. -/
theorem exists_net (h : t.Alike t') (hnet : t.network default = .ok built)
    (hnet' : t'.network default = .ok built') {net : Net K} (hmem : net ∈ built.nets) :
    ∃ net' ∈ built'.nets, net.members.Perm net'.members ∧
      (AddsExactly K → net'.value = net.value) := by
  have hcomponent : net.members ∈ t.graph.components :=
    members_network hnet ▸ List.mem_map_of_mem hmem
  obtain ⟨ms', hms', hperm⟩ := PortGraph.exists_perm_component h.adjacent hcomponent
  rw [← members_network hnet'] at hms'
  obtain ⟨net', hmem', rfl⟩ := List.mem_map.1 hms'
  refine ⟨net', hmem', hperm, fun hK => ?_⟩
  obtain ⟨value', hvalue', heq⟩ := h.exists_seed hperm (seed_network hnet hmem)
  rw [← heq hK]
  exact Except.ok.inj ((seed_network hnet' hmem').symm.trans hvalue')

theorem nodup_map_toFinset_network (hnet : t.network default = .ok built) :
    (built.nets.map (·.members.toFinset)).Nodup := by
  have hmap : built.nets.map (·.members.toFinset) = t.graph.components.map List.toFinset := by
    rw [← members_network hnet, List.map_map]
    rfl
  rw [hmap]
  exact t.graph.nodup_map_toFinset_components

/-- What is said of each net is the same for both networks, as long as the order of the members does
    not count for it, and nets with other members differ in it. -/
theorem perm_map_nets {β : Type} {key : Net K → β} (h : t.Alike t')
    (hnet : t.network default = .ok built) (hnet' : t'.network default = .ok built')
    (hlike : ∀ net net' : Net K, net.members.Perm net'.members →
      (AddsExactly K → net'.value = net.value) → key net' = key net)
    (hkey : ∀ net net' : Net K, key net = key net' → net.members.toFinset = net'.members.toFinset) :
    (built.nets.map key).Perm (built'.nets.map key) := by
  have hsubset : ∀ {t t' : Topology K} {built built' : Network K}, t.Alike t' →
      t.network default = .ok built → t'.network default = .ok built' →
      built.nets.map key ⊆ built'.nets.map key := by
    intro t t' built built' h hnet hnet' k hk
    obtain ⟨net, hmem, rfl⟩ := List.mem_map.1 hk
    obtain ⟨net', hmem', hperm, hvalue⟩ := h.exists_net hnet hnet' hmem
    exact List.mem_map.2 ⟨net', hmem', hlike net net' hperm hvalue⟩
  have hnodup : ∀ {t : Topology K} {built : Network K}, t.network default = .ok built →
      (built.nets.map key).Nodup := by
    intro t built hnet
    have hmembers := List.pairwise_map.1 (nodup_map_toFinset_network hnet)
    refine List.pairwise_map.2 (hmembers.imp ?_)
    intro net net' hne heq
    exact hne (hkey net net' heq)
  rw [List.perm_ext_iff_of_nodup (hnodup hnet) (hnodup hnet')]
  exact fun k => ⟨fun hk => hsubset h hnet hnet' hk, fun hk => hsubset h.symm hnet' hnet hk⟩

/-- The ports are parted into the same nets, but for the order of nets and members. -/
theorem perm_members (h : t.Alike t') (hnet : t.network default = .ok built)
    (hnet' : t'.network default = .ok built') :
    (built.nets.map (·.members.toFinset)).Perm (built'.nets.map (·.members.toFinset)) :=
  h.perm_map_nets hnet hnet'
    (fun _ _ hperm _ => List.toFinset_eq_of_perm _ _ hperm.symm) fun _ _ => id

/-- Over exact numbers the nets start from the same values. -/
theorem perm_nets (h : t.Alike t') (hK : AddsExactly K) (hnet : t.network default = .ok built)
    (hnet' : t'.network default = .ok built') :
    (built.nets.map fun net => (net.members.toFinset, net.value)).Perm
      (built'.nets.map fun net => (net.members.toFinset, net.value)) := by
  refine h.perm_map_nets hnet hnet' ?_ fun _ _ heq => congrArg Prod.fst heq
  intro net net' hperm hvalue
  rw [hvalue hK, List.toFinset_eq_of_perm _ _ hperm]

end Alike

end Topology

/-! ### Building side by side -/

namespace Diagram

variable [Add K] [Div K] [Zero K] [One K] [Scalar K] {p p' : Project K} {d d' : Diagram K}
  {strict : Bool} {default : K} {built built' : Network K}

omit [Zero K] in
theorem alike_of_related (hp : p.Related Resembles p') (hd : d.Resembles d')
    (hflat : (d.flatten p strict).result = .ok (d.root.unfold p)) :
    (d.root.unfold p).joined.Alike (d'.root.unfold p').joined :=
  Topology.alike_joined (Copy.perm_nodes_of_related hp hd.root)
    (flatten_eq_ok.1 hflat).2.2 (Copy.perm_unfold_links hp hd.root)

theorem exists_build_of_related (hp : p.Related Resembles p') (hd : d.Resembles d')
    (h : (d.build p strict default).result = .ok built) :
    ∃ built', (d'.build p' strict default).result = .ok built' := by
  obtain ⟨hflat, hnet⟩ := build_eq_ok.1 h
  obtain ⟨built', hnet'⟩ := (alike_of_related hp hd hflat).exists_network hnet
  exact ⟨built', build_eq_ok.2 ⟨flatten_of_related hp hd hflat, hnet'⟩⟩

/-- Of two diagrams that resemble each other one gives a network if the other does. -/
theorem exists_build_iff (hp : p.Related Resembles p') (hd : d.Resembles d') :
    (∃ built, (d.build p strict default).result = .ok built) ↔
      ∃ built', (d'.build p' strict default).result = .ok built' := by
  constructor
  · intro h
    obtain ⟨built, h⟩ := h
    exact exists_build_of_related hp hd h
  · intro h
    obtain ⟨built', h⟩ := h
    exact exists_build_of_related (Related.symm hp) hd.symm h

/-- The nodes of a network are those of the unfolding, with the nets that they record. -/
theorem bare_build (h : (d.build p strict default).result = .ok built) :
    built.nodes.map FlatNode.bare = d.root.nodes p := by
  obtain ⟨-, hnet⟩ := build_eq_ok.1 h
  rw [Topology.nodes_network hnet, List.map_map]
  have hbare : ∀ n ∈ d.root.nodes p,
      (FlatNode.bare ∘ fun n =>
        n.recordNets 0 (d.root.unfold p).joined.graph.components) n = n := by
    intro n hn
    rw [Function.comp_apply, FlatNode.bare_recordNets]
    obtain ⟨c, -, k, -, rfl⟩ := Copy.mem_nodes.1 hn
    rfl
  exact (List.map_congr_left hbare).trans (List.map_id' _)

/-- Two diagrams that resemble each other give the same nodes and the same nets, but for the order,
    and over exact numbers the nets start from the same values. -/
theorem perm_build_of_related (hp : p.Related Resembles p') (hd : d.Resembles d')
    (h : (d.build p strict default).result = .ok built)
    (h' : (d'.build p' strict default).result = .ok built') :
    (built.nodes.map FlatNode.bare).Perm (built'.nodes.map FlatNode.bare) ∧
      (built.nets.map (·.members.toFinset)).Perm (built'.nets.map (·.members.toFinset)) ∧
      (AddsExactly K → (built.nets.map fun net => (net.members.toFinset, net.value)).Perm
        (built'.nets.map fun net => (net.members.toFinset, net.value))) := by
  obtain ⟨hflat, hnet⟩ := build_eq_ok.1 h
  obtain ⟨-, hnet'⟩ := build_eq_ok.1 h'
  have halike := alike_of_related hp hd hflat
  refine ⟨?_, halike.perm_members hnet hnet', fun hK => halike.perm_nets hK hnet hnet'⟩
  rw [bare_build h, bare_build h']
  exact Copy.perm_nodes_of_related hp hd.root

end Diagram

end NetBalance
