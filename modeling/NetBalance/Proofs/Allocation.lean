import NetBalance.Network.Basic
import NetBalance.Proofs.Linking

/-! # Nets and the ports that record them

    Each component becomes a net and is recorded at the nodes of its ports.
    Recording touches nothing but the recorded ports, so the seeds do not
    depend on it; and since no port stands in two components, what a node
    records for a port in the end is the one net that lists it. -/

namespace NetBalance

variable {K : Type}

/-! ### Recording -/

namespace FlatNode

variable {n : FlatNode K} {name other : PortName} {net : Nat} {ms : List Port}

@[simp] theorem id_record : (n.record name net).id = n.id := rfl

theorem net?_record :
    (n.record name net).net? other = if other = name then some net else n.net? other := by
  simp only [net?, record]
  -- the recorded name either stands among the ports already or comes to their end
  induction n.ports with
  | nil =>
    rw [record.go, List.lookup_cons]
    by_cases h : other = name
    · simp [h]
    · have hne : (other == name) = false := beq_eq_false_iff_ne.2 h
      simp [h, hne]
  | cons entry rest ih =>
    obtain ⟨old, k⟩ := entry
    by_cases hold : old = name
    · rw [record.go, if_pos hold, List.lookup_cons, List.lookup_cons]
      by_cases h : other = name
      · simp [h, hold]
      · have hne : (other == old) = false := beq_eq_false_iff_ne.2 fun e => h (e.trans hold)
        simp [h, hne]
    · rw [record.go, if_neg hold, List.lookup_cons, List.lookup_cons, ih]
      by_cases h : other = old
      · simp [h, hold]
      · have hne : (other == old) = false := beq_eq_false_iff_ne.2 h
        simp [hne]

/-- Record a net at the ports of the node that are among its members. -/
def recordAll (n : FlatNode K) (net : Nat) (ms : List Port) : FlatNode K :=
  ms.foldl (fun n p => if n.id = p.node then n.record p.name net else n) n

/-- Record nets at the ports of the node, numbered from `start` on. -/
def recordNets (n : FlatNode K) (start : Nat) : List (List Port) → FlatNode K
  | [] => n
  | ms :: rest => (n.recordAll start ms).recordNets (start + 1) rest

/-- Recording a net changes nothing but the recorded ports. -/
theorem recordAll_eq (n : FlatNode K) (net : Nat) (ms : List Port) :
    n.recordAll net ms = { n with ports := (n.recordAll net ms).ports } := by
  induction ms generalizing n with
  | nil => rfl
  | cons p ms ih =>
    simp only [recordAll, List.foldl_cons] at ih ⊢
    rw [ih]
    split <;> rfl

theorem recordNets_eq (n : FlatNode K) (start : Nat) (comps : List (List Port)) :
    n.recordNets start comps = { n with ports := (n.recordNets start comps).ports } := by
  induction comps generalizing n start with
  | nil => rfl
  | cons ms rest ih =>
    rw [recordNets, ih, recordAll_eq]

@[simp] theorem id_recordAll : (n.recordAll net ms).id = n.id := by rw [recordAll_eq]

@[simp] theorem kind_recordAll : (n.recordAll net ms).kind = n.kind := by rw [recordAll_eq]

@[simp] theorem payload_recordAll : (n.recordAll net ms).payload = n.payload := by
  rw [recordAll_eq]

@[simp] theorem id_recordNets {start : Nat} {comps : List (List Port)} :
    (n.recordNets start comps).id = n.id := by rw [recordNets_eq]

@[simp] theorem kind_recordNets {start : Nat} {comps : List (List Port)} :
    (n.recordNets start comps).kind = n.kind := by rw [recordNets_eq]

@[simp] theorem payload_recordNets {start : Nat} {comps : List (List Port)} :
    (n.recordNets start comps).payload = n.payload := by rw [recordNets_eq]

/-- The node without the nets that it records. -/
def bare (n : FlatNode K) : FlatNode K := { n with ports := [] }

@[simp] theorem id_bare : n.bare.id = n.id := rfl

@[simp] theorem bare_recordNets {start : Nat} {comps : List (List Port)} :
    (n.recordNets start comps).bare = n.bare := by
  rw [recordNets_eq]
  rfl

/-- A net is recorded for the ports of the node that are among its members. -/
theorem net?_recordAll :
    (n.recordAll net ms).net? name = if ⟨n.id, name⟩ ∈ ms then some net else n.net? name := by
  induction ms generalizing n with
  | nil => simp [recordAll]
  | cons p ms ih =>
    simp only [recordAll, List.foldl_cons] at ih ⊢
    rw [ih]
    -- a member of another node leaves this one as it is
    by_cases hid : n.id = p.node
    · have hport : (⟨n.id, name⟩ : Port) = p ↔ name = p.name := by
        cases p
        simp_all
      simp only [if_pos hid, id_record, net?_record, List.mem_cons, hport]
      by_cases hm : (⟨n.id, name⟩ : Port) ∈ ms <;> by_cases hname : name = p.name <;>
        simp [hm, hname]
    · have hport : (⟨n.id, name⟩ : Port) ≠ p := fun h => hid (h ▸ rfl)
      simp only [hid, if_false, List.mem_cons, hport, false_or]

/-- With no port in two components, a node records for a port the net that lists it. -/
theorem net?_recordNets {comps : List (List Port)} (h : comps.flatten.Nodup) {start i : Nat} :
    (n.recordNets start comps).net? name = some i ↔
      (∃ j ms, i = start + j ∧ comps[j]? = some ms ∧ ⟨n.id, name⟩ ∈ ms) ∨
        (⟨n.id, name⟩ ∉ comps.flatten ∧ n.net? name = some i) := by
  induction comps generalizing n start with
  | nil => simp [recordNets]
  | cons ms rest ih =>
    rw [List.flatten_cons, List.nodup_append] at h
    obtain ⟨-, hrest, hdisj⟩ := h
    rw [recordNets, ih hrest, id_recordAll, net?_recordAll, List.flatten_cons, List.mem_append,
      not_or]
    by_cases hm : (⟨n.id, name⟩ : Port) ∈ ms
    · -- the first component lists the port, and no later one does
      have hnot : (⟨n.id, name⟩ : Port) ∉ rest.flatten := fun hr => hdisj _ hm _ hr rfl
      have hlater : ∀ j ms', rest[j]? = some ms' → (⟨n.id, name⟩ : Port) ∉ ms' := fun j ms' hj hp =>
        hnot (List.mem_flatten.2 ⟨ms', List.mem_of_getElem? hj, hp⟩)
      rw [if_pos hm]
      constructor
      · intro h
        rcases h with ⟨j, ms', -, hj, hp⟩ | ⟨-, hi⟩
        · exact absurd hp (hlater j ms' hj)
        · exact Or.inl ⟨0, ms, by simpa using (Option.some.inj hi).symm, rfl, hm⟩
      · intro h
        rcases h with ⟨j, ms', hi, hj, hp⟩ | ⟨⟨hn, -⟩, -⟩
        · cases j with
          | zero => exact Or.inr ⟨hnot, by simpa using hi.symm⟩
          | succ j => exact absurd hp (hlater j ms' hj)
        · exact absurd hm hn
    · rw [if_neg hm]
      refine or_congr ?_ (by simp [hm])
      constructor
      · intro h
        obtain ⟨j, ms', hi, hj, hp⟩ := h
        exact ⟨j + 1, ms', by omega, hj, hp⟩
      · intro h
        obtain ⟨j, ms', hi, hj, hp⟩ := h
        cases j with
        | zero => exact absurd (Option.some.inj hj ▸ hp) hm
        | succ j => exact ⟨j, ms', by omega, hj, hp⟩

end FlatNode

/-! ### Allocation -/

namespace Topology

variable {t : Topology K} {net : Nat} {ms : List Port} {comps : List (List Port)}

/-- Recording a net at the members' nodes, node by node. -/
theorem nodes_recordNet (t : Topology K) (net : Nat) (ms : List Port) :
    (t.recordNet net ms).nodes = t.nodes.map fun n => n.recordAll net ms := by
  simp only [recordNet]
  induction ms generalizing t with
  | nil => simp [FlatNode.recordAll]
  | cons p ms ih =>
    have h := ih ⟨t.nodes.map fun n => if n.id = p.node then n.record p.name net else n, t.graph⟩
    rw [List.foldl_cons, h, List.map_map]
    rfl

/-- What a source proposes does not depend on what is recorded. -/
theorem proposal_recordNet [Zero K] [One K] [Scalar K] {p : Port} :
    (t.recordNet net ms).proposal p = t.proposal p := by
  have hnode : (t.recordNet net ms).node? p.node =
      (t.node? p.node).map fun n => n.recordAll net ms := by
    rw [node?, node?, nodes_recordNet, List.find?_map]
    simp only [Function.comp_def, FlatNode.id_recordAll]
  rw [proposal, proposal, hnode]
  cases t.node? p.node with
  | none => rfl
  | some n => simp only [Option.map_some, FlatNode.kind_recordAll, FlatNode.payload_recordAll]

variable [Add K] [Div K] [Zero K] [One K] [Scalar K] {default : K} {nets : List (Net K)}

theorem seed_recordNet {members : List Port} :
    (t.recordNet net ms).seed members default = t.seed members default := by
  have h : (t.recordNet net ms).proposal = t.proposal := funext fun _ => proposal_recordNet
  rw [seed, seed, h]

/-- Nets are allocated exactly when each component has a seed; they hold the seeds and the
    components in order. -/
theorem allocate_eq_ok {made : List (Net K)} :
    (allocate default nets comps t).2 = .ok made ↔ ∃ values : List K,
      comps.map (t.seed · default) = values.map .ok ∧
        made = nets ++ List.zipWith Net.mk values comps := by
  -- recording a net changes no seed, so the seeds of the rest can be taken from the start
  induction comps generalizing nets t with
  | nil =>
    simp only [allocate, Except.ok.injEq, List.map_nil, List.zipWith_nil_right, List.append_nil]
    constructor
    · intro h
      exact ⟨[], rfl, h.symm⟩
    · intro h
      obtain ⟨-, -, h⟩ := h
      exact h.symm
  | cons ms rest ih =>
    rw [allocate]
    cases hv : t.seed ms default with
    | error e =>
      simp only [List.map_cons, hv, reduceCtorEq, false_iff, not_exists, not_and]
      intro values h
      cases values with
      | nil => simp at h
      | cons value values => simp at h
    | ok value =>
      simp only [ih, seed_recordNet, List.map_cons, hv]
      constructor
      · intro h
        obtain ⟨values, hvalues, rfl⟩ := h
        exact ⟨value :: values, by rw [List.map_cons, hvalues], by simp⟩
      · intro h
        obtain ⟨values, hvalues, rfl⟩ := h
        cases values with
        | nil => simp at hvalues
        | cons w values =>
          rw [List.map_cons, List.cons.injEq, Except.ok.injEq] at hvalues
          obtain ⟨rfl, hvalues⟩ := hvalues
          exact ⟨values, hvalues, by simp⟩

/-- After an allocation each node has recorded the nets of its ports. -/
theorem nodes_allocate {made : List (Net K)} (h : (allocate default nets comps t).2 = .ok made) :
    (allocate default nets comps t).1.nodes =
      t.nodes.map fun n => n.recordNets nets.length comps := by
  induction comps generalizing nets t with
  | nil => simp [allocate, FlatNode.recordNets]
  | cons ms rest ih =>
    rw [allocate] at h ⊢
    cases hv : t.seed ms default with
    | error e => simp [hv] at h
    | ok value =>
      simp only [hv] at h ⊢
      rw [ih h, nodes_recordNet, List.map_map, List.length_append]
      rfl

/-- The network of a topology: its nodes with their nets, one net for each component. -/
def network (t : Topology K) (default : K) : Except NetworkError (Network K) :=
  (allocate default [] t.graph.components t).2.map fun nets =>
    ⟨(allocate default [] t.graph.components t).1.nodes, nets⟩

theorem network_eq_ok {built : Network K} :
    t.network default = .ok built ↔ ∃ values : List K,
      t.graph.components.map (t.seed · default) = values.map .ok ∧
        built = ⟨t.nodes.map fun n => n.recordNets 0 t.graph.components,
          List.zipWith Net.mk values t.graph.components⟩ := by
  unfold network
  cases h : (allocate default [] t.graph.components t).2 with
  | error e =>
    simp only [Except.map, reduceCtorEq, false_iff, not_exists, not_and]
    intro values hvalues
    -- with all seeds the allocation would have gone through
    have hok : (allocate default [] t.graph.components t).2 =
        .ok ([] ++ List.zipWith Net.mk values t.graph.components) :=
      allocate_eq_ok.2 ⟨values, hvalues, rfl⟩
    exact absurd (h.symm.trans hok) (by simp)
  | ok made =>
    simp only [Except.map, Except.ok.injEq, nodes_allocate h, List.length_nil]
    obtain ⟨values, hvalues, rfl⟩ := allocate_eq_ok.1 h
    constructor
    · rintro rfl
      exact ⟨values, hvalues, by simp⟩
    · intro h
      obtain ⟨values', hvalues', rfl⟩ := h
      -- the seeds are those of the allocation, as there is but one list of them
      have hinj : values' = values :=
        List.map_injective_iff.2 (fun _ _ => Except.ok.inj) (hvalues'.symm.trans hvalues)
      simp [hinj]

omit [Add K] [Div K] [Zero K] [One K] [Scalar K] in
/-- Nets made of components and their values list the components and hold the values. -/
theorem zipWith_mk {ε : Type} {f : List Port → Except ε K} {values : List K}
    (h : comps.map f = values.map .ok) :
    (List.zipWith Net.mk values comps).map (·.members) = comps ∧
      ∀ net ∈ List.zipWith Net.mk values comps, f net.members = .ok net.value := by
  induction comps generalizing values with
  | nil => simp
  | cons ms rest ih =>
    cases values with
    | nil => simp at h
    | cons value values =>
      rw [List.map_cons, List.map_cons, List.cons.injEq] at h
      obtain ⟨hmembers, hvalues⟩ := ih h.2
      refine ⟨by rw [List.zipWith_cons_cons, List.map_cons, hmembers], ?_⟩
      intro net hnet
      rcases List.mem_cons.1 hnet with rfl | hnet
      · exact h.1
      · exact hvalues net hnet

/-- A network can be made exactly when each component has a seed. -/
theorem exists_network_iff :
    (∃ built, t.network default = .ok built) ↔
      ∀ ms ∈ t.graph.components, ∃ value, t.seed ms default = .ok value := by
  rw [← exists_map_eq_ok]
  constructor
  · intro h
    obtain ⟨built, h⟩ := h
    obtain ⟨values, hvalues, -⟩ := network_eq_ok.1 h
    exact ⟨values, hvalues⟩
  · intro h
    obtain ⟨values, hvalues⟩ := h
    exact ⟨_, network_eq_ok.2 ⟨values, hvalues, rfl⟩⟩

section Built

variable {built : Network K} (h : t.network default = .ok built)
include h

/-- The nets of a network are the components of its graph. -/
theorem members_network : built.nets.map (·.members) = t.graph.components := by
  obtain ⟨values, hvalues, rfl⟩ := network_eq_ok.1 h
  exact (zipWith_mk hvalues).1

theorem getElem?_network {i : Nat} {ms : List Port} :
    (∃ net, built.nets[i]? = some net ∧ net.members = ms) ↔ t.graph.components[i]? = some ms := by
  rw [← members_network h, List.getElem?_map, Option.map_eq_some_iff]

/-- Two ports share a net exactly when a chain of links joins them. -/
theorem exists_net_iff {p q : Port} :
    (∃ net ∈ built.nets, p ∈ net.members ∧ q ∈ net.members) ↔
      p ∈ t.graph.ports ∧ t.graph.Joined p q := by
  have hmem : ∀ net ∈ built.nets, net.members ∈ t.graph.components := fun net hnet =>
    members_network h ▸ List.mem_map_of_mem hnet
  constructor
  · intro h
    obtain ⟨net, hnet, hp, hq⟩ := h
    exact ⟨PortGraph.mem_ports_of_mem_component (hmem net hnet) hp,
      (PortGraph.mem_component_iff_joined (hmem net hnet) hp).1 hq⟩
  · intro h'
    obtain ⟨hp, hpq⟩ := h'
    -- the component of the one port is a net and lists the other port, too
    obtain ⟨ms, hms, hpm⟩ := PortGraph.exists_component hp
    have hms' := hms
    rw [← members_network h] at hms'
    obtain ⟨net, hnet, rfl⟩ := List.mem_map.1 hms'
    exact ⟨net, hnet, hpm, (PortGraph.mem_component_iff_joined hms hpm).2 hpq⟩

/-- The ports that are listed are those of the graph. -/
theorem isListed_iff {p : Port} : (∃ net ∈ built.nets, p ∈ net.members) ↔ p ∈ t.graph.ports := by
  have hself := exists_net_iff h (p := p) (q := p)
  simpa only [and_self, PortGraph.Joined.refl, and_true] using hself

theorem nodup_network : (built.nets.flatMap (·.members)).Nodup := by
  rw [List.flatMap_def, members_network h]
  exact t.graph.nodup_flatten_components

theorem nodes_network : built.nodes = t.nodes.map fun n => n.recordNets 0 t.graph.components := by
  obtain ⟨values, -, rfl⟩ := network_eq_ok.1 h
  rfl

theorem ids_network : built.nodes.map (·.id) = t.nodes.map (·.id) := by
  rw [nodes_network h, List.map_map]
  exact List.map_congr_left fun n _ => FlatNode.id_recordNets

/-- The value of a net is the seed of its members. -/
theorem seed_network {net : Net K} (hnet : net ∈ built.nets) :
    t.seed net.members default = .ok net.value := by
  obtain ⟨values, hvalues, rfl⟩ := network_eq_ok.1 h
  exact (zipWith_mk hvalues).2 net hnet

/-- What a node records for a port is the number of the net that lists the port. -/
theorem net?_network (hfresh : ∀ n ∈ t.nodes, n.ports = []) {n : FlatNode K} (hn : n ∈ built.nodes)
    {name : PortName} {i : Nat} :
    n.net? name = some i ↔ ∃ net, built.nets[i]? = some net ∧ ⟨n.id, name⟩ ∈ net.members := by
  obtain ⟨m, hm, rfl⟩ : ∃ m ∈ t.nodes, m.recordNets 0 t.graph.components = n := by
    rw [nodes_network h] at hn
    exact List.mem_map.1 hn
  rw [FlatNode.net?_recordNets t.graph.nodup_flatten_components, FlatNode.id_recordNets]
  -- before the allocation nothing is recorded
  have hnone : m.net? name = none := by
    rw [FlatNode.net?, hfresh m hm, List.lookup_nil]
  simp only [hnone, reduceCtorEq, and_false, or_false, Nat.zero_add]
  constructor
  · intro h'
    obtain ⟨_, ms, rfl, hi, hp⟩ := h'
    obtain ⟨net, hnet, rfl⟩ := (getElem?_network h).2 hi
    exact ⟨net, hnet, hp⟩
  · intro h'
    obtain ⟨net, hnet, hp⟩ := h'
    exact ⟨i, net.members, rfl, (getElem?_network h).1 ⟨net, hnet, rfl⟩, hp⟩

end Built

end Topology

/-! ### Building -/

/-- The graph of a flattened diagram: its links, and the terminals of its connected sources. -/
def Flat.joined (f : Flat K) : Topology K :=
  Topology.foldAliases ⟨f.nodes, PortGraph.empty.joinLinks f.links⟩

/-- Links from a port to itself do not show up in the graph. -/
theorem Flat.joined_congr {f g : Flat K} (hnodes : f.nodes = g.nodes)
    (hlinks : (f.links.filter fun l => l.first ≠ l.second) =
      g.links.filter fun l => l.first ≠ l.second) : f.joined = g.joined := by
  rw [joined, joined, ← PortGraph.joinLinks_filter _ f.links,
    ← PortGraph.joinLinks_filter _ g.links, hlinks, hnodes]

/-- Every link joins nodes that are there. -/
def Flat.IsClosed (f : Flat K) : Prop :=
  ∀ l ∈ f.links, l.first.node ∈ f.ids ∧ l.second.node ∈ f.ids

theorem Flat.topology_result {f : Flat K} (h : f.IsClosed) :
    f.topology.result = .ok ⟨f.nodes, PortGraph.empty.joinLinks f.links⟩ := by
  refine Topology.foldlM_link_result fun l hl => ?_
  -- the nodes are all there before the first link is read
  have hnode : ∀ id ∈ f.ids, ((⟨f.nodes, .empty⟩ : Topology K).node? id).isSome := by
    intro id hid
    obtain ⟨n, hn, rfl⟩ := List.mem_map.1 hid
    exact List.find?_isSome.2 ⟨n, hn, by simp⟩
  exact ⟨hnode _ (h l hl).1, hnode _ (h l hl).2⟩

variable [Add K] [Div K] [Zero K] [One K] [Scalar K]

/-- Building is flattening, linking and allocating in a row. -/
theorem Diagram.build_result (d : Diagram K) (project : Project K) (strict : Bool) (default : K) :
    (d.build project strict default).result =
      (d.flatten project strict).result >>= fun flat =>
        flat.topology.result >>= fun t => t.foldAliases.network default := by
  unfold build
  simp only [Logged.bind_result]
  congr 1
  funext flat
  congr 1
  funext t
  simp only [Topology.buildNets, Topology.network]
  cases (Topology.allocate default [] t.foldAliases.graph.components t.foldAliases).2 <;> rfl

end NetBalance
