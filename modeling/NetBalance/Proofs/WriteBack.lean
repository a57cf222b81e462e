import NetBalance.Proofs.Occurrences
import NetBalance.Proofs.Places
import NetBalance.Solver.Solution

/-! # Writing a solution back

    A solve changes payloads in one place only: unlocked sources take over the
    values of their nets.  Neither the ports of a node nor what it refers to
    nor its equations depend on that, so that the diagram with the payloads of
    a solve is flattened and linked as before. -/

namespace NetBalance

variable {K : Type}

/-! ### Finished payloads -/

/-- Of two values that are written under one name the second one stays. -/
theorem Payload.put_put (p : Payload K) (key : String) (v w : Value K) :
    (p.put key v).put key w = p.put key w := by
  induction p with
  | nil => simp [put]
  | cons field rest ih =>
    obtain ⟨name, u⟩ := field
    by_cases h : name = key
    · simp [put, h]
    · simp [put, h, ih]

namespace Kind

section Finish

variable [Scalar K] {kind : Kind} {p : Payload K} {value? : PortName → Option K}

theorem isLocked_put {v : Value K} : isLocked (p.put "value" v) = isLocked p := by
  have hne : "locked" ≠ "value" := by decide
  rw [isLocked, isLocked, flag, flag, Payload.get?_put, if_neg hne]

theorem configuredValue_put [Zero K] [One K] {x : K} :
    configuredValue (p.put "value" (.real x)) = .ok x := by
  rw [configuredValue, Payload.get?_put, if_pos rfl]
  rfl

/-- An unlocked source takes over the value of the net of its first terminal. -/
theorem configuredValue_finish [Zero K] [One K] {x : K} (hlocked : isLocked p = false)
    (hvalue : value? (some "a") = some x) :
    configuredValue (Kind.source.finish p value?) = .ok x := by
  rw [finish, hlocked, sourceTerminals, List.findSome?_cons, hvalue]
  exact configuredValue_put

/-- Finishing changes only unlocked sources, and only their values. -/
theorem finish_cases (kind : Kind) (p : Payload K) (value? : PortName → Option K) :
    kind.finish p value? = p ∨ ∃ x, kind = .source ∧ isLocked p = false ∧
      sourceTerminals.findSome? (fun t => value? (some t)) = some x ∧
        kind.finish p value? = p.put "value" (.real x) := by
  cases kind with
  | source =>
    cases hlocked : isLocked p with
    | true => exact Or.inl (by rw [finish, if_pos hlocked])
    | false =>
      rw [finish, hlocked]
      cases hvalue : sourceTerminals.findSome? fun t => value? (some t) with
      | none => exact Or.inl rfl
      | some x => exact Or.inr ⟨x, rfl, rfl, rfl, rfl⟩
  | sum => exact Or.inl rfl
  | product => exact Or.inl rfl
  | reference => exact Or.inl rfl

theorem declaredPorts_finish :
    kind.declaredPorts (kind.finish p value?) = kind.declaredPorts p := by
  rcases finish_cases kind p value? with h | ⟨x, rfl, -, -, h⟩
  · rw [h]
  · rfl

theorem referencedDiagram_finish :
    kind.referencedDiagram (kind.finish p value?) = kind.referencedDiagram p := by
  rcases finish_cases kind p value? with h | ⟨x, rfl, -, -, h⟩
  · rw [h]
  · rfl

/-- The equations of an unlocked source do not read its value. -/
theorem equations_put [Zero K] [One K] {net? : PortName → Option Nat} {v : Value K}
    (hlocked : isLocked p = false) :
    Kind.source.equations (p.put "value" v) net? = Kind.source.equations p net? := by
  rw [equations, equations, isLocked_put, hlocked]
  rfl

theorem equations_finish [Zero K] [One K] {net? : PortName → Option Nat} :
    kind.equations (kind.finish p value?) net? = kind.equations p net? := by
  rcases finish_cases kind p value? with h | ⟨x, rfl, hlocked, -, h⟩
  · rw [h]
  · rw [h, equations_put hlocked]

/-- What could be read as a number still can. -/
theorem exists_configuredValue_finish [Zero K] [One K] {x : K} (h : configuredValue p = .ok x) :
    ∃ y, configuredValue (kind.finish p value?) = .ok y := by
  rcases finish_cases kind p value? with h' | ⟨y, -, -, -, h'⟩
  · rw [h']
    exact ⟨x, h⟩
  · rw [h']
    exact ⟨y, configuredValue_put⟩

theorem finish_finish : kind.finish (kind.finish p value?) value? = kind.finish p value? := by
  rcases finish_cases kind p value? with h | ⟨x, rfl, hlocked, hvalue, h⟩
  · rw [h, h]
  · rw [h, finish, isLocked_put, hlocked, hvalue]
    exact Payload.put_put p "value" (.real x) (.real x)

end Finish

end Kind

/-! ### Diagrams with other payloads -/

/-- The node with the payload that is listed for its id, if any. -/
def PlacedNode.withPayload (updates : List (String × Payload K)) (n : PlacedNode K) :
    PlacedNode K :=
  { n with payload := (updates.lookup n.id).getD n.payload }

/-- A flattened node of the root with the payload that is listed for its id, if any. -/
def FlatNode.withPayload (updates : List (String × Payload K)) (m : FlatNode K) : FlatNode K :=
  { m with payload :=
      if m.isTopLevel then (updates.lookup m.localId).getD m.payload else m.payload }

/-- The payload that a node gets says the same about its ports and about what it refers to. -/
structure PlacedNode.KeepsForm (updates : List (String × Payload K)) (n : PlacedNode K) : Prop where
  ports : ∀ kind, n.kind = .ok kind →
    kind.declaredPorts (n.withPayload updates).payload = kind.declaredPorts n.payload
  target : ∀ kind, n.kind = .ok kind →
    kind.referencedDiagram (n.withPayload updates).payload = kind.referencedDiagram n.payload

namespace Diagram

variable {project : Project K} {d : Diagram K} {updates : List (String × Payload K)}
  {n : PlacedNode K}

/-- Payloads that are there already change nothing. -/
theorem withPayloads_withPayloads :
    (d.withPayloads updates).withPayloads updates = d.withPayloads updates := by
  have hnodes :
      (d.nodes.map (PlacedNode.withPayload updates)).map (PlacedNode.withPayload updates) =
        d.nodes.map (PlacedNode.withPayload updates) := by
    rw [List.map_map]
    refine List.map_congr_left fun n _ => ?_
    cases h : updates.lookup n.id with
    | none => simp [PlacedNode.withPayload, h]
    | some p => simp [PlacedNode.withPayload, h]
  exact congrArg (fun nodes => { d with nodes := nodes }) hnodes

theorem firsts_withPayloads :
    (d.withPayloads updates).firsts = d.firsts.map (PlacedNode.withPayload updates) :=
  keepFirst_map (f := PlacedNode.withPayload updates) (fun _ => rfl) d.nodes

theorem target?_withPayload {stack : List String} (h : n.KeepsForm updates) :
    (n.withPayload updates).target? project stack = n.target? project stack := by
  have hkind : (n.withPayload updates).kind = n.kind := rfl
  rw [PlacedNode.target?, PlacedNode.target?, hkind]
  cases hn : n.kind with
  | error e => rfl
  | ok kind =>
    simp only
    rw [h.target kind hn]

theorem behind?_withPayload (h : n.KeepsForm updates) :
    (d.withPayloads updates).root.behind? project (n.withPayload updates) =
      d.root.behind? project n := by
  have htarget : (n.withPayload updates).target? project [d.id] = n.target? project [d.id] :=
    target?_withPayload h
  show ((n.withPayload updates).target? project [d.id]).map _ = _
  rw [htarget]
  rfl

theorem ownPorts_withPayload (h : n.KeepsForm updates) :
    (n.withPayload updates).ownPorts = n.ownPorts := by
  have hkind : (n.withPayload updates).kind = n.kind := rfl
  rw [PlacedNode.ownPorts, PlacedNode.ownPorts, hkind]
  cases hn : n.kind with
  | error e => rfl
  | ok kind =>
    simp only
    rw [h.ports kind hn]

/-- Only nodes of the root itself are at the top. -/
theorem withPayload_of_scope {m : FlatNode K} (h : m.scope ≠ "") : m.withPayload updates = m := by
  have htop : m.isTopLevel = false := by
    rw [FlatNode.isTopLevel, Bool.eq_false_iff, ne_eq, String.isEmpty_iff]
    exact h
  rw [FlatNode.withPayload, htop]
  rfl

/-- What stands behind a reference has a scope. -/
theorem scope_ne_empty_of_behind? {c : Copy K} (hc : d.root.behind? project n = some c)
    {m : FlatNode K} (hm : m ∈ c.nodes project) : m.scope ≠ "" := by
  obtain ⟨t, -, rfl⟩ := Option.map_eq_some_iff.1 hc
  rw [Copy.nodes_eq_map_occurrences] at hm
  obtain ⟨o, -, rfl⟩ := List.mem_map.1 hm
  exact append_point_ne_empty _ o.scope

/-- Below the root nothing changes. -/
theorem nodes_withPayloads (h : ∀ n ∈ d.firsts, n.KeepsForm updates) :
    (d.withPayloads updates).root.nodes project =
      (d.root.nodes project).map (FlatNode.withPayload updates) := by
  have hbranch : ∀ n ∈ d.firsts,
      (d.withPayloads updates).root.branch project (n.withPayload updates) =
        (d.root.branch project n).map (FlatNode.withPayload updates) := by
    intro n hn
    rw [Copy.branch, Copy.branch, behind?_withPayload (h n hn), List.map_cons]
    refine congrArg _ ?_
    cases hb : d.root.behind? project n with
    | none => rfl
    | some c' =>
      have hsame : ∀ m ∈ c'.nodes project, m.withPayload updates = m :=
        fun m hm => withPayload_of_scope (scope_ne_empty_of_behind? hb hm)
      exact ((List.map_congr_left hsame).trans (List.map_id _)).symm
  rw [Copy.nodes_eq, Copy.nodes_eq]
  show (d.withPayloads updates).firsts.flatMap _ = (d.firsts.flatMap _).map _
  rw [firsts_withPayloads, List.flatMap_map, List.map_flatMap]
  exact List.flatMap_congr hbranch

theorem below_withPayloads (h : n.KeepsForm updates) :
    (d.withPayloads updates).root.below project (n.withPayload updates) =
      d.root.below project n := by
  rw [Copy.below, Copy.below, behind?_withPayload h]

variable [Add K] [Div K] [One K] [Scalar K]

theorem slots_withPayloads (h : ∀ n ∈ d.firsts, n.KeepsForm updates) :
    (d.withPayloads updates).root.slots project = d.root.slots project := by
  show (d.withPayloads updates).firsts.map _ = d.firsts.map _
  rw [firsts_withPayloads, List.map_map]
  refine List.map_congr_left fun n hn => ?_
  show (d.withPayloads updates).root.slot project (n.withPayload updates) = d.root.slot project n
  rw [Copy.slot, Copy.slot, behind?_withPayload (h n hn), ownPorts_withPayload (h n hn)]
  rfl

/-- The unfolding of the diagram with other payloads. -/
theorem unfold_withPayloads (h : ∀ n ∈ d.firsts, n.KeepsForm updates) :
    (d.withPayloads updates).root.unfold project =
      ⟨(d.root.nodes project).map (FlatNode.withPayload updates),
        (d.root.unfold project).links⟩ := by
  have hlinks : (d.withPayloads updates).root.links project = d.root.links project := by
    rw [Copy.links, Copy.links, slots_withPayloads h]
    rfl
  have hbelow : ((d.withPayloads updates).root.descendants project).flatMap (·.links project) =
      (d.root.descendants project).flatMap (·.links project) := by
    rw [Copy.descendants_eq, Copy.descendants_eq, List.flatMap_append, List.flatMap_append,
      List.flatMap_singleton, List.flatMap_singleton, hlinks]
    show ((d.withPayloads updates).firsts.flatMap _).flatMap _ ++ _ =
      (d.firsts.flatMap _).flatMap _ ++ _
    rw [firsts_withPayloads, List.flatMap_map,
      List.flatMap_congr fun n hn => below_withPayloads (h n hn)]
  rw [Copy.unfold, nodes_withPayloads h, hbelow]
  rfl

theorem isSound_withPayloads {strict : Bool} (h : ∀ n ∈ d.firsts, n.KeepsForm updates)
    (hsound : ∀ c ∈ d.root.descendants project, c.IsSound project strict) :
    ∀ c ∈ (d.withPayloads updates).root.descendants project, c.IsSound project strict := by
  rw [Copy.forall_descendants] at hsound ⊢
  obtain ⟨hroot, hbelow⟩ := hsound
  refine ⟨?_, ?_⟩
  · intro n' hn'
    have hn'' : n' ∈ (d.withPayloads updates).firsts := hn'
    rw [firsts_withPayloads] at hn''
    obtain ⟨n, hn, rfl⟩ := List.mem_map.1 hn''
    obtain ⟨⟨kind, ports, hkind, hports, hres⟩, hexposed⟩ := hroot n hn
    refine ⟨⟨kind, ports, hkind, ?_, ?_⟩, ?_⟩
    · rw [(h n hn).ports kind hkind, hports]
    · rw [(h n hn).target kind hkind]
      exact hres
    · rw [behind?_withPayload (h n hn)]
      exact hexposed
  · intro n' hn'
    have hn'' : n' ∈ (d.withPayloads updates).firsts := hn'
    rw [firsts_withPayloads] at hn''
    obtain ⟨n, hn, rfl⟩ := List.mem_map.1 hn''
    rw [below_withPayloads (h n hn)]
    exact hbelow n hn

/-- The diagram with other payloads is flattened as before, but for the payloads. -/
theorem flatten_withPayloads {strict : Bool} {flat : Flat K}
    (h : ∀ n ∈ d.firsts, n.KeepsForm updates)
    (hflat : (d.flatten project strict).result = .ok flat) :
    ((d.withPayloads updates).flatten project strict).result =
      .ok ⟨flat.nodes.map (FlatNode.withPayload updates), flat.links⟩ := by
  obtain ⟨rfl, hsound, hnodup⟩ := flatten_eq_ok.1 hflat
  refine flatten_eq_ok.2 ⟨(unfold_withPayloads h).symm, isSound_withPayloads h hsound, ?_⟩
  rw [nodes_withPayloads h, List.map_map]
  exact hnodup

end Diagram

/-! ### Networks with other payloads -/

section Topology

variable {updates : List (String × Payload K)} {m : FlatNode K}

theorem recordAll_withPayload (net : Nat) (ms : List Port) :
    (m.withPayload updates).recordAll net ms = (m.recordAll net ms).withPayload updates := by
  induction ms generalizing m with
  | nil => rfl
  | cons p ms ih =>
    by_cases h : m.id = p.node
    · have h' : (m.withPayload updates).id = p.node := h
      have hrecord : (m.withPayload updates).record p.name net =
          (m.record p.name net).withPayload updates := rfl
      simp only [FlatNode.recordAll, List.foldl_cons, if_pos h, if_pos h', hrecord] at ih ⊢
      exact ih
    · have h' : ¬ (m.withPayload updates).id = p.node := h
      simp only [FlatNode.recordAll, List.foldl_cons, if_neg h, if_neg h'] at ih ⊢
      exact ih

theorem recordNets_withPayload (start : Nat) (comps : List (List Port)) :
    (m.withPayload updates).recordNets start comps =
      (m.recordNets start comps).withPayload updates := by
  induction comps generalizing m start with
  | nil => rfl
  | cons ms rest ih => rw [FlatNode.recordNets, FlatNode.recordNets, recordAll_withPayload, ih]

theorem foldl_aliasNode_withPayload (nodes : List (FlatNode K)) (g : PortGraph) :
    (nodes.map (FlatNode.withPayload updates)).foldl Topology.aliasNode g =
      nodes.foldl Topology.aliasNode g := by
  rw [List.foldl_map]
  rfl

/-- Links join the same ports whatever the payloads are. -/
theorem joined_withPayload (flat : Flat K) :
    (⟨flat.nodes.map (FlatNode.withPayload updates), flat.links⟩ : Flat K).joined =
      ⟨flat.nodes.map (FlatNode.withPayload updates), flat.joined.graph⟩ := by
  rw [Flat.joined, Flat.joined, Topology.foldAliases, Topology.foldAliases,
    foldl_aliasNode_withPayload]

end Topology

/-! ### Networks after a solve -/

/-- Nodes are named by their scopes and local ids, and each name is there once. -/
structure Network.WellNamed (net : Network K) : Prop where
  nodup : (net.nodes.map (·.id)).Nodup
  id_eq : ∀ m ∈ net.nodes, m.id = m.scope ++ m.localId

theorem Network.WellNamed.withValues {net : Network K} (h : net.WellNamed) (xs : List K) :
    (net.withValues xs).WellNamed := ⟨h.nodup, h.id_eq⟩

namespace Network

variable [Scalar K] {net : Network K} {m : FlatNode K}

/-- The network whose nodes have the payloads of a solve as far as they are written back. -/
def written (net : Network K) : Network K :=
  { net with nodes := net.nodes.map (FlatNode.withPayload net.finish.topLevelPayloads) }

theorem payload_finishNode (net : Network K) (m : FlatNode K) :
    (net.finishNode m).payload = m.kind.finish m.payload fun p =>
      (m.net? p).bind fun i => net.nets[i]?.map (·.value) := rfl

theorem topLevelPayloads_finish (net : Network K) : net.finish.topLevelPayloads =
    (net.nodes.filter (·.isTopLevel)).map fun m => (m.localId, (net.finishNode m).payload) := by
  rw [topLevelPayloads, finish, List.filter_map, List.map_map]
  rfl

theorem mem_topLevelPayloads (hm : m ∈ net.nodes) (htop : m.isTopLevel) :
    (m.localId, (net.finishNode m).payload) ∈ net.finish.topLevelPayloads := by
  rw [topLevelPayloads_finish]
  exact List.mem_map_of_mem (List.mem_filter.2 ⟨hm, htop⟩)

/-- The local ids at the top are ids of the network. -/
theorem nodup_topLevelPayloads (hnames : net.WellNamed) :
    (net.finish.topLevelPayloads.map (·.1)).Nodup := by
  have hkeys : net.finish.topLevelPayloads.map (·.1) =
      (net.nodes.filter (·.isTopLevel)).map (·.id) := by
    rw [topLevelPayloads_finish, List.map_map]
    refine List.map_congr_left fun m hm => ?_
    obtain ⟨hm, htop⟩ := List.mem_filter.1 hm
    have hscope : m.scope = "" := String.isEmpty_iff.1 htop
    rw [hnames.id_eq m hm, hscope, String.empty_append]
    rfl
  rw [hkeys]
  exact hnames.nodup.sublist (List.filter_sublist.map _)

/-- A node at the top gets the payload that the solve gives it, and no other node changes. -/
theorem withPayload_topLevelPayloads (hnames : net.WellNamed) (hm : m ∈ net.nodes) :
    m.withPayload net.finish.topLevelPayloads =
      if m.isTopLevel then net.finishNode m else m := by
  by_cases htop : m.isTopLevel
  · have hlookup : net.finish.topLevelPayloads.lookup m.localId =
        some (net.finishNode m).payload :=
      (lookup_eq_some_iff (nodup_topLevelPayloads hnames)).2 (mem_topLevelPayloads hm htop)
    rw [FlatNode.withPayload, if_pos htop, if_pos htop, hlookup]
    rfl
  · rw [FlatNode.withPayload, if_neg htop, if_neg htop]

theorem equations_finishNode [Zero K] [One K] : (net.finishNode m).equations = m.equations := by
  rw [FlatNode.equations, payload_finishNode]
  exact Kind.equations_finish

/-- What is written back into a node does not change its equations. -/
theorem equations_withPayload [Zero K] [One K] (hnames : net.WellNamed) (hm : m ∈ net.nodes) :
    (m.withPayload net.finish.topLevelPayloads).equations = m.equations := by
  rw [withPayload_topLevelPayloads hnames hm]
  split
  · exact equations_finishNode
  · rfl

/-- Finishing once more gives the same payloads. -/
theorem topLevelPayloads_written (hnames : net.WellNamed) :
    net.written.finish.topLevelPayloads = net.finish.topLevelPayloads := by
  rw [topLevelPayloads_finish, topLevelPayloads_finish, written, List.filter_map, List.map_map]
  refine List.map_congr_left fun m hm => ?_
  obtain ⟨hm, htop⟩ := List.mem_filter.1 hm
  have htop : m.isTopLevel := htop
  show (m.localId, (net.finishNode (m.withPayload net.finish.topLevelPayloads)).payload) =
    (m.localId, (net.finishNode m).payload)
  rw [withPayload_topLevelPayloads hnames hm, if_pos htop, payload_finishNode,
    payload_finishNode]
  exact congrArg _ Kind.finish_finish

end Network

variable [Add K] [Div K] [Zero K] [One K] [Scalar K] {project : Project K} {strict : Bool}
  {d : Diagram K} {default : K} {net : Network K}

namespace Diagram

/-- The nodes of a network are named by their scopes and local ids, each once. -/
theorem wellNamed_of_build (h : (d.build project strict default).result = .ok net) :
    net.WellNamed := by
  obtain ⟨hflat, hnet⟩ := build_eq_ok.1 h
  obtain ⟨-, -, hnodup⟩ := flatten_eq_ok.1 hflat
  refine ⟨?_, ?_⟩
  · rw [Topology.ids_network hnet]
    exact hnodup
  · intro m hm
    obtain ⟨c, -, n, -, -, rfl⟩ := exists_place_of_build h hm
    rw [FlatNode.recordNets_eq]
    rfl

/-- What a solve writes back keeps the form of each node. -/
theorem keepsForm_of_build (h : (d.build project strict default).result = .ok net) (xs : List K) :
    ∀ n ∈ d.firsts, n.KeepsForm (net.withValues xs).finish.topLevelPayloads := by
  intro n hn
  have hnames := (wellNamed_of_build h).withValues xs
  obtain ⟨-, hnet⟩ := build_eq_ok.1 h
  have hkeys : ((net.withValues xs).finish.topLevelPayloads.map (·.1)).Nodup :=
    Network.nodup_topLevelPayloads hnames
  -- the node as it stands in the network
  let m := (n.flat "").recordNets 0 (d.root.unfold project).joined.graph.components
  have hm : m ∈ (net.withValues xs).nodes := by
    show m ∈ net.nodes
    rw [Topology.nodes_network hnet]
    refine List.mem_map_of_mem (Copy.mem_nodes.2 ⟨d.root, ?_, n, hn, rfl⟩)
    exact Copy.mem_descendants.2 .refl
  have hfields : m.localId = n.id ∧ m.isTopLevel ∧ m.kind = (n.flat "").kind ∧
      m.payload = n.payload := by
    have hmeq : m = { n.flat "" with ports := m.ports } := FlatNode.recordNets_eq _ _ _
    rw [hmeq]
    exact ⟨rfl, rfl, rfl, rfl⟩
  obtain ⟨hlocal, htop, hkind, hpayload⟩ := hfields
  have hlookup := (lookup_eq_some_iff hkeys).2 (Network.mem_topLevelPayloads hm htop)
  have hfinish : ∀ kind, n.kind = .ok kind → ∃ value?,
      (n.withPayload (net.withValues xs).finish.topLevelPayloads).payload =
        kind.finish n.payload value? := by
    intro kind hn
    rw [hlocal] at hlookup
    refine ⟨fun p => (m.net? p).bind fun i => (net.withValues xs).nets[i]?.map (·.value), ?_⟩
    rw [PlacedNode.withPayload, hlookup, Option.getD_some, Network.finishNode, hkind,
      PlacedNode.kind_flat hn, hpayload]
  refine ⟨?_, ?_⟩
  · intro kind hn
    obtain ⟨value?, hvalue⟩ := hfinish kind hn
    rw [hvalue, Kind.declaredPorts_finish]
  · intro kind hn
    obtain ⟨value?, hvalue⟩ := hfinish kind hn
    rw [hvalue, Kind.referencedDiagram_finish]

/-- What could be read of a flattened node can be read of the node with the payload of a solve. -/
theorem exists_configuredValue_written (h : (d.build project strict default).result = .ok net)
    {m : FlatNode K} (hm : m ∈ (d.root.unfold project).nodes) {xs : List K} {x : K}
    (hx : Kind.configuredValue m.payload = .ok x) :
    ∃ y, Kind.configuredValue
      (m.withPayload (net.withValues xs).finish.topLevelPayloads).payload = .ok y := by
  have hnames := (wellNamed_of_build h).withValues xs
  obtain ⟨-, hnet⟩ := build_eq_ok.1 h
  -- the node as it stands in the network
  obtain ⟨m', hm', hpayload, hsame⟩ : ∃ m' ∈ net.nodes, m'.payload = m.payload ∧
      (m.withPayload (net.withValues xs).finish.topLevelPayloads).payload =
        (m'.withPayload (net.withValues xs).finish.topLevelPayloads).payload := by
    rw [Topology.nodes_network hnet]
    refine ⟨_, List.mem_map_of_mem hm, FlatNode.payload_recordNets, ?_⟩
    rw [← recordNets_withPayload, FlatNode.payload_recordNets]
  have hwritten : m'.withPayload (net.withValues xs).finish.topLevelPayloads =
      if m'.isTopLevel then (net.withValues xs).finishNode m' else m' :=
    Network.withPayload_topLevelPayloads hnames hm'
  rw [← hpayload] at hx
  rw [hsame, hwritten]
  split
  · rw [Network.payload_finishNode]
    exact Kind.exists_configuredValue_finish hx
  · exact ⟨x, hx⟩

end Diagram

end NetBalance
