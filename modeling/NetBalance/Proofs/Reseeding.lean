import NetBalance.Proofs.Resting
import NetBalance.Proofs.Seeds
import NetBalance.Proofs.Vectors
import NetBalance.Proofs.WriteBack

/-! # Making nets anew from solved values

    A solve puts the values of nets into the unlocked sources of the root, and
    a later build starts each net from the mean of its sources.  Where every
    source then has the value of its net, and no net is without a source, the
    network of the diagram that came back starts from the solved values. -/

namespace NetBalance

variable {K : Type}

/-! ### Means -/

section Means

variable [Field K] [LinearOrder K] [Scalar K] {x : K} {xs : List K}

/-- The mean of exact numbers is their sum by their number. -/
theorem mean?_eq (hK : Scalar.IsExact K) (xs : List K) :
    mean? xs = if xs = [] then none else some (xs.sum / xs.length) := by
  have hadds : AddsExactly K := ⟨add_assoc, add_comm, zero_add⟩
  rw [mean?, hadds.sum_eq, sumLeft_eq_sum, hK.ofInt?]
  simp only [List.isEmpty_iff, Int.cast_natCast, Option.map_some]

/-- The mean of equal numbers is that number. -/
theorem mean?_of_forall_eq [IsStrictOrderedRing K] (hK : Scalar.IsExact K)
    (h : ∀ y ∈ xs, y = x) : mean? xs = if xs = [] then none else some x := by
  rw [mean?_eq hK]
  by_cases hempty : xs = []
  · rw [if_pos hempty, if_pos hempty]
  · have hlength : (xs.length : K) ≠ 0 := by
      rw [Nat.cast_ne_zero]
      exact fun h => hempty (List.length_eq_zero_iff.1 h)
    rw [if_neg hempty, if_neg hempty, List.sum_eq_card_nsmul xs x h, nsmul_eq_mul,
      mul_div_cancel_left₀ x hlength]

end Means

/-! ### Seeds again -/

namespace Topology

section Read

variable [Add K] [Div K] [Zero K] [One K] [Scalar K] {t : Topology K} {p : Port} {m : FlatNode K}

omit [Add K] [Div K] in
/-- A source proposes its value for its first terminal. -/
theorem proposal_source {x : K} (hm : t.node? p.node = some m) (hkind : m.kind = .source)
    (hx : Kind.configuredValue m.payload = .ok x) :
    t.proposal p = .ok (if p.name = some "a" then some x else none) := by
  rw [proposal, hm]
  simp only [hkind, Kind.initialValues, hx, ok_bind, pure, Except.pure, Except.map]
  cases p.name with
  | none => rfl
  | some name =>
    by_cases hname : name = "a"
    · simp [hname]
    · have hne : (name == "a") = false := beq_eq_false_iff_ne.2 hname
      simp [hname, List.lookup_cons, hne]

/-- The values of the sources of a network could be read. -/
theorem exists_configuredValue {default : K} {net : Network K} (h : t.network default = .ok net)
    {n : Net K} (hn : n ∈ net.nets) (hp : p ∈ n.members) (hm : t.node? p.node = some m)
    (hkind : m.kind = .source) : ∃ x, Kind.configuredValue m.payload = .ok x := by
  obtain ⟨hread, -⟩ := seed_eq_ok.1 (seed_network h hn)
  obtain ⟨o, ho⟩ := hread p hp
  rw [proposal, hm] at ho
  obtain ⟨values, hvalues, -⟩ := map_eq_ok.1 ho
  rw [hkind, Kind.initialValues] at hvalues
  obtain ⟨x, hx, -⟩ := bind_eq_ok.1 hvalues
  exact ⟨x, hx⟩

end Read

variable [Field K] [LinearOrder K] [IsStrictOrderedRing K] [Scalar K] {t : Topology K}
  {ms : List Port} {default x : K}

/-- A net starts from the one value that is proposed for it. -/
theorem seed_of_agree (hK : Scalar.IsExact K)
    (hagree : ∀ p ∈ ms, t.proposal p = .ok none ∨ t.proposal p = .ok (some x))
    (hsome : x = default ∨ ∃ p ∈ ms, t.proposal p = .ok (some x)) : t.seed ms default = .ok x := by
  rw [seed_eq_ok]
  refine ⟨?_, ?_⟩
  · intro p hp
    rcases hagree p hp with h | h
    · exact ⟨none, h⟩
    · exact ⟨some x, h⟩
  · have hall : ∀ y ∈ ms.filterMap t.proposed, y = x := by
      intro y hy
      obtain ⟨p, hp, hy⟩ := List.mem_filterMap.1 hy
      rcases hagree p hp with h | h
      · rw [proposed_of_ok h] at hy
        cases hy
      · rw [proposed_of_ok h] at hy
        exact (Option.some.inj hy).symm
    rw [mean?_of_forall_eq hK hall]
    split
    · next hempty =>
      -- without a proposal the value is the default one
      rcases hsome with rfl | ⟨p, hp, h⟩
      · rfl
      · have hmem : x ∈ ms.filterMap t.proposed := List.mem_filterMap.2 ⟨p, hp, proposed_of_ok h⟩
        rw [hempty] at hmem
        cases hmem
    · rfl

end Topology

/-! ### The network of the diagram that came back -/

/-- The source has the values of the nets that its first terminal is in. -/
def FlatNode.Matches [Zero K] [One K] [Scalar K] (m : FlatNode K) (nets : List (Net K)) : Prop :=
  ∀ n ∈ nets, m.terminal "a" ∈ n.members → Kind.configuredValue m.payload = .ok n.value

instance [Zero K] [One K] [Scalar K] [DecidableEq K] {m : FlatNode K} {nets : List (Net K)} :
    Decidable (m.Matches nets) :=
  inferInstanceAs (Decidable (∀ n ∈ nets, m.terminal "a" ∈ n.members →
    Kind.configuredValue m.payload = .ok n.value))

namespace Network

/-- A source of the network is connected to the net. -/
def Feeds (net : Network K) (n : Net K) : Prop :=
  ∃ m ∈ net.nodes, m.kind = .source ∧ m.terminal "a" ∈ n.members

instance {net : Network K} {n : Net K} : Decidable (net.Feeds n) :=
  inferInstanceAs (Decidable (∃ m ∈ net.nodes, m.kind = .source ∧ m.terminal "a" ∈ n.members))

/-- Nets that are made anew start from their values: no source has another value than its net, and
    a net without sources has the default value. -/
structure Restarts [Zero K] [One K] [Scalar K] (net : Network K) (default : K) : Prop where
  sources : ∀ m ∈ net.nodes, m.kind = .source → m.Matches net.nets
  sourced : ∀ n ∈ net.nets, n.value = default ∨ net.Feeds n

end Network

namespace Topology

variable [Field K] [LinearOrder K] [IsStrictOrderedRing K] [Scalar K] {t : Topology K}
  {default : K} {net : Network K}

omit [LinearOrder K] [IsStrictOrderedRing K] in
/-- A network with one net for each component is what is made if its values are the seeds. -/
theorem network_of_seeds
    (hnodes : net.nodes = t.nodes.map fun n => n.recordNets 0 t.graph.components)
    (hmembers : net.nets.map (·.members) = t.graph.components)
    (hseeds : ∀ n ∈ net.nets, t.seed n.members default = .ok n.value) :
    t.network default = .ok net := by
  refine network_eq_ok.2 ⟨net.values, ?_, ?_⟩
  · rw [← hmembers, Network.values, List.map_map, List.map_map]
    exact List.map_congr_left hseeds
  · have hnets : List.zipWith Net.mk net.values (net.nets.map (·.members)) = net.nets := by
      rw [Network.values, List.zipWith_map, List.zipWith_self]
      exact List.map_id _
    rw [← hnodes, ← hmembers, hnets]

/-- The seeds of a network that restarts are its values, provided that its sources can be read. -/
theorem seed_of_restarts (hK : Scalar.IsExact K) (hids : (t.nodes.map (·.id)).Nodup)
    (hnodes : net.nodes = t.nodes.map fun n => n.recordNets 0 t.graph.components)
    (hread : ∀ m ∈ t.nodes, m.kind = .source → ∀ n ∈ net.nets, ∀ p ∈ n.members, p.node = m.id →
      ∃ x, Kind.configuredValue m.payload = .ok x)
    (h : net.Restarts default) {n : Net K} (hn : n ∈ net.nets) :
    t.seed n.members default = .ok n.value := by
  have hsource : ∀ m ∈ t.nodes, m.kind = .source → m.terminal "a" ∈ n.members →
      Kind.configuredValue m.payload = .ok n.value := by
    intro m hm hkind hp
    have hrecorded : m.recordNets 0 t.graph.components ∈ net.nodes := by
      rw [hnodes]
      exact List.mem_map_of_mem hm
    have hvalue := h.sources _ hrecorded (by rw [FlatNode.kind_recordNets, hkind]) n hn
      (by rw [FlatNode.terminal, FlatNode.id_recordNets]; exact hp)
    rw [FlatNode.payload_recordNets] at hvalue
    exact hvalue
  refine seed_of_agree hK ?_ ?_
  · intro p hp
    cases hm : t.node? p.node with
    | none => exact Or.inl (by rw [proposal, hm])
    | some m =>
      obtain ⟨hmem, hid⟩ := (node?_eq_some_iff hids).1 hm
      by_cases hkind : m.kind = .source
      · obtain ⟨x, hx⟩ := hread m hmem hkind n hn p hp hid.symm
        rw [proposal_source hm hkind hx]
        by_cases hname : p.name = some "a"
        · have hterminal : m.terminal "a" = p := by
            rw [FlatNode.terminal, hid, ← hname]
          have hvalue := hsource m hmem hkind (hterminal ▸ hp)
          rw [if_pos hname, Except.ok.inj (hx.symm.trans hvalue)]
          exact Or.inr rfl
        · exact Or.inl (by rw [if_neg hname])
      · exact Or.inl (proposal_eq_none hm hkind)
  · refine (h.sourced n hn).imp_right fun hsourced => ?_
    obtain ⟨m', hm', hkind, hp⟩ := hsourced
    rw [hnodes] at hm'
    obtain ⟨m, hm, rfl⟩ := List.mem_map.1 hm'
    rw [FlatNode.kind_recordNets] at hkind
    rw [FlatNode.terminal, FlatNode.id_recordNets] at hp
    refine ⟨m.terminal "a", hp, ?_⟩
    have hnode : t.node? (m.terminal "a").node = some m := (node?_eq_some_iff hids).2 ⟨hm, rfl⟩
    rw [proposal_source hnode hkind (hsource m hm hkind hp)]
    rfl

end Topology

namespace Diagram

/-- The value of a source at a net could be read when the network was made for the first time, and
    still can when it has the payload of a solve. -/
theorem exists_configuredValue_again [Add K] [Div K] [Zero K] [One K] [Scalar K]
    {project : Project K} {strict : Bool} {d : Diagram K} {default : K} {net : Network K}
    (h : (d.build project strict default).result = .ok net) (xs : List K) {m : FlatNode K}
    (hm : m ∈ (d.root.unfold project).nodes) (hkind : m.kind = .source) {ms : List Port}
    (hms : ms ∈ (d.root.unfold project).joined.graph.components) {p : Port} (hp : p ∈ ms)
    (hid : p.node = m.id) :
    ∃ x, Kind.configuredValue
      (m.withPayload (net.withValues xs).finish.topLevelPayloads).payload = .ok x := by
  obtain ⟨hflat, hnet⟩ := build_eq_ok.1 h
  obtain ⟨-, -, hnodup⟩ := flatten_eq_ok.1 hflat
  rw [← Topology.members_network hnet] at hms
  obtain ⟨n, hn, rfl⟩ := List.mem_map.1 hms
  have hnode : (d.root.unfold project).joined.node? p.node = some m :=
    (Topology.node?_eq_some_iff hnodup).2 ⟨hm, hid.symm⟩
  obtain ⟨x, hx⟩ := Topology.exists_configuredValue hnet hn hp hnode hkind
  exact exists_configuredValue_written h hm hx

variable [Field K] [LinearOrder K] [IsStrictOrderedRing K] [Scalar K] {project : Project K}
  {strict : Bool} {d : Diagram K} {default : K} {net : Network K} {xs : List K}

/-- Where nets restart from their values, the diagram with the payloads of a solve has the network
    with these payloads and values. -/
theorem build_written (hK : Scalar.IsExact K)
    (h : (d.build project strict default).result = .ok net)
    (hrestarts : (net.withValues xs).written.Restarts default) :
    ((d.withPayloads (net.withValues xs).finish.topLevelPayloads).build project strict
      default).result = .ok (net.withValues xs).written := by
  obtain ⟨hflat, hnet⟩ := build_eq_ok.1 h
  have hflat' := flatten_withPayloads (keepsForm_of_build h xs) hflat
  rw [build_result_of_flatten hflat', joined_withPayload]
  -- the nodes and the nets are as before, but for payloads and values
  have hnodes : (net.withValues xs).written.nodes =
      ((d.root.unfold project).nodes.map (FlatNode.withPayload
        (net.withValues xs).finish.topLevelPayloads)).map
          fun n => n.recordNets 0 (d.root.unfold project).joined.graph.components := by
    show net.nodes.map _ = _
    rw [Topology.nodes_network hnet, List.map_map, List.map_map]
    exact List.map_congr_left fun m _ => (recordNets_withPayload 0 _).symm
  have hmembers : (net.withValues xs).written.nets.map (·.members) =
      (d.root.unfold project).joined.graph.components :=
    (Network.members_withValues net xs).trans (Topology.members_network hnet)
  obtain ⟨-, -, hnodup⟩ := flatten_eq_ok.1 hflat
  have hids : (((d.root.unfold project).nodes.map (FlatNode.withPayload
      (net.withValues xs).finish.topLevelPayloads)).map (·.id)).Nodup := by
    rw [List.map_map]
    exact hnodup
  refine Topology.network_of_seeds hnodes hmembers fun n hn =>
    Topology.seed_of_restarts hK hids hnodes ?_ hrestarts hn
  intro m' hm' hkind n' hn' p hp hid
  obtain ⟨m, hm, rfl⟩ := List.mem_map.1 hm'
  have hcomponent : n'.members ∈ (d.root.unfold project).joined.graph.components :=
    hmembers ▸ List.mem_map_of_mem hn'
  exact exists_configuredValue_again h xs hm hkind hcomponent hp hid

end Diagram

/-! ### What the sources of the diagram that came back say -/

/-- After a solve the nets of a network can be made anew with their values: no net is without a
    source, unless its value is the default one, and the sources behind references, which keep
    their payloads, already had the values of their nets. -/
structure Network.Reseeds [Zero K] [One K] [Scalar K] (net solved : Network K) (default : K) :
    Prop where
  sourced : ∀ n ∈ solved.nets, n.value = default ∨ net.Feeds n
  inlined : ∀ m ∈ net.nodes, m.kind = .source → ¬ m.isTopLevel →
    Kind.isLocked m.payload = false → m.Matches solved.nets

instance [Zero K] [One K] [Scalar K] [DecidableEq K] {net solved : Network K} {default : K} :
    Decidable (net.Reseeds solved default) :=
  decidable_of_iff ((∀ n ∈ solved.nets, n.value = default ∨ net.Feeds n) ∧
    ∀ m ∈ net.nodes, m.kind = .source → ¬ m.isTopLevel →
      Kind.isLocked m.payload = false → m.Matches solved.nets)
    ⟨fun h => ⟨h.1, h.2⟩, fun h => ⟨h.sourced, h.inlined⟩⟩

/-- The locked sources have the values of their nets. -/
def Network.LocksHold [Zero K] [One K] [Scalar K] (net solved : Network K) : Prop :=
  ∀ m ∈ net.nodes, m.kind = .source → Kind.isLocked m.payload → m.Matches solved.nets

namespace Diagram

variable [Field K] [Scalar K] {project : Project K} {strict : Bool} {d : Diagram K} {default : K}
  {net : Network K} {xs : List K}

/-- The value that a node finds for one of its ports after a solve. -/
theorem value_of_terminal (h : (d.build project strict default).result = .ok net) {m : FlatNode K}
    (hm : m ∈ net.nodes) {n : Net K} (hn : n ∈ (net.withValues xs).nets)
    (hp : m.terminal "a" ∈ n.members) :
    ∃ i, m.net? (some "a") = some i ∧ (net.withValues xs).nets[i]? = some n := by
  obtain ⟨i, hi⟩ := List.mem_iff_getElem?.1 hn
  obtain ⟨n₀, hn₀, hsame⟩ : ∃ n₀, net.nets[i]? = some n₀ ∧ n₀.members = n.members := by
    have hmembers := congrArg (·[i]?) (Network.members_withValues net xs)
    simp only [List.getElem?_map, hi, Option.map_some] at hmembers
    exact Option.map_eq_some_iff.1 hmembers.symm
  exact ⟨i, (net?_of_build h hm).2 ⟨n₀, hn₀, hsame ▸ hp⟩, hi⟩

/-- Once what a solve says is written back, the nets restart from the solved values. -/
theorem restarts_written (h : (d.build project strict default).result = .ok net)
    (hseeds : net.Reseeds (net.withValues xs) default)
    (hlocks : net.LocksHold (net.withValues xs)) :
    (net.withValues xs).written.Restarts default := by
  have hnames := (wellNamed_of_build h).withValues xs
  have hwritten : ∀ m ∈ net.nodes, m.withPayload (net.withValues xs).finish.topLevelPayloads =
      if m.isTopLevel then (net.withValues xs).finishNode m else m := fun m hm =>
    Network.withPayload_topLevelPayloads hnames hm
  refine ⟨?_, ?_⟩
  · intro m' hm' hkind n hn hp
    obtain ⟨m, hm, rfl⟩ := List.mem_map.1 hm'
    have hkind : m.kind = .source := hkind
    have hp : m.terminal "a" ∈ n.members := hp
    rw [hwritten m hm]
    cases hlocked : Kind.isLocked m.payload with
    | true =>
      have hvalue := hlocks m hm hkind hlocked n hn hp
      split
      · rw [Network.payload_finishNode, hkind, Kind.finish, if_pos hlocked]
        exact hvalue
      · exact hvalue
    | false =>
      split
      · -- the source took over the value
        obtain ⟨i, hi, hn⟩ := value_of_terminal h hm hn hp
        rw [Network.payload_finishNode, hkind]
        exact Kind.configuredValue_finish hlocked (by simp [hi, hn])
      · next htop => exact hseeds.inlined m hm hkind htop hlocked n hn hp
  · intro n hn
    refine (hseeds.sourced n hn).imp_right fun hfeeds => ?_
    obtain ⟨m, hm, hkind, hp⟩ := hfeeds
    exact ⟨_, List.mem_map_of_mem hm, hkind, hp⟩

end Diagram

end NetBalance
