import NetBalance.Proofs.DuplicateNodes
import NetBalance.Proofs.Reports
import NetBalance.Proofs.RoundTrip
import NetBalance.Proofs.Valueless

/-! # Nets start from means

    A net starts from the mean of the values of the sources that it lists a
    terminal of.  Both terminals of such a source are among its members, as
    they are joined when one of them is touched, but a value is proposed for
    the first one only; so each source counts once, however it is wired. -/

namespace NetBalance

variable {K : Type}

/-! ### Sources at nets -/

instance {m : FlatNode K} {n : Net K} : Decidable (m.IsAt n) :=
  inferInstanceAs (Decidable (∃ t ∈ Kind.sourceTerminals, m.terminal t ∈ n.members))

/-- The sources of which a net lists a terminal. -/
def Network.sourcesAt (net : Network K) (n : Net K) : List (FlatNode K) :=
  net.nodes.filter fun m => m.kind = .source ∧ m.IsAt n

theorem Network.mem_sourcesAt {net : Network K} {n : Net K} {m : FlatNode K} :
    m ∈ net.sourcesAt n ↔ m ∈ net.nodes ∧ m.kind = .source ∧ m.IsAt n := by
  rw [sourcesAt, List.mem_filter, decide_eq_true_iff]

/-- A net with a source lists its first terminal. -/
theorem Network.Linked.terminal_mem {net : Network K} (h : net.Linked) {n : Net K}
    (hn : n ∈ net.nets) {m : FlatNode K} (hm : m ∈ net.sourcesAt n) :
    m.terminal "a" ∈ n.members := by
  obtain ⟨hm, hkind, hat⟩ := mem_sourcesAt.1 hm
  obtain ⟨i, hi, hnet⟩ := h.net?_of_isAt hm hkind hn hat
  obtain ⟨ms, hms, hmem⟩ := (h.net?_iff m hm (some "a") i).1 hnet
  rw [List.getElem?_map, hi, Option.map_some, Option.some.injEq] at hms
  exact hms ▸ hmem

section Built

variable [Add K] [Div K] [Zero K] [One K] [Scalar K] {project : Project K} {d : Diagram K}
  {strict : Bool} {default : K} {net : Network K}
  (h : (d.build project strict default).result = .ok net)
include h

/-- A source at a net can be read, and proposes its value for its first terminal. -/
theorem Diagram.proposal_of_mem_sourcesAt {n : Net K} (hn : n ∈ net.nets) {m : FlatNode K}
    (hm : m ∈ net.sourcesAt n) :
    ∃ x, Kind.configuredValue m.payload = .ok x ∧
      (d.root.unfold project).joined.proposal (m.terminal "a") = .ok (some x) := by
  have hterminal := (linked_of_build h).terminal_mem hn hm
  obtain ⟨hm, hkind, -⟩ := Network.mem_sourcesAt.1 hm
  obtain ⟨hflat, hnet⟩ := build_eq_ok.1 h
  obtain ⟨-, -, hnodup⟩ := flatten_eq_ok.1 hflat
  -- the source as it was flattened
  rw [Topology.nodes_network hnet] at hm
  obtain ⟨fresh, hfresh, rfl⟩ := List.mem_map.1 hm
  rw [FlatNode.kind_recordNets] at hkind
  rw [FlatNode.terminal, FlatNode.id_recordNets] at hterminal ⊢
  rw [FlatNode.payload_recordNets]
  have hnode : (d.root.unfold project).joined.node? fresh.id = some fresh :=
    (Topology.node?_eq_some_iff hnodup).2 ⟨hfresh, rfl⟩
  obtain ⟨x, hx⟩ := Topology.exists_configuredValue hnet hn hterminal hnode hkind
  exact ⟨x, hx, Topology.proposal_source hnode hkind hx⟩

/-- For other ports nothing is proposed. -/
theorem Diagram.proposal_of_notMem_sourcesAt {n : Net K} (hn : n ∈ net.nets) {p : Port}
    (hp : p ∈ n.members) (hnot : p ∉ (net.sourcesAt n).map (·.terminal "a")) :
    (d.root.unfold project).joined.proposal p = .ok none := by
  obtain ⟨hflat, hnet⟩ := build_eq_ok.1 h
  obtain ⟨-, -, hnodup⟩ := flatten_eq_ok.1 hflat
  cases hnode : (d.root.unfold project).joined.node? p.node with
  | none => rw [Topology.proposal, hnode]
  | some fresh =>
    by_cases hkind : fresh.kind = .source
    · obtain ⟨x, hx⟩ := Topology.exists_configuredValue hnet hn hp hnode hkind
      rw [Topology.proposal_source hnode hkind hx, if_neg]
      -- a first terminal would be that of a source at the net
      intro hname
      obtain ⟨hfresh, hid⟩ := (Topology.node?_eq_some_iff hnodup).1 hnode
      let m := fresh.recordNets 0 (d.root.unfold project).joined.graph.components
      have hterminal : m.terminal "a" = p := by
        rw [FlatNode.terminal, FlatNode.id_recordNets, hid, ← hname]
      refine hnot (List.mem_map.2 ⟨m, Network.mem_sourcesAt.2 ⟨?_, ?_, ?_⟩, hterminal⟩)
      · rw [Topology.nodes_network hnet]
        exact List.mem_map_of_mem hfresh
      · rw [FlatNode.kind_recordNets, hkind]
      · exact ⟨"a", List.mem_cons_self, hterminal ▸ hp⟩
    · exact Topology.proposal_eq_none hnode hkind

end Built

/-- A net starts from the mean of the values of its sources, or from the default value if it has no
    source. -/
theorem Diagram.value_of_build [Field K] [LinearOrder K] [IsStrictOrderedRing K] [Scalar K]
    (hK : Scalar.IsExact K) {project : Project K} {d : Diagram K} {strict : Bool} {default : K}
    {net : Network K} (h : (d.build project strict default).result = .ok net) {n : Net K}
    (hn : n ∈ net.nets) :
    ∃ values : List K,
      (net.sourcesAt n).map (fun m => Kind.configuredValue m.payload) = values.map .ok ∧
      n.value = if values = [] then default else values.sum / values.length := by
  obtain ⟨-, hnet⟩ := build_eq_ok.1 h
  have hadds : AddsExactly K := ⟨add_assoc, add_comm, zero_add⟩
  let firsts := (net.sourcesAt n).map (·.terminal "a")
  have hfirsts : ∀ p ∈ firsts, p ∈ n.members := by
    intro p hp
    obtain ⟨m, hm, rfl⟩ := List.mem_map.1 hp
    exact (linked_of_build h).terminal_mem hn hm
  have hnodup : firsts.Nodup := by
    have hids : ((net.sourcesAt n).map (·.id)).Nodup :=
      (wellNamed_of_build h).nodup.sublist (List.filter_sublist.map _)
    exact List.Nodup.of_map Port.node (by rw [List.map_map]; exact hids)
  have hmembers : n.members.Nodup := (List.nodup_flatMap.1 (Topology.nodup_network hnet)).1 n hn
  -- the members for which a value is proposed are the first terminals of the sources
  have hperm : firsts.Perm (n.members.filter fun p => decide (p ∈ firsts)) := by
    refine (List.perm_ext_iff_of_nodup hnodup (hmembers.filter _)).2 fun p => ?_
    rw [List.mem_filter, decide_eq_true_iff]
    exact ⟨fun hp => ⟨hfirsts p hp, hp⟩, fun hp => hp.2⟩
  obtain ⟨value, hseed, hsame⟩ := Topology.exists_seed (fun p => decide (p ∈ firsts)) hperm
    (fun _ _ _ => rfl)
    (fun p hp hnot => proposal_of_notMem_sourcesAt h hn hp (of_decide_eq_false hnot))
    (Topology.seed_network hnet hn)
  obtain ⟨-, hvalue⟩ := Topology.seed_eq_ok.1 hseed
  obtain ⟨values, hvalues⟩ := exists_map_eq_ok.2 fun m hm =>
    (proposal_of_mem_sourcesAt h hn hm).imp fun _ hx => hx.1
  have hproposed : firsts.filterMap (d.root.unfold project).joined.proposed = values := by
    rw [eq_filterMap_of_map_ok hvalues, List.filterMap_map]
    refine List.filterMap_congr fun m hm => ?_
    obtain ⟨x, hx, hproposal⟩ := proposal_of_mem_sourcesAt h hn hm
    rw [Function.comp_apply, Topology.proposed_of_ok hproposal, hx]
    rfl
  refine ⟨values, hvalues, ?_⟩
  rw [← hsame hadds, hvalue, hproposed, mean?_eq hK]
  split
  · rfl
  · rfl

/-! ### Connected sources -/

/-- A link between two different ports touches a terminal of the node. -/
def Flat.Connects (flat : Flat K) (m : FlatNode K) : Prop :=
  ∃ l ∈ flat.links, l.first ≠ l.second ∧ ∃ t ∈ Kind.sourceTerminals, m.terminal t ∈ l.ports

section Connected

variable [Add K] [Div K] [One K] [Scalar K] {project : Project K} {d : Diagram K}
  (hnodup : ((d.root.nodes project).map (·.id)).Nodup) {m : FlatNode K}
  (hm : m ∈ d.root.nodes project) (hkind : m.kind = .source)
include hnodup hm hkind

omit [Add K] [Div K] [One K] [Scalar K] in
/-- Where a copy has a node of the id of a source, the node is the source. -/
theorem Diagram.kind_of_flatId {c : Copy K} (hc : c ∈ d.root.descendants project)
    {n : PlacedNode K} (hn : n ∈ c.diagram.firsts) (hid : c.scope ++ n.id = m.id) :
    n.kind = .ok .source := by
  have hflat : n.flat c.scope ∈ d.root.nodes project := Copy.mem_nodes.2 ⟨c, hc, n, hn, rfl⟩
  have hsame : n.flat c.scope = m := List.inj_on_of_nodup_map hnodup hflat hm hid
  refine PlacedNode.kind_of_flat (hsame ▸ hkind) (by simp)

/-- Links reach a source at its terminals. -/
theorem Diagram.terminal_of_mem_links {l : Link} (hl : l ∈ (d.root.unfold project).links)
    {p : Port} (hp : p ∈ l.ports) (hid : p.node = m.id) :
    ∃ t ∈ Kind.sourceTerminals, p = m.terminal t := by
  obtain ⟨c, hc, hl⟩ := Copy.mem_unfold_links.1 hl
  have hdeclared : ∀ stop : String × String, c.Declares project stop →
      p = ⟨c.scope ++ stop.1, some stop.2⟩ → ∃ t ∈ Kind.sourceTerminals, p = m.terminal t := by
    intro stop hstop hport
    obtain ⟨n, hn, hname⟩ := hstop
    rw [hport] at hid
    have hsource : n.kind = .ok .source := by
      refine kind_of_flatId hnodup hm hkind hc (mem_firsts_of_node? hn) ?_
      rw [id_of_node? hn]
      exact hid
    rw [Copy.portsOf_of_source hsource] at hname
    refine ⟨stop.2, hname, ?_⟩
    rw [hport, FlatNode.terminal, ← hid]
  rcases Copy.mem_links.1 hl with ⟨e, he, rfl⟩ | ⟨n, hn, c', hb, id, hwired, rfl⟩
  · obtain ⟨-, hsource, htarget⟩ := Copy.mem_accepted.1 he
    rcases List.mem_pair.1 hp with hp | hp
    · exact hdeclared _ hsource hp
    · exact hdeclared _ htarget hp
  · rcases List.mem_pair.1 hp with rfl | rfl
    · -- a reference is no source
      have href := Copy.kind_of_behind? hb
      rw [kind_of_flatId hnodup hm hkind hc hn hid] at href
      cases href
    · have hc' := Copy.mem_descendants_of_behind? hc hn hb
      obtain ⟨inner, hinner⟩ := node?_of_mem_exposedIds ((Copy.mem_wired hb).1 hwired).1
      have hsource : inner.kind = .ok .source := by
        refine kind_of_flatId hnodup hm hkind hc' (mem_firsts_of_node? hinner) ?_
        rw [id_of_node? hinner]
        exact hid
      refine ⟨"a", List.mem_cons_self, ?_⟩
      have hid : c'.scope ++ id = m.id := hid
      rw [Copy.port, FlatNode.terminal, ← hid, terminal, hinner]
      simp only [hsource]
      rfl

/-- A source is connected exactly when it has a port in the graph. -/
theorem Diagram.connects_iff : (d.root.unfold project).Connects m ↔
    ∃ p ∈ (d.root.unfold project).joined.graph.ports, p.node = m.id := by
  constructor
  · intro h
    obtain ⟨l, hl, hne, t, -, hp⟩ := h
    refine ⟨m.terminal t, mem_ports_joined.2 ?_, rfl⟩
    have hwired : d.Wired project l.first l.second := wired_iff.2 ⟨l, hl, hne, rfl, rfl⟩
    rcases List.mem_pair.1 hp with hp | hp
    · exact ⟨l.second, Or.inl (.wired (hp ▸ hwired))⟩
    · exact ⟨l.first, Or.inr (.wired (hp ▸ hwired))⟩
  · intro h
    obtain ⟨p, hp, hid⟩ := h
    have hwired : ∀ p, d.IsWired project p → p.node = m.id →
        (d.root.unfold project).Connects m := by
      intro p hp hid
      obtain ⟨l, hl, hne, hport⟩ : ∃ l ∈ (d.root.unfold project).links,
          l.first ≠ l.second ∧ p ∈ l.ports := by
        obtain ⟨q, hw | hw⟩ := hp
        · obtain ⟨l, hl, hne, hfirst, -⟩ := wired_iff.1 hw
          exact ⟨l, hl, hne, List.mem_pair.2 (Or.inl hfirst.symm)⟩
        · obtain ⟨l, hl, hne, -, hsecond⟩ := wired_iff.1 hw
          exact ⟨l, hl, hne, List.mem_pair.2 (Or.inr hsecond.symm)⟩
      obtain ⟨t, ht, rfl⟩ := terminal_of_mem_links hnodup hm hkind hl hport hid
      exact ⟨l, hl, hne, t, ht, hport⟩
    rcases isWired_or_terminal hp with hp | ⟨m', hm', -, hw, hport⟩
    · exact hwired p hp hid
    · -- the port was joined to the other terminal of the source
      have hsame : m' = m := by
        refine List.inj_on_of_nodup_map hnodup hm' hm ?_
        rw [← hid]
        rcases hport with rfl | rfl
        · rfl
        · rfl
      subst hsame
      rcases hw with hw | hw
      · exact hwired _ hw rfl
      · exact hwired _ hw rfl

end Connected

/-! ### Sources that are read -/

namespace Topology

variable [Add K] [Div K] [Zero K] [One K] [Scalar K] {t : Topology K} {default : K}

omit [Add K] [Div K] in
/-- A proposal fails exactly at a source whose value is no number. -/
theorem proposal_eq_error {p : Port} {cause : ValueError} : t.proposal p = .error cause ↔
    ∃ m, t.node? p.node = some m ∧ m.kind = .source ∧
      Kind.configuredValue m.payload = .error cause := by
  rw [proposal]
  cases t.node? p.node with
  | none => simp
  | some m =>
    have hsource : (Kind.source.initialValues m.payload).map (fun values =>
        p.name.bind fun name => values.lookup name) = .error cause ↔
          Kind.configuredValue m.payload = .error cause := by
      rw [map_eq_error, Kind.initialValues, bind_eq_error]
      refine or_iff_left fun h => ?_
      obtain ⟨x, -, h⟩ := h
      cases h
    simp only [Option.some.injEq, exists_eq_left']
    cases hkind : m.kind with
    | source => rw [hsource, eq_self, true_and]
    | sum => simp [Kind.initialValues, Except.map]
    | product => simp [Kind.initialValues, Except.map]
    | reference => simp [Kind.initialValues, Except.map]

theorem exists_seed_error {comps : List (List Port)} {nets : List (Net K)} {e : NetworkError}
    (h : (allocate default nets comps t).2 = .error e) :
    ∃ ms ∈ comps, ∃ cause, t.seed ms default = .error cause ∧ e = .value cause := by
  induction comps generalizing nets t with
  | nil => cases h
  | cons ms rest ih =>
    rw [allocate] at h
    cases hseed : t.seed ms default with
    | error cause =>
      rw [hseed] at h
      exact ⟨ms, List.mem_cons_self, cause, hseed, (Except.error.inj h).symm⟩
    | ok value =>
      rw [hseed] at h
      obtain ⟨ms', hms', cause, hcause, he⟩ := ih h
      rw [seed_recordNet] at hcause
      exact ⟨ms', List.mem_cons_of_mem ms hms', cause, hcause, he⟩

/-- Where a network is not made, some proposal has failed. -/
theorem exists_proposal_error {e : NetworkError} (h : t.network default = .error e) :
    ∃ p ∈ t.graph.ports, ∃ cause, t.proposal p = .error cause ∧ e = .value cause := by
  obtain ⟨ms, hms, cause, hseed, he⟩ := exists_seed_error (map_eq_error.1 h)
  rw [seed, bind_eq_error] at hseed
  rcases hseed with hseed | ⟨proposals, -, hseed⟩
  · obtain ⟨p, hp, hcause⟩ := exists_of_mapM_error hseed
    exact ⟨p, PortGraph.mem_ports_of_mem_component hms hp, cause, hcause, he⟩
  · cases hseed

theorem seed_congr {t' : Topology K} {ms : List Port}
    (h : ∀ p ∈ ms, t'.proposal p = t.proposal p) : t'.seed ms default = t.seed ms default := by
  rw [seed, seed, mapM_congr_left h]

end Topology

namespace Diagram

variable [Add K] [Div K] [Zero K] [One K] [Scalar K] {project : Project K} {d : Diagram K}
  {strict : Bool} {default : K} {flat : Flat K}

/-- Once a diagram is flattened, only connected sources can keep it from being built. -/
theorem build_error_of_flatten (hflat : (d.flatten project strict).result = .ok flat)
    {e : NetworkError} (h : (d.build project strict default).result = .error e) :
    ∃ m ∈ flat.nodes, m.kind = .source ∧ flat.Connects m ∧
      ∃ cause, Kind.configuredValue m.payload = .error cause ∧ e = .value cause := by
  rw [build_result_of_flatten hflat] at h
  obtain ⟨rfl, -, hnodup⟩ := flatten_eq_ok.1 hflat
  obtain ⟨p, hp, cause, hproposal, he⟩ := Topology.exists_proposal_error h
  obtain ⟨m, hnode, hkind, hcause⟩ := Topology.proposal_eq_error.1 hproposal
  obtain ⟨hm, hid⟩ := (Topology.node?_eq_some_iff hnodup).1 hnode
  exact ⟨m, hm, hkind, (connects_iff hnodup hm hkind).2 ⟨p, hp, hid.symm⟩, cause, hcause, he⟩

/-- A connected source whose value is no number keeps the diagram from being built. -/
theorem exists_build_error_of_connects (hflat : (d.flatten project strict).result = .ok flat)
    {m : FlatNode K} (hm : m ∈ flat.nodes) (hkind : m.kind = .source) (hconnects : flat.Connects m)
    {cause : ValueError} (hcause : Kind.configuredValue m.payload = .error cause) :
    ∃ e, (d.build project strict default).result = .error e := by
  cases hbuild : (d.build project strict default).result with
  | error e => exact ⟨e, rfl⟩
  | ok net =>
    rw [build_result_of_flatten hflat] at hbuild
    obtain ⟨rfl, -, hnodup⟩ := flatten_eq_ok.1 hflat
    obtain ⟨p, hp, hid⟩ := (connects_iff hnodup hm hkind).1 hconnects
    obtain ⟨n, hn, hmem⟩ := (Topology.isListed_iff hbuild).2 hp
    have hnode : (d.root.unfold project).joined.node? p.node = some m :=
      (Topology.node?_eq_some_iff hnodup).2 ⟨hm, hid.symm⟩
    obtain ⟨x, hx⟩ := Topology.exists_configuredValue hbuild hn hmem hnode hkind
    rw [hcause] at hx
    cases hx

/-- Diagrams that differ in values only have the same seeds if connected sources have the same
    values. -/
theorem seed_of_valueless {flat' : Flat K} (hflat : (d.flatten project strict).result = .ok flat)
    (hsame : flat'.valueless = flat.valueless)
    (hvalues : ∀ m ∈ flat.nodes, ∀ m' ∈ flat'.nodes, m'.id = m.id → m.kind = .source →
      flat.Connects m → Kind.configuredValue m'.payload = Kind.configuredValue m.payload)
    {ms : List Port} (hms : ms ∈ flat.joined.graph.components) :
    flat'.joined.seed ms default = flat.joined.seed ms default := by
  obtain ⟨rfl, -, hnodup⟩ := flatten_eq_ok.1 hflat
  refine Topology.seed_congr fun p hp => ?_
  have hjoined : flat'.joined.valueless = (d.root.unfold project).joined.valueless := by
    rw [← Flat.joined_valueless, ← Flat.joined_valueless, hsame]
  have hnode : (flat'.joined.node? p.node).map FlatNode.valueless =
      ((d.root.unfold project).joined.node? p.node).map FlatNode.valueless := by
    rw [← Topology.node?_valueless, ← Topology.node?_valueless, hjoined]
  cases hm : (d.root.unfold project).joined.node? p.node with
  | none =>
    rw [hm, Option.map_none, Option.map_eq_none_iff] at hnode
    rw [Topology.proposal, Topology.proposal, hm, hnode]
  | some m =>
    rw [hm, Option.map_some, Option.map_eq_some_iff] at hnode
    obtain ⟨m', hm', hvalueless⟩ := hnode
    obtain ⟨hmem, hid⟩ := (Topology.node?_eq_some_iff hnodup).1 hm
    have hkind : m'.valueless.kind = m.valueless.kind := by rw [hvalueless]
    have hkind : m'.kind = m.kind := hkind
    by_cases hsource : m.kind = .source
    · have hconnects := (connects_iff hnodup hmem hsource).2
        ⟨p, PortGraph.mem_ports_of_mem_component hms hp, hid.symm⟩
      have hmem' : m' ∈ flat'.nodes := List.mem_of_find?_eq_some hm'
      have hvalue := hvalues m hmem m' hmem' ((key_of_find? hm').trans hid.symm) hsource hconnects
      rw [Topology.proposal, Topology.proposal, hm, hm']
      simp only [hkind, hsource, Kind.initialValues, hvalue]
    · rw [Topology.proposal_eq_none hm hsource,
        Topology.proposal_eq_none hm' (hkind ▸ hsource)]

end Diagram

/-! ### Seeds -/

/-- Over exact numbers each net of a built network starts from the mean of the values of its
    sources, each of which is among the nodes once; without sources it starts from the default
    value.  Once a diagram is flattened, building it fails exactly if the value of some connected
    source is no number, and with the error of such a source.  No other value counts: in a project
    and for a diagram that differ in values only, and not in those of connected sources, the same is
    told, and the same nets are built or the same error is raised. -/
theorem Diagram.seeds_of_build [Field K] [LinearOrder K] [IsStrictOrderedRing K] [Scalar K]
    (hK : Scalar.IsExact K) (project : Project K) (strict : Bool) (d : Diagram K) (default : K) :
    (∀ net, (d.build project strict default).result = .ok net →
      (net.nodes.map (·.id)).Nodup ∧ ∀ n ∈ net.nets, ∃ values : List K,
        (net.sourcesAt n).map (fun m => Kind.configuredValue m.payload) = values.map .ok ∧
        n.value = if values = [] then default else values.sum / values.length) ∧
    (∀ flat, (d.flatten project strict).result = .ok flat →
      ((∃ e, (d.build project strict default).result = .error e) ↔
        ∃ m ∈ flat.nodes, m.kind = .source ∧ flat.Connects m ∧
          ∃ cause, Kind.configuredValue m.payload = .error cause) ∧
      ∀ e, (d.build project strict default).result = .error e →
        ∃ m ∈ flat.nodes, m.kind = .source ∧ flat.Connects m ∧
          ∃ cause, Kind.configuredValue m.payload = .error cause ∧ e = .value cause) ∧
    ∀ (project' : Project K) (d' : Diagram K),
      Revision.valueless.project project' = Revision.valueless.project project →
      d'.valueless = d.valueless →
      (∀ flat flat', (d.flatten project strict).result = .ok flat →
        (d'.flatten project' strict).result = .ok flat' →
        ∀ m ∈ flat.nodes, ∀ m' ∈ flat'.nodes, m'.id = m.id → m.kind = .source →
          flat.Connects m → Kind.configuredValue m'.payload = Kind.configuredValue m.payload) →
      (d'.build project' strict default).events = (d.build project strict default).events ∧
        (d'.build project' strict default).result.map (·.nets) =
          (d.build project strict default).result.map (·.nets) := by
  refine ⟨?_, ?_, ?_⟩
  · intro net h
    exact ⟨(wellNamed_of_build h).nodup, fun n hn => value_of_build hK h hn⟩
  · intro flat hflat
    refine ⟨⟨?_, ?_⟩, fun e h => build_error_of_flatten hflat h⟩
    · intro hfails
      obtain ⟨e, he⟩ := hfails
      obtain ⟨m, hm, hkind, hconnects, cause, hcause, -⟩ := build_error_of_flatten hflat he
      exact ⟨m, hm, hkind, hconnects, cause, hcause⟩
    · intro hunread
      obtain ⟨m, hm, hkind, hconnects, cause, hcause⟩ := hunread
      exact exists_build_error_of_connects hflat hm hkind hconnects hcause
  · intro project' d' hproject hd hvalues
    refine Logged.map_congr_iff.1 (map_nets_build hproject hd ?_)
    intro flat flat' hflat hflat' hsame ms hms
    exact seed_of_valueless hflat hsame (hvalues flat flat' hflat hflat') hms

/-- Sources that are joined at the second terminal, at both, and through a reference, and one that
    is joined to none and has no number for a value. -/
def Diagram.threeWays : Diagram ℚ :=
  ⟨"ways", "ways", [.valued "t" 6 false, .valued "u" 3 true, .reference "r" "cell",
    ⟨"l", .text "source", [("value", .null)], []⟩], [⟨"t", "b", "u", "a"⟩, ⟨"u", "b", "r", "p"⟩]⟩

/-- The source of the cell has no value and counts as zero. -/
theorem Diagram.seeds_of_build_threeWays :
    ∃ net, (Diagram.threeWays.build .ofCell true 1).result = .ok net ∧
      (net.nodes.map (·.id)).Nodup ∧
      net.nets.map (fun n => (n.value, (net.sourcesAt n).map (·.id))) = [(3, ["t", "u", "r.p"])] ∧
      ∀ n ∈ net.nets, ∃ values : List ℚ,
        (net.sourcesAt n).map (fun m => Kind.configuredValue m.payload) = values.map .ok ∧
        n.value = if values = [] then 1 else values.sum / values.length := by
  have hruns : (Diagram.threeWays.build .ofCell true 1).result.toOption.map (fun net =>
      net.nets.map fun n => (n.value, (net.sourcesAt n).map (·.id))) =
        some [(3, ["t", "u", "r.p"])] := by
    decide +kernel
  obtain ⟨net, hbuild, hnets⟩ := Option.map_eq_some_iff.1 hruns
  have hbuild := toOption_eq_some.1 hbuild
  obtain ⟨hnodup, hvalues⟩ :=
    (Diagram.seeds_of_build Scalar.isExact_rat .ofCell true .threeWays 1).1 net hbuild
  exact ⟨net, hbuild, hnodup, hnets, hvalues⟩

end NetBalance
