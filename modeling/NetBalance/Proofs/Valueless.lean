import NetBalance.Proofs.NetPartition
import NetBalance.Proofs.Revision

/-! # Building without values

    The value of a source is nothing that a diagram is flattened or linked by.
    So a diagram whose values are taken away is flattened into the same nodes,
    but for their values, with the same events on the way, and the ports are
    joined alike.  It is the seeds of the nets that read values, those of the
    sources at the nets and no others. -/

namespace NetBalance

variable {K : Type}

/-! ### Computations side by side -/

namespace Logged

variable {ε α α' β β' γ δ : Type} {m : Logged K ε α} {m' : Logged K ε α'}

theorem map_events (g : α → γ) (m : Logged K ε α) : (g <$> m).events = m.events := by
  obtain ⟨es, e | a⟩ := m
  · rfl
  · show es ++ [] = es
    exact List.append_nil es

/-- Two computations look alike when they tell the same, and what they return looks alike. -/
theorem map_congr_iff {g : α → γ} {g' : α' → γ} :
    g <$> m = g' <$> m' ↔ m.events = m'.events ∧ m.result.map g = m'.result.map g' := by
  have hleft : g <$> m = ⟨m.events, m.result.map g⟩ := by
    rw [← map_events g m, ← map_result]
  have hright : g' <$> m' = ⟨m'.events, m'.result.map g'⟩ := by
    rw [← map_events g' m', ← map_result]
  rw [hleft, hright, mk.injEq]

theorem map_bind (g : β → γ) (m : Logged K ε α) (f : α → Logged K ε β) :
    g <$> (m >>= f) = m >>= fun a => g <$> f a := by
  simp only [map_eq_pure_bind, bind_assoc]

/-- Where two computations look alike, and what follows looks alike for values that do, the whole
    looks alike. -/
theorem map_bind_congr {g : α → γ} {g' : α' → γ} {f : α → Logged K ε β} {f' : α' → Logged K ε β'}
    {h : β → δ} {h' : β' → δ} (hm : g <$> m = g' <$> m')
    (hf : ∀ a a', m.result = .ok a → m'.result = .ok a' → g a = g' a' →
      h <$> f a = h' <$> f' a') : h <$> (m >>= f) = h' <$> (m' >>= f') := by
  obtain ⟨hevents, hresult⟩ := map_congr_iff.1 hm
  obtain ⟨es, e | a⟩ := m
  · have herror : m'.result = .error e := map_eq_error.1 hresult.symm
    rw [bind_error rfl, bind_error herror]
    exact map_congr_iff.2 ⟨hevents, rfl⟩
  · obtain ⟨a', hok, ha⟩ := map_eq_ok.1 hresult.symm
    obtain ⟨hevents', hresult'⟩ := map_congr_iff.1 (hf a a' rfl hok ha.symm)
    rw [bind_ok rfl, bind_ok hok]
    exact map_congr_iff.2 ⟨congrArg₂ (· ++ ·) hevents hevents', hresult'⟩

end Logged

/-! ### Diagrams without values -/

/-- The payload without a value. -/
def Payload.valueless (p : Payload K) : Payload K := p.filter (·.1 ≠ "value")

theorem Payload.get?_valueless (p : Payload K) {key : String} (h : key ≠ "value") :
    p.valueless.get? key = p.get? key := by
  induction p with
  | nil => rfl
  | cons field rest ih =>
    obtain ⟨name, v⟩ := field
    by_cases hname : name = "value"
    · have hne : key ≠ name := fun heq => h (heq.trans hname)
      have hskip : valueless ((name, v) :: rest) = valueless rest := by simp [valueless, hname]
      rw [hskip, ih, get?_cons, if_neg hne]
    · have hkeep : valueless ((name, v) :: rest) = (name, v) :: valueless rest := by
        simp [valueless, hname]
      rw [hkeep, get?_cons, get?_cons, ih]

namespace Kind

variable {kind : Kind} {p : Payload K}

theorem listedPorts_valueless : kind.listedPorts p.valueless = kind.listedPorts p := by
  have hrow : ∀ {key : String}, key ≠ "value" → row p.valueless key = row p key := by
    intro key hkey
    rw [row, row, p.get?_valueless hkey]
  cases kind with
  | source => rfl
  | sum => rw [listedPorts, listedPorts, hrow (by decide), hrow (by decide)]
  | product => rw [listedPorts, listedPorts, hrow (by decide), hrow (by decide)]
  | reference => rfl

theorem declaredPorts_valueless : kind.declaredPorts p.valueless = kind.declaredPorts p := by
  rw [declaredPorts, declaredPorts, listedPorts_valueless]

theorem referencedDiagram_valueless :
    kind.referencedDiagram p.valueless = kind.referencedDiagram p := by
  cases kind with
  | reference => rw [referencedDiagram, referencedDiagram, p.get?_valueless (by decide)]
  | source => rfl
  | sum => rfl
  | product => rfl

theorem isConnectionPort_valueless [Zero K] [One K] [Scalar K] :
    kind.isConnectionPort p.valueless = kind.isConnectionPort p := by
  cases kind with
  | source => rw [isConnectionPort, isConnectionPort, flag, flag, p.get?_valueless (by decide)]
  | sum => rfl
  | product => rfl
  | reference => rfl

end Kind

/-- The node without a value. -/
def PlacedNode.valueless (n : PlacedNode K) : PlacedNode K :=
  { n with payload := n.payload.valueless }

/-- The diagram without the values of its nodes. -/
def Diagram.valueless (d : Diagram K) : Diagram K :=
  { d with nodes := d.nodes.map PlacedNode.valueless }

/-- The revision that takes all values away. -/
def Revision.valueless : Revision K := ⟨Diagram.valueless, fun _ => rfl⟩

/-- The flattened node without a value. -/
def FlatNode.valueless (m : FlatNode K) : FlatNode K := { m with payload := m.payload.valueless }

/-- The flattened diagram without the values of its nodes. -/
def Flat.valueless (f : Flat K) : Flat K := ⟨f.nodes.map FlatNode.valueless, f.links⟩

theorem Flat.ids_valueless (f : Flat K) : f.valueless.ids = f.ids := by
  rw [ids, ids, valueless, List.map_map]
  rfl

theorem Flat.valueless_append (f g : Flat K) :
    (f ++ g).valueless = f.valueless ++ g.valueless := by
  show Flat.mk _ _ = Flat.mk _ _
  rw [nodes_append, List.map_append]
  rfl

/-! ### Flattening -/

section Flattening

variable [Add K] [Div K] [Zero K] [One K] [Scalar K]

omit [Add K] [Div K] in
theorem PlacedNode.isConnectionPort_valueless (n : PlacedNode K) :
    n.valueless.isConnectionPort = n.isConnectionPort := by
  show n.kind.map _ = n.kind.map _
  refine congrArg (n.kind.map ·) (funext fun kind => ?_)
  exact Kind.isConnectionPort_valueless

namespace Diagram

omit [Add K] [Div K] in
theorem exposedNodes_valueless (d : Diagram K) : d.valueless.exposedNodes = d.exposedNodes := by
  let flag : PlacedNode K → Except NetworkError (PlacedNode K × Bool) :=
    fun n => n.isConnectionPort.map (n, ·)
  let kept : PlacedNode K × Bool → Option (PlacedNode K) := fun x => if x.2 then some x.1 else none
  have hflagged : (d.nodes.map PlacedNode.valueless).mapM flag =
      (d.nodes.mapM flag).map (List.map fun x => (x.1.valueless, x.2)) := by
    rw [List.mapM_map, ← mapM_map_eq]
    congr 1
    funext n
    show n.valueless.isConnectionPort.map _ = (n.isConnectionPort.map _).map _
    rw [PlacedNode.isConnectionPort_valueless]
    cases n.isConnectionPort <;> rfl
  rw [exposedNodes, exposedNodes]
  show (d.nodes.map PlacedNode.valueless).mapM flag >>= _ = d.nodes.mapM flag >>= _
  rw [hflagged]
  cases d.nodes.mapM flag with
  | error e => rfl
  | ok flagged =>
    have hkeep : (flagged.map fun x => (x.1.valueless, x.2)).filterMap kept =
        (flagged.filterMap kept).map PlacedNode.valueless := by
      rw [List.filterMap_map, List.map_filterMap]
      congr 1
      funext x
      obtain ⟨n, _ | _⟩ := x <;> rfl
    show ((flagged.map _).filterMap kept).mapM _ = (flagged.filterMap kept).mapM _
    -- positions stay
    rw [hkeep, List.mapM_map]
    rfl

theorem connectionPorts_valueless (d : Diagram K) :
    d.valueless.connectionPorts = d.connectionPorts := by
  rw [connectionPorts, connectionPorts, exposedNodes_valueless]

omit [Add K] [Div K] [Zero K] [One K] [Scalar K] in
theorem node?_valueless (d : Diagram K) (id : String) :
    d.valueless.node? id = (d.node? id).map PlacedNode.valueless := by
  show (d.nodes.map PlacedNode.valueless).find? _ = _
  rw [List.find?_map]
  rfl

end Diagram

omit [Add K] [Div K] [Zero K] [One K] [Scalar K] in
theorem innerPort_valueless (d : Diagram K) (scope port : String) :
    innerPort d.valueless scope port = innerPort d scope port := by
  rw [innerPort, innerPort, Diagram.node?_valueless]
  cases d.node? port <;> rfl

variable {project : Project K} {strict : Bool} {stack : List String} {diagram scope : String}
  {enter : Enter project stack} {enter' : Enter (Revision.valueless.project project) stack}

/-- Where the copies behind references are flattened alike without values, so is a node. -/
theorem inlineNode_valueless
    (henter : ∀ target scope taken,
      enter' (Revision.valueless.target target) scope taken =
        Flat.valueless <$> enter target scope taken)
    (taken : List String) (n : PlacedNode K) :
    inlineNode (Revision.valueless.project project) strict stack enter' diagram scope taken
        n.valueless =
      (fun x => (x.1.valueless, x.2)) <$>
        inlineNode project strict stack enter diagram scope taken n := by
  unfold inlineNode
  by_cases hid : scope ++ n.id ∈ taken
  · have hid' : scope ++ n.valueless.id ∈ taken := hid
    simp only [hid, hid', if_true]
    rfl
  have hid' : scope ++ n.valueless.id ∉ taken := hid
  simp only [hid, hid', if_false, Logged.map_bind]
  refine bind_congr fun kind => ?_
  show Logged.ofExcept ((kind.declaredPorts n.payload.valueless).mapError _) >>= _ = _
  rw [Kind.declaredPorts_valueless]
  refine bind_congr fun ports => ?_
  show resolve (Revision.valueless.project project) strict stack _
    (kind.referencedDiagram n.payload.valueless) >>= _ = _
  rw [Kind.referencedDiagram_valueless, Revision.map_resolve_project, bind_map_left]
  refine bind_congr fun found => ?_
  cases found with
  | none => rfl
  | some target =>
    simp only [Option.map_some, Logged.map_bind]
    rw [henter, bind_map_left]
    refine bind_congr fun copy => ?_
    show Logged.ofExcept target.val.valueless.connectionPorts >>= _ = _
    rw [Diagram.connectionPorts_valueless]
    refine bind_congr fun exposed => ?_
    have hinner : ∀ scope, innerPort (Revision.valueless.target target).val scope =
        innerPort target.val scope :=
      fun scope => funext fun port => innerPort_valueless target.val scope port
    rw [hinner]
    exact bind_congr fun inner => rfl

/-- Nodes are told apart by ids, which stay. -/
theorem inlineNodes_valueless
    (henter : ∀ target scope taken, enter' (Revision.valueless.target target) scope taken =
      Flat.valueless <$> enter target scope taken)
    (seen : List Slot) (ns : List (PlacedNode K)) (taken : List String) :
    inlineNodes (Revision.valueless.project project) strict stack enter' diagram scope taken seen
        (ns.map PlacedNode.valueless) =
      (fun x => (x.1.valueless, x.2)) <$>
        inlineNodes project strict stack enter diagram scope taken seen ns := by
  induction ns generalizing seen taken with
  | nil => rfl
  | cons n rest ih =>
    rw [List.map_cons, inlineNodes, inlineNodes]
    by_cases hseen : seen.any (·.localId = n.id)
    · have hseen' : seen.any (·.localId = n.valueless.id) := hseen
      rw [if_pos hseen, if_pos hseen', Logged.map_bind]
      exact bind_congr fun _ => ih seen taken
    · have hseen' : ¬ seen.any (·.localId = n.valueless.id) := hseen
      rw [if_neg hseen, if_neg hseen', inlineNode_valueless henter, bind_map_left, Logged.map_bind]
      refine bind_congr fun own => ?_
      simp only [Flat.ids_valueless]
      rw [ih, bind_map_left, Logged.map_bind]
      refine bind_congr fun others => ?_
      rw [map_pure, Flat.valueless_append]

theorem inlineLevel_valueless
    (henter : ∀ target scope taken, enter' (Revision.valueless.target target) scope taken =
      Flat.valueless <$> enter target scope taken)
    (d : Diagram K) (scope : String) (taken : List String) :
    inlineLevel (Revision.valueless.project project) strict stack enter' d.valueless scope taken =
      Flat.valueless <$> inlineLevel project strict stack enter d scope taken := by
  rw [inlineLevel, inlineLevel]
  show inlineNodes (Revision.valueless.project project) strict stack enter' d.id scope taken []
    (d.nodes.map PlacedNode.valueless) >>= _ = _
  rw [inlineNodes_valueless henter, bind_map_left, Logged.map_bind]
  refine bind_congr fun flat => ?_
  rw [Logged.map_bind]
  exact bind_congr fun _ => rfl

/-- Step by step a diagram is flattened without values as it is with them. -/
theorem inline_valueless (stack : List String) (d : Diagram K) (scope : String)
    (taken : List String) :
    inline (Revision.valueless.project project) strict stack d.valueless scope taken =
      Flat.valueless <$> inline project strict stack d scope taken := by
  induction stack, d, scope, taken using inline.induct project with
  | case1 stack d scope taken ih =>
    rw [inline, inline]
    exact inlineLevel_valueless (fun target scope taken => ih target scope taken) d scope taken

theorem Diagram.flatten_valueless (d : Diagram K) :
    d.valueless.flatten (Revision.valueless.project project) strict =
      Flat.valueless <$> d.flatten project strict :=
  inline_valueless [d.id] d "" []

end Flattening

/-! ### Linking -/

namespace Topology

/-- The topology without the values of its nodes. -/
def valueless (t : Topology K) : Topology K := ⟨t.nodes.map FlatNode.valueless, t.graph⟩

theorem node?_valueless (t : Topology K) (id : String) :
    t.valueless.node? id = (t.node? id).map FlatNode.valueless := by
  show (t.nodes.map FlatNode.valueless).find? _ = _
  rw [List.find?_map]
  rfl

theorem connect_valueless (t : Topology K) (a b : Port) (kind : LinkKind) :
    t.valueless.connect a b kind = (t.connect a b kind).map valueless id := by
  unfold connect
  simp only [node?_valueless, Option.isNone_map, apply_ite (Prod.map valueless id)]
  rfl

theorem link_valueless (t : Topology K) (l : Link) :
    t.valueless.link l = valueless <$> t.link l := by
  rw [link, connect_valueless]
  exact (Logged.map_bind valueless (t.connect l.first l.second l.kind).2 fun _ =>
    pure (t.connect l.first l.second l.kind).1).symm

theorem foldAliases_valueless (t : Topology K) :
    t.valueless.foldAliases = t.foldAliases.valueless := by
  show Topology.mk _ ((t.nodes.map FlatNode.valueless).foldl aliasNode t.graph) = Topology.mk _ _
  rw [List.foldl_map]
  rfl

end Topology

theorem Flat.topology_valueless (f : Flat K) :
    f.valueless.topology = Topology.valueless <$> f.topology := by
  have hlinks : ∀ (links : List Link) (t : Topology K),
      links.foldlM Topology.link t.valueless =
        Topology.valueless <$> links.foldlM Topology.link t := by
    intro links
    induction links with
    | nil => exact fun t => rfl
    | cons l links ih =>
      intro t
      rw [List.foldlM_cons, List.foldlM_cons, Topology.link_valueless, bind_map_left,
        Logged.map_bind]
      exact bind_congr fun t => ih t
  exact hlinks f.links ⟨f.nodes, .empty⟩

theorem Flat.joined_valueless (f : Flat K) : f.valueless.joined = f.joined.valueless :=
  Topology.foldAliases_valueless ⟨f.nodes, PortGraph.empty.joinLinks f.links⟩

/-! ### Building -/

section Building

variable [Add K] [Div K] [Zero K] [One K] [Scalar K] {default : K}

namespace Topology

variable {t t' : Topology K}

/-- Nets are allocated alike where their seeds are alike. -/
theorem allocate_congr {comps : List (List Port)} {nets : List (Net K)}
    (h : ∀ ms ∈ comps, t'.seed ms default = t.seed ms default) :
    (allocate default nets comps t').2 = (allocate default nets comps t).2 := by
  induction comps generalizing nets t t' with
  | nil => rfl
  | cons ms rest ih =>
    rw [List.forall_mem_cons] at h
    rw [allocate, allocate, h.1]
    cases t.seed ms default with
    | error e => rfl
    | ok value =>
      refine ih fun ms' hms' => ?_
      rw [seed_recordNet, seed_recordNet]
      exact h.2 ms' hms'

theorem map_nets_network : (t.network default).map Network.nets =
    (allocate default [] t.graph.components t).2 := by
  rw [network]
  cases (allocate default [] t.graph.components t).2 <;> rfl

/-- What is told when nets are made for a diagram. -/
def netEvents (t : Topology K) (default : K) (id : String) : List (Event K) :=
  match (allocate default [] t.graph.components t).2 with
  | .error _ => []
  | .ok nets =>
    [.netsAllocated nets.length t.graph.ports.length,
      .networkBuilt id t.nodes.length nets.length]

end Topology

/-- Building is flattening, linking and making nets in a row. -/
theorem Diagram.build_eq (d : Diagram K) (project : Project K) (strict : Bool) (default : K) :
    d.build project strict default = d.flatten project strict >>= fun flat =>
      flat.topology >>= fun t =>
        ⟨t.foldAliases.netEvents default d.id, t.foldAliases.network default⟩ := by
  unfold build
  refine bind_congr fun flat => bind_congr fun t => ?_
  simp only [Topology.buildNets, Topology.netEvents, Topology.network]
  cases hmade : (Topology.allocate default [] t.foldAliases.graph.components t.foldAliases).2 with
  | error e => rfl
  | ok nets =>
    have hlength := congrArg List.length (Topology.nodes_allocate hmade)
    rw [List.length_map] at hlength
    simp only [← hlength]
    rfl

/-- Two diagrams that differ in values only are built with the same events, and into the same nets,
    if those start from the same seeds. -/
theorem Diagram.map_nets_build {p p' : Project K} {d d' : Diagram K} {strict : Bool}
    (hproject : Revision.valueless.project p' = Revision.valueless.project p)
    (hd : d'.valueless = d.valueless)
    (hseeds : ∀ flat flat', (d.flatten p strict).result = .ok flat →
      (d'.flatten p' strict).result = .ok flat' → flat'.valueless = flat.valueless →
        ∀ ms ∈ flat.joined.graph.components,
          flat'.joined.seed ms default = flat.joined.seed ms default) :
    Network.nets <$> d'.build p' strict default = Network.nets <$> d.build p strict default := by
  have hflatten : Flat.valueless <$> d'.flatten p' strict =
      Flat.valueless <$> d.flatten p strict := by
    rw [← flatten_valueless, ← flatten_valueless, hproject, hd]
  have hid : d'.valueless.id = d.valueless.id := by rw [hd]
  have hid : d'.id = d.id := hid
  rw [build_eq, build_eq, hid]
  refine Logged.map_bind_congr hflatten fun flat' flat hflat' hflat hsame => ?_
  have htopology : Topology.valueless <$> flat'.topology =
      Topology.valueless <$> flat.topology := by
    rw [← Flat.topology_valueless, ← Flat.topology_valueless, hsame]
  refine Logged.map_bind_congr htopology fun linked' linked hlinked' hlinked _ => ?_
  -- the topology of a flattened diagram is that of its links
  have hjoined : ∀ {p : Project K} {d : Diagram K} {flat : Flat K} {linked : Topology K},
      (d.flatten p strict).result = .ok flat → flat.topology.result = .ok linked →
        linked.foldAliases = flat.joined := by
    intro p d flat linked hflat hlinked
    obtain ⟨rfl, -, -⟩ := flatten_eq_ok.1 hflat
    rw [Flat.topology_result (Copy.isClosed_unfold d.root), Except.ok.injEq] at hlinked
    rw [← hlinked]
    rfl
  rw [hjoined hflat hlinked, hjoined hflat' hlinked']
  have hvalueless : flat'.joined.valueless = flat.joined.valueless := by
    rw [← Flat.joined_valueless, ← Flat.joined_valueless, hsame]
  have hgraph : flat'.joined.valueless.graph = flat.joined.valueless.graph := by rw [hvalueless]
  have hgraph : flat'.joined.graph = flat.joined.graph := hgraph
  have hlength : flat'.joined.valueless.nodes.length = flat.joined.valueless.nodes.length := by
    rw [hvalueless]
  have hlength : flat'.joined.nodes.length = flat.joined.nodes.length := by
    simpa [Topology.valueless] using hlength
  have hnets : (Topology.allocate default [] flat'.joined.graph.components flat'.joined).2 =
      (Topology.allocate default [] flat.joined.graph.components flat.joined).2 := by
    rw [hgraph]
    exact Topology.allocate_congr (hseeds flat flat' hflat hflat' hsame)
  refine Logged.map_congr_iff.2 ⟨?_, ?_⟩
  · show flat'.joined.netEvents default d.id = flat.joined.netEvents default d.id
    rw [Topology.netEvents, Topology.netEvents, hnets, hgraph, hlength]
  · show (flat'.joined.network default).map _ = (flat.joined.network default).map _
    rw [Topology.map_nets_network, Topology.map_nets_network, hnets]

end Building

end NetBalance
