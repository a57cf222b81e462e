import NetBalance.Proofs.NetPartition
import NetBalance.Proofs.Revision

/-! # Duplicate nodes

    Of several nodes with one id flattening keeps the first.  The connection
    ports of a diagram that is referenced are read off all of its nodes,
    though.  So a duplicate that is dropped can still give a reference a port,
    take its place in a column, or raise an error.  Where edges touch the same
    ports of references with and without duplicates, dropping them beforehand
    changes nothing. -/

namespace NetBalance

variable {K : Type} [Add K] [Div K] [One K] [Scalar K]

/-! ### Declared ports -/

namespace Copy

variable {project : Project K} {c : Copy K} {n : PlacedNode K}

theorem portsOf_of_source (h : n.kind = .ok .source) : c.portsOf project n = ["a", "b"] := by
  cases hb : c.behind? project n with
  | none => rw [portsOf, hb, Option.elim_none, PlacedNode.ownPorts_of_source h]
  | some c' =>
    have href := kind_of_behind? hb
    rw [h] at href
    cases href

end Copy

namespace Diagram

variable {project : Project K} {d : Diagram K} {p : Port}

/-- The port is one that its node declares; for an inlined reference, a connection port of what is
    behind it. -/
def DeclaresPort (project : Project K) (d : Diagram K) (p : Port) : Prop :=
  ∃ c ∈ d.root.descendants project, ∃ n ∈ c.diagram.firsts, ∃ name ∈ c.portsOf project n,
    p = ⟨c.scope ++ n.id, some name⟩

/-- Where ids are distinct, links join declared ports. -/
theorem declaresPort_of_mem_links
    (hdistinct : ∀ c ∈ d.root.descendants project, (c.diagram.nodes.map (·.id)).Nodup) {l : Link}
    (hl : l ∈ (d.root.unfold project).links) :
    d.DeclaresPort project l.first ∧ d.DeclaresPort project l.second := by
  obtain ⟨c, hc, hl⟩ := Copy.mem_unfold_links.1 hl
  rcases Copy.mem_links.1 hl with ⟨e, he, rfl⟩ | ⟨n, hn, c', hb, id, hid, rfl⟩
  · obtain ⟨-, ⟨s, hs, hsport⟩, ⟨t, ht, htport⟩⟩ := Copy.mem_accepted.1 he
    have hsid : s.id = e.source := id_of_node? hs
    have htid : t.id = e.target := id_of_node? ht
    constructor
    · exact ⟨c, hc, s, mem_firsts_of_node? hs, _, hsport, by rw [hsid]; rfl⟩
    · exact ⟨c, hc, t, mem_firsts_of_node? ht, _, htport, by rw [htid]; rfl⟩
  -- a passage leads from a connection port to the terminal of a source
  · have hexposed := ((Copy.mem_wired hb).1 hid).1
    have hc' := Copy.mem_descendants_of_behind? hc hn hb
    constructor
    · refine ⟨c, hc, n, hn, id, ?_, rfl⟩
      rw [Copy.portsOf, hb]
      exact hexposed
    · obtain ⟨m, hm, hkind, hterminal⟩ := source_of_mem_exposedIds (hdistinct c' hc') hexposed
      refine ⟨c', hc', m, mem_firsts_of_node? hm, "a", ?_, ?_⟩
      · rw [Copy.portsOf_of_source hkind]
        exact List.mem_cons_self
      · rw [Copy.port, hterminal, id_of_node? hm]

/-- Where ids are distinct, all ports of the graph are declared. -/
theorem declaresPort_of_mem_ports
    (hdistinct : ∀ c ∈ d.root.descendants project, (c.diagram.nodes.map (·.id)).Nodup)
    (h : p ∈ (d.root.unfold project).joined.graph.ports) : d.DeclaresPort project p := by
  rcases isWired_or_terminal h with ⟨q, hw | hw⟩ | ⟨m, hm, hsource, -, hport⟩
  · obtain ⟨l, hl, -, rfl, -⟩ := wired_iff.1 hw
    exact (declaresPort_of_mem_links hdistinct hl).1
  · obtain ⟨l, hl, -, -, rfl⟩ := wired_iff.1 hw
    exact (declaresPort_of_mem_links hdistinct hl).2
  · obtain ⟨c, hc, n, hn, rfl⟩ := Copy.mem_nodes.1 hm
    have hports : c.portsOf project n = ["a", "b"] :=
      Copy.portsOf_of_source (PlacedNode.kind_of_flat hsource (by simp))
    rcases hport with rfl | rfl
    · exact ⟨c, hc, n, hn, "a", by simp [hports], rfl⟩
    · exact ⟨c, hc, n, hn, "b", by simp [hports], rfl⟩

end Diagram

/-! ### Diagrams without duplicates -/

/-- The revision that keeps the first node with each id. -/
def Revision.withoutDuplicates : Revision K where
  apply d := { d with nodes := d.firsts }
  id_apply _ := rfl

namespace Diagram

/-- The connection ports of what is inlined can be read, or fail to be, as without duplicates. -/
def PortsFailAlike (project : Project K) (d : Diagram K) : Prop :=
  ∀ c ∈ d.root.descendants project, ∀ n ∈ c.diagram.firsts, ∀ c' ∈ c.behind? project n,
    Revision.withoutDuplicates.PortsFailAlike c'.diagram

/-- Edges touch the same ports of inlined references as without duplicates, in the same order. -/
def KeepsWiring (project : Project K) (d : Diagram K) : Prop :=
  ∀ c ∈ d.root.descendants project, Revision.withoutDuplicates.KeepsWiring project c

variable {project : Project K} {d : Diagram K}

instance : Decidable (d.PortsFailAlike project) :=
  inferInstanceAs (Decidable (∀ c ∈ d.root.descendants project, ∀ n ∈ c.diagram.firsts,
    ∀ c' ∈ c.behind? project n, _))

instance : Decidable (d.KeepsWiring project) :=
  inferInstanceAs (Decidable (∀ c ∈ d.root.descendants project, _))

end Diagram

namespace Revision

omit [Add K] [Div K] [One K] [Scalar K] in
theorem keepsNodes_withoutDuplicates : (withoutDuplicates : Revision K).KeepsNodes := fun d =>
  keepFirst_of_nodup d.nodup_firsts

omit [Add K] [Div K] [One K] [Scalar K] in
theorem keepsEdges_withoutDuplicates : (withoutDuplicates : Revision K).KeepsEdges := fun _ => rfl

/-- Fewer nodes raise fewer errors. -/
theorem exists_connectionPorts_withoutDuplicates {d : Diagram K}
    (h : ∃ ports, d.connectionPorts = .ok ports) :
    ∃ ports, (withoutDuplicates.apply d).connectionPorts = .ok ports := by
  rw [Diagram.exists_connectionPorts_iff, Diagram.exists_exposedNodes_iff] at h ⊢
  intro n hn
  exact h n (keepFirst_subset d.nodes hn)

variable {project : Project K} {strict : Bool} {d : Diagram K}

/-- Where flattening ends well, all connection ports can be read. -/
theorem portsFailAlike_of_flatten {flat : Flat K}
    (h : (d.flatten project strict).result = .ok flat) : d.PortsFailAlike project := by
  intro c hc n hn c' hb
  obtain ⟨ports, hports⟩ := ((Diagram.flatten_eq_ok.1 h).2.1 c hc n hn).exposed c' hb
  obtain ⟨ports', hports'⟩ := exists_connectionPorts_withoutDuplicates ⟨ports, hports⟩
  rw [PortsFailAlike, hports, hports']
  rfl

theorem flatten_withoutDuplicates_eq_error (h : d.PortsFailAlike project) {e : NetworkError} :
    ((withoutDuplicates.apply d).flatten (withoutDuplicates.project project) strict).result =
        .error e ↔ (d.flatten project strict).result = .error e := by
  refine flatten_eq_error keepsNodes_withoutDuplicates ?_
  rintro c hc c' ⟨n, hn, hb⟩
  exact h c hc n hn c' hb

/-- What can be flattened can be flattened without duplicates. -/
theorem flatten_withoutDuplicates {flat : Flat K}
    (h : (d.flatten project strict).result = .ok flat) :
    ((withoutDuplicates.apply d).flatten (withoutDuplicates.project project) strict).result =
      .ok ((withoutDuplicates.copy d.root).unfold (withoutDuplicates.project project)) := by
  cases h' : ((withoutDuplicates.apply d).flatten (withoutDuplicates.project project)
    strict).result with
  -- an error would have come up with the duplicates, too
  | error e =>
    rw [flatten_withoutDuplicates_eq_error (portsFailAlike_of_flatten h), h] at h'
    cases h'
  | ok flat' => rw [(Diagram.flatten_eq_ok.1 h').1, root_apply]

/-- Flattening returns the same without duplicates exactly when the wiring is kept. -/
theorem flatten_withoutDuplicates_eq_ok {flat : Flat K}
    (h : (d.flatten project strict).result = .ok flat) :
    ((withoutDuplicates.apply d).flatten (withoutDuplicates.project project) strict).result =
      .ok flat ↔ d.KeepsWiring project := by
  obtain ⟨hflat, -, hnodup⟩ := Diagram.flatten_eq_ok.1 h
  rw [flatten_withoutDuplicates h, Except.ok.injEq, hflat]
  exact unfold_copy_iff keepsNodes_withoutDuplicates keepsEdges_withoutDuplicates hnodup

theorem flatten_withoutDuplicates_eq (hports : d.PortsFailAlike project)
    (hwiring : d.KeepsWiring project) :
    ((withoutDuplicates.apply d).flatten (withoutDuplicates.project project) strict).result =
      (d.flatten project strict).result := by
  cases h : (d.flatten project strict).result with
  | error e => exact (flatten_withoutDuplicates_eq_error hports).2 h
  | ok flat => exact (flatten_withoutDuplicates_eq_ok h).2 hwiring

omit [Add K] [Div K] [One K] [Scalar K] in
/-- In the revised project ids are distinct in all copies. -/
theorem nodup_withoutDuplicates {c : Copy K}
    (hc : c ∈ (withoutDuplicates.apply d).root.descendants (withoutDuplicates.project project)) :
    (c.diagram.nodes.map (·.id)).Nodup := by
  rw [root_apply, descendants_copy keepsNodes_withoutDuplicates] at hc
  obtain ⟨c, -, rfl⟩ := List.mem_map.1 hc
  exact c.diagram.nodup_firsts

variable [Zero K] {default : K}

theorem build_withoutDuplicates_eq (hports : d.PortsFailAlike project)
    (hwiring : d.KeepsWiring project) :
    withoutDuplicates.build d project strict default = (d.build project strict default).result := by
  rw [build, Diagram.build_result, Diagram.build_result,
    flatten_withoutDuplicates_eq hports hwiring]

/-- Where the wiring is kept, the nodes that are kept declare all ports that are listed. -/
theorem declaresPort_withoutDuplicates (hwiring : d.KeepsWiring project) {built : Network K}
    (h : (d.build project strict default).result = .ok built) {net : Net K}
    (hnet : net ∈ built.nets) {p : Port} (hp : p ∈ net.members) :
    (withoutDuplicates.apply d).DeclaresPort (withoutDuplicates.project project) p := by
  obtain ⟨hflat, hbuilt⟩ := Diagram.build_eq_ok.1 h
  have hport := (Topology.isListed_iff hbuilt).1 ⟨net, hnet, hp⟩
  have hflat' := (flatten_withoutDuplicates_eq_ok hflat).2 hwiring
  -- the graph is that of the revised project, where no id occurs twice in a diagram
  rw [(Diagram.flatten_eq_ok.1 hflat').1] at hport
  exact Diagram.declaresPort_of_mem_ports (fun c hc => nodup_withoutDuplicates hc) hport

end Revision

/-! ### Building without duplicates -/

variable [Zero K] {project : Project K} {strict : Bool} {d : Diagram K} {default : K}

/-- Dropping duplicates beforehand changes neither the outcome of flattening nor that of building,
    as long as connection ports fail alike and edges touch the same ports of references; the ports
    that are listed are then declared by nodes that are kept.  Where flattening ends well,
    connection ports do fail alike, and what is returned stays just if the wiring does.  Where
    connection ports fail alike, errors of flattening stay in any case. -/
theorem build_withoutDuplicates :
    (d.PortsFailAlike project → d.KeepsWiring project →
      ((Revision.withoutDuplicates.apply d).flatten (Revision.withoutDuplicates.project project)
          strict).result = (d.flatten project strict).result ∧
        Revision.withoutDuplicates.build d project strict default =
          (d.build project strict default).result ∧
        ∀ built, (d.build project strict default).result = .ok built →
          ∀ net ∈ built.nets, ∀ p ∈ net.members, (Revision.withoutDuplicates.apply d).DeclaresPort
            (Revision.withoutDuplicates.project project) p) ∧
    (∀ flat, (d.flatten project strict).result = .ok flat → d.PortsFailAlike project ∧
      (((Revision.withoutDuplicates.apply d).flatten (Revision.withoutDuplicates.project project)
          strict).result = .ok flat ↔ d.KeepsWiring project)) ∧
    (d.PortsFailAlike project → ∀ e,
      ((Revision.withoutDuplicates.apply d).flatten (Revision.withoutDuplicates.project project)
          strict).result = .error e ↔ (d.flatten project strict).result = .error e) := by
  refine ⟨fun hports hwiring => ⟨?_, ?_, ?_⟩, fun flat hflat => ⟨?_, ?_⟩, fun hports e => ?_⟩
  · exact Revision.flatten_withoutDuplicates_eq hports hwiring
  · exact Revision.build_withoutDuplicates_eq hports hwiring
  · intro built hbuilt net hnet p hp
    exact Revision.declaresPort_withoutDuplicates hwiring hbuilt hnet hp
  · exact Revision.portsFailAlike_of_flatten hflat
  · exact Revision.flatten_withoutDuplicates_eq_ok hflat
  · exact Revision.flatten_withoutDuplicates_eq_error hports

/-- The project of a cell with other nodes. -/
def Project.ofCellWith (nodes : List (PlacedNode ℚ)) : Project ℚ :=
  .ofList [⟨"cell", "cell", nodes, []⟩]

/-- A sum behind the source of the same id can be dropped. -/
theorem build_withoutDuplicates_aroundCell :
    Revision.withoutDuplicates.build (Diagram.aroundCell [⟨"s", "a", "r", "p"⟩])
        (.ofCellWith [.source "p" true, .balance "p"]) true 1 =
      ((Diagram.aroundCell [⟨"s", "a", "r", "p"⟩]).build
        (.ofCellWith [.source "p" true, .balance "p"]) true 1).result := by
  have hports : (Diagram.aroundCell [⟨"s", "a", "r", "p"⟩]).PortsFailAlike
      (.ofCellWith [.source "p" true, .balance "p"]) := by
    decide +kernel
  have hwiring : (Diagram.aroundCell [⟨"s", "a", "r", "p"⟩]).KeepsWiring
      (.ofCellWith [.source "p" true, .balance "p"]) := by
    decide +kernel
  exact (build_withoutDuplicates.1 hports hwiring).2.1

/-- A source behind a sum of the same id gives the reference a port, though it is dropped. -/
theorem duplicate_makes_port :
    ((Diagram.aroundCell [⟨"s", "a", "r", "p"⟩]).build
        (.ofCellWith [.balance "p", .source "p" true]) true 1).result.map
          (·.nets.map (·.members)) =
        .ok [[⟨"s", some "a"⟩, ⟨"r", some "p"⟩, ⟨"r.p", none⟩, ⟨"s", some "b"⟩]] ∧
      (Revision.withoutDuplicates.build (Diagram.aroundCell [⟨"s", "a", "r", "p"⟩])
        (.ofCellWith [.balance "p", .source "p" true]) true 1).map
          (·.nets.map (·.members)) = .ok [] := by
  exact ⟨by decide +kernel, by decide +kernel⟩

end NetBalance
