import NetBalance.Proofs.Exposure
import NetBalance.Proofs.Regrouping

/-! # The order of nodes, edges and diagrams

    The nodes and the edges of a diagram may be listed in any order, each edge
    from either end, and the diagrams of a project in any order.  As long as no
    id stands twice in a diagram, the reordered diagrams resemble the old ones:
    no node is dropped as a duplicate, and the same ports show up. -/

namespace NetBalance

variable {K : Type}

/-- The edge from its other end. -/
def Edge.turned (e : Edge) : Edge := ⟨e.target, e.targetPort, e.source, e.sourcePort⟩

theorem Edge.undirected_turned (e : Edge) : e.turned.undirected = e.undirected := Sym2.eq_swap

/-! ### Reordered diagrams -/

/-- No two nodes have one id. -/
def Diagram.HasDistinctIds (d : Diagram K) : Prop := (d.nodes.map (·.id)).Nodup

instance (d : Diagram K) : Decidable d.HasDistinctIds := inferInstanceAs (Decidable (List.Nodup _))

/-- The same nodes and edges in another order, with some edges turned. -/
structure Diagram.Reorders (d d' : Diagram K) : Prop where
  id : d.id = d'.id
  nodes : d.nodes.Perm d'.nodes
  edges : ∃ es, d.edges.Perm es ∧ List.Forall₂ (fun e e' => e' = e ∨ e' = e.turned) es d'.edges

/-- The same diagrams in another order, each of them reordered. -/
def Project.Reorders (p p' : Project K) : Prop :=
  ∃ ds, p.diagrams.Perm ds ∧ List.Forall₂ Diagram.Reorders ds p'.diagrams

namespace Diagram.Reorders

variable {d d' : Diagram K}

theorem perm_undirected (h : d.Reorders d') :
    (d.edges.map Edge.undirected).Perm (d'.edges.map Edge.undirected) := by
  obtain ⟨es, hperm, hturned⟩ := h.edges
  have hsame : ∀ {es es' : List Edge},
      List.Forall₂ (fun e e' : Edge => e' = e ∨ e' = e.turned) es es' →
        es.map Edge.undirected = es'.map Edge.undirected := by
    intro es es' hes
    induction hes with
    | nil => rfl
    | cons he _ ih =>
      rw [List.map_cons, List.map_cons, ih]
      rcases he with rfl | rfl
      · rfl
      · rw [Edge.undirected_turned]
  rw [← hsame hturned]
  exact hperm.map _

variable [Add K] [Div K] [One K] [Scalar K]

theorem reads_congr (h : d.Reorders d') :
    (∃ ports, d.connectionPorts = .ok ports) ↔ ∃ ports, d'.connectionPorts = .ok ports := by
  simp only [exists_connectionPorts_iff, exists_exposedNodes_iff, h.nodes.mem_iff]

/-- Where ids are distinct, a reordered diagram resembles the old one. -/
theorem resembles (hK : Scalar.Compares K) (h : d.Reorders d') (hdistinct : d.HasDistinctIds) :
    d.Resembles d' := by
  have hdistinct' : d'.HasDistinctIds := (h.nodes.map PlacedNode.id).nodup_iff.1 hdistinct
  have hfirsts : d.firsts = d.nodes := keepFirst_of_nodup hdistinct
  have hfirsts' : d'.firsts = d'.nodes := keepFirst_of_nodup hdistinct'
  refine ⟨h.id, ?_, h.perm_undirected, h.reads_congr, ?_⟩
  · rw [hfirsts, hfirsts']
    exact h.nodes.map _
  · exact perm_exposedIds hK h.reads_congr (h.nodes.filterMap _)

end Diagram.Reorders

namespace Project.Reorders

variable [Add K] [Div K] [One K] [Scalar K] {p p' : Project K}

/-- Under each name the reordered project has a diagram that resembles the old one. -/
theorem related (hK : Scalar.Compares K) (h : p.Reorders p')
    (hdistinct : ∀ d ∈ p.diagrams, d.HasDistinctIds) : p.Related Diagram.Resembles p' := by
  obtain ⟨ds, hperm, hds⟩ := h
  intro id
  have hget : p.get? id = ds.find? (·.id = id) := find?_key_perm p.nodup hperm
  have hdistinct' : ∀ d ∈ ds, d.HasDistinctIds := fun d hd => hdistinct d (hperm.mem_iff.2 hd)
  have hlike : List.Forall₂ Diagram.Resembles ds p'.diagrams :=
    ((List.forall₂_and_left _ _).2 ⟨hdistinct', hds⟩).imp fun d d' h => h.2.resembles hK h.1
  rw [hget]
  exact rel_find?_of_forall₂ (fun _ _ h => h.id) hlike id

end Project.Reorders

/-! ### Building reordered diagrams -/

variable [Add K] [Div K] [Zero K] [One K] [Scalar K]

/-- Where ids are distinct, the order of nodes, edges and diagrams and the directions of edges do
    not count: the reordered diagram is built if the old one is, and then it has the same nodes,
    links and nets, but for their order, and over exact numbers the nets start from the same
    values. -/
theorem build_reordered {p p' : Project K} {d d' : Diagram K} (hK : Scalar.Compares K)
    (hp : p.Reorders p') (hd : d.Reorders d') (hdistinct : ∀ e ∈ p.diagrams, e.HasDistinctIds)
    (hroot : d.HasDistinctIds) (strict : Bool) (default : K) :
    ((∃ built, (d.build p strict default).result = .ok built) ↔
      ∃ built', (d'.build p' strict default).result = .ok built') ∧
    (∀ flat flat', (d.flatten p strict).result = .ok flat →
      (d'.flatten p' strict).result = .ok flat' →
        flat.nodes.Perm flat'.nodes ∧
          (flat.links.map Link.undirected).Perm (flat'.links.map Link.undirected)) ∧
    ∀ built built', (d.build p strict default).result = .ok built →
      (d'.build p' strict default).result = .ok built' →
        (built.nodes.map FlatNode.bare).Perm (built'.nodes.map FlatNode.bare) ∧
        (built.nets.map (·.members.toFinset)).Perm (built'.nets.map (·.members.toFinset)) ∧
        (AddsExactly K → (built.nets.map fun net => (net.members.toFinset, net.value)).Perm
          (built'.nets.map fun net => (net.members.toFinset, net.value))) := by
  have hrelated := hp.related hK hdistinct
  have hlike := hd.resembles hK hroot
  have hcopies := hlike.root
  refine ⟨Diagram.exists_build_iff hrelated hlike, ?_, ?_⟩
  · intro flat flat' hflat hflat'
    obtain ⟨rfl, -, -⟩ := Diagram.flatten_eq_ok.1 hflat
    obtain ⟨rfl, -, -⟩ := Diagram.flatten_eq_ok.1 hflat'
    exact ⟨Copy.perm_nodes_of_related hrelated hcopies,
      Copy.perm_unfold_links hrelated hcopies⟩
  · exact fun built built' h h' => Diagram.perm_build_of_related hrelated hlike h h'

/-! ### A mirrored project -/

/-- The diagram read from the end, with every edge turned. -/
def Diagram.mirrored (d : Diagram K) : Diagram K :=
  { d with nodes := d.nodes.reverse, edges := (d.edges.map Edge.turned).reverse }

omit [Add K] [Div K] [Zero K] [One K] [Scalar K] in
theorem Diagram.reorders_mirrored (d : Diagram K) : d.Reorders d.mirrored := by
  refine ⟨rfl, (List.reverse_perm _).symm, d.edges.reverse, (List.reverse_perm _).symm, ?_⟩
  rw [mirrored, ← List.map_reverse, List.forall₂_map_right_iff, List.forall₂_same]
  exact fun e _ => Or.inr rfl

/-- A source that is a connection port, before a reference to the cell. -/
def Diagram.gate : Diagram ℚ :=
  ⟨"gate", "gate", [.source "g" true, .reference "c" "cell"], [⟨"g", "b", "c", "p"⟩]⟩

/-- A source before a reference to the gate. -/
def Diagram.aroundGate : Diagram ℚ :=
  ⟨"around", "around", [.source "s" false, .reference "r" "gate"], [⟨"s", "a", "r", "g"⟩]⟩

/-- The cell and the gate. -/
def Project.ofGate : Project ℚ := .ofList [.cell, .gate]

/-- The gate and the cell, mirrored. -/
def Project.ofGateMirrored : Project ℚ := .ofList [Diagram.gate.mirrored, Diagram.cell.mirrored]

/-- Two references deep, the mirrored project joins the same ports. -/
theorem build_reordered_aroundGate :
    ∃ built built' : Network ℚ,
      (Diagram.aroundGate.build .ofGate true 1).result = .ok built ∧
      (Diagram.aroundGate.mirrored.build .ofGateMirrored true 1).result = .ok built' ∧
      (built.nets.map (·.members.toFinset)).Perm (built'.nets.map (·.members.toFinset)) := by
  have hp : Project.ofGate.Reorders .ofGateMirrored := by
    have hds : Project.ofGate.diagrams = [.cell, .gate] := rfl
    have hds' : Project.ofGateMirrored.diagrams =
        [Diagram.gate.mirrored, Diagram.cell.mirrored] := rfl
    rw [Project.Reorders, hds, hds']
    exact ⟨[.gate, .cell], .swap _ _ _, .cons (Diagram.reorders_mirrored _)
      (.cons (Diagram.reorders_mirrored _) .nil)⟩
  have hdistinct : ∀ d ∈ Project.ofGate.diagrams, d.HasDistinctIds := by
    decide
  have hroot : Diagram.aroundGate.HasDistinctIds := by
    decide
  have hreordered := build_reordered Scalar.compares_rat hp
    (Diagram.reorders_mirrored Diagram.aroundGate) hdistinct hroot true 1
  have hmembers : (Diagram.aroundGate.build .ofGate true 1).result.map (·.nets.map (·.members)) =
      .ok [[⟨"r.g", some "b"⟩, ⟨"r.c", some "p"⟩, ⟨"r.c.p", some "a"⟩, ⟨"s", some "a"⟩,
        ⟨"r", some "g"⟩, ⟨"r.g", some "a"⟩, ⟨"s", some "b"⟩, ⟨"r.c.p", some "b"⟩]] := by
    decide +kernel
  obtain ⟨built, hbuilt, -⟩ := map_eq_ok.1 hmembers
  obtain ⟨built', hbuilt'⟩ := hreordered.1.1 ⟨built, hbuilt⟩
  exact ⟨built, built', hbuilt, hbuilt', (hreordered.2.2 built built' hbuilt hbuilt').2.1⟩

end NetBalance
