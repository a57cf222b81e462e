import NetBalance.Engine
import NetBalance.Proofs.Atomicity
import NetBalance.Proofs.Rational
import NetBalance.Proofs.Reseeding

/-! # Building a calculated diagram

    What a calculation writes into a diagram is read again when the diagram is
    built: the ports of a node, what it refers to, the value of a source.  All
    of this can still be read, and none of it makes another node, link or
    equation.  So the network is the same, but for the values in it. -/

namespace NetBalance

variable {K : Type}

namespace Diagram

variable [Add K] [Div K] [Zero K] [One K] [Scalar K] {project : Project K} {strict : Bool}
  {d : Diagram K} {default : K} {net : Network K}

/-- The nets of a network can be seeded again from the payloads of a solve. -/
theorem exists_seed_written (h : (d.build project strict default).result = .ok net) (xs : List K)
    {ms : List Port} (hms : ms ∈ (d.root.unfold project).joined.graph.components) :
    ∃ value, (⟨(d.root.unfold project).nodes.map
      (FlatNode.withPayload (net.withValues xs).finish.topLevelPayloads),
        (d.root.unfold project).joined.graph⟩ : Topology K).seed ms default = .ok value := by
  refine ⟨_, Topology.seed_eq_ok.2 ⟨fun p hp => ?_, rfl⟩⟩
  cases hnode : (⟨(d.root.unfold project).nodes.map
      (FlatNode.withPayload (net.withValues xs).finish.topLevelPayloads),
        (d.root.unfold project).joined.graph⟩ : Topology K).node? p.node with
  | none => exact ⟨none, by rw [Topology.proposal, hnode]⟩
  | some m' =>
    by_cases hkind : m'.kind = .source
    · obtain ⟨m, hm, hm'⟩ := List.mem_map.1 (List.mem_of_find?_eq_some hnode)
      have hid : m'.id = p.node := key_of_find? hnode
      subst hm'
      obtain ⟨x, hx⟩ := exists_configuredValue_again h xs hm hkind hms hp hid.symm
      exact ⟨_, Topology.proposal_source hnode hkind hx⟩
    · exact ⟨none, Topology.proposal_eq_none hnode hkind⟩

/-- The diagram with the payloads of a solve has the same network, but for values. -/
theorem exists_build_written (h : (d.build project strict default).result = .ok net) (xs : List K) :
    ∃ net', ((d.withPayloads (net.withValues xs).finish.topLevelPayloads).build project strict
      default).result = .ok net' ∧ net.Revalues net' := by
  obtain ⟨hflat, hnet⟩ := build_eq_ok.1 h
  have hflat' := flatten_withPayloads (keepsForm_of_build h xs) hflat
  rw [build_result_of_flatten hflat', joined_withPayload]
  obtain ⟨net', hnet'⟩ := Topology.exists_network_iff.2 fun ms hms => exists_seed_written h xs hms
  refine ⟨net', hnet', ?_, ?_⟩
  · -- a node at the top has the payload of the solve, and any other one its own
    have hnodes : net'.nodes =
        net.nodes.map (FlatNode.withPayload (net.withValues xs).finish.topLevelPayloads) := by
      rw [Topology.nodes_network hnet', Topology.nodes_network hnet, List.map_map, List.map_map]
      exact List.map_congr_left fun m _ => recordNets_withPayload 0 _
    have hnames := (wellNamed_of_build h).withValues xs
    rw [hnodes, List.forall₂_map_right_iff, List.forall₂_same]
    intro m hm
    have hm : m ∈ (net.withValues xs).nodes := hm
    rw [Network.withPayload_topLevelPayloads hnames hm]
    split
    · exact Network.revalues_finishNode _ m
    · exact FlatNode.Revalues.refl m
  · rw [Topology.members_network hnet', Topology.members_network hnet]

end Diagram

namespace EngineConfig

variable [Add K] [Sub K] [Mul K] [Div K] [Neg K] [Zero K] [One K] [Scalar K] {cfg : EngineConfig K}
  {project : Project K} {d d' : Diagram K} {net : Network K} {solution : Solution K}

omit [Sub K] [Mul K] [Neg K] in
theorem build_eq_ok : (cfg.build project d).result = .ok net ↔
    (d.build project cfg.strictReferences cfg.defaultNetValue).result = .ok net := by
  exact mapError_eq_ok

/-- A calculation gives the solution of the network and the diagram with its payloads. -/
theorem calculate_eq_ok : (cfg.calculate project d).result = .ok (solution, d') ↔
    ∃ net solved, (cfg.build project d).result = .ok net ∧
      (net.solve cfg.solver).result = .ok (solution, solved) ∧
        d.withPayloads solution.payloads = d' := by
  rw [calculate, Logged.bind_result, bind_eq_ok]
  constructor
  · intro h
    obtain ⟨net, hbuild, h⟩ := h
    rw [Logged.bind_result, bind_eq_ok] at h
    obtain ⟨⟨solution', solved⟩, hsolve, h⟩ := h
    cases h
    exact ⟨net, solved, hbuild, hsolve, rfl⟩
  · intro h
    obtain ⟨net, solved, hbuild, hsolve, rfl⟩ := h
    refine ⟨net, hbuild, ?_⟩
    rw [Logged.bind_result, bind_eq_ok]
    exact ⟨(solution, solved), hsolve, rfl⟩

/-- The diagram that comes back from a calculation can be built in the same project.  Its network
    has the nodes and the nets of the one that was solved, in the same order, and at every vector
    the same system. -/
theorem build_of_calculate (h : (cfg.calculate project d).result = .ok (solution, d')) :
    ∃ net net', (cfg.build project d).result = .ok net ∧ (cfg.build project d').result = .ok net' ∧
      net'.nodes.map (·.id) = net.nodes.map (·.id) ∧
      net'.nets.map (·.members) = net.nets.map (·.members) ∧
      ∀ x, (net'.assemble x).map EquationSystem.table =
        (net.assemble x).map EquationSystem.table := by
  obtain ⟨net, solved, hbuild, hsolve, rfl⟩ := calculate_eq_ok.1 h
  obtain ⟨xs, -, -, -, -, hpayloads⟩ := Network.exists_values_of_solve hsolve
  obtain ⟨net', hbuild', hsame⟩ := Diagram.exists_build_written (build_eq_ok.1 hbuild) xs
  rw [hpayloads]
  exact ⟨net, net', hbuild, build_eq_ok.2 hbuild', hsame.ids_eq, hsame.members,
    hsame.table_assemble⟩

end EngineConfig

/-- A locked source, joined to a free one and to a reference. -/
def Diagram.lockedAround : Diagram ℚ :=
  ⟨"locked", "locked", [.valued "t" 3 true, .valued "u" 0 false, .reference "r" "cell"],
    [⟨"t", "a", "u", "a"⟩, ⟨"t", "a", "r", "p"⟩]⟩

/-- The free source takes over three, so that the net has another seed; all else is as before. -/
theorem EngineConfig.build_of_calculate_lockedAround :
    ∃ solution d' net net',
      (EngineConfig.standard.calculate .ofCell .lockedAround).result = .ok (solution, d') ∧
      (EngineConfig.standard.build .ofCell .lockedAround).result = .ok net ∧
      (EngineConfig.standard.build .ofCell d').result = .ok net' ∧
      net.values = [1] ∧ net'.values = [2] ∧
      net'.nodes.map (·.id) = net.nodes.map (·.id) ∧
      net'.nets.map (·.members) = net.nets.map (·.members) ∧
      ∀ x, (net'.assemble x).map EquationSystem.table =
        (net.assemble x).map EquationSystem.table := by
  have hruns : (EngineConfig.standard.calculate .ofCell .lockedAround).result.toOption.map
      (fun (_, d') =>
        ((EngineConfig.standard.build .ofCell .lockedAround).result.toOption.map (·.values),
          (EngineConfig.standard.build .ofCell d').result.toOption.map (·.values))) =
        some (some [1], some [2]) := by
    decide +kernel
  obtain ⟨⟨solution, d'⟩, hcalculate, hruns⟩ := Option.map_eq_some_iff.1 hruns
  have hcalculate := toOption_eq_some.1 hcalculate
  obtain ⟨net, net', hbuild, hbuild', hsame⟩ := build_of_calculate hcalculate
  simp only [hbuild, hbuild', Prod.mk.injEq] at hruns
  obtain ⟨hvalues, hvalues'⟩ := hruns
  exact ⟨solution, d', net, net', hcalculate, hbuild, hbuild', Option.some.inj hvalues,
    Option.some.inj hvalues', hsame⟩

end NetBalance
