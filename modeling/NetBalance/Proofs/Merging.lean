import NetBalance.Proofs.Rebuilding
import NetBalance.Proofs.Reports

/-! # Calculated diagrams

    A calculation gives back the diagram with other payloads.  A node that is
    the first under its id keeps its own, but that an unlocked source takes
    over a value.  Payloads are listed by id, however, so that a later node
    under the same id, which is no part of the network, gets the payload of
    the first one as well, whatever the two are. -/

namespace NetBalance

variable {K : Type}

/-- The node itself, but that an unlocked source may have another value. -/
structure PlacedNode.Revalues [Scalar K] (n n' : PlacedNode K) : Prop where
  rest : n' = { n with payload := n'.payload }
  payload : n'.payload = n.payload ∨ n.kind = .ok .source ∧ Kind.isLocked n.payload = false ∧
    ∃ x, n'.payload = n.payload.put "value" (.real x)

/-- The diagram itself, but that unlocked sources may have other values. -/
structure Diagram.Revalues [Scalar K] (d d' : Diagram K) : Prop where
  rest : d' = { d with nodes := d'.nodes }
  nodes : List.Forall₂ PlacedNode.Revalues d.nodes d'.nodes

/-- A node revalues as another one does that agrees with it in type and payload. -/
theorem PlacedNode.Revalues.congr [Scalar K] {n first : PlacedNode K} {p : Payload K}
    (h : first.Revalues { first with payload := p }) (htag : first.tag = n.tag)
    (hpayload : first.payload = n.payload) : n.Revalues { n with payload := p } := by
  have hkind : first.kind = n.kind := by rw [kind, kind, htag]
  refine ⟨rfl, ?_⟩
  rw [← hkind, ← hpayload]
  exact h.payload

section Built

variable [Add K] [Div K] [Zero K] [One K] [Scalar K] {project : Project K} {d : Diagram K}
  {strict : Bool} {default : K} {net : Network K}

/-- Under the id of a node of the root a solve lists the payload of the first one, which has taken
    over a value at most. -/
theorem Diagram.exists_lookup_of_build (h : (d.build project strict default).result = .ok net)
    (xs : List K) {id : String} {first : PlacedNode K} (hfirst : d.node? id = some first) :
    ∃ p, (net.withValues xs).finish.topLevelPayloads.lookup id = some p ∧
      first.Revalues { first with payload := p } := by
  have hid : first.id = id := id_of_node? hfirst
  have hmem : first ∈ d.firsts := mem_firsts_of_node? hfirst
  -- the node as it stands in the network
  let m := (first.flat "").recordNets 0 (d.root.unfold project).joined.graph.components
  have hstands : m.StandsFor first := standsFor_of_build h hmem
  have hpayload : m.payload = first.payload := FlatNode.payload_recordNets
  have htops : m ∈ net.nodes.filter (·.isTopLevel) := by
    rw [filter_isTopLevel_of_build h]
    exact List.mem_map_of_mem hmem
  obtain ⟨hm, htop⟩ := List.mem_filter.1 htops
  have hkeys := Network.nodup_topLevelPayloads ((wellNamed_of_build h).withValues xs)
  have hlookup := (lookup_eq_some_iff hkeys).2 (Network.mem_topLevelPayloads hm htop)
  refine ⟨((net.withValues xs).finishNode m).payload, ?_, rfl, ?_⟩
  · rw [← hid, ← hstands.localId]
    exact hlookup
  · rcases (Network.revalues_finishNode (net.withValues xs) m).payload with
      hsame | ⟨⟨hkind, hlocked, -⟩, x, hx⟩
    · exact Or.inl (hsame.trans hpayload)
    · refine Or.inr ⟨?_, hpayload ▸ hlocked, x, hpayload ▸ hx⟩
      rw [hstands.kind, hkind]

end Built

namespace EngineConfig

variable [Add K] [Sub K] [Mul K] [Div K] [Neg K] [Zero K] [One K] [Scalar K] {cfg : EngineConfig K}
  {project : Project K} {d d' : Diagram K} {solution : Solution K}

/-- The diagram that a calculation gives back has the id, the name and the edges of the one that was
    calculated, and at each position a node of the same id, type and place.  Its payload is that of
    the first node with the id, but that an unlocked source may have another value.  So the first
    node of each id keeps all the rest of its payload; and where every node agrees with the first
    one of its id in type and payload, and so under distinct ids, nothing but values has changed. -/
theorem revalues_firsts (h : (cfg.calculate project d).result = .ok (solution, d')) :
    d' = { d with nodes := d'.nodes } ∧
    List.Forall₂ (fun n n' => n' = { n with payload := n'.payload } ∧
      ∃ first, d.node? n.id = some first ∧ first.Revalues { first with payload := n'.payload })
        d.nodes d'.nodes ∧
    ((∀ n ∈ d.nodes, ∀ first, d.node? n.id = some first →
      first.tag = n.tag ∧ first.payload = n.payload) → d.Revalues d') ∧
    ((d.nodes.map (·.id)).Nodup → d.Revalues d') := by
  obtain ⟨net, solved, hbuild, hsolve, rfl⟩ := calculate_eq_ok.1 h
  obtain ⟨xs, -, -, -, -, hpayloads⟩ := Network.exists_values_of_solve hsolve
  have hbuild := build_eq_ok.1 hbuild
  have hnodes : List.Forall₂ (fun n n' => n' = { n with payload := n'.payload } ∧
      ∃ first, d.node? n.id = some first ∧ first.Revalues { first with payload := n'.payload })
        d.nodes (d.withPayloads solution.payloads).nodes := by
    refine List.forall₂_map_right_iff.2 (List.forall₂_same.2 fun n hn => ⟨rfl, ?_⟩)
    obtain ⟨first, hfirst⟩ := Diagram.exists_node? hn
    obtain ⟨p, hp, hrevalues⟩ := Diagram.exists_lookup_of_build hbuild xs hfirst
    refine ⟨first, hfirst, ?_⟩
    rw [hpayloads, hp]
    exact hrevalues
  have hrevalues : (∀ n ∈ d.nodes, ∀ first, d.node? n.id = some first →
      first.tag = n.tag ∧ first.payload = n.payload) →
        d.Revalues (d.withPayloads solution.payloads) := by
    intro hagree
    have hall := (List.forall₂_and_left _ _).2 ⟨fun n hn => hagree n hn, hnodes⟩
    refine ⟨rfl, hall.imp fun n n' hn => ?_⟩
    obtain ⟨hagree, hrest, first, hfirst, hrevalues⟩ := hn
    obtain ⟨htag, hpayload⟩ := hagree first hfirst
    rw [hrest]
    exact hrevalues.congr htag hpayload
  refine ⟨rfl, hnodes, hrevalues, fun hnodup => hrevalues fun n hn first hfirst => ?_⟩
  have hself : d.node? n.id = some n := (find?_key_eq_some_iff hnodup).2 ⟨hn, rfl⟩
  rw [hself] at hfirst
  cases hfirst
  exact ⟨rfl, rfl⟩

end EngineConfig

/-- A sum under the id of a free source, which is joined to a locked one. -/
def Diagram.namedTwice : Diagram ℚ :=
  ⟨"twice", "twice", [.valued "t" 3 true, .valued "u" 0 false, .balance "u"],
    [⟨"t", "a", "u", "a"⟩]⟩

/-- The free source takes over three. -/
theorem EngineConfig.revalues_firsts_namedTwice :
    ∃ solution d', (EngineConfig.standard.calculate .empty .namedTwice).result =
        .ok (solution, d') ∧
      List.Forall₂ (fun n n' => n' = { n with payload := n'.payload } ∧
        ∃ first, Diagram.namedTwice.node? n.id = some first ∧
          first.Revalues { first with payload := n'.payload })
            Diagram.namedTwice.nodes d'.nodes ∧
      (d'.node? "u").map (fun n => (Kind.configuredValue n.payload).toOption) = some (some 3) := by
  have hruns : (EngineConfig.standard.calculate .empty .namedTwice).result.toOption.map
      (fun (_, d') => (d'.node? "u").map fun n => (Kind.configuredValue n.payload).toOption) =
        some (some (some 3)) := by
    decide +kernel
  obtain ⟨⟨solution, d'⟩, hcalculate, hvalue⟩ := Option.map_eq_some_iff.1 hruns
  have hcalculate := toOption_eq_some.1 hcalculate
  obtain ⟨-, hnodes, -⟩ := EngineConfig.revalues_firsts hcalculate
  exact ⟨solution, d', hcalculate, hnodes, hvalue⟩

/-- The sum, which has no value and no part in the network, gets the payload of the source. -/
theorem EngineConfig.namedTwice_not_revalues :
    ∃ solution d', (EngineConfig.standard.calculate .empty .namedTwice).result =
        .ok (solution, d') ∧
      Diagram.namedTwice.nodes.map (fun n => (n.payload.get? "value").isSome) =
        [true, true, false] ∧
      d'.nodes.map (fun n => (n.payload.get? "value").isSome) = [true, true, true] ∧
      ¬ Diagram.namedTwice.Revalues d' := by
  have hruns : (EngineConfig.standard.calculate .empty .namedTwice).result.toOption.map
      (fun (_, d') => d'.nodes.map fun n => (n.payload.get? "value").isSome) =
        some [true, true, true] := by
    decide +kernel
  obtain ⟨⟨solution, d'⟩, hcalculate, hvalues⟩ := Option.map_eq_some_iff.1 hruns
  refine ⟨solution, d', toOption_eq_some.1 hcalculate, by decide +kernel, hvalues, ?_⟩
  intro hrevalues
  have hlength : d'.nodes.length = 3 := by simpa using congrArg List.length hvalues
  have hsum : (PlacedNode.balance "u" : PlacedNode ℚ).Revalues d'.nodes[2] :=
    hrevalues.nodes.get (i := 2) (by decide) (by omega)
  rcases hsum.payload with hsame | ⟨hkind, -⟩
  · have hvalue : (d'.nodes[2].payload.get? "value").isSome = true := by
      have hthird := congrArg (·[2]?) hvalues
      simpa [hlength] using hthird
    rw [hsame] at hvalue
    cases hvalue
  · cases hkind

end NetBalance
