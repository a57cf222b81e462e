import NetBalance.Proofs.Atomicity
import NetBalance.Proofs.Shape

/-! # What a solve reports

    When the nets have their values, every payload is settled: an unlocked
    source takes over the value of the net that it is at, and nothing else
    changes.  The nodes of the root diagram itself are reported under their
    local ids.  A node of an inlined diagram may have one of these ids, too,
    but it stands under a scope, and no node of the root does. -/

namespace NetBalance

/-- What stands in one of two related lists has a partner in the other. -/
theorem exists_of_forall₂ {α β : Type} {R : α → β → Prop} {xs : List α} {ys : List β}
    (h : List.Forall₂ R xs ys) {x : α} (hx : x ∈ xs) : ∃ y ∈ ys, R x y := by
  induction h with
  | nil => cases hx
  | cons hxy _ ih =>
    rcases List.mem_cons.1 hx with rfl | hx
    · exact ⟨_, List.mem_cons_self, hxy⟩
    · obtain ⟨y, hy, hxy⟩ := ih hx
      exact ⟨y, List.mem_cons_of_mem _ hy, hxy⟩

variable {K : Type}

/-! ### Settled payloads -/

namespace FlatNode

/-- A net lists a terminal of the node. -/
def IsAt (m : FlatNode K) (n : Net K) : Prop :=
  ∃ t ∈ Kind.sourceTerminals, m.terminal t ∈ n.members

/-- What becomes of a payload when nets have their values: an unlocked source at a net takes over
    the value of the net, and every other payload stays. -/
structure Settles [Scalar K] (m : FlatNode K) (nets : List (Net K)) (p : Payload K) : Prop where
  takes : m.kind = .source → Kind.isLocked m.payload = false →
    ∀ n ∈ nets, m.IsAt n → p = m.payload.put "value" (.real n.value)
  stays : (m.kind = .source → Kind.isLocked m.payload = false → ∀ n ∈ nets, ¬ m.IsAt n) →
    p = m.payload

end FlatNode

namespace Network

/-- Nodes know the nets that list their ports, and the two terminals of a source are at one net or
    at none. -/
structure Linked (net : Network K) : Prop where
  net?_iff : ∀ m ∈ net.nodes, ∀ name i, m.net? name = some i ↔
    ∃ ms, (net.nets.map (·.members))[i]? = some ms ∧ ⟨m.id, name⟩ ∈ ms
  terminals : ∀ m ∈ net.nodes, m.kind = .source → m.net? (some "a") = m.net? (some "b")

theorem Linked.withValues {net : Network K} (h : net.Linked) (xs : List K) :
    (net.withValues xs).Linked := by
  refine ⟨?_, h.terminals⟩
  rw [members_withValues]
  exact h.net?_iff

/-- The terminals of a source at a net are known to be there. -/
theorem Linked.net?_of_isAt {net : Network K} (h : net.Linked) {m : FlatNode K}
    (hm : m ∈ net.nodes) (hkind : m.kind = .source) {n : Net K} (hn : n ∈ net.nets)
    (hat : m.IsAt n) :
    ∃ i, net.nets[i]? = some n ∧ m.net? (some "a") = some i := by
  obtain ⟨i, hi⟩ := List.mem_iff_getElem?.1 hn
  obtain ⟨t, ht, hmem⟩ := hat
  have hnet : m.net? (some t) = some i := by
    refine (h.net?_iff m hm (some t) i).2 ⟨n.members, ?_, hmem⟩
    rw [List.getElem?_map, hi]
    rfl
  refine ⟨i, hi, ?_⟩
  rcases List.mem_pair.1 ht with rfl | rfl
  · exact hnet
  · rw [h.terminals m hm hkind]
    exact hnet

/-- Finishing settles the payload of each node. -/
theorem Linked.settles [Scalar K] {net : Network K} (h : net.Linked) {m : FlatNode K}
    (hm : m ∈ net.nodes) : m.Settles net.nets (net.finishNode m).payload := by
  refine ⟨?_, ?_⟩
  · intro hkind hlocked n hn hat
    obtain ⟨i, hi, hnet⟩ := h.net?_of_isAt hm hkind hn hat
    have hvalue : (m.net? (some "a")).bind (fun i => net.nets[i]?.map (·.value)) =
        some n.value := by
      rw [hnet, Option.bind_some, hi]
      rfl
    rw [payload_finishNode, hkind, Kind.finish, hlocked, Kind.sourceTerminals, List.findSome?_cons,
      hvalue]
    rfl
  · intro hidle
    rw [payload_finishNode]
    rcases Kind.finish_cases m.kind m.payload fun p =>
      (m.net? p).bind fun i => net.nets[i]?.map (·.value) with heq | ⟨x, hkind, hlocked, hx, -⟩
    · exact heq
    · -- the value was found at a terminal, which a net lists therefore
      obtain ⟨t, ht, hx⟩ := List.exists_of_findSome?_eq_some hx
      obtain ⟨i, hi, -⟩ := Option.bind_eq_some_iff.1 hx
      obtain ⟨ms, hms, hmem⟩ := (h.net?_iff m hm (some t) i).1 hi
      rw [List.getElem?_map, Option.map_eq_some_iff] at hms
      obtain ⟨n, hn, rfl⟩ := hms
      exact absurd ⟨t, ht, hmem⟩ (hidle hkind hlocked n (List.mem_of_getElem? hn))

section Revalues

variable [Scalar K] {net net' : Network K}

theorem Revalues.exists_of_mem (h : net.Revalues net') {m' : FlatNode K} (hm' : m' ∈ net'.nodes) :
    ∃ m ∈ net.nodes, m.Revalues m' := exists_of_forall₂ h.nodes.flip hm'

/-- Values do not count for where nodes are. -/
theorem Revalues.linked (h : net.Revalues net') (hlinked : net.Linked) : net'.Linked := by
  refine ⟨?_, ?_⟩
  · intro m' hm' name i
    obtain ⟨m, hm, hsame⟩ := h.exists_of_mem hm'
    have hid : m'.id = m.id := by rw [hsame.rest]
    rw [hsame.net?_eq, hid, h.members]
    exact hlinked.net?_iff m hm name i
  · intro m' hm' hkind
    obtain ⟨m, hm, hsame⟩ := h.exists_of_mem hm'
    rw [hsame.net?_eq]
    exact hlinked.terminals m hm (hsame.kind_eq ▸ hkind)

theorem Revalues.wellNamed (h : net.Revalues net') (hnames : net.WellNamed) : net'.WellNamed := by
  refine ⟨?_, ?_⟩
  · rw [h.ids_eq]
    exact hnames.nodup
  · intro m' hm'
    obtain ⟨m, hm, hsame⟩ := h.exists_of_mem hm'
    rw [hsame.rest]
    exact hnames.id_eq m hm

end Revalues

end Network

/-! ### The nodes at the top -/

namespace Diagram

variable {project : Project K} {d : Diagram K}

/-- The nodes at the top are those of the root, in their order. -/
theorem filter_isTopLevel_nodes : (d.root.nodes project).filter (·.isTopLevel) =
    d.firsts.map fun n => n.flat "" := by
  have hbranch : ∀ n ∈ d.firsts,
      (d.root.branch project n).filter (·.isTopLevel) = [n.flat ""] := by
    intro n _
    have hbehind : ((d.root.behind? project n).elim [] (Copy.nodes project)).filter
        (·.isTopLevel) = [] := by
      cases hc : d.root.behind? project n with
      | none => rfl
      | some c =>
        refine List.filter_eq_nil_iff.2 fun m hm htop => ?_
        exact scope_ne_empty_of_behind? hc hm (String.isEmpty_iff.1 htop)
    have htop : (n.flat d.root.scope).isTopLevel = true := rfl
    rw [Copy.branch, List.filter_cons_of_pos htop, hbehind]
    rfl
  rw [Copy.nodes_eq, List.filter_flatMap, List.map_eq_flatMap]
  exact List.flatMap_congr hbranch

theorem mem_ids_firsts {id : String} : id ∈ d.firsts.map (·.id) ↔ id ∈ d.nodes.map (·.id) := by
  constructor
  · intro h
    exact List.map_subset _ (keepFirst_subset d.nodes) h
  · intro h
    obtain ⟨n, hn, rfl⟩ := List.mem_map.1 h
    obtain ⟨first, hfirst⟩ := exists_node? hn
    rw [← id_of_node? hfirst]
    exact List.mem_map_of_mem (mem_firsts_of_node? hfirst)

end Diagram

/-- The node of a network is that of the root, but for payload and nets. -/
structure FlatNode.StandsFor (m : FlatNode K) (n : PlacedNode K) : Prop where
  id : m.id = n.id
  localId : m.localId = n.id
  scope : m.scope = ""
  kind : n.kind = .ok m.kind

theorem FlatNode.StandsFor.revalued [Scalar K] {m m' : FlatNode K} {n : PlacedNode K}
    (h : m.StandsFor n) (hsame : m.Revalues m') : m'.StandsFor n := by
  rw [hsame.rest]
  exact ⟨h.id, h.localId, h.scope, h.kind⟩

section Built

variable [Add K] [Div K] [Zero K] [One K] [Scalar K] {project : Project K} {d : Diagram K}
  {strict : Bool} {default : K} {net : Network K}
  (h : (d.build project strict default).result = .ok net)
include h

namespace Diagram

theorem linked_of_build : net.Linked := by
  refine ⟨?_, fun m hm hkind => terminals_of_build h hm hkind⟩
  intro m hm name i
  rw [net?_of_build h hm]
  constructor
  · intro hnet
    obtain ⟨n, hn, hmem⟩ := hnet
    exact ⟨n.members, by rw [List.getElem?_map, hn, Option.map_some], hmem⟩
  · intro hnet
    obtain ⟨ms, hms, hmem⟩ := hnet
    rw [List.getElem?_map, Option.map_eq_some_iff] at hms
    obtain ⟨n, hn, rfl⟩ := hms
    exact ⟨n, hn, hmem⟩

theorem filter_isTopLevel_of_build : net.nodes.filter (·.isTopLevel) =
    d.firsts.map fun n =>
      (n.flat "").recordNets 0 (d.root.unfold project).joined.graph.components := by
  obtain ⟨-, hnet⟩ := build_eq_ok.1 h
  have htop : (FlatNode.isTopLevel ∘ fun m : FlatNode K =>
      m.recordNets 0 (d.root.unfold project).joined.graph.components) = FlatNode.isTopLevel := by
    funext m
    rw [Function.comp_apply, FlatNode.recordNets_eq]
    rfl
  rw [Topology.nodes_network hnet, List.filter_map, htop]
  show ((d.root.nodes project).filter (·.isTopLevel)).map _ = _
  rw [filter_isTopLevel_nodes, List.map_map]
  rfl

theorem standsFor_of_build {n : PlacedNode K} (hn : n ∈ d.firsts) :
    ((n.flat "").recordNets 0 (d.root.unfold project).joined.graph.components).StandsFor n := by
  obtain ⟨hflat, -⟩ := build_eq_ok.1 h
  obtain ⟨-, hsound, -⟩ := flatten_eq_ok.1 hflat
  have hroot : d.root ∈ d.root.descendants project := Copy.mem_descendants.2 .refl
  obtain ⟨kind, -, hkind, -, -⟩ := (hsound d.root hroot n hn).kind
  rw [FlatNode.recordNets_eq]
  refine ⟨String.empty_append, rfl, rfl, ?_⟩
  show n.kind = .ok (n.flat "").kind
  rw [PlacedNode.kind_flat hkind, hkind]

end Diagram

variable [Sub K] [Mul K] [Neg K]

/-- After any solves, the nodes at the top stand for the first nodes of the root under their ids. -/
theorem Diagram.tops_of_afterSolves (cfgs : List (SolverConfig K)) :
    List.Forall₂ (fun n m => m.StandsFor n ∧ (cfgs = [] → m.payload = n.payload))
      d.firsts ((net.afterSolves cfgs).nodes.filter (·.isTopLevel)) := by
  by_cases hcfgs : cfgs = []
  · subst hcfgs
    show List.Forall₂ _ d.firsts (net.nodes.filter (·.isTopLevel))
    rw [filter_isTopLevel_of_build h, List.forall₂_map_right_iff, List.forall₂_same]
    intro n hn
    exact ⟨standsFor_of_build h hn, fun _ => FlatNode.payload_recordNets⟩
  · have htops : List.Forall₂ FlatNode.Revalues (net.nodes.filter (·.isTopLevel))
        ((net.afterSolves cfgs).nodes.filter (·.isTopLevel)) := by
      refine List.rel_filter ?_ (Network.revalues_afterSolves net cfgs).nodes
      intro m m' hsame
      rw [hsame.rest]
      exact Iff.rfl
    rw [filter_isTopLevel_of_build h, List.forall₂_map_left_iff] at htops
    have hfirsts := (List.forall₂_and_left _ _).2 ⟨fun n hn => standsFor_of_build h hn, htops⟩
    exact hfirsts.imp fun n m hm => ⟨hm.1.revalued hm.2, fun hnil => absurd hnil hcfgs⟩

end Built

/-! ### Reports -/

section Reports

/-- What is reported is listed under the local ids of the nodes at the top. -/
theorem Network.keys_topLevelPayloads [Scalar K] (net : Network K) :
    net.finish.topLevelPayloads.map (·.1) = (net.nodes.filter (·.isTopLevel)).map (·.localId) := by
  rw [topLevelPayloads_finish, List.map_map]
  rfl

variable [Add K] [Sub K] [Mul K] [Div K] [Neg K] [Zero K] [One K] [Scalar K] {net : Network K}
  {cfg : SolverConfig K} {solution : Solution K}

/-- A call that returns leaves finished payloads behind, and reports those at the top. -/
theorem Network.exists_values_of_run (h : ((solveInPlace cfg).run net).2.result = .ok solution) :
    ∃ xs : List K, ((solveInPlace cfg).run net).1 = (net.withValues xs).finish ∧
      solution.payloads = (net.withValues xs).finish.topLevelPayloads := by
  rw [run_solveInPlace] at h ⊢
  cases hsolve : (net.solve cfg).result with
  | error e =>
    rw [hsolve] at h
    cases h
  | ok s =>
    rw [hsolve] at h
    cases h
    obtain ⟨xs, -, -, hsolved, -, hpayloads⟩ := exists_values_of_solve hsolve
    exact ⟨xs, hsolved, hpayloads⟩

variable {project : Project K} {d : Diagram K} {strict : Bool} {default : K}

/-- Let a network be built, and solved any number of times.  If the next call returns, converged or
    not, it reports exactly one payload for each id of the root: that of the first node with the
    id, settled by the values that the nets have now.  In the network, too, the payloads of all
    nodes are settled and nothing else about them changes, so that all unlocked sources at a net,
    wherever they come from, have its value. -/
theorem Diagram.reports_of_build (h : (d.build project strict default).result = .ok net)
    {cfgs : List (SolverConfig K)} {after : Network K} {run : Logged K (Error K) (Solution K)}
    (hcall : (Network.solveInPlace cfg).run (net.afterSolves cfgs) = (after, run))
    (hreturns : run.result = .ok solution) :
    (solution.payloads.map (·.1)).Nodup ∧
    (∀ id, id ∈ solution.payloads.map (·.1) ↔ id ∈ d.nodes.map (·.id)) ∧
    (∀ n, d.node? n.id = some n → ∃ m ∈ (net.afterSolves cfgs).nodes, m.StandsFor n ∧
      (cfgs = [] → m.payload = n.payload) ∧
      ∃ p, solution.payloads.lookup n.id = some p ∧ m.Settles after.nets p) ∧
    List.Forall₂ (fun m m' => m' = { m with payload := m'.payload } ∧
      m.Settles after.nets m'.payload) (net.afterSolves cfgs).nodes after.nodes ∧
    after.nets.map (·.members) = net.nets.map (·.members) ∧
    (∀ n ∈ after.nets, ∀ m ∈ after.nodes, m.kind = .source → Kind.isLocked m.payload = false →
      m.IsAt n → m.payload.get? "value" = some (.real n.value)) := by
  have hresult : ((Network.solveInPlace cfg).run (net.afterSolves cfgs)).2.result =
      .ok solution := by
    rw [hcall, hreturns]
  obtain ⟨xs, hafter, hpayloads⟩ := Network.exists_values_of_run hresult
  rw [hcall] at hafter
  have hafter : after = ((net.afterSolves cfgs).withValues xs).finish := hafter
  subst hafter
  have hrun := Network.revalues_afterSolves net cfgs
  have hlinked := (hrun.linked (linked_of_build h)).withValues xs
  have hnames := (hrun.wellNamed (wellNamed_of_build h)).withValues xs
  have htops := tops_of_afterSolves h cfgs
  have hkeys : solution.payloads.map (·.1) = d.firsts.map (·.id) := by
    rw [hpayloads, Network.keys_topLevelPayloads, ← List.forall₂_eq_eq_eq,
      List.forall₂_map_left_iff, List.forall₂_map_right_iff]
    exact htops.flip.imp fun m n hm => hm.1.localId
  have hnodup : (solution.payloads.map (·.1)).Nodup := hkeys ▸ d.nodup_firsts
  have hsettles : List.Forall₂ (fun m m' => m.Revalues m' ∧
      m.Settles ((net.afterSolves cfgs).withValues xs).nets m'.payload) (net.afterSolves cfgs).nodes
        ((net.afterSolves cfgs).withValues xs).finish.nodes := by
    refine List.forall₂_map_right_iff.2 (List.forall₂_same.2 fun m hm => ?_)
    exact ⟨Network.revalues_finishNode _ m, hlinked.settles hm⟩
  refine ⟨hnodup, fun id => hkeys ▸ mem_ids_firsts, ?_, ?_, ?_, ?_⟩
  · intro n hn
    obtain ⟨m, hm, hstands, hpayload⟩ := exists_of_forall₂ htops (mem_firsts_iff.2 hn)
    obtain ⟨hm, htop⟩ := List.mem_filter.1 hm
    refine ⟨m, hm, hstands, hpayload, _, ?_, hlinked.settles hm⟩
    rw [lookup_eq_some_iff hnodup, hpayloads, ← hstands.localId]
    exact Network.mem_topLevelPayloads hm htop
  · exact hsettles.imp fun m m' hm => ⟨hm.1.rest, hm.2⟩
  · exact (Network.members_withValues _ xs).trans hrun.members
  · intro n hn m' hm' hkind hlocked hat
    obtain ⟨m, hm, hsame, hsettled⟩ := exists_of_forall₂ hsettles.flip hm'
    have hat : m.IsAt n := by
      rw [hsame.rest] at hat
      exact hat
    rw [hsettled.takes (hsame.kind_eq ▸ hkind) (hsame.isLocked_eq ▸ hlocked) n hn hat,
      Payload.get?_put, if_pos rfl]

end Reports

/-- A locked source that has the id of the node behind the reference to which it is joined. -/
def Diagram.namesakes : Diagram ℚ :=
  ⟨"namesakes", "namesakes", [.valued "p" 3 true, .reference "r" "cell"], [⟨"p", "a", "r", "p"⟩]⟩

/-- The free source of the cell takes over three.  It is not reported; what stands under its local
    id is the payload of the locked one, as it was. -/
theorem Diagram.reports_of_build_namesakes :
    ∃ net after run solution, (Diagram.namesakes.build .ofCell true 1).result = .ok net ∧
      (Network.solveInPlace .standard).run (net.afterSolves []) = (after, run) ∧
      run.result = .ok solution ∧
      after.nodes.map (fun m => (m.id, (Kind.configuredValue m.payload).toOption)) =
        [("p", some 3), ("r", some 0), ("r.p", some 3)] ∧
      (∀ id, id ∈ solution.payloads.map (·.1) ↔ id ∈ ["p", "r"]) ∧
      solution.payloads.lookup "p" = some (PlacedNode.valued "p" 3 true).payload := by
  have hruns : (Diagram.namesakes.build .ofCell true 1).result.toOption.map (fun net =>
      (((Network.solveInPlace .standard).run (net.afterSolves [])).2.result.toOption.isSome,
        ((Network.solveInPlace .standard).run (net.afterSolves [])).1.nodes.map fun m =>
          (m.id, (Kind.configuredValue m.payload).toOption))) =
            some (true, [("p", some 3), ("r", some 0), ("r.p", some 3)]) := by
    decide +kernel
  obtain ⟨net, hbuild, hruns⟩ := Option.map_eq_some_iff.1 hruns
  obtain ⟨hreturns, hvalues⟩ := Prod.mk.inj hruns
  obtain ⟨solution, hreturns⟩ := Option.isSome_iff_exists.1 hreturns
  have hreturns := toOption_eq_some.1 hreturns
  have hbuild := toOption_eq_some.1 hbuild
  obtain ⟨-, hids, hreported, -⟩ := Diagram.reports_of_build hbuild rfl hreturns
  obtain ⟨m, -, hstands, hpayload, p, hp, hsettles⟩ := hreported (.valued "p" 3 true) rfl
  have hlocked : Kind.isLocked m.payload = true := by
    rw [hpayload rfl]
    rfl
  refine ⟨net, _, _, solution, hbuild, rfl, hreturns, hvalues, hids, ?_⟩
  rw [← hpayload rfl]
  refine hp.trans (congrArg some (hsettles.stays fun _ hfree => ?_))
  rw [hlocked] at hfree
  cases hfree

end NetBalance
