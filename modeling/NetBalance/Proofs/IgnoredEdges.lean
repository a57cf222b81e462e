import NetBalance.Proofs.NetPartition
import NetBalance.Proofs.Revision

/-! # Edges to ignore

    An edge counts for nothing where one of its ends does not exist or is not
    declared, or where it joins a port to itself.  An edge of the first sort
    is put aside before anything looks at it.  One of the second sort joins
    nothing either, but by then it has been noted as an edge at its port.  If
    it is the only one there and the port is that of an inlined reference, it
    is what connects the port to the source behind it. -/

namespace NetBalance

variable {K : Type}

/-- An edge from a port to itself. -/
def Edge.isLoop (e : Edge) : Bool := (e.source, e.sourcePort) = (e.target, e.targetPort)

/-- The revision that drops some edges of each diagram. -/
def Revision.dropping (drop : Diagram K → Edge → Bool) : Revision K where
  apply d := { d with edges := d.edges.filter fun e => !drop d e }
  id_apply _ := rfl

variable [Add K] [Div K] [One K] [Scalar K]

/-- An edge is to be ignored in a copy: one of its ends is no declared port of a node that exists,
    or both are the same. -/
def Copy.Ignores (project : Project K) (c : Copy K) (e : Edge) : Prop :=
  ¬c.Declares project (e.source, e.sourcePort) ∨ ¬c.Declares project (e.target, e.targetPort) ∨
    e.isLoop

namespace Diagram

/-- What is dropped of a diagram is to be ignored in all its copies. -/
def DropsIgnored (project : Project K) (d : Diagram K) (drop : Diagram K → Edge → Bool) : Prop :=
  ∀ c ∈ d.root.descendants project, ∀ e ∈ c.diagram.edges, drop c.diagram e → c.Ignores project e

/-- A port of an inlined reference at which an edge is accepted keeps an accepted edge. -/
def StaysWired (project : Project K) (d : Diagram K) (drop : Diagram K → Edge → Bool) : Prop :=
  ∀ c ∈ d.root.descendants project, ∀ n ∈ c.diagram.firsts, ∀ id ∈ c.wired project n,
    ∃ e ∈ c.accepted project, drop c.diagram e = false ∧ (n.id, id) ∈ e.ends

instance {project : Project K} {d : Diagram K} {drop : Diagram K → Edge → Bool} :
    Decidable (d.StaysWired project drop) :=
  inferInstanceAs (Decidable (∀ c ∈ d.root.descendants project, ∀ n ∈ c.diagram.firsts,
    ∀ id ∈ c.wired project n,
      ∃ e ∈ c.accepted project, drop c.diagram e = false ∧ (n.id, id) ∈ e.ends))

end Diagram

/-! ### Copies without the edges -/

namespace Revision

variable {drop : Diagram K → Edge → Bool} {project : Project K} {c c' : Copy K}
  {n : PlacedNode K} {e : Edge}

omit [Add K] [Div K] [One K] [Scalar K] in
theorem keepsNodes_dropping : (dropping drop).KeepsNodes := fun _ => rfl

theorem slots_dropping :
    ((dropping drop).copy c).slots ((dropping drop).project project) = c.slots project :=
  List.map_congr_left fun _ _ => slot_copy keepsNodes_dropping fun _ _ => rfl

/-- What is left is accepted as before. -/
theorem accepted_dropping :
    ((dropping drop).copy c).accepted ((dropping drop).project project) =
      (c.accepted project).filter fun e => !drop c.diagram e := by
  rw [Copy.accepted, Copy.accepted, slots_dropping]
  show (c.diagram.edges.filter _).filter _ = _
  rw [List.filter_filter, List.filter_filter]
  refine List.filter_congr fun e _ => ?_
  rw [Bool.and_comm]

theorem mem_accepted_dropping :
    e ∈ ((dropping drop).copy c).accepted ((dropping drop).project project) ↔
      e ∈ c.accepted project ∧ drop c.diagram e = false := by
  rw [accepted_dropping, List.mem_filter, Bool.not_eq_true']

/-- The ports of a reference stay wired where an accepted edge is left for each. -/
theorem wired_dropping (h : ∀ id ∈ c.wired project n,
      ∃ e ∈ c.accepted project, drop c.diagram e = false ∧ (n.id, id) ∈ e.ends) :
    ((dropping drop).copy c).wired ((dropping drop).project project) n = c.wired project n := by
  -- the connection ports do not depend on edges
  have hexposed : (((dropping drop).copy c).behind? ((dropping drop).project project) n).elim []
      (·.diagram.exposedIds) = (c.behind? project n).elim [] (·.diagram.exposedIds) := by
    rw [behind?_copy]
    cases c.behind? project n <;> rfl
  rw [Copy.wired, hexposed, Copy.wired]
  refine List.filter_congr fun id hid => ?_
  rw [List.contains_eq_mem, List.contains_eq_mem, decide_eq_decide]
  constructor
  · intro h'
    obtain ⟨e, he, hend⟩ := List.mem_flatMap.1 h'
    exact List.mem_flatMap.2 ⟨e, (mem_accepted_dropping.1 he).1, hend⟩
  · intro h'
    obtain ⟨e, he, hkept, hend⟩ := h id (List.mem_filter.2 ⟨hid, List.contains_iff_mem.2 h'⟩)
    exact List.mem_flatMap.2 ⟨e, mem_accepted_dropping.2 ⟨he, hkept⟩, hend⟩

/-- Up to links from a port to itself, the links of a copy stay. -/
theorem links_dropping (hdrop : ∀ e ∈ c.diagram.edges, drop c.diagram e → c.Ignores project e)
    (hwired : ∀ n ∈ c.diagram.firsts, ∀ id ∈ c.wired project n,
      ∃ e ∈ c.accepted project, drop c.diagram e = false ∧ (n.id, id) ∈ e.ends) :
    ((((dropping drop).copy c).links ((dropping drop).project project)).filter
        fun l => l.first ≠ l.second) = (c.links project).filter fun l => l.first ≠ l.second := by
  -- of the accepted edges only loops are dropped
  have hloop : ∀ e ∈ c.accepted project, drop c.diagram e → e.isLoop := by
    intro e he hd
    obtain ⟨hmem, hs, ht⟩ := Copy.mem_accepted.1 he
    rcases hdrop e hmem hd with h | h | h
    · exact absurd hs h
    · exact absurd ht h
    · exact h
  -- a loop joins a port to itself, so its link is left out on both sides
  have hedges : (((c.accepted project).filter fun e => !drop c.diagram e).map
      (Edge.link c.scope)).filter (fun l => l.first ≠ l.second) =
        ((c.accepted project).map (Edge.link c.scope)).filter fun l => l.first ≠ l.second := by
    rw [List.filter_map, List.filter_map, List.filter_filter]
    congr 1
    refine List.filter_congr fun e he => ?_
    cases hd : drop c.diagram e with
    | false => simp
    | true =>
      have hself : (e.link c.scope).first = (e.link c.scope).second :=
        Edge.first_eq_second_link.2 (of_decide_eq_true (hloop e he hd))
      simp [hself]
  have hboundary : c.diagram.firsts.flatMap
      (((dropping drop).copy c).boundary ((dropping drop).project project)) =
        c.diagram.firsts.flatMap (c.boundary project) :=
    List.flatMap_congr fun n hn => boundary_copy keepsNodes_dropping (wired_dropping (hwired n hn))
  rw [Copy.links_eq, Copy.links_eq, List.filter_append, List.filter_append, accepted_dropping]
  exact congrArg₂ (· ++ ·) hedges (congrArg _ hboundary)

/-- Nets are read off the same graph. -/
theorem joined_dropping {d : Diagram K} (hdrop : d.DropsIgnored project drop)
    (hwired : d.StaysWired project drop) :
    (((dropping drop).apply d).root.unfold ((dropping drop).project project)).joined =
      (d.root.unfold project).joined := by
  rw [root_apply]
  refine Flat.joined_congr (nodes_copy keepsNodes_dropping d.root) ?_
  rw [links_unfold_copy keepsNodes_dropping, Copy.unfold, List.filter_flatMap, List.filter_flatMap]
  exact List.flatMap_congr fun c hc => links_dropping (hdrop c hc) (hwired c hc)

theorem flatten_dropping_eq_error {d : Diagram K} {strict : Bool} {e : NetworkError} :
    (((dropping drop).apply d).flatten ((dropping drop).project project) strict).result = .error e ↔
      (d.flatten project strict).result = .error e :=
  flatten_eq_error keepsNodes_dropping fun _ _ _ _ => rfl

end Revision

/-! ### Building without the edges -/

variable [Zero K] {project : Project K} {strict : Bool} {d : Diagram K} {default : K}
  {drop : Diagram K → Edge → Bool}

namespace Revision

theorem build_dropping_of_error {e : NetworkError}
    (h : (d.flatten project strict).result = .error e) :
    (dropping drop).build d project strict default = .error e :=
  Diagram.build_result_of_error (flatten_dropping_eq_error.2 h)

theorem build_dropping_of_staysWired (hdrop : d.DropsIgnored project drop)
    (hwired : d.StaysWired project drop) :
    (dropping drop).build d project strict default = (d.build project strict default).result := by
  cases h : (d.flatten project strict).result with
  | error e => rw [Diagram.build_result_of_error h, build_dropping_of_error h]
  | ok flat =>
    cases h' : (((dropping drop).apply d).flatten ((dropping drop).project project)
      strict).result with
    | error e =>
      rw [flatten_dropping_eq_error.1 h'] at h
      cases h
    | ok flat' =>
      obtain ⟨rfl, -, -⟩ := Diagram.flatten_eq_ok.1 h
      obtain ⟨rfl, -, -⟩ := Diagram.flatten_eq_ok.1 h'
      rw [build, Diagram.build_result_of_flatten h, Diagram.build_result_of_flatten h',
        joined_dropping hdrop hwired]

/-- A port of an inlined reference that is listed before and after has kept an edge. -/
theorem staysWired_of_build {built : Network K}
    (h : (d.build project strict default).result = .ok built)
    (h' : (dropping drop).build d project strict default = .ok built) :
    d.StaysWired project drop := by
  intro c hc n hn id hid
  obtain ⟨hflat, hnet⟩ := Diagram.build_eq_ok.1 h
  obtain ⟨hflat', hnet'⟩ := Diagram.build_eq_ok.1 h'
  obtain ⟨c', hb⟩ := Copy.exists_of_mem_wired hid
  -- with all edges the port is listed, so it is listed without those that are dropped
  have hport := Diagram.mem_ports_of_mem_wired hc hn hid
  rw [← Topology.isListed_iff hnet, Topology.isListed_iff hnet'] at hport
  have hnodup := (Diagram.flatten_eq_ok.1 hflat').2.2
  rw [root_apply] at hnodup
  have hc' : (dropping drop).copy c ∈
      ((dropping drop).apply d).root.descendants ((dropping drop).project project) := by
    rw [root_apply, descendants_copy keepsNodes_dropping]
    exact List.mem_map_of_mem hc
  have hb' : ((dropping drop).copy c).behind? ((dropping drop).project project) n =
      some ((dropping drop).copy c') := by
    rw [behind?_copy, hb, Option.map_some]
  -- an edge that is left must be what makes it listed there
  obtain ⟨e, he, hend⟩ := Diagram.exists_accepted_of_mem_ports hnodup hc' hn hb' hport
  obtain ⟨he, hkept⟩ := mem_accepted_dropping.1 he
  exact ⟨e, he, hkept, hend⟩

end Revision

/-- Dropping edges that are to be ignored in all copies does not change what comes of building, as
    long as no port of an inlined reference loses its last accepted edge.  Where a network is built,
    it changes the network otherwise.  An error of flattening stays in any case. -/
theorem build_dropping_ignored (h : d.DropsIgnored project drop) :
    (d.StaysWired project drop →
      (Revision.dropping drop).build d project strict default =
        (d.build project strict default).result) ∧
    (∀ built, (d.build project strict default).result = .ok built →
      ((Revision.dropping drop).build d project strict default = .ok built ↔
        d.StaysWired project drop)) ∧
    (∀ e, (d.flatten project strict).result = .error e →
      (d.build project strict default).result = .error e ∧
        (Revision.dropping drop).build d project strict default = .error e) := by
  have hstays : d.StaysWired project drop →
      (Revision.dropping drop).build d project strict default =
        (d.build project strict default).result := Revision.build_dropping_of_staysWired h
  refine ⟨hstays, fun built hbuilt => ?_, fun e he => ?_⟩
  · constructor
    · exact Revision.staysWired_of_build hbuilt
    · intro hwired
      rw [hstays hwired, hbuilt]
  · exact ⟨Diagram.build_result_of_error he, Revision.build_dropping_of_error he⟩

/-- A loop at a port that another edge joins to a source can be dropped. -/
theorem build_dropping_ignored_aroundCell :
    (Diagram.aroundCell [⟨"r", "p", "r", "p"⟩, ⟨"s", "a", "r", "p"⟩]).StaysWired .ofCell
        (fun _ => Edge.isLoop) ∧
      (Revision.dropping fun _ => Edge.isLoop).build
          (Diagram.aroundCell [⟨"r", "p", "r", "p"⟩, ⟨"s", "a", "r", "p"⟩]) .ofCell true 1 =
        ((Diagram.aroundCell [⟨"r", "p", "r", "p"⟩, ⟨"s", "a", "r", "p"⟩]).build
          .ofCell true 1).result := by
  have hdrop : (Diagram.aroundCell [⟨"r", "p", "r", "p"⟩, ⟨"s", "a", "r", "p"⟩]).DropsIgnored
      .ofCell (fun _ => Edge.isLoop) := by
    intro c _ e _ hloop
    exact Or.inr (Or.inr hloop)
  have hwired : (Diagram.aroundCell [⟨"r", "p", "r", "p"⟩, ⟨"s", "a", "r", "p"⟩]).StaysWired .ofCell
      (fun _ => Edge.isLoop) := by
    decide +kernel
  exact ⟨hwired, (build_dropping_ignored hdrop).1 hwired⟩

/-- A loop that is the only edge at a port of a reference makes a net of what is behind the port. -/
theorem loop_makes_net :
    (Diagram.aroundCell [⟨"r", "p", "r", "p"⟩]).DropsIgnored .ofCell (fun _ => Edge.isLoop) ∧
      ((Diagram.aroundCell [⟨"r", "p", "r", "p"⟩]).build .ofCell true 1).result.map
          (·.nets.map (·.members)) =
        .ok [[⟨"r", some "p"⟩, ⟨"r.p", some "a"⟩, ⟨"r.p", some "b"⟩]] ∧
      ((Revision.dropping fun _ => Edge.isLoop).build
          (Diagram.aroundCell [⟨"r", "p", "r", "p"⟩]) .ofCell true 1).map
          (·.nets.map (·.members)) = .ok [] := by
  refine ⟨?_, by decide +kernel, by decide +kernel⟩
  intro c _ e _ hloop
  exact Or.inr (Or.inr hloop)

end NetBalance
