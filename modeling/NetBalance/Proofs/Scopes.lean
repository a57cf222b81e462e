import NetBalance.Proofs.Places
import NetBalance.Proofs.Rational

/-! # Flattening under a scope

    A copy of a diagram is flattened under the id of the reference that it
    stands for.  The scope is only ever put in front: what is read, which
    edges are used and what stands behind a reference do not depend on it.
    So a copy under a scope is the copy under none with the scope in front of
    all ids, and it can be made exactly when that one can be made and none of
    its ids is taken behind the scope. -/

namespace NetBalance

variable {K : Type}

/-! ### Putting a scope in front -/

def Port.under (scope : String) (p : Port) : Port := { p with node := scope ++ p.node }

/-- Both ends move; the kind stays. -/
def Link.under (scope : String) (l : Link) : Link :=
  { l with first := l.first.under scope, second := l.second.under scope }

/-- The id and the scope move; everything else stays. -/
def FlatNode.under (scope : String) (n : FlatNode K) : FlatNode K :=
  { n with id := scope ++ n.id, scope := scope ++ n.scope }

def Flat.under (scope : String) (f : Flat K) : Flat K :=
  ⟨f.nodes.map (FlatNode.under scope), f.links.map (Link.under scope)⟩

def Copy.under (scope : String) (c : Copy K) : Copy K := { c with scope := scope ++ c.scope }

/-- Moved ids collide with nothing exactly when the ids are distinct and none is taken behind the
    scope. -/
theorem fresh_under {taken : List String} {scope : String} {nodes : List (FlatNode K)} :
    Fresh taken (nodes.map (FlatNode.under scope)) ↔
      (nodes.map (·.id)).Nodup ∧ ∀ id ∈ nodes.map (·.id), scope ++ id ∉ taken := by
  have hids : (nodes.map (FlatNode.under scope)).map (·.id) =
      (nodes.map (·.id)).map (scope ++ ·) := by
    rw [List.map_map, List.map_map]
    rfl
  -- a common front keeps different texts apart
  have hinj : Function.Injective (scope ++ · : String → String) := by
    intro a b h
    exact (String.append_right_inj scope).1 h
  rw [Fresh, hids, List.nodup_map_iff hinj]
  refine and_congr_right fun _ => ?_
  simp only [List.forall_mem_map]
  rfl

namespace Copy

variable {project : Project K} {c c' : Copy K} {n : PlacedNode K} {scope : String}

/-! ### Nodes -/

theorem inner_under {t : Diagram K} : (c.under scope).inner n t = (c.inner n t).under scope := by
  show (⟨t, scope ++ c.scope ++ n.id ++ ".", _⟩ : Copy K) = ⟨t, scope ++ (c.scope ++ n.id ++ "."), _⟩
  simp only [String.append_assoc]
  rfl

/-- What stands behind a node does not depend on the scope. -/
theorem behind?_under :
    (c.under scope).behind? project n = (c.behind? project n).map (Copy.under scope) := by
  show (n.target? project c.stack).map _ = ((n.target? project c.stack).map _).map _
  rw [Option.map_map]
  congr 1
  funext t
  exact inner_under

theorem descendants_under (c : Copy K) :
    (c.under scope).descendants project = (c.descendants project).map (Copy.under scope) := by
  induction c using Copy.induction project with
  | step c ih =>
    have hbelow : ∀ n,
        (c.under scope).below project n = (c.below project n).map (Copy.under scope) := by
      intro n
      rw [below, below, behind?_under]
      cases hb : c.behind? project n with
      | none => rfl
      | some c' => exact ih n c' hb
    rw [descendants_eq, descendants_eq, List.map_append, List.map_flatMap]
    show c.diagram.firsts.flatMap _ ++ _ = _
    rw [List.flatMap_congr fun n _ => hbelow n]
    rfl

theorem flat_under : n.flat (scope ++ c.scope) = (n.flat c.scope).under scope := by
  simp only [PlacedNode.flat, FlatNode.under, String.append_assoc]

theorem nodes_under (c : Copy K) :
    (c.under scope).nodes project = (c.nodes project).map (FlatNode.under scope) := by
  induction c using Copy.induction project with
  | step c ih =>
    have hbranch : ∀ n, (c.under scope).branch project n =
        (c.branch project n).map (FlatNode.under scope) := by
      intro n
      rw [branch, branch, behind?_under, List.map_cons]
      show n.flat (scope ++ c.scope) :: _ = _
      rw [flat_under]
      cases hb : c.behind? project n with
      | none => rfl
      | some c' => exact congrArg _ (ih n c' hb)
    rw [nodes_eq, nodes_eq, List.map_flatMap]
    exact List.flatMap_congr fun n _ => hbranch n

variable [Add K] [Div K] [One K] [Scalar K] {strict : Bool} {e : Edge}

/-! ### Links -/

theorem portsOf_under : (c.under scope).portsOf project n = c.portsOf project n := by
  rw [portsOf, portsOf, behind?_under]
  cases c.behind? project n <;> rfl

/-- Edges are accepted by local ids, which no scope changes. -/
theorem accepted_under : (c.under scope).accepted project = c.accepted project := by
  have hdeclares : ∀ stop, (c.under scope).Declares project stop ↔ c.Declares project stop := by
    intro stop
    simp only [Declares, portsOf_under]
    rfl
  show c.diagram.edges.filter _ = c.diagram.edges.filter _
  refine List.filter_congr fun e _ => ?_
  rw [Bool.eq_iff_iff, isUsable_iff, isUsable_iff, hdeclares, hdeclares]

theorem wired_under : (c.under scope).wired project n = c.wired project n := by
  rw [wired, wired, behind?_under, accepted_under]
  cases c.behind? project n <;> rfl

omit [Add K] [Div K] [One K] [Scalar K] in
theorem link_under : e.link (scope ++ c.scope) = (e.link c.scope).under scope := by
  simp only [Edge.link, Link.under, Port.under, String.append_assoc]

omit [Add K] [Div K] [One K] [Scalar K] in
theorem port_under {id : String} : (c.under scope).port id = (c.port id).under scope := by
  show (⟨scope ++ c.scope ++ id, _⟩ : Port) = ⟨scope ++ (c.scope ++ id), _⟩
  rw [String.append_assoc]
  rfl

theorem boundary_under :
    (c.under scope).boundary project n = (c.boundary project n).map (Link.under scope) := by
  rw [boundary, boundary, behind?_under, wired_under]
  cases c.behind? project n with
  | none => rfl
  | some c' =>
    rw [Option.map_some, Option.elim_some, Option.elim_some, List.map_map]
    refine List.map_congr_left fun id _ => ?_
    rw [port_under]
    show (⟨⟨scope ++ c.scope ++ n.id, _⟩, _, _⟩ : Link) = ⟨⟨scope ++ (c.scope ++ n.id), _⟩, _, _⟩
    rw [String.append_assoc]

theorem links_under : (c.under scope).links project = (c.links project).map (Link.under scope) := by
  have hedges : (c.accepted project).map (Edge.link (scope ++ c.scope)) =
      ((c.accepted project).map (Edge.link c.scope)).map (Link.under scope) := by
    rw [List.map_map]
    exact List.map_congr_left fun e _ => link_under
  rw [links_eq, links_eq, accepted_under, List.map_append, List.map_flatMap, ← hedges]
  exact congrArg _ (List.flatMap_congr fun n _ => boundary_under)

/-- The unfolding under a scope is the unfolding with the scope in front. -/
theorem unfold_under (c : Copy K) :
    (c.under scope).unfold project = (c.unfold project).under scope := by
  have hlinks : ((c.under scope).descendants project).flatMap (·.links project) =
      ((c.descendants project).flatMap (·.links project)).map (Link.under scope) := by
    rw [descendants_under, List.flatMap_map, List.map_flatMap]
    exact List.flatMap_congr fun d _ => links_under
  rw [unfold, unfold, nodes_under, hlinks]
  rfl

/-! ### Flattening -/

/-- A copy can be read under a scope when it can be read at all. -/
theorem isSound_under : (c.under scope).IsSound project strict ↔ c.IsSound project strict := by
  have hbehind : ∀ n, (∀ c', (c.under scope).behind? project n = some c' →
        ∃ ports, c'.diagram.connectionPorts = .ok ports) ↔
      ∀ c', c.behind? project n = some c' → ∃ ports, c'.diagram.connectionPorts = .ok ports := by
    intro n
    rw [behind?_under]
    cases c.behind? project n with
    | none => simp
    | some c' =>
      simp only [Option.map_some, Option.some.injEq, forall_eq']
      rfl
  have hreads : ∀ n, (c.under scope).Reads project strict n ↔ c.Reads project strict n := by
    intro n
    constructor
    · intro h
      exact ⟨h.kind, (hbehind n).1 h.exposed⟩
    · intro h
      exact ⟨h.kind, (hbehind n).2 h.exposed⟩
  exact forall_congr' fun n => imp_congr_right fun _ => hreads n

/-- A copy can be flattened under a scope exactly when it can be flattened under none and its ids
    are free behind the scope. -/
theorem flattenAt_under {taken : List String} {flat : Flat K} :
    (c.under scope).flattenAt project strict taken = .ok flat ↔
      ∃ base, c.flattenAt project strict [] = .ok base ∧ (∀ id ∈ base.ids, scope ++ id ∉ taken) ∧
        flat = base.under scope := by
  have hsound : (∀ d ∈ (c.under scope).descendants project, d.IsSound project strict) ↔
      ∀ d ∈ c.descendants project, d.IsSound project strict := by
    rw [descendants_under, List.forall_mem_map]
    exact forall_congr' fun d => imp_congr_right fun _ => isSound_under
  simp only [flattenAt_eq_ok, unfold_under, hsound, nodes_under, fresh_under]
  constructor
  · intro h
    obtain ⟨rfl, hsound, hnodup, hfree⟩ := h
    exact ⟨_, ⟨rfl, hsound, hnodup, fun _ _ => List.not_mem_nil⟩, hfree, rfl⟩
  · intro h
    obtain ⟨_, ⟨rfl, hsound, hnodup, -⟩, hfree, rfl⟩ := h
    exact ⟨rfl, hsound, hnodup, hfree⟩

end Copy

/-! ### Copies of one diagram -/

variable [Add K] [Div K] [One K] [Scalar K] {project : Project K} {strict : Bool}
  {stack : List String} {d : Diagram K}

theorem inline_eq_flattenAt (scope : String) (taken : List String) :
    (inline project strict stack d scope taken).result =
      ((⟨d, "", stack⟩ : Copy K).under scope).flattenAt project strict taken := by
  show _ = (inline project strict stack d (scope ++ "") taken).result
  rw [String.append_empty]

/-- Beside what is flattened already, a diagram can be flattened under a scope exactly when it can
    be flattened under none and beside nothing, and no id is taken once the scope is put in front.
    What is there stays, and behind it come the nodes and links of that flattening, in order, with
    the scope in front of all ids.  So two copies of a diagram with the same diagrams on the way
    down differ in their scopes only. -/
theorem inline_under_scope (scope : String) (done : Flat K) :
    (∀ whole, (inline project strict stack d scope done.ids).result.map (done ++ ·) = .ok whole ↔
      ∃ base, (inline project strict stack d "" []).result = .ok base ∧
        (∀ id ∈ base.ids, scope ++ id ∉ done.ids) ∧ whole = done ++ base.under scope) ∧
    ∀ scope' taken taken' copy copy', (inline project strict stack d scope taken).result = .ok copy →
      (inline project strict stack d scope' taken').result = .ok copy' →
        ∃ base, (inline project strict stack d "" []).result = .ok base ∧
          copy = base.under scope ∧ copy' = base.under scope' := by
  have hbase : (inline project strict stack d "" []).result =
      (⟨d, "", stack⟩ : Copy K).flattenAt project strict [] := rfl
  rw [hbase]
  refine ⟨fun whole => ?_, fun scope' taken taken' copy copy' hcopy hcopy' => ?_⟩
  · rw [map_eq_ok]
    simp only [inline_eq_flattenAt, Copy.flattenAt_under]
    constructor
    · intro h
      obtain ⟨_, ⟨base, hflat, hfree, rfl⟩, rfl⟩ := h
      exact ⟨base, hflat, hfree, rfl⟩
    · intro h
      obtain ⟨base, hflat, hfree, rfl⟩ := h
      exact ⟨_, ⟨base, hflat, hfree, rfl⟩, rfl⟩
  · rw [inline_eq_flattenAt, Copy.flattenAt_under] at hcopy hcopy'
    obtain ⟨base, hflat, -, rfl⟩ := hcopy
    obtain ⟨base', hflat', -, rfl⟩ := hcopy'
    -- both copies come from the one flattening under no scope
    obtain rfl : base = base' := Except.ok.inj (hflat.symm.trans hflat')
    exact ⟨base, hflat, rfl, rfl⟩

/-- The cell can be put behind a second reference, beside its copy behind the first one. -/
theorem inline_under_scope_cell :
    ∃ (done : Flat ℚ) (copy base : Flat ℚ), done.ids = ["q", "q.p"] ∧
      (inline .ofCell true ["cell", "around"] .cell "r." done.ids).result = .ok copy ∧
      copy = base.under "r." ∧ base.ids = ["p"] := by
  let done : Flat ℚ :=
    ⟨[(PlacedNode.reference "q" "cell").flat "", (PlacedNode.source "p" true).flat "q."], []⟩
  have hids : (inline .ofCell true ["cell", "around"] .cell "r." done.ids).result.map Flat.ids =
      .ok ["r.p"] := by
    decide +kernel
  have hids' : (inline .ofCell true ["cell", "around"] .cell "" []).result.map Flat.ids =
      .ok ["p"] := by
    decide +kernel
  obtain ⟨copy, hcopy, -⟩ := map_eq_ok.1 hids
  obtain ⟨base', hbase', hp⟩ := map_eq_ok.1 hids'
  obtain ⟨base, hbase, hunder, -⟩ :=
    (inline_under_scope "r." done).2 "r." done.ids done.ids copy copy hcopy hcopy
  obtain rfl : base = base' := Except.ok.inj (hbase.symm.trans hbase')
  exact ⟨done, copy, base, rfl, hcopy, hunder, hp⟩

end NetBalance
