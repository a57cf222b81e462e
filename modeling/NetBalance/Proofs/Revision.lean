import NetBalance.Proofs.Places

/-! # Revised projects

    A revision changes each diagram on its own and keeps its id.  One that
    also keeps the nodes that count leads through the same copies.  As long as
    the connection ports of what is entered stay, flattening then fails alike
    or lists the same nodes, whatever happens to the edges. -/

namespace NetBalance

variable {K : Type}

/-- What is found is what is inlined. -/
theorem Copy.behind?_of_resolve {p : Project K} {strict : Bool} {id : String} {c : Copy K}
    {n : PlacedNode K} {kind : Kind} {t : Target p c.stack} (hkind : n.kind = .ok kind)
    (h : (resolve p strict c.stack id (kind.referencedDiagram n.payload)).result = .ok (some t)) :
    c.behind? p n = some (c.inner n t.val) := by
  rw [Copy.behind?, PlacedNode.target?, hkind]
  show (p.enterable? c.stack _).map _ = _
  rw [← (resolve_result.1 h).2]
  rfl

/-! ### Lists of blocks -/

/-- Where the blocks of two lists carry distinct tags, the lists differ only if two blocks do. -/
theorem flatMap_inj_of_tags {α β κ : Type} [DecidableEq κ] {tag : α → κ} {k : β → κ}
    {f g : α → List β} {xs : List α} (htags : (xs.map tag).Nodup)
    (hf : ∀ x, ∀ b ∈ f x, k b = tag x) (hg : ∀ x, ∀ b ∈ g x, k b = tag x)
    (h : xs.flatMap f = xs.flatMap g) : ∀ x ∈ xs, f x = g x := by
  induction xs with
  | nil =>
    intro x hx
    cases hx
  | cons x rest ih =>
    rw [List.map_cons, List.nodup_cons] at htags
    rw [List.flatMap_cons, List.flatMap_cons] at h
    -- the entries with the tag of `x` are those of its own block
    have hblock : ∀ {h : α → List β}, (∀ y, ∀ b ∈ h y, k b = tag y) →
        (h x ++ rest.flatMap h).filter (fun b => k b = tag x) = h x := by
      intro h hk
      rw [List.filter_append, List.filter_eq_self.2, List.filter_eq_nil_iff.2, List.append_nil]
      · intro b hb
        obtain ⟨y, hy, hb⟩ := List.mem_flatMap.1 hb
        rw [hk y b hb, decide_eq_true_eq]
        exact fun heq => htags.1 (heq ▸ List.mem_map_of_mem hy)
      · intro b hb
        exact decide_eq_true (hk x b hb)
    have hx : f x = g x := by rw [← hblock hf, h, hblock hg]
    rw [hx] at h
    have hrest := ih htags.2 (List.append_cancel_left h)
    exact List.forall_mem_cons.2 ⟨hx, hrest⟩

/-! ### Revisions -/

/-- A change of diagrams that keeps their ids. -/
structure Revision (K : Type) where
  apply : Diagram K → Diagram K
  id_apply : ∀ d, (apply d).id = d.id

namespace Revision

variable (φ : Revision K)

/-- The project with all its diagrams revised. -/
def project (p : Project K) : Project K where
  diagrams := p.diagrams.map φ.apply
  nodup := by
    have hids : (p.diagrams.map φ.apply).map (·.id) = p.diagrams.map (·.id) := by
      rw [List.map_map]
      exact List.map_congr_left fun d _ => φ.id_apply d
    rw [hids]
    exact p.nodup

/-- The copy of the revised diagram at the same place. -/
def copy (c : Copy K) : Copy K := ⟨φ.apply c.diagram, c.scope, c.stack⟩

theorem root_apply (d : Diagram K) : (φ.apply d).root = φ.copy d.root := by
  rw [Diagram.root, φ.id_apply]
  rfl

/-- The revised target. -/
def target {p : Project K} {stack : List String} (t : Target p stack) :
    Target (φ.project p) stack :=
  ⟨φ.apply t.val, List.mem_map_of_mem t.property.1, (φ.id_apply t.val).symm ▸ t.property.2⟩

variable {φ} {p : Project K} {stack : List String} {strict : Bool}

theorem get?_project {id : String} : (φ.project p).get? id = (p.get? id).map φ.apply := by
  rw [Project.get?, project, List.find?_map, Project.get?]
  congr 2
  funext d
  rw [Function.comp_apply, φ.id_apply]

/-- A value leads to the revised diagram where it led to the diagram. -/
theorem enterable?_project {v : Value K} :
    (φ.project p).enterable? stack v = (p.enterable? stack v).map φ.target := by
  cases v with
  | text name =>
    -- ids stay, so the same diagrams are on the way down
    cases h : p.enterable? stack (.text name) with
    | none =>
      rw [Project.enterable?_text_eq_none] at h
      refine Project.enterable?_text_eq_none.2 fun t ht => ?_
      rw [get?_project] at ht
      obtain ⟨d, hd, rfl⟩ := Option.map_eq_some_iff.1 ht
      exact φ.id_apply d ▸ h d hd
    | some t =>
      refine Project.enterable?_text.2 ?_
      rw [get?_project, Project.enterable?_text.1 h]
      rfl
  | null => rfl
  | bool b => rfl
  | int n => rfl
  | real x => rfl
  | list entries => rfl
  | object fields => rfl

/-- Finding a diagram in the revised project tells the same and fails alike, or finds the revised
    diagram. -/
theorem map_resolve_project {id : String} {v : Value K} :
    resolve (φ.project p) strict stack id v =
      Option.map φ.target <$> resolve p strict stack id v := by
  cases v with
  | text name =>
    have hget : (φ.project p).get? name = (p.get? name).map φ.apply := get?_project
    cases hd : p.get? name with
    | none =>
      rw [hd, Option.map_none] at hget
      rw [resolve_text_of_none hget, resolve_text_of_none hd]
      rfl
    | some d =>
      rw [hd, Option.map_some] at hget
      by_cases hs : d.id ∈ stack
      · rw [resolve_text_of_mem hget (φ.id_apply d ▸ hs), resolve_text_of_mem hd hs]
        cases strict <;> rfl
      · rw [resolve_text_of_notMem hget (φ.id_apply d ▸ hs), resolve_text_of_notMem hd hs]
        rfl
  | null => rfl
  | bool b => rfl
  | int n => rfl
  | real x => rfl
  | list entries => rfl
  | object fields => rfl

theorem resolve_project {id : String} {v : Value K} :
    (resolve (φ.project p) strict stack id v).result =
      (resolve p strict stack id v).result.map (Option.map φ.target) := by
  rw [map_resolve_project, Logged.map_result]

theorem inner_copy {c : Copy K} {n : PlacedNode K} {t : Diagram K} :
    (φ.copy c).inner n (φ.apply t) = φ.copy (c.inner n t) := by
  rw [Copy.inner, φ.id_apply]
  rfl

theorem behind?_copy {c : Copy K} {n : PlacedNode K} :
    (φ.copy c).behind? (φ.project p) n = (c.behind? p n).map φ.copy := by
  have htarget : n.target? (φ.project p) c.stack = (n.target? p c.stack).map φ.target := by
    rw [PlacedNode.target?, PlacedNode.target?]
    cases n.kind with
    | error e => rfl
    | ok kind => exact enterable?_project
  rw [Copy.behind?, Copy.behind?]
  show (n.target? (φ.project p) c.stack).map _ = _
  rw [htarget]
  cases n.target? p c.stack with
  | none => rfl
  | some t => exact congrArg some inner_copy

/-! ### Revisions that keep the nodes that count -/

/-- The nodes that count stay. -/
def KeepsNodes (φ : Revision K) : Prop := ∀ d, (φ.apply d).firsts = d.firsts

theorem node?_apply (hφ : φ.KeepsNodes) (d : Diagram K) (id : String) :
    (φ.apply d).node? id = d.node? id := by
  rw [← Diagram.find?_firsts, ← Diagram.find?_firsts, hφ]

theorem terminal_apply (hφ : φ.KeepsNodes) (d : Diagram K) (id : String) :
    (φ.apply d).terminal id = d.terminal id := by
  rw [Diagram.terminal, Diagram.terminal, node?_apply hφ]

theorem port_copy (hφ : φ.KeepsNodes) (c : Copy K) (id : String) :
    (φ.copy c).port id = c.port id := by
  rw [Copy.port, Copy.port]
  congr 1
  exact terminal_apply hφ c.diagram id

theorem descendants_copy (hφ : φ.KeepsNodes) (c : Copy K) :
    (φ.copy c).descendants (φ.project p) = (c.descendants p).map φ.copy := by
  induction c using Copy.induction p with
  | step c ih =>
    -- behind each node stands the revised copy, whose copies are revised by induction
    have hbelow : ∀ n, (φ.copy c).below (φ.project p) n = (c.below p n).map φ.copy := by
      intro n
      rw [Copy.below, Copy.below, behind?_copy]
      cases hb : c.behind? p n with
      | none => rfl
      | some c' => exact ih n c' hb
    rw [Copy.descendants_eq, Copy.descendants_eq, List.map_append, List.map_flatMap]
    congr 1
    show (φ.apply c.diagram).firsts.flatMap _ = _
    rw [hφ]
    congr 1
    funext n
    exact hbelow n

theorem placements_copy (hφ : φ.KeepsNodes) (c : Copy K) :
    (φ.copy c).placements (φ.project p) = (c.placements p).map fun x => (φ.copy x.1, x.2) := by
  rw [Copy.placements, Copy.placements, descendants_copy hφ, List.flatMap_map, List.map_flatMap]
  refine List.flatMap_congr fun d _ => ?_
  show (φ.apply d.diagram).firsts.map _ = _
  rw [hφ, List.map_map]
  rfl

theorem nodes_copy (hφ : φ.KeepsNodes) (c : Copy K) :
    (φ.copy c).nodes (φ.project p) = c.nodes p := by
  induction c using Copy.induction p with
  | step c ih =>
    rw [Copy.nodes_eq, Copy.nodes_eq]
    show (φ.apply c.diagram).firsts.flatMap _ = _
    rw [hφ]
    congr 1
    funext n
    rw [Copy.branch, Copy.branch, behind?_copy]
    cases hb : c.behind? p n with
    | none => rfl
    | some c' =>
      rw [Option.map_some, Option.elim_some, Option.elim_some, ih n c' hb]
      rfl

/-! ### Flattening a revised project -/

variable [Add K] [Div K] [One K] [Scalar K]

/-- The connection ports of a diagram fail to be read alike before and after the revision. -/
def PortsFailAlike (φ : Revision K) (d : Diagram K) : Prop :=
  (φ.apply d).connectionPorts.map (fun _ => ()) = d.connectionPorts.map fun _ => ()

instance {d : Diagram K} : Decidable (φ.PortsFailAlike d) := inferInstanceAs (Decidable (_ = _))

/-- A node that leads nowhere, or to a copy that is flattened alike, is flattened alike. -/
theorem nodes_step_copy {c : Copy K} {n : PlacedNode K}
    (hports : ∀ c', c.behind? p n = some c' → φ.PortsFailAlike c'.diagram)
    (hnodes : ∀ c', c.behind? p n = some c' → ∀ taken,
      ((φ.copy c').flattenAt (φ.project p) strict taken).map (·.nodes) =
        (c'.flattenAt p strict taken).map (·.nodes)) (taken : List String) :
    ((φ.copy c).step (φ.project p) strict taken n).map (·.1.nodes) =
      (c.step p strict taken n).map (·.1.nodes) := by
  rw [Copy.nodes_step, Copy.nodes_step]
  show (if c.scope ++ n.id ∈ taken then
    Except.error (NetworkError.idTaken n.id (φ.apply c.diagram).id (c.scope ++ n.id)) else _) = _
  rw [φ.id_apply]
  -- both projects go through the same checks, and the first that fails is the same
  by_cases hid : c.scope ++ n.id ∈ taken
  · rw [if_pos hid, if_pos hid]
  rw [if_neg hid, if_neg hid]
  cases hkind : n.kind with
  | error e => rfl
  | ok kind =>
    simp only [ok_bind]
    cases (kind.declaredPorts n.payload).mapError NetworkError.value with
    | error e => rfl
    | ok ports =>
      simp only [ok_bind]
      show (resolve (φ.project p) strict c.stack (c.scope ++ n.id) _).result >>= _ = _
      rw [resolve_project]
      cases hres : (resolve p strict c.stack (c.scope ++ n.id)
        (kind.referencedDiagram n.payload)).result with
      | error e => rfl
      | ok found =>
        cases found with
        | none => rfl
        | some t =>
          -- the copy is made and the ports of its diagram are read, in both projects
          have hb := Copy.behind?_of_resolve hkind hres
          show (((φ.copy c).inner n (φ.apply t.val)).flattenAt (φ.project p) strict _ >>=
            fun copy => (φ.apply t.val).connectionPorts >>= fun _ => _) = _
          rw [inner_copy]
          refine bind_congr_of_map (hnodes _ hb _) fun copy copy' hcopy => ?_
          refine bind_congr_of_map (hports _ hb) fun _ _ _ => ?_
          show pure (n.flat c.scope :: copy.nodes) = pure (n.flat c.scope :: copy'.nodes)
          rw [hcopy]

omit [Add K] [Div K] [One K] [Scalar K] in
/-- The links that a level adds do not change what nodes there are. -/
theorem nodes_map_links (x : Except NetworkError (Flat K × List Slot))
    (links : List Slot → List Link) :
    (x.map fun (flat, slots) => (⟨flat.nodes, flat.links ++ links slots⟩ : Flat K)).map (·.nodes) =
      x.map (·.1.nodes) := by
  cases x <;> rfl

/-- Flattening fails alike in the revised project, or lists the same nodes. -/
theorem nodes_flattenAt_copy (hφ : φ.KeepsNodes) {c : Copy K}
    (h : ∀ d ∈ c.descendants p, ∀ d', d.Enters p d' → φ.PortsFailAlike d'.diagram)
    (taken : List String) :
    ((φ.copy c).flattenAt (φ.project p) strict taken).map (·.nodes) =
      (c.flattenAt p strict taken).map (·.nodes) := by
  induction c using Copy.induction p generalizing taken with
  | step c ih =>
    rw [Copy.flattenAt_eq, Copy.flattenAt_eq, nodes_map_links _ (levelLinks _ · _),
      nodes_map_links _ (levelLinks _ · _)]
    show (inlineAll _ taken (φ.apply c.diagram).firsts).map _ = _
    rw [hφ]
    refine nodes_inlineAll_congr (fun n hn => ?_) taken
    have hbelow : ∀ c', c.behind? p n = some c' →
        ∀ d ∈ c'.descendants p, ∀ d', d.Enters p d' → φ.PortsFailAlike d'.diagram := by
      intro c' hc' d hd
      exact h d (Copy.mem_descendants_iff.2 (Or.inr ⟨c', ⟨n, hn, hc'⟩, hd⟩))
    refine nodes_step_copy (fun c' hc' => ?_) fun c' hc' => ih n c' hc' (hbelow c' hc')
    exact h c (Copy.mem_descendants_iff.2 (Or.inl rfl)) c' ⟨n, hn, hc'⟩

/-- Flattening raises an error after the revision exactly when it raises it before. -/
theorem flatten_eq_error (hφ : φ.KeepsNodes) {d : Diagram K}
    (h : ∀ c ∈ d.root.descendants p, ∀ c', c.Enters p c' → φ.PortsFailAlike c'.diagram)
    {e : NetworkError} :
    ((φ.apply d).flatten (φ.project p) strict).result = .error e ↔
      (d.flatten p strict).result = .error e := by
  have hnodes : ((φ.copy d.root).flattenAt (φ.project p) strict []).map (·.nodes) =
      (d.root.flattenAt p strict []).map (·.nodes) := nodes_flattenAt_copy hφ h []
  rw [Diagram.flatten_result, Diagram.flatten_result, root_apply, ← map_eq_error (f := Flat.nodes),
    hnodes, map_eq_error]

/-! ### Building in a revised project -/

/-- A node offers its ports as before, unless what it stands for exposes others. -/
theorem slot_copy (hφ : φ.KeepsNodes) {c : Copy K} {n : PlacedNode K}
    (h : ∀ c', c.behind? p n = some c' →
      (φ.apply c'.diagram).exposedIds = c'.diagram.exposedIds) :
    (φ.copy c).slot (φ.project p) n = c.slot p n := by
  cases hb : c.behind? p n with
  | none =>
    have hb' : (φ.copy c).behind? (φ.project p) n = none := by
      rw [behind?_copy, hb, Option.map_none]
    rw [Copy.slot_of_none hb, Copy.slot_of_none hb']
  | some c' =>
    have hb' : (φ.copy c).behind? (φ.project p) n = some (φ.copy c') := by
      rw [behind?_copy, hb, Option.map_some]
    rw [Copy.slot_of_some hb, Copy.slot_of_some hb']
    show (⟨n.id, (φ.apply c'.diagram).exposedIds, (φ.apply c'.diagram).exposedIds.map _⟩ : Slot) = _
    simp only [h c' hb, port_copy hφ]

/-- The links behind a node stay, as long as edges touch the same of its ports. -/
theorem boundary_copy (hφ : φ.KeepsNodes) {c : Copy K} {n : PlacedNode K}
    (h : (φ.copy c).wired (φ.project p) n = c.wired p n) :
    (φ.copy c).boundary (φ.project p) n = c.boundary p n := by
  rw [Copy.boundary, Copy.boundary, behind?_copy, h]
  cases c.behind? p n with
  | none => rfl
  | some c' =>
    simp only [Option.map_some, Option.elim_some, port_copy hφ]
    rfl

/-- The links of the revised project, copy by copy. -/
theorem links_unfold_copy (hφ : φ.KeepsNodes) (c : Copy K) :
    ((φ.copy c).unfold (φ.project p)).links =
      (c.descendants p).flatMap fun d => (φ.copy d).links (φ.project p) := by
  rw [Copy.unfold, descendants_copy hφ, List.flatMap_map]

/-! ### Revisions that keep the edges -/

/-- The edges stay. -/
def KeepsEdges (φ : Revision K) : Prop := ∀ d, (φ.apply d).edges = d.edges

/-- An end of an accepted edge is declared, too, in a copy where edges touch the same ports of the
    same references. -/
theorem declares_of_wired {p' : Project K} {c c' : Copy K} {e : Edge} {stop : String × String}
    (hnode : c'.diagram.node? stop.1 = c.diagram.node? stop.1)
    (hbehind : ∀ n, c.behind? p n = none → c'.behind? p' n = none)
    (hwired : ∀ n ∈ c.diagram.firsts, c'.wired p' n = c.wired p n)
    (he : e ∈ c.accepted p) (hstop : stop ∈ e.ends)
    (hdeclares : c.Declares p stop) : c'.Declares p' stop := by
  obtain ⟨n, hn, hport⟩ := hdeclares
  refine ⟨n, hnode.trans hn, ?_⟩
  rw [Copy.portsOf] at hport
  cases hb : c.behind? p n with
  | none =>
    rw [hb] at hport
    rwa [Copy.portsOf, hbehind n hb]
  | some t =>
    rw [hb] at hport
    -- the edge makes the port a wired one, and wired ports are connection ports
    have hid : stop.2 ∈ c'.wired p' n := by
      rw [hwired n (Diagram.mem_firsts_of_node? hn), Copy.mem_wired hb, Diagram.id_of_node? hn]
      exact ⟨hport, e, he, hstop⟩
    obtain ⟨t', hb'⟩ := Copy.exists_of_mem_wired hid
    rw [Copy.portsOf, hb']
    exact ((Copy.mem_wired hb').1 hid).1

/-- Edges touch the same ports of the references of a copy as before, in the same order. -/
def KeepsWiring (φ : Revision K) (p : Project K) (c : Copy K) : Prop :=
  ∀ n ∈ c.diagram.firsts, (φ.copy c).wired (φ.project p) n = c.wired p n

instance {c : Copy K} : Decidable (φ.KeepsWiring p c) :=
  inferInstanceAs (Decidable (∀ n ∈ c.diagram.firsts, _))

/-- If edges touch the same ports of references, the same edges are accepted. -/
theorem accepted_copy (hφ : φ.KeepsNodes) (hedges : φ.KeepsEdges) {c : Copy K}
    (hwired : φ.KeepsWiring p c) : (φ.copy c).accepted (φ.project p) = c.accepted p := by
  -- the nodes stay, and so does whether anything stands behind them
  have hnode : ∀ id, (φ.copy c).diagram.node? id = c.diagram.node? id := node?_apply hφ c.diagram
  have hbehind : ∀ n, (φ.copy c).behind? (φ.project p) n = none ↔ c.behind? p n = none := by
    intro n
    rw [behind?_copy, Option.map_eq_none_iff]
  have hwired' : ∀ n ∈ (φ.copy c).diagram.firsts,
      c.wired p n = (φ.copy c).wired (φ.project p) n := fun n hn =>
    (hwired n (hφ c.diagram ▸ hn)).symm
  rw [Copy.accepted, Copy.accepted]
  show (φ.apply c.diagram).edges.filter _ = _
  rw [hedges]
  refine List.filter_congr fun e he => ?_
  rw [Bool.eq_iff_iff, Copy.isUsable_iff, Copy.isUsable_iff]
  constructor
  · intro h
    obtain ⟨hs, ht⟩ := h
    have hmem : e ∈ (φ.copy c).accepted (φ.project p) :=
      Copy.mem_accepted.2 ⟨(hedges c.diagram).symm ▸ he, hs, ht⟩
    have hback : ∀ stop ∈ e.ends, (φ.copy c).Declares (φ.project p) stop → c.Declares p stop :=
      fun _ hstop => declares_of_wired (hnode _).symm (fun n => (hbehind n).1) hwired' hmem hstop
    exact ⟨hback _ List.mem_cons_self hs, hback _ (List.mem_cons_of_mem _ List.mem_cons_self) ht⟩
  · intro h
    obtain ⟨hs, ht⟩ := h
    have hmem : e ∈ c.accepted p := Copy.mem_accepted.2 ⟨he, hs, ht⟩
    have hforth : ∀ stop ∈ e.ends, c.Declares p stop → (φ.copy c).Declares (φ.project p) stop :=
      fun _ hstop => declares_of_wired (hnode _) (fun n => (hbehind n).2) hwired hmem hstop
    exact ⟨hforth _ List.mem_cons_self hs, hforth _ (List.mem_cons_of_mem _ List.mem_cons_self) ht⟩

/-- Where just the wiring is kept, so are the links. -/
theorem links_copy (hφ : φ.KeepsNodes) (hedges : φ.KeepsEdges) {c : Copy K}
    (hwired : φ.KeepsWiring p c) : (φ.copy c).links (φ.project p) = c.links p := by
  rw [Copy.links_eq, Copy.links_eq, accepted_copy hφ hedges hwired]
  show _ ++ (φ.apply c.diagram).firsts.flatMap _ = _
  rw [hφ]
  exact congrArg _ (List.flatMap_congr fun n hn => boundary_copy hφ (hwired n hn))

/-- A revision that keeps nodes and edges keeps the unfolding as long as the same ports of
    references are wired. -/
theorem unfold_copy_iff (hφ : φ.KeepsNodes) (hedges : φ.KeepsEdges) {c : Copy K}
    (hnodup : ((c.nodes p).map (·.id)).Nodup) :
    (φ.copy c).unfold (φ.project p) = c.unfold p ↔
      ∀ d ∈ c.descendants p, φ.KeepsWiring p d := by
  constructor
  · intro h d hd n hn
    -- each wired port leaves a link, at the flattened id of its node
    have hlinks := congrArg (fun f : Flat K => f.links.filter fun l => l.kind = .boundary) h
    simp only [Copy.filter_boundary_unfold, placements_copy hφ, List.flatMap_map] at hlinks
    have hnode : ∀ x : Copy K × PlacedNode K, ∀ l ∈ x.1.boundary p x.2,
        l.first.node = x.1.scope ++ x.2.id := fun x l hl => Copy.node_of_mem_boundary hl
    have hnode' : ∀ x : Copy K × PlacedNode K, ∀ l ∈ (φ.copy x.1).boundary (φ.project p) x.2,
        l.first.node = x.1.scope ++ x.2.id := fun x l hl =>
      Copy.node_of_mem_boundary (c := φ.copy x.1) hl
    have hboundary := flatMap_inj_of_tags (Copy.nodup_ids_placements hnodup) hnode' hnode hlinks
      (d, n) (Copy.mem_placements.2 ⟨hd, hn⟩)
    have hnames := congrArg (List.map fun l : Link => l.first.name) hboundary
    rw [Copy.names_boundary, Copy.names_boundary] at hnames
    exact List.map_injective_iff.2 (fun _ _ h => Option.some.inj h) hnames
  · intro h
    have hlinks : ((φ.copy c).unfold (φ.project p)).links = (c.unfold p).links := by
      rw [links_unfold_copy hφ]
      exact List.flatMap_congr fun d hd => links_copy hφ hedges (h d hd)
    exact congrArg₂ Flat.mk (nodes_copy hφ c) hlinks

variable [Zero K] {d : Diagram K} {default : K}

/-- What comes of building the revised diagram in the revised project. -/
def build (φ : Revision K) (d : Diagram K) (p : Project K) (strict : Bool) (default : K) :
    Except NetworkError (Network K) :=
  ((φ.apply d).build (φ.project p) strict default).result

end Revision

end NetBalance
