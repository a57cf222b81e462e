import NetBalance.Proofs.Rational
import NetBalance.Proofs.Seeds
import NetBalance.Proofs.Unfolding

/-! # Topologies over any history

    Ports are linked, terminals are folded and nets are allocated in any order,
    and any of these calls may fail.  What each call keeps: the graph links
    different ports of known nodes, and a node records a port once at most, and
    only if the port is in the graph.  So an allocation that goes through
    writes every entry there is, and none of an earlier one is left. -/

namespace NetBalance

variable {K : Type}

/-! ### Entries of a node -/

namespace FlatNode

variable {n m : FlatNode K} {name : PortName} {net start : Nat} {ms : List Port}
  {comps : List (List Port)}

/-- The ports for which a node records a net. -/
def recorded (n : FlatNode K) : List PortName := n.ports.map (·.1)

theorem mem_recorded_iff : name ∈ n.recorded ↔ ∃ i, n.net? name = some i := by
  rw [recorded, net?, ← Option.isSome_iff_exists, List.lookup_isSome_iff]
  simp only [List.mem_map, eq_comm (a := name), beq_iff_eq]

/-- A new port comes to the end; a port that is there keeps its place. -/
theorem recorded_record : (n.record name net).recorded =
    if name ∈ n.recorded then n.recorded else n.recorded ++ [name] := by
  show (record.go name net n.ports).map (·.1) =
    if name ∈ n.ports.map (·.1) then n.ports.map (·.1) else n.ports.map (·.1) ++ [name]
  induction n.ports with
  | nil => simp [record.go]
  | cons entry rest ih =>
    obtain ⟨other, old⟩ := entry
    by_cases h : other = name
    · simp [record.go, h]
    · rw [record.go, if_neg h, List.map_cons, ih]
      simp only [List.map_cons, List.mem_cons, Ne.symm h, false_or]
      split <;> rfl

theorem nodup_recorded_record (h : n.recorded.Nodup) : (n.record name net).recorded.Nodup := by
  rw [recorded_record]
  by_cases hname : name ∈ n.recorded
  · rw [if_pos hname]
    exact h
  · rw [if_neg hname]
    have hdisj : List.Disjoint n.recorded [name] := by simpa using hname
    exact h.append (List.nodup_singleton name) hdisj

theorem nodup_recorded_recordAll (h : n.recorded.Nodup) : (n.recordAll net ms).recorded.Nodup := by
  induction ms generalizing n with
  | nil => exact h
  | cons p ms ih =>
    rw [recordAll, List.foldl_cons]
    by_cases hid : n.id = p.node
    · rw [if_pos hid]
      exact ih (nodup_recorded_record h)
    · rw [if_neg hid]
      exact ih h

theorem nodup_recorded_recordNets (h : n.recorded.Nodup) :
    (n.recordNets start comps).recorded.Nodup := by
  induction comps generalizing n start with
  | nil => exact h
  | cons ms rest ih => exact ih (nodup_recorded_recordAll h)

theorem mem_recorded_recordAll :
    name ∈ (n.recordAll net ms).recorded ↔ ⟨n.id, name⟩ ∈ ms ∨ name ∈ n.recorded := by
  rw [mem_recorded_iff, net?_recordAll, mem_recorded_iff]
  by_cases hm : (⟨n.id, name⟩ : Port) ∈ ms
  · simp [hm]
  · simp [hm]

theorem mem_recorded_recordNets :
    name ∈ (n.recordNets start comps).recorded ↔
      ⟨n.id, name⟩ ∈ comps.flatten ∨ name ∈ n.recorded := by
  induction comps generalizing n start with
  | nil => simp [recordNets]
  | cons ms rest ih =>
    rw [recordNets, ih, mem_recorded_recordAll, id_recordAll, List.flatten_cons, List.mem_append]
    exact or_left_comm.trans or_assoc.symm

/-- Which ports come to be recorded, and in which order, does not depend on numbers. -/
theorem recorded_recordAll_congr {k : Nat} (hid : n.id = m.id) (h : n.recorded = m.recorded) :
    (n.recordAll net ms).recorded = (m.recordAll k ms).recorded := by
  induction ms generalizing n m with
  | nil => exact h
  | cons p ms ih =>
    rw [recordAll, recordAll, List.foldl_cons, List.foldl_cons, hid]
    by_cases hp : m.id = p.node
    · rw [if_pos hp, if_pos hp]
      have hrecord : (n.record p.name net).recorded = (m.record p.name k).recorded := by
        rw [recorded_record, recorded_record, h]
      exact ih hid hrecord
    · rw [if_neg hp, if_neg hp]
      exact ih hid h

theorem recorded_recordNets_congr (hid : n.id = m.id) (h : n.recorded = m.recorded) :
    (n.recordNets start comps).recorded = (m.recordNets start comps).recorded := by
  induction comps generalizing n m start with
  | nil => exact h
  | cons ms rest ih =>
    have hids : (n.recordAll start ms).id = (m.recordAll start ms).id := by
      rw [id_recordAll, id_recordAll, hid]
    exact ih hids (recorded_recordAll_congr hid h)

/-- Nodes that are alike but for their entries are the same as soon as they record the same ports
    with the same nets. -/
theorem ext_recorded (hbare : n.bare = m.bare) (hnodup : n.recorded.Nodup)
    (hrecorded : n.recorded = m.recorded) (hnet : ∀ name ∈ n.recorded, n.net? name = m.net? name) :
    n = m := by
  -- an entry is a recorded port with what looking it up finds
  have hports : ∀ k : FlatNode K, k.recorded.Nodup →
      k.ports.map some = k.recorded.map fun name => (k.net? name).map (name, ·) := by
    intro k hk
    rw [recorded, List.map_map]
    refine List.map_congr_left fun e he => ?_
    have hlookup : k.net? e.1 = some e.2 := (lookup_eq_some_iff hk).2 he
    simp [hlookup]
  have hsame : n.ports.map some = m.ports.map some := by
    rw [hports n hnodup, hports m (hrecorded ▸ hnodup), ← hrecorded]
    exact List.map_congr_left fun name hname => by rw [hnet name hname]
  have hentries : n.ports = m.ports :=
    List.map_injective_iff.2 (fun _ _ => Option.some.inj) hsame
  cases n
  cases m
  simp only [bare, mk.injEq] at hbare hentries ⊢
  exact ⟨hbare.1, hbare.2.1, hbare.2.2.1, hbare.2.2.2.1, hbare.2.2.2.2.1, hentries⟩

/-- Where every port with an entry is among those of the nets, the entries tell the nets. -/
theorem mem_ports_recordNets (hcomps : comps.flatten.Nodup) (hnodup : n.recorded.Nodup)
    (hlisted : ∀ name ∈ n.recorded, ⟨n.id, name⟩ ∈ comps.flatten) {i : Nat} :
    (name, i) ∈ (n.recordNets 0 comps).ports ↔
      ∃ ms, comps[i]? = some ms ∧ ⟨n.id, name⟩ ∈ ms := by
  have honce : (n.recordNets 0 comps).recorded.Nodup := nodup_recorded_recordNets hnodup
  rw [← lookup_eq_some_iff honce, ← net?, net?_recordNets hcomps]
  constructor
  · intro h
    rcases h with ⟨j, ms, rfl, hj, hp⟩ | ⟨hno, hold⟩
    · exact ⟨ms, by rwa [Nat.zero_add], hp⟩
    -- an entry from before would be that of a port that no net lists
    · exact absurd (hlisted name (mem_recorded_iff.2 ⟨i, hold⟩)) hno
  · intro h
    obtain ⟨ms, hi, hp⟩ := h
    exact Or.inl ⟨i, ms, (Nat.zero_add i).symm, hi, hp⟩

/-- Recording the nets of all ports that have an entry leaves nothing of the old numbers. -/
theorem recordNets_congr (hcomps : comps.flatten.Nodup) (hbare : n.bare = m.bare)
    (hnodup : n.recorded.Nodup) (hrecorded : n.recorded = m.recorded)
    (hlisted : ∀ name ∈ n.recorded, ⟨n.id, name⟩ ∈ comps.flatten) :
    n.recordNets start comps = m.recordNets start comps := by
  have hid : n.id = m.id := by
    rw [← id_bare, hbare, id_bare]
  refine ext_recorded ?_ (nodup_recorded_recordNets hnodup)
    (recorded_recordNets_congr hid hrecorded) ?_
  · rw [bare_recordNets, bare_recordNets, hbare]
  · intro name hname
    have hport : ⟨n.id, name⟩ ∈ comps.flatten := by
      rcases mem_recorded_recordNets.1 hname with hport | hname
      · exact hport
      · exact hlisted name hname
    rw [hid] at hport
    -- only what the components say counts for a port that they list
    refine Option.ext fun i => ?_
    rw [net?_recordNets hcomps, net?_recordNets hcomps, hid]
    simp only [hport, not_true_eq_false, false_and]

/-- The node with another number for each net that it records. -/
def renumber (f : Nat → Nat) (n : FlatNode K) : FlatNode K :=
  { n with ports := n.ports.map fun e => (e.1, f e.2) }

theorem recorded_renumber (f : Nat → Nat) : (n.renumber f).recorded = n.recorded := by
  rw [recorded, renumber, List.map_map]
  rfl

end FlatNode

namespace PortGraph

variable {g : PortGraph} {a b : Port} {kind : LinkKind} {ms : List Port}

/-! ### Links of one kind -/

/-- Joining adjacent ports again under the kind of their link changes nothing. -/
theorem join_eq_self (hadj : g.Adjacent a b) (hkind : ∀ l ∈ g.links, l.joins a b → l.kind = kind) :
    g.join a b kind = g := by
  have hsame : ∀ l ∈ g.links, (if l.joins a b then { l with kind } else l) = l := by
    intro l hl
    by_cases h : l.joins a b
    · rw [if_pos h, ← hkind l hl h]
    · rw [if_neg h]
  rw [join, if_pos (any_joins_iff.2 hadj), List.map_congr_left hsame, List.map_id']

/-- A link after joining two ports has the kind that they are joined under, or it was there before
    and joins others. -/
theorem mem_links_join {l : Link} (h : l ∈ (g.join a b kind).links) :
    l.kind = kind ∨ l ∈ g.links ∧ ¬ l.joins a b := by
  by_cases hadj : g.links.any (·.joins a b)
  · rw [join, if_pos hadj] at h
    obtain ⟨k, hk, rfl⟩ := List.mem_map.1 h
    by_cases hjoins : k.joins a b
    · rw [if_pos hjoins]
      exact Or.inl rfl
    · rw [if_neg hjoins]
      exact Or.inr ⟨hk, hjoins⟩
  · rw [join, if_neg hadj] at h
    rcases List.mem_append.1 h with h | h
    · refine Or.inr ⟨h, ?_⟩
      intro hjoins
      exact hadj (List.any_eq_true.2 ⟨l, h, hjoins⟩)
    · rw [List.mem_singleton.1 h]
      exact Or.inl rfl

end PortGraph

/-! ### Calls -/

namespace Topology

/-- A call to a topology. -/
inductive Call (K : Type) where
  | connect (a b : Port) (kind : LinkKind)
  | foldAliases
  | buildNets (default : K)

/-! ### The graph -/

section Graph

variable {t : Topology K} {a b p q : Port} {kind : LinkKind} {g : PortGraph}

theorem mem_ids_of_isSome {id : String} (h : (t.node? id).isSome) : id ∈ t.nodes.map (·.id) := by
  obtain ⟨n, hn⟩ := Option.isSome_iff_exists.1 h
  exact List.mem_map.2 ⟨n, List.mem_of_find?_eq_some hn, key_of_find? hn⟩

theorem terminal_ne (n : FlatNode K) : n.terminal "a" ≠ n.terminal "b" := by
  simp [FlatNode.terminal]

/-- The ports that a call puts into the graph, in order, those that are there already among them. -/
def mentioned (t : Topology K) : Call K → List Port
  | .connect a b _ =>
    if (t.node? a.node).isSome ∧ (t.node? b.node).isSome ∧ a ≠ b then [a, b] else []
  | .foldAliases =>
    (t.nodes.filter fun n => Touched t.graph n).flatMap fun n => [n.terminal "a", n.terminal "b"]
  | .buildNets _ => []

/-- A call mentions ports of known nodes only. -/
theorem known_of_mem_mentioned {call : Call K} (h : p ∈ t.mentioned call) :
    p.node ∈ t.nodes.map (·.id) := by
  cases call with
  | connect a b kind =>
    rw [mentioned] at h
    split at h
    · next hab =>
      obtain ⟨ha, hb, -⟩ := hab
      rcases List.mem_cons.1 h with rfl | h
      · exact mem_ids_of_isSome ha
      · exact List.mem_singleton.1 h ▸ mem_ids_of_isSome hb
    · exact absurd h List.not_mem_nil
  | foldAliases =>
    obtain ⟨n, hn, hp⟩ := List.mem_flatMap.1 h
    have hmem : n.id ∈ t.nodes.map (·.id) := List.mem_map_of_mem (List.mem_filter.1 hn).1
    rcases List.mem_cons.1 hp with rfl | hp
    · exact hmem
    · rw [List.mem_singleton.1 hp]
      exact hmem
  | buildNets default => exact absurd h List.not_mem_nil

/-- A link is made between the ports of known nodes, and of no others. -/
theorem connect_cases (t : Topology K) (a b : Port) (kind : LinkKind) :
    ((t.node? a.node = none ∨ t.node? b.node = none) ∧ (t.connect a b kind).1 = t ∧
        ∃ e, (t.connect a b kind).2.result = .error e) ∨
      ((t.node? a.node).isSome ∧ (t.node? b.node).isSome ∧
        (t.connect a b kind).1 = { t with graph := t.graph.joinLinks [⟨a, b, kind⟩] } ∧
        (t.connect a b kind).2.result = .ok ()) := by
  cases ha : t.node? a.node with
  | none =>
    have hconnect : t.connect a b kind = (t, .fail (.unknownNode a.node)) := by simp [connect, ha]
    rw [hconnect]
    exact Or.inl ⟨Or.inl rfl, rfl, .unknownNode a.node, rfl⟩
  | some n =>
    cases hb : t.node? b.node with
    | none =>
      have hconnect : t.connect a b kind = (t, .fail (.unknownNode b.node)) := by
        simp [connect, ha, hb]
      rw [hconnect]
      exact Or.inl ⟨Or.inr rfl, rfl, .unknownNode b.node, rfl⟩
    | some m =>
      refine Or.inr ⟨rfl, rfl, ?_⟩
      exact connect_known (l := ⟨a, b, kind⟩) (by simp [ha]) (by simp [hb])

theorem exists_connect_error_iff :
    (∃ e, (t.connect a b kind).2.result = .error e) ↔
      t.node? a.node = none ∨ t.node? b.node = none := by
  rcases t.connect_cases a b kind with ⟨hunknown, -, herror⟩ | ⟨ha, hb, -, hok⟩
  · exact iff_of_true herror hunknown
  · refine iff_of_false ?_ ?_
    · rintro ⟨e, he⟩
      exact absurd (hok.symm.trans he) (by simp)
    · rintro (h | h)
      · exact absurd ha (by simp [h])
      · exact absurd hb (by simp [h])

/-- Folding one node does not change which others are touched. -/
theorem touched_aliasNode_iff {n : FlatNode K} (m : FlatNode K) :
    Touched (aliasNode g n) m ↔ Touched g m :=
  and_congr_right fun _ => touched_aliasNode

theorem touched_foldl_aliasNode {nodes : List (FlatNode K)} (m : FlatNode K) :
    Touched (nodes.foldl aliasNode g) m ↔ Touched g m := by
  induction nodes generalizing g with
  | nil => rfl
  | cons n nodes ih => rw [List.foldl_cons, ih, touched_aliasNode_iff]

/-- Folding puts in the terminals of the sources that are touched, node by node. -/
theorem ports_foldl_aliasNode (nodes : List (FlatNode K)) :
    (nodes.foldl aliasNode g).ports = distinct (g.ports ++
      (nodes.filter fun n => Touched g n).flatMap fun n => [n.terminal "a", n.terminal "b"]) := by
  induction nodes generalizing g with
  | nil =>
    rw [List.filter_nil, List.flatMap_nil, List.append_nil]
    exact (distinct_distinct _).symm
  | cons n nodes ih =>
    have hsame : (nodes.filter fun m => Touched (aliasNode g n) m) =
        nodes.filter fun m => Touched g m :=
      List.filter_congr fun m _ => decide_eq_decide.2 (touched_aliasNode_iff m)
    rw [List.foldl_cons, ih, hsame, aliasNode_eq]
    by_cases h : Touched g n
    · rw [if_pos h, List.filter_cons_of_pos (by simpa using h), List.flatMap_cons,
        ← List.append_assoc]
      refine distinct_append_congr ?_ _
      rw [PortGraph.ports_join, distinct_distinct]
    · rw [if_neg h, List.filter_cons_of_neg (by simpa using h)]

/-- Every link between the two ports is an alias. -/
def Aliased (g : PortGraph) (a b : Port) : Prop := ∀ l ∈ g.links, l.joins a b → l.kind = .alias

theorem Aliased.step (h : Aliased g a b) (n : FlatNode K) : Aliased (aliasNode g n) a b := by
  intro l hl hjoins
  rw [aliasNode_eq] at hl
  by_cases hn : Touched g n
  · rw [if_pos hn] at hl
    rcases PortGraph.mem_links_join hl with hkind | ⟨hl, -⟩
    · exact hkind
    · exact h l hl hjoins
  · rw [if_neg hn] at hl
    exact h l hl hjoins

theorem Aliased.foldl (h : Aliased g a b) (nodes : List (FlatNode K)) :
    Aliased (nodes.foldl aliasNode g) a b := by
  induction nodes generalizing g with
  | nil => exact h
  | cons n nodes ih => exact ih (h.step n)

/-- A source that is touched has its terminals folded into an alias. -/
theorem aliased_foldl_aliasNode {nodes : List (FlatNode K)} {n : FlatNode K} (hn : n ∈ nodes)
    (h : Touched g n) : Aliased (nodes.foldl aliasNode g) (n.terminal "a") (n.terminal "b") := by
  induction nodes generalizing g with
  | nil => exact absurd hn List.not_mem_nil
  | cons m nodes ih =>
    rcases List.mem_cons.1 hn with rfl | hn
    · -- the node is folded at once, and its link keeps its kind
      have hnow : Aliased (aliasNode g n) (n.terminal "a") (n.terminal "b") := by
        intro l hl hjoins
        rw [aliasNode_eq, if_pos h] at hl
        rcases PortGraph.mem_links_join hl with hkind | ⟨-, hno⟩
        · exact hkind
        · exact absurd hjoins hno
      exact hnow.foldl nodes
    · exact ih hn ((touched_aliasNode_iff n).2 h)

/-- Folding a second time changes nothing. -/
theorem foldAliases_foldAliases (t : Topology K) : t.foldAliases.foldAliases = t.foldAliases := by
  have hfixed : ∀ n ∈ t.nodes, aliasNode t.foldAliases.graph n = t.foldAliases.graph := by
    intro n hn
    rw [aliasNode_eq]
    by_cases h : Touched t.foldAliases.graph n
    · rw [if_pos h]
      have hbefore : Touched t.graph n := (touched_foldl_aliasNode n).1 h
      have hadj : t.foldAliases.graph.Adjacent (n.terminal "a") (n.terminal "b") :=
        adjacent_foldAliases.2 (Or.inr ⟨n, hn, hbefore, Or.inl ⟨rfl, rfl⟩⟩)
      exact PortGraph.join_eq_self hadj (aliased_foldl_aliasNode hn hbefore)
    · rw [if_neg h]
  have hfold : ∀ (nodes : List (FlatNode K)) (g : PortGraph), (∀ n ∈ nodes, aliasNode g n = g) →
      nodes.foldl aliasNode g = g := by
    intro nodes g hg
    induction nodes with
    | nil => rfl
    | cons n nodes ih =>
      rw [List.foldl_cons, hg n List.mem_cons_self]
      exact ih fun m hm => hg m (List.mem_cons_of_mem n hm)
  have hgraph : t.nodes.foldl aliasNode t.foldAliases.graph = t.foldAliases.graph :=
    hfold t.nodes _ hfixed
  show ({ t with graph := t.nodes.foldl aliasNode t.foldAliases.graph } : Topology K) = _
  rw [hgraph]
  rfl

/-- After folding the two terminals of a source are both out of the graph, or joined. -/
theorem terminals_foldAliases {t : Topology K} {n : FlatNode K} (hn : n ∈ t.nodes)
    (hkind : n.kind = .source) :
    n.terminal "a" ∉ t.foldAliases.graph.ports ∧ n.terminal "b" ∉ t.foldAliases.graph.ports ∨
      t.foldAliases.graph.Adjacent (n.terminal "a") (n.terminal "b") := by
  by_cases h : Touched t.graph n
  · exact Or.inr (adjacent_foldAliases.2 (Or.inr ⟨n, hn, h, Or.inl ⟨rfl, rfl⟩⟩))
  · have hafter : ¬ Touched t.foldAliases.graph n := mt (touched_foldl_aliasNode n).1 h
    rw [Touched, and_iff_right hkind, not_or] at hafter
    exact Or.inl hafter

end Graph

/-! ### What every call keeps -/

/-- The graph links different ports of known nodes, and what a node records, it records once and
    for ports of the graph. -/
structure IsOrderly (t : Topology K) : Prop where
  nodup : (t.nodes.map (·.id)).Nodup
  known : ∀ p ∈ t.graph.ports, p.node ∈ t.nodes.map (·.id)
  loopless : ∀ p, ¬ t.graph.Adjacent p p
  once : ∀ n ∈ t.nodes, n.recorded.Nodup
  listed : ∀ n ∈ t.nodes, ∀ name ∈ n.recorded, ⟨n.id, name⟩ ∈ t.graph.ports

/-- A port that is recorded is in the graph, and so in a component. -/
theorem IsOrderly.mem_flatten_of_recorded {t : Topology K} (ht : t.IsOrderly)
    {n : FlatNode K} (hn : n ∈ t.nodes) :
    ∀ name ∈ n.recorded, ⟨n.id, name⟩ ∈ t.graph.components.flatten := by
  intro name hname
  rw [t.graph.perm_flatten_components.mem_iff]
  exact ht.listed n hn name hname

section Fresh

variable {nodes : List (FlatNode K)}

/-- Placing a node keeps ids distinct and brings in no other node. -/
theorem nodup_place (placed : List (FlatNode K)) (n : FlatNode K) (h : (placed.map (·.id)).Nodup) :
    ((ofNodes.place placed n).map (·.id)).Nodup ∧
      ∀ m ∈ ofNodes.place placed n, m = n ∨ m ∈ placed := by
  rw [ofNodes.place]
  by_cases hid : placed.any (·.id = n.id)
  · rw [if_pos hid, List.map_map]
    have hids : placed.map ((·.id) ∘ fun m => if m.id = n.id then n else m) =
        placed.map (·.id) := by
      refine List.map_congr_left fun m _ => ?_
      rw [Function.comp_apply]
      split
      · next hm => exact hm.symm
      · rfl
    refine ⟨hids ▸ h, ?_⟩
    intro m hm
    obtain ⟨k, hk, rfl⟩ := List.mem_map.1 hm
    split
    · exact Or.inl rfl
    · exact Or.inr hk
  · rw [if_neg hid, List.map_append, List.map_singleton]
    have hnew : n.id ∉ placed.map (·.id) := by
      intro hmem
      obtain ⟨m, hm, hmid⟩ := List.mem_map.1 hmem
      exact hid (List.any_eq_true.2 ⟨m, hm, by simpa using hmid⟩)
    refine ⟨h.append (List.nodup_singleton _) (by simpa using hnew), ?_⟩
    intro m hm
    rcases List.mem_append.1 hm with hm | hm
    · exact Or.inr hm
    · exact Or.inl (List.mem_singleton.1 hm)

theorem nodup_ofNodes (nodes : List (FlatNode K)) :
    ((ofNodes nodes).nodes.map (·.id)).Nodup ∧ ∀ m ∈ (ofNodes nodes).nodes, m ∈ nodes := by
  induction nodes using List.reverseRecOn with
  | nil => exact ⟨List.nodup_nil, fun m hm => hm⟩
  | append_singleton nodes n ih =>
    have hplace : (ofNodes (nodes ++ [n])).nodes = ofNodes.place (ofNodes nodes).nodes n := by
      simp [ofNodes]
    obtain ⟨hnodup, hmem⟩ := nodup_place (ofNodes nodes).nodes n ih.1
    rw [hplace]
    refine ⟨hnodup, fun m hm => List.mem_append.2 ?_⟩
    rcases hmem m hm with rfl | hm
    · exact Or.inr List.mem_cons_self
    · exact Or.inl (ih.2 m hm)

theorem isOrderly_ofNodes (hfresh : ∀ n ∈ nodes, n.ports = []) : (ofNodes nodes).IsOrderly := by
  obtain ⟨hnodup, hmem⟩ := nodup_ofNodes nodes
  have hnone : ∀ n ∈ (ofNodes nodes).nodes, n.recorded = [] := by
    intro n hn
    rw [FlatNode.recorded, hfresh n (hmem n hn), List.map_nil]
  refine ⟨hnodup, fun p hp => absurd hp List.not_mem_nil, ?_, ?_, ?_⟩
  · rintro p ⟨l, hl, -⟩
    exact absurd hl List.not_mem_nil
  · intro n hn
    rw [hnone n hn]
    exact List.nodup_nil
  · intro n hn name hname
    rw [hnone n hn] at hname
    exact absurd hname List.not_mem_nil

end Fresh

variable [Add K] [Div K] [Zero K] [One K] [Scalar K]

/-! ### One call -/

/-- The topology after a call, whether it fails or not: an allocation that fails midway leaves what
    it has recorded. -/
def after (t : Topology K) : Call K → Topology K
  | .connect a b kind => (t.connect a b kind).1
  | .foldAliases => t.foldAliases
  | .buildNets default => (t.buildNets default).1

section Step

variable {t : Topology K} {call : Call K} {a b p : Port} {kind : LinkKind} {default : K}
  {nets : List (Net K)} {comps : List (List Port)}

/-- A link that fails has changed nothing. -/
theorem after_connect_of_error (h : ∃ e, (t.connect a b kind).2.result = .error e) :
    t.after (.connect a b kind) = t := by
  obtain ⟨e, he⟩ := h
  rcases t.connect_cases a b kind with ⟨-, hsame, -⟩ | ⟨-, -, -, hok⟩
  · exact hsame
  · exact absurd (hok.symm.trans he) (by simp)

/-- An allocation records the components up to where it fails, and changes nothing else. -/
theorem exists_allocate (t : Topology K) (default : K) (nets : List (Net K))
    (comps : List (List Port)) :
    ∃ done, done <+: comps ∧ (allocate default nets comps t).1 =
      { t with nodes := t.nodes.map fun n => n.recordNets nets.length done } := by
  induction comps generalizing nets t with
  | nil => exact ⟨[], List.prefix_rfl, by simp [allocate, FlatNode.recordNets]⟩
  | cons ms rest ih =>
    rw [allocate]
    cases hseed : t.seed ms default with
    | error e => exact ⟨[], List.nil_prefix, by simp [FlatNode.recordNets]⟩
    | ok value =>
      obtain ⟨done, hdone, hrest⟩ := ih (t.recordNet nets.length ms) (nets ++ [⟨value, ms⟩])
      refine ⟨ms :: done, List.cons_prefix_cons.2 ⟨rfl, hdone⟩, ?_⟩
      simp only [hrest, nodes_recordNet, List.map_map, List.length_append, List.length_singleton]
      rfl

theorem exists_buildNets (t : Topology K) (default : K) :
    ∃ done, done <+: t.graph.components ∧ (t.buildNets default).1 =
      { t with nodes := t.nodes.map fun n => n.recordNets 0 done } :=
  exists_allocate t default [] t.graph.components

/-- The ports of the graph are those from before, in their order, and behind them the new ones in
    the order in which the call mentions them. -/
theorem ports_after (t : Topology K) (call : Call K) :
    (t.after call).graph.ports = distinct (t.graph.ports ++ t.mentioned call) := by
  have hsame : t.graph.ports = distinct (t.graph.ports ++ []) := by
    rw [List.append_nil]
    exact (distinct_distinct _).symm
  cases call with
  | connect a b kind =>
    rcases t.connect_cases a b kind with ⟨hunknown, hsame', -⟩ | ⟨ha, hb, hjoined, -⟩
    · have hno : ¬ ((t.node? a.node).isSome ∧ (t.node? b.node).isSome ∧ a ≠ b) := by
        rintro ⟨ha, hb, -⟩
        rcases hunknown with h | h
        · exact absurd ha (by simp [h])
        · exact absurd hb (by simp [h])
      rw [after, hsame', mentioned, if_neg hno]
      exact hsame
    · simp only [after, hjoined, mentioned, ha, hb, true_and, PortGraph.joinLinks, List.foldl_cons,
        List.foldl_nil]
      by_cases hab : a = b
      · rw [if_pos hab, if_neg (not_not.2 hab)]
        exact hsame
      · rw [if_neg hab, if_pos hab, PortGraph.ports_join]
  | foldAliases => exact ports_foldl_aliasNode t.nodes
  | buildNets default =>
    obtain ⟨done, -, hdone⟩ := t.exists_buildNets default
    rw [after, hdone]
    exact hsame

theorem mem_ports_after :
    p ∈ (t.after call).graph.ports ↔ p ∈ t.graph.ports ∨ p ∈ t.mentioned call := by
  rw [ports_after, mem_distinct, List.mem_append]

/-- A call keeps the nodes but for what they record. -/
theorem bare_after (t : Topology K) (call : Call K) :
    (t.after call).nodes.map FlatNode.bare = t.nodes.map FlatNode.bare := by
  cases call with
  | connect a b kind =>
    rcases t.connect_cases a b kind with ⟨-, hsame, -⟩ | ⟨-, -, hjoined, -⟩
    · rw [after, hsame]
    · rw [after, hjoined]
  | foldAliases => rfl
  | buildNets default =>
    obtain ⟨done, -, hdone⟩ := t.exists_buildNets default
    rw [after, hdone, List.map_map]
    exact List.map_congr_left fun n _ => FlatNode.bare_recordNets

theorem ids_after (t : Topology K) (call : Call K) :
    (t.after call).nodes.map (·.id) = t.nodes.map (·.id) := by
  have hids : ∀ ns : List (FlatNode K), ns.map (·.id) = (ns.map FlatNode.bare).map (·.id) := by
    intro ns
    rw [List.map_map]
    rfl
  rw [hids, bare_after, ← hids]

/-- No call links a port to itself. -/
theorem not_adjacent_self_after (h : ¬ t.graph.Adjacent p p) :
    ¬ (t.after call).graph.Adjacent p p := by
  cases call with
  | connect a b kind =>
    rcases t.connect_cases a b kind with ⟨-, hsame, -⟩ | ⟨-, -, hjoined, -⟩
    · rw [after, hsame]
      exact h
    · rw [after, hjoined, PortGraph.adjacent_joinLinks, not_or]
      refine ⟨h, ?_⟩
      rintro ⟨l, hl, hne, hjoins⟩
      exact hne ((Link.first_eq_second_iff hjoins).2 rfl)
  | foldAliases =>
    rw [after, adjacent_foldAliases, not_or]
    refine ⟨h, ?_⟩
    rintro ⟨n, -, -, ⟨ha, hb⟩ | ⟨hb, ha⟩⟩
    · exact terminal_ne n (ha.symm.trans hb)
    · exact terminal_ne n (ha.symm.trans hb)
  | buildNets default =>
    obtain ⟨done, -, hdone⟩ := t.exists_buildNets default
    rw [after, hdone]
    exact h

end Step

/-! ### Calls in a row -/

/-- The topology after calls in a row. -/
def run (t : Topology K) (calls : List (Call K)) : Topology K := calls.foldl after t

/-- The ports that calls in a row put into the graph, call by call. -/
def inserted (t : Topology K) : List (Call K) → List Port
  | [] => []
  | call :: calls => t.mentioned call ++ (t.after call).inserted calls

section Run

variable {t : Topology K}

/-- What a node records after a call it recorded before, or the allocation recorded a port of the
    graph. -/
theorem exists_of_mem_after {call : Call K} {n : FlatNode K} (hn : n ∈ (t.after call).nodes) :
    ∃ m ∈ t.nodes, m.id = n.id ∧ (m.recorded.Nodup → n.recorded.Nodup) ∧
      ∀ name ∈ n.recorded, name ∈ m.recorded ∨ ⟨n.id, name⟩ ∈ t.graph.ports := by
  have hold : n ∈ t.nodes → ∃ m ∈ t.nodes, m.id = n.id ∧ (m.recorded.Nodup → n.recorded.Nodup) ∧
      ∀ name ∈ n.recorded, name ∈ m.recorded ∨ ⟨n.id, name⟩ ∈ t.graph.ports := fun hn =>
    ⟨n, hn, rfl, id, fun name hname => Or.inl hname⟩
  cases call with
  | connect a b kind =>
    rcases t.connect_cases a b kind with ⟨-, hsame, -⟩ | ⟨-, -, hjoined, -⟩
    · rw [Topology.after, hsame] at hn
      exact hold hn
    · rw [Topology.after, hjoined] at hn
      exact hold hn
  | foldAliases => exact hold hn
  | buildNets default =>
    obtain ⟨done, hdone, hafter⟩ := t.exists_buildNets default
    rw [after, hafter] at hn
    obtain ⟨m, hm, rfl⟩ := List.mem_map.1 hn
    refine ⟨m, hm, FlatNode.id_recordNets.symm, FlatNode.nodup_recorded_recordNets, ?_⟩
    intro name hname
    rcases FlatNode.mem_recorded_recordNets.1 hname with hport | hname
    · obtain ⟨ms, hms, hport⟩ := List.mem_flatten.1 hport
      rw [FlatNode.id_recordNets]
      exact Or.inr (PortGraph.mem_ports_of_mem_component (hdone.subset hms) hport)
    · exact Or.inl hname

theorem IsOrderly.after (h : t.IsOrderly) (call : Call K) : (t.after call).IsOrderly where
  nodup := by
    rw [ids_after]
    exact h.nodup
  known := by
    intro p hp
    rw [ids_after]
    rcases mem_ports_after.1 hp with hp | hp
    · exact h.known p hp
    · exact known_of_mem_mentioned hp
  loopless := fun p => not_adjacent_self_after (h.loopless p)
  once := by
    intro n hn
    obtain ⟨m, hm, -, hnodup, -⟩ := exists_of_mem_after hn
    exact hnodup (h.once m hm)
  listed := by
    intro n hn name hname
    obtain ⟨m, hm, hid, -, hrecorded⟩ := exists_of_mem_after hn
    rw [mem_ports_after]
    rcases hrecorded name hname with hname | hport
    · exact Or.inl (hid ▸ h.listed m hm name hname)
    · exact Or.inl hport

theorem IsOrderly.run (h : t.IsOrderly) (calls : List (Call K)) : (t.run calls).IsOrderly := by
  induction calls generalizing t with
  | nil => exact h
  | cons call calls ih => exact ih (h.after call)

/-- The ports of the graph stand in the order in which calls first mention them. -/
theorem ports_run (t : Topology K) (calls : List (Call K)) :
    (t.run calls).graph.ports = distinct (t.graph.ports ++ t.inserted calls) := by
  induction calls generalizing t with
  | nil =>
    rw [inserted, List.append_nil]
    exact (distinct_distinct _).symm
  | cons call calls ih =>
    rw [inserted, ← List.append_assoc]
    refine (ih (t.after call)).trans (distinct_append_congr ?_ _)
    rw [ports_after, distinct_distinct]

end Run

/-! ### Nets -/

/-- The nets are the components of the graph, each with its members in the order of the ports, and
    numbered in the order of their first members.  The nodes record for the ports of the graph the
    numbers of their nets, and nothing else. -/
structure Allocates (t : Topology K) (nets : List (Net K)) : Prop where
  component : ∀ net ∈ nets, net.members ≠ [] ∧
    ∀ p ∈ net.members, ∀ q, q ∈ net.members ↔ t.graph.Joined p q
  covered : (nets.flatMap (·.members)).Perm t.graph.ports
  ordered : ∀ net ∈ nets, net.members.Sublist t.graph.ports
  numbered : (nets.filterMap (·.members.head?)).Sublist t.graph.ports
  entry : ∀ n ∈ t.nodes, ∀ name i, (name, i) ∈ n.ports ↔
    ∃ net, nets[i]? = some net ∧ ⟨n.id, name⟩ ∈ net.members
  recorded : ∀ n ∈ t.nodes, ∀ name, name ∈ n.recorded ↔ ⟨n.id, name⟩ ∈ t.graph.ports

/-- Give every recorded net another number. -/
def renumber (f : Nat → Nat) (t : Topology K) : Topology K :=
  { t with nodes := t.nodes.map (FlatNode.renumber f) }

section Build

variable {t t' : Topology K} {default : K} {nets : List (Net K)}

/-- Making the nets of a topology is making its network. -/
theorem network_eq_map (t : Topology K) (default : K) :
    t.network default = (t.buildNets default).2.result.map fun nets =>
      ⟨(t.buildNets default).1.nodes, nets⟩ := by
  simp only [buildNets, network]
  cases (allocate default [] t.graph.components t).2 <;> rfl

theorem network_of_buildNets (h : (t.buildNets default).2.result = .ok nets) :
    t.network default = .ok ⟨(t.buildNets default).1.nodes, nets⟩ := by
  rw [network_eq_map, h]
  rfl

/-- An allocation that goes through records all components. -/
theorem buildNets_of_ok (h : (t.buildNets default).2.result = .ok nets) :
    (t.buildNets default).1 =
      { t with nodes := t.nodes.map fun n => n.recordNets 0 t.graph.components } := by
  obtain ⟨done, -, hdone⟩ := t.exists_buildNets default
  have hnodes : (t.buildNets default).1.nodes =
      t.nodes.map fun n => n.recordNets 0 t.graph.components :=
    nodes_network (network_of_buildNets h)
  rw [hdone] at hnodes ⊢
  exact congrArg (fun ns => ({ t with nodes := ns } : Topology K)) hnodes

/-- Where only ports of the graph are recorded, an allocation that goes through writes every
    entry. -/
theorem IsOrderly.allocates (ht : t.IsOrderly) (h : (t.buildNets default).2.result = .ok nets) :
    (t.buildNets default).1.Allocates nets := by
  have hnet := network_of_buildNets h
  have hmembers : nets.map (·.members) = t.graph.components := members_network hnet
  have hcomponent : ∀ net ∈ nets, net.members ∈ t.graph.components := fun net hmem =>
    hmembers ▸ List.mem_map_of_mem hmem
  rw [buildNets_of_ok h]
  refine ⟨?_, ?_, ?_, ?_, ?_, ?_⟩
  · intro net hmem
    refine ⟨PortGraph.ne_nil_of_mem_components (hcomponent net hmem), ?_⟩
    exact fun p hp q => PortGraph.mem_component_iff_joined (hcomponent net hmem) hp
  · show (nets.flatMap (·.members)).Perm t.graph.ports
    rw [List.flatMap_def, hmembers]
    exact t.graph.perm_flatten_components
  · exact fun net hmem => PortGraph.sublist_of_mem_components (hcomponent net hmem)
  · have hheads : nets.filterMap (·.members.head?) = t.graph.components.filterMap List.head? := by
      rw [← hmembers, List.filterMap_map]
      rfl
    rw [hheads]
    exact t.graph.sublist_heads_components
  · intro m hm name i
    obtain ⟨n, hn, rfl⟩ := List.mem_map.1 hm
    rw [FlatNode.mem_ports_recordNets t.graph.nodup_flatten_components (ht.once n hn)
      (ht.mem_flatten_of_recorded hn), FlatNode.id_recordNets]
    simp only [← getElem?_network hnet, exists_exists_and_eq_and]
  · intro m hm name
    obtain ⟨n, hn, rfl⟩ := List.mem_map.1 hm
    rw [FlatNode.mem_recorded_recordNets, FlatNode.id_recordNets,
      t.graph.perm_flatten_components.mem_iff]
    exact or_iff_left_of_imp (ht.listed n hn name)

/-! ### Numbers from before -/

omit [Add K] [Div K] in
theorem proposal_congr (h : t.nodes.map FlatNode.bare = t'.nodes.map FlatNode.bare) (p : Port) :
    t.proposal p = t'.proposal p := by
  have hbare : ∀ t : Topology K, (t.node? p.node).map FlatNode.bare =
      (t.nodes.map FlatNode.bare).find? (·.id = p.node) := by
    intro t
    rw [node?, List.find?_map]
    rfl
  have hnode : (t.node? p.node).map FlatNode.bare = (t'.node? p.node).map FlatNode.bare := by
    rw [hbare, hbare, h]
  -- kind and payload are there without the entries, too
  have hproposal : ∀ t : Topology K, t.proposal p =
      ((t.node? p.node).map FlatNode.bare).elim (.ok none) fun n =>
        (n.kind.initialValues n.payload).map fun values =>
          p.name.bind fun name => values.lookup name := by
    intro t
    rw [proposal]
    cases t.node? p.node <;> rfl
  rw [hproposal, hproposal, hnode]

/-- What an allocation records does not depend on the numbers from before. -/
theorem IsOrderly.buildNets_renumber (ht : t.IsOrderly) (f : Nat → Nat)
    (h : (t.buildNets default).2.result = .ok nets) :
    ((t.renumber f).buildNets default).1 = (t.buildNets default).1 := by
  have hbare : (t.renumber f).nodes.map FlatNode.bare = t.nodes.map FlatNode.bare := by
    rw [renumber, List.map_map]
    rfl
  have hseed : ∀ ms, (t.renumber f).seed ms default = t.seed ms default := by
    intro ms
    have hproposal : (t.renumber f).proposal = t.proposal := funext (proposal_congr hbare)
    rw [seed, seed, hproposal]
  have hgraph : (t.renumber f).graph = t.graph := rfl
  -- the seeds are there with any numbers
  obtain ⟨values, hvalues, -⟩ := network_eq_ok.1 (network_of_buildNets h)
  have hvalues' : t.graph.components.map ((t.renumber f).seed · default) = values.map .ok := by
    simp only [hseed, hvalues]
  have hmap := network_eq_map (t.renumber f) default
  rw [network_eq_ok.2 ⟨values, hvalues', rfl⟩] at hmap
  obtain ⟨nets', hok, -⟩ := map_eq_ok.1 hmap.symm
  rw [buildNets_of_ok hok, buildNets_of_ok h]
  have hnodes : (t.renumber f).nodes.map (fun n => n.recordNets 0 t.graph.components) =
      t.nodes.map fun n => n.recordNets 0 t.graph.components := by
    rw [renumber, List.map_map]
    refine List.map_congr_left fun n hn => ?_
    have hsame : n.recordNets 0 t.graph.components =
        (n.renumber f).recordNets 0 t.graph.components :=
      FlatNode.recordNets_congr t.graph.nodup_flatten_components rfl (ht.once n hn)
        (FlatNode.recorded_renumber f).symm (ht.mem_flatten_of_recorded hn)
    exact hsame.symm
  exact congrArg (fun ns => ({ t with nodes := ns } : Topology K)) hnodes

end Build

/-- Calls in any order, from nodes that record nothing: the graph links different ports of known
    nodes, in the order in which calls first mention them, and every port in it is linked.  A call
    to link that fails leaves everything as it is.  Folding a second time changes nothing, and
    after it the two terminals of a source are both out of the graph, or joined.  Nets that are
    allocated are the components of the graph, and the nodes record them and nothing of an earlier
    allocation. -/
theorem history_orderly {nodes : List (FlatNode K)} (hfresh : ∀ n ∈ nodes, n.ports = [])
    (calls : List (Call K)) {t : Topology K} (ht : (ofNodes nodes).run calls = t) :
    (t.graph.ports = distinct ((ofNodes nodes).inserted calls) ∧
      (∀ p ∈ t.graph.ports, p.node ∈ t.nodes.map (·.id)) ∧
      (∀ p, ¬ t.graph.Adjacent p p) ∧
      (∀ p ∈ t.graph.ports, ∃ q, q ≠ p ∧ t.graph.Adjacent p q) ∧
      ∀ p, t.isConnected p ↔ p ∈ t.graph.ports) ∧
    (∀ a b kind,
      ((∃ e, (t.connect a b kind).2.result = .error e) ↔
        t.node? a.node = none ∨ t.node? b.node = none) ∧
      ((∃ e, (t.connect a b kind).2.result = .error e) → t.after (.connect a b kind) = t)) ∧
    (t.foldAliases.foldAliases = t.foldAliases ∧
      ∀ n ∈ t.nodes, n.kind = .source →
        n.terminal "a" ∉ t.foldAliases.graph.ports ∧ n.terminal "b" ∉ t.foldAliases.graph.ports ∨
          t.foldAliases.graph.Adjacent (n.terminal "a") (n.terminal "b")) ∧
    ∀ default nets, (t.buildNets default).2.result = .ok nets →
      (t.buildNets default).1.graph = t.graph ∧ (t.buildNets default).1.Allocates nets ∧
        ∀ f, ((t.renumber f).buildNets default).1 = (t.buildNets default).1 := by
  have horderly : t.IsOrderly := ht ▸ (isOrderly_ofNodes hfresh).run calls
  refine ⟨⟨?_, horderly.known, horderly.loopless, ?_, ?_⟩, ?_, ⟨?_, ?_⟩, ?_⟩
  · rw [← ht, ports_run]
    rfl
  · intro p hp
    obtain ⟨q, hq⟩ := PortGraph.mem_ports_iff_adjacent.1 hp
    have hne : q ≠ p := by
      rintro rfl
      exact horderly.loopless q hq
    exact ⟨q, hne, hq⟩
  · exact fun p => PortGraph.isConnected_iff
  · exact fun a b kind => ⟨exists_connect_error_iff, after_connect_of_error⟩
  · exact foldAliases_foldAliases t
  · exact fun n hn hkind => terminals_foldAliases hn hkind
  · intro default nets hnets
    refine ⟨?_, horderly.allocates hnets, fun f => horderly.buildNets_renumber f hnets⟩
    rw [buildNets_of_ok hnets]

/-- Two sources without nets. -/
def twoSources : List (FlatNode ℚ) :=
  [(PlacedNode.source "s" false).flat "", (PlacedNode.source "t" false).flat ""]

/-- Link two sources and allocate, link one of them in vain to a third, and fold. -/
def linkTwoSources : List (Call ℚ) :=
  [.connect ⟨"s", some "b"⟩ ⟨"t", some "a"⟩ .edge, .buildNets 1,
    .connect ⟨"s", some "a"⟩ ⟨"u", some "a"⟩ .edge, .foldAliases]

/-- The terminals that were folded after a first allocation are in the net of the second. -/
theorem history_orderly_two_sources :
    ∃ nets, ((((ofNodes twoSources).run linkTwoSources).buildNets 1).1).Allocates nets ∧
      nets.map (·.members) =
        [[⟨"s", some "b"⟩, ⟨"t", some "a"⟩, ⟨"s", some "a"⟩, ⟨"t", some "b"⟩]] := by
  have hfresh : ∀ n ∈ twoSources, n.ports = [] := by
    intro n hn
    rcases List.mem_cons.1 hn with rfl | hn
    · rfl
    · rw [List.mem_singleton.1 hn]
      rfl
  have hmembers :
      (((ofNodes twoSources).run linkTwoSources).buildNets 1).2.result.map (·.map (·.members)) =
        .ok [[⟨"s", some "b"⟩, ⟨"t", some "a"⟩, ⟨"s", some "a"⟩, ⟨"t", some "b"⟩]] := by
    decide +kernel
  obtain ⟨nets, hnets, hlist⟩ := map_eq_ok.1 hmembers
  exact ⟨nets, ((history_orderly hfresh linkTwoSources rfl).2.2.2 1 nets hnets).2.1, hlist⟩

end Topology

end NetBalance
