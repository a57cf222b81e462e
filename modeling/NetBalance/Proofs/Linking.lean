import NetBalance.Network.Topology
import NetBalance.Proofs.Components

/-! # From links to a port graph

    Links are joined one after another, and at the end every source of which a
    terminal is connected has its two terminals joined.  What counts for the
    components is which ports are adjacent afterwards, and for their numbers
    the order in which ports are first mentioned. -/

namespace NetBalance

namespace PortGraph

variable {g : PortGraph} {p q a b : Port} {kind : LinkKind}

/-! ### Joining two ports -/

theorem any_joins_iff : (g.links.any fun l => l.joins a b) ↔ g.Adjacent a b := by
  simp only [List.any_eq_true, Adjacent]

/-- Joining two ports makes them adjacent and changes nothing else. -/
theorem adjacent_join :
    (g.join a b kind).Adjacent p q ↔ g.Adjacent p q ∨ (p = a ∧ q = b) ∨ (p = b ∧ q = a) := by
  unfold join
  split
  · next h =>
    -- a pair that is linked already only changes the kind of its link
    have hab : g.Adjacent a b := any_joins_iff.1 h
    have hkind : ∀ l : Link,
        (if l.joins a b then { l with kind } else l).joins p q = l.joins p q := by
      intro l
      split <;> rfl
    simp only [Adjacent, List.mem_map, exists_exists_and_eq_and, hkind]
    constructor
    · exact Or.inl
    · intro h
      rcases h with h | ⟨rfl, rfl⟩ | ⟨rfl, rfl⟩
      · exact h
      · exact hab
      · exact hab.symm
  · simp only [Adjacent, List.mem_append, List.mem_singleton, or_and_right, exists_or,
      exists_eq_left, Link.joins_iff]
    refine or_congr_right ?_
    constructor
    · intro h
      rcases h with ⟨rfl, rfl⟩ | ⟨rfl, rfl⟩
      · exact Or.inl ⟨rfl, rfl⟩
      · exact Or.inr ⟨rfl, rfl⟩
    · intro h
      rcases h with ⟨rfl, rfl⟩ | ⟨rfl, rfl⟩
      · exact Or.inl ⟨rfl, rfl⟩
      · exact Or.inr ⟨rfl, rfl⟩

theorem mem_ports_join : p ∈ (g.join a b kind).ports ↔ p ∈ g.ports ∨ p = a ∨ p = b := by
  simp only [mem_ports_iff_adjacent, adjacent_join, exists_or, exists_and_left, exists_eq, and_true]

/-- The ports of a graph in the order of their first mention, after two of them are joined. -/
theorem ports_join : (g.join a b kind).ports = distinct (g.ports ++ [a, b]) := by
  have hports : distinct (g.links.flatMap Link.ports ++ [a, b]) = distinct (g.ports ++ [a, b]) := by
    refine distinct_append_congr ?_ _
    rw [ports, distinct_distinct]
  unfold join
  split
  · next h =>
    have hab := any_joins_iff.1 h
    -- both ports are mentioned already, so they add nothing
    have hsub : [a, b] ⊆ g.ports := by
      intro p hp
      rcases List.mem_cons.1 hp with rfl | hp
      · exact hab.mem_ports
      · exact List.mem_singleton.1 hp ▸ hab.symm.mem_ports
    rw [distinct_append_of_subset hsub, ports, ports, distinct_distinct, List.flatMap_map]
    congr 2
    funext l
    simp only [Link.ports]
    split <;> rfl
  · rw [ports, List.flatMap_append, ← hports]
    rfl

/-- Join the ends of links, one after another.  A link from a port to itself joins nothing. -/
def joinLinks (g : PortGraph) (links : List Link) : PortGraph :=
  links.foldl (fun g l => if l.first = l.second then g else g.join l.first l.second l.kind) g

theorem joinLinks_cons (g : PortGraph) (l : Link) (links : List Link) :
    g.joinLinks (l :: links) =
      (if l.first = l.second then g else g.join l.first l.second l.kind).joinLinks links := rfl

/-- Links from a port to itself leave no trace. -/
theorem joinLinks_filter (g : PortGraph) (links : List Link) :
    g.joinLinks (links.filter fun l => l.first ≠ l.second) = g.joinLinks links := by
  induction links generalizing g with
  | nil => rfl
  | cons l links ih =>
    by_cases h : l.first = l.second
    · rw [List.filter_cons_of_neg (by simpa using h), joinLinks_cons, if_pos h, ih]
    · rw [List.filter_cons_of_pos (by simpa using h), joinLinks_cons, joinLinks_cons, if_neg h, ih]

theorem adjacent_joinLinks {links : List Link} :
    (g.joinLinks links).Adjacent p q ↔
      g.Adjacent p q ∨ ∃ l ∈ links, l.first ≠ l.second ∧ l.joins p q := by
  -- induction on the links, for any graph to begin with
  induction links generalizing g with
  | nil => simp [joinLinks]
  | cons l links ih =>
    rw [joinLinks_cons, ih, List.exists_mem_cons_iff, ← or_assoc]
    refine or_congr_left ?_
    split
    · next h => simp [h]
    · next h =>
      rw [adjacent_join, Link.joins_iff]
      refine or_congr_right ?_
      simp only [ne_eq, h, not_false_eq_true, true_and, eq_comm]
      exact or_congr_right and_comm

/-- The distinct keys of the ports, in the order in which links mention them. -/
theorem distinct_keys_joinLinks {β : Type} [DecidableEq β] (key : Port → β) (links : List Link) :
    distinct ((g.joinLinks links).ports.map key) =
      distinct (g.ports.map key ++
        (links.filter fun l => l.first ≠ l.second).flatMap fun l => l.ports.map key) := by
  induction links generalizing g with
  | nil => simp [joinLinks]
  | cons l links ih =>
    rw [joinLinks_cons, ih]
    by_cases h : l.first = l.second
    · rw [if_pos h, List.filter_cons_of_neg (by simpa using h)]
    · rw [if_neg h, List.filter_cons_of_pos (by simpa using h), List.flatMap_cons,
        ← List.append_assoc]
      refine distinct_append_congr ?_ _
      rw [ports_join, distinct_map_distinct, List.map_append]
      rfl

end PortGraph

namespace Topology

variable {K : Type} {p q : Port}

/-! ### Links between known nodes -/

/-- A link between nodes that are there joins its ends. -/
theorem connect_known {t : Topology K} {l : Link} (hf : (t.node? l.first.node).isSome)
    (hs : (t.node? l.second.node).isSome) :
    (t.connect l.first l.second l.kind).1 = { t with graph := t.graph.joinLinks [l] } ∧
      (t.connect l.first l.second l.kind).2.result = .ok () := by
  rw [connect, if_neg (by simpa [Option.isSome_iff_ne_none] using hf),
    if_neg (by simpa [Option.isSome_iff_ne_none] using hs)]
  by_cases h : l.first = l.second
  · simp [h, PortGraph.joinLinks]
  · simp [h, PortGraph.joinLinks]

theorem link_result (t : Topology K) (l : Link) :
    (t.link l).result = (t.connect l.first l.second l.kind).2.result.map fun _ =>
      (t.connect l.first l.second l.kind).1 := by
  rw [link, Logged.bind_result]
  cases (t.connect l.first l.second l.kind).2.result <;> rfl

theorem foldlM_link_result {links : List Link} {t : Topology K}
    (h : ∀ l ∈ links, (t.node? l.first.node).isSome ∧ (t.node? l.second.node).isSome) :
    (links.foldlM link t).result = .ok { t with graph := t.graph.joinLinks links } := by
  induction links generalizing t with
  | nil => rfl
  | cons l links ih =>
    obtain ⟨hf, hs⟩ := h l List.mem_cons_self
    obtain ⟨hafter, hlinked⟩ := connect_known hf hs
    have hlink : (t.link l).result = .ok { t with graph := t.graph.joinLinks [l] } := by
      rw [link_result, hlinked, hafter]
      rfl
    rw [List.foldlM_cons, Logged.bind_result, hlink, ok_bind]
    -- joining links leaves the nodes as they are
    exact ih fun l' hl' => h l' (List.mem_cons_of_mem l hl')

/-! ### Terminals that share a net -/

end Topology

/-- A terminal of a flattened source. -/
def FlatNode.terminal {K : Type} (n : FlatNode K) (name : String) : Port := ⟨n.id, some name⟩

namespace Topology

variable {K : Type} {g : PortGraph} {n : FlatNode K} {p q : Port}

/-- The node is a source with a connected terminal. -/
def Touched (g : PortGraph) (n : FlatNode K) : Prop :=
  n.kind = .source ∧ (n.terminal "a" ∈ g.ports ∨ n.terminal "b" ∈ g.ports)

instance : Decidable (Touched g n) := inferInstanceAs (Decidable (_ ∧ _))

theorem aliasNode_eq (g : PortGraph) (n : FlatNode K) :
    aliasNode g n =
      if Touched g n then g.join (n.terminal "a") (n.terminal "b") .alias else g := by
  cases hk : n.kind <;>
    simp [aliasNode, Kind.aliasPorts, hk, PortGraph.isConnected_iff, FlatNode.terminal, Touched]

/-- Folding the terminals of one node does not touch those of another. -/
theorem terminal_mem_ports_aliasNode {m : FlatNode K} {name : String} (hname : name ∈ ["a", "b"]) :
    m.terminal name ∈ (aliasNode g n).ports →
      m.terminal "a" ∈ g.ports ∨ m.terminal "b" ∈ g.ports := by
  intro h
  rw [aliasNode_eq] at h
  have hold : m.terminal name ∈ g.ports → m.terminal "a" ∈ g.ports ∨ m.terminal "b" ∈ g.ports := by
    intro h
    rcases List.mem_cons.1 hname with rfl | hname
    · exact Or.inl h
    · exact Or.inr (List.mem_singleton.1 hname ▸ h)
  split at h
  · next hn =>
    rcases PortGraph.mem_ports_join.1 h with h | h | h
    · exact hold h
    all_goals
      -- the port is a terminal of the folded node, of which one is connected already
      have hid : m.id = n.id := congrArg Port.node h
      have hterm : ∀ s, m.terminal s = n.terminal s := fun s => by
        rw [FlatNode.terminal, FlatNode.terminal, hid]
      rw [hterm, hterm]
      exact hn.2
  · exact hold h

theorem touched_aliasNode {m : FlatNode K} :
    m.terminal "a" ∈ (aliasNode g n).ports ∨ m.terminal "b" ∈ (aliasNode g n).ports ↔
      m.terminal "a" ∈ g.ports ∨ m.terminal "b" ∈ g.ports := by
  constructor
  · intro h
    rcases h with h | h
    · exact terminal_mem_ports_aliasNode (by simp) h
    · exact terminal_mem_ports_aliasNode (by simp) h
  -- folding a node never disconnects a port
  · have hmono : ∀ p, p ∈ g.ports → p ∈ (aliasNode g n).ports := by
      intro p hp
      rw [aliasNode_eq]
      split
      · exact PortGraph.mem_ports_join.2 (Or.inl hp)
      · exact hp
    exact Or.imp (hmono _) (hmono _)

theorem adjacent_foldl_aliasNode (nodes : List (FlatNode K)) :
    (nodes.foldl aliasNode g).Adjacent p q ↔ g.Adjacent p q ∨
      ∃ n ∈ nodes, Touched g n ∧
        (p = n.terminal "a" ∧ q = n.terminal "b" ∨ p = n.terminal "b" ∧ q = n.terminal "a") := by
  induction nodes generalizing g with
  | nil => simp
  | cons n nodes ih =>
    -- folding one node does not change which others are touched
    have hsame : ∀ m : FlatNode K, Touched (aliasNode g n) m ↔ Touched g m := fun m =>
      and_congr_right fun _ => touched_aliasNode
    simp only [List.foldl_cons, ih, hsame, List.exists_mem_cons_iff]
    rw [← or_assoc]
    refine or_congr_left ?_
    rw [aliasNode_eq]
    by_cases h : Touched g n
    · rw [if_pos h, PortGraph.adjacent_join]
      simp only [h, true_and]
    · rw [if_neg h]
      simp only [h, false_and, or_false]

/-- After folding, two ports are adjacent if a link joins them or they are the two terminals of a
    source of which one was connected. -/
theorem adjacent_foldAliases {t : Topology K} :
    t.foldAliases.graph.Adjacent p q ↔ t.graph.Adjacent p q ∨
      ∃ n ∈ t.nodes, Touched t.graph n ∧
        (p = n.terminal "a" ∧ q = n.terminal "b" ∨ p = n.terminal "b" ∧ q = n.terminal "a") :=
  adjacent_foldl_aliasNode t.nodes

/-- Folding brings in no new key, for keys that the two terminals of a source share. -/
theorem distinct_keys_foldl_aliasNode {β : Type} [DecidableEq β] (key : Port → β)
    (nodes : List (FlatNode K))
    (hkey : ∀ n ∈ nodes, Touched g n → key (n.terminal "a") = key (n.terminal "b")) :
    distinct ((nodes.foldl aliasNode g).ports.map key) = distinct (g.ports.map key) := by
  induction nodes generalizing g with
  | nil => rfl
  | cons n nodes ih =>
    have hsame : ∀ m : FlatNode K, Touched (aliasNode g n) m ↔ Touched g m := fun m =>
      and_congr_right fun _ => touched_aliasNode
    rw [List.foldl_cons, ih fun m hm ht => hkey m (List.mem_cons_of_mem n hm) ((hsame m).1 ht),
      aliasNode_eq]
    split
    · next h =>
      have hn := hkey n List.mem_cons_self h
      rw [PortGraph.ports_join, distinct_map_distinct, List.map_append]
      refine distinct_append_of_subset ?_
      -- the key that both terminals share is there already
      have hmem : key (n.terminal "a") ∈ g.ports.map key := by
        rcases h.2 with h | h
        · exact List.mem_map_of_mem h
        · exact hn ▸ List.mem_map_of_mem h
      intro k hk
      simp only [List.map_cons, List.map_nil, ← hn, List.mem_cons, List.not_mem_nil, or_false,
        or_self] at hk
      exact hk ▸ hmem
    · rfl

end Topology

end NetBalance
