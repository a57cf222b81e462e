import NetBalance.Proofs.Inlining
import NetBalance.Proofs.Rational

/-! # Occurrences of nodes

    A node occurs in a diagram wherever a chain of references leads to its own
    diagram without entering any diagram twice.  Flattening lists all
    occurrences, each reference right before what occurs behind it.  It ends
    well exactly when the ids of the occurrences are distinct, provided that
    nodes are well formed. -/

namespace NetBalance

variable {K : Type}

/-! ### Chains of references -/

/-- A reference with the diagram that it points to. -/
structure Passage (K : Type) where
  ref : PlacedNode K
  target : Diagram K

/-- The first node with its id is a reference, and the project has a diagram of the name that its
    payload gives. -/
structure Diagram.Refers (project : Project K) (d : Diagram K) (r : Passage K) : Prop where
  first : d.node? r.ref.id = some r.ref
  kind : r.ref.kind = .ok .reference
  named : ∃ name, r.ref.payload.get? "graph_id" = some (.text name) ∧
    project.get? name = some r.target

/-- References that lead from one diagram to another, each standing where the one before points. -/
inductive Leads (project : Project K) : Diagram K → List (Passage K) → Diagram K → Prop where
  | nil (d : Diagram K) : Leads project d [] d
  | cons {d last : Diagram K} {r : Passage K} {way : List (Passage K)}
      (h : d.Refers project r) (rest : Leads project r.target way last) :
      Leads project d (r :: way) last

/-- An occurrence of a node: the references on the way to its diagram, and the node. -/
structure Occurrence (K : Type) where
  way : List (Passage K)
  node : PlacedNode K

namespace Occurrence

/-- The ids of the references and of the node, joined by points. -/
def id (o : Occurrence K) : String := ".".intercalate (o.way.map (·.ref.id) ++ [o.node.id])

/-- The ids of the references, each with a point behind it. -/
def scope (o : Occurrence K) : String :=
  o.way.foldr (fun r rest => r.ref.id ++ "." ++ rest) ""

/-- The flattened node of an occurrence. -/
def flat (o : Occurrence K) : FlatNode K := { o.node.flat o.scope with id := o.id }

/-- The same occurrence, seen from the diagram of a reference in front of it. -/
def behind (r : Passage K) (o : Occurrence K) : Occurrence K := ⟨r :: o.way, o.node⟩

/-- The node occurs in the diagram: the references lead to where it is the first with its id, and
    no two of the diagrams on the way share an id. -/
structure IsIn (project : Project K) (d : Diagram K) (o : Occurrence K) : Prop where
  leads : ∃ last, Leads project d o.way last ∧ last.node? o.node.id = some o.node
  distinct : (d.id :: o.way.map (·.target.id)).Nodup

end Occurrence

/-- The number of the first node with an id. -/
def Diagram.indexOf (d : Diagram K) (id : String) : Nat := (d.nodes.map (·.id)).idxOf id

/-- The numbers of the references on a way, each in its own diagram, and of a node behind them. -/
def pathFrom (d : Diagram K) (node : PlacedNode K) : List (Passage K) → List Nat
  | [] => [d.indexOf node.id]
  | r :: way => d.indexOf r.ref.id :: pathFrom r.target node way

/-- The order of a walk that goes through the nodes of a diagram in order and, behind each
    reference, first through what occurs there. -/
def Occurrence.Precedes (d : Diagram K) (o o' : Occurrence K) : Prop :=
  List.Lex (· < ·) (pathFrom d o.node o.way) (pathFrom d o'.node o'.way)

/-! ### Ids -/

/-- A text with a point in it is there. -/
theorem append_point_ne_empty (a b : String) : a ++ "." ++ b ≠ "" := by
  intro h
  have hlength := congrArg String.length h
  have hone : ".".length = 1 := by decide
  have hzero : "".length = 0 := by decide
  rw [String.length_append, String.length_append] at hlength
  omega

namespace Occurrence

theorem id_eq (o : Occurrence K) : o.id = o.scope ++ o.node.id := by
  obtain ⟨way, node⟩ := o
  induction way with
  | nil => simp [id, scope]
  | cons r way ih =>
    -- a joined list goes on behind the point
    have htail : ∃ u l, way.map (·.ref.id) ++ [node.id] = u :: l := by
      cases way with
      | nil => exact ⟨_, _, rfl⟩
      | cons r' way => exact ⟨_, _, rfl⟩
    obtain ⟨u, l, hul⟩ := htail
    have hid : id ⟨r :: way, node⟩ = r.ref.id ++ "." ++ id ⟨way, node⟩ := by
      show ".".intercalate (r.ref.id :: (way.map (·.ref.id) ++ [node.id])) = _
      rw [id, hul, String.intercalate_cons_cons]
    rw [hid, ih]
    simp only [scope, List.foldr_cons, String.append_assoc]

/-- Only what occurs behind no reference has no scope. -/
theorem scope_eq_empty {o : Occurrence K} : o.scope = "" ↔ o.way = [] := by
  obtain ⟨way, node⟩ := o
  cases way with
  | nil => simp [scope]
  | cons r way =>
    constructor
    · intro h
      exact absurd h (append_point_ne_empty r.ref.id (scope ⟨way, node⟩))
    · intro h
      cases h

theorem scope_behind {r : Passage K} {o : Occurrence K} :
    (o.behind r).scope = r.ref.id ++ "." ++ o.scope := rfl

/-- No chain of references is longer than the project has diagrams. -/
theorem length_way_le {project : Project K} {d : Diagram K} {o : Occurrence K}
    (h : o.IsIn project d) : o.way.length ≤ project.size := by
  obtain ⟨last, hleads, -⟩ := h.leads
  -- each reference on the way points to a diagram of the project, and no two to the same
  have hsub : ∀ {d last way}, Leads project d way last →
      way.map (·.target.id) ⊆ project.diagrams.map (·.id) := by
    intro d last way hway
    induction hway with
    | nil => exact List.nil_subset _
    | cons hr _ ih =>
      obtain ⟨name, -, hget⟩ := hr.named
      refine List.cons_subset.2 ⟨?_, ih⟩
      exact List.mem_map_of_mem (List.mem_of_find?_eq_some hget)
  have hnodup : (o.way.map (·.target.id)).Nodup := (List.nodup_cons.1 h.distinct).2
  have hle := (hnodup.subperm (hsub hleads)).length_le
  rwa [List.length_map, List.length_map] at hle

end Occurrence

/-! ### The occurrences in a copy -/

namespace Copy

variable {project : Project K} {c c' : Copy K} {n : PlacedNode K}

/-- What stands behind a node is what it refers to, unless that is on the way down. -/
theorem behind?_eq_some :
    n ∈ c.diagram.firsts ∧ c.behind? project n = some c' ↔
      c.diagram.Refers project ⟨n, c'.diagram⟩ ∧ c'.diagram.id ∉ c.stack ∧
        c' = c.inner n c'.diagram := by
  constructor
  · intro h
    obtain ⟨hn, hb⟩ := h
    have htarget : n.target? project c.stack ≠ none := by
      intro hnone
      rw [behind?, hnone] at hb
      cases hb
    obtain ⟨t, ht⟩ := Option.ne_none_iff_exists'.1 htarget
    rw [behind?, ht, Option.map_some, Option.some.injEq] at hb
    subst hb
    rw [PlacedNode.target?] at ht
    cases hkind : n.kind with
    | error e => simp [hkind] at ht
    | ok kind =>
      simp only [hkind] at ht
      cases kind with
      | source => exact absurd ht (by simp [Kind.referencedDiagram, Project.enterable?])
      | sum => exact absurd ht (by simp [Kind.referencedDiagram, Project.enterable?])
      | product => exact absurd ht (by simp [Kind.referencedDiagram, Project.enterable?])
      | reference =>
        -- only a text in the payload leads anywhere
        cases hvalue : n.payload.get? "graph_id" with
        | none => simp [Kind.referencedDiagram, hvalue, Project.enterable?] at ht
        | some v =>
          simp only [Kind.referencedDiagram, hvalue, Option.getD_some] at ht
          cases v with
          | text name =>
            refine ⟨⟨Diagram.mem_firsts_iff.1 hn, hkind, name, hvalue, ?_⟩, t.property.2, rfl⟩
            exact Project.enterable?_text.1 ht
          | null => simp [Project.enterable?] at ht
          | bool b => simp [Project.enterable?] at ht
          | int k => simp [Project.enterable?] at ht
          | real x => simp [Project.enterable?] at ht
          | list entries => simp [Project.enterable?] at ht
          | object fields => simp [Project.enterable?] at ht
  · intro h
    obtain ⟨⟨hfirst, hkind, name, hvalue, hget⟩, hstack, hinner⟩ := h
    let t : Target project c.stack := ⟨c'.diagram, List.mem_of_find?_eq_some hget, hstack⟩
    have ht : n.target? project c.stack = some t := by
      rw [PlacedNode.target?, hkind]
      simp only [Kind.referencedDiagram, hvalue, Option.getD_some]
      exact Project.enterable?_text.2 hget
    refine ⟨Diagram.mem_firsts_iff.2 hfirst, ?_⟩
    rw [behind?, ht, Option.map_some, hinner]

/-- The occurrences in a copy, each reference followed by what occurs behind it. -/
def occurrences (project : Project K) (c : Copy K) : List (Occurrence K) :=
  c.diagram.firsts.flatMap fun n => ⟨[], n⟩ ::
    match n.target? project c.stack with
    | none => []
    | some t => (occurrences project (c.inner n t.val)).map (Occurrence.behind ⟨n, t.val⟩)
termination_by (project.outside c.stack).length
decreasing_by exact Project.length_outside_lt t

/-- What occurs behind a node. -/
def occurrencesBehind (project : Project K) (c : Copy K) (n : PlacedNode K) :
    List (Occurrence K) :=
  (c.behind? project n).elim [] fun c' =>
    (c'.occurrences project).map (Occurrence.behind ⟨n, c'.diagram⟩)

theorem occurrences_eq (c : Copy K) :
    c.occurrences project =
      c.diagram.firsts.flatMap fun n => ⟨[], n⟩ :: c.occurrencesBehind project n := by
  rw [occurrences]
  congr 1
  funext n
  rw [occurrencesBehind, behind?]
  cases n.target? project c.stack <;> rfl

theorem mem_occurrencesBehind {o : Occurrence K} :
    o ∈ c.occurrencesBehind project n ↔ ∃ c', c.behind? project n = some c' ∧
      ∃ o' ∈ c'.occurrences project, o = o'.behind ⟨n, c'.diagram⟩ := by
  rw [occurrencesBehind]
  cases c.behind? project n with
  | none => simp
  | some c' => simp [eq_comm]

/-- A node occurs in a copy: the references lead to it without entering a diagram twice, or one
    that is on the way down to the copy. -/
structure Holds (project : Project K) (c : Copy K) (o : Occurrence K) : Prop where
  leads : ∃ last, Leads project c.diagram o.way last ∧ last.node? o.node.id = some o.node
  distinct : (o.way.map (·.target.id)).Nodup
  outside : ∀ r ∈ o.way, r.target.id ∉ c.stack

theorem holds_nil : c.Holds project ⟨[], n⟩ ↔ n ∈ c.diagram.firsts := by
  rw [Diagram.mem_firsts_iff]
  constructor
  · intro h
    obtain ⟨last, hleads, hn⟩ := h.leads
    cases hleads
    exact hn
  · intro h
    exact ⟨⟨_, .nil _, h⟩, List.nodup_nil, fun r hr => absurd hr List.not_mem_nil⟩

theorem holds_behind {r : Passage K} {o : Occurrence K} :
    c.Holds project (o.behind r) ↔ c.diagram.Refers project r ∧ r.target.id ∉ c.stack ∧
      (c.inner r.ref r.target).Holds project o := by
  constructor
  · intro h
    obtain ⟨last, hleads, hn⟩ := h.leads
    obtain ⟨hfresh, hdistinct⟩ := List.nodup_cons.1 h.distinct
    cases hleads with
    | cons hr hrest =>
      refine ⟨hr, h.outside r List.mem_cons_self, ⟨last, hrest, hn⟩, hdistinct, ?_⟩
      intro r' hr'
      -- the diagram that was entered is on the way down now
      show r'.target.id ∉ r.target.id :: c.stack
      rw [List.mem_cons, not_or]
      refine ⟨?_, h.outside r' (List.mem_cons_of_mem r hr')⟩
      intro heq
      exact hfresh (List.mem_map.2 ⟨r', hr', heq⟩)
  · intro h
    obtain ⟨hr, hstack, ⟨last, hleads, hn⟩, hdistinct, houtside⟩ := h
    have hout : ∀ r' ∈ o.way, r'.target.id ≠ r.target.id ∧ r'.target.id ∉ c.stack := by
      intro r' hr'
      have hnot : r'.target.id ∉ r.target.id :: c.stack := houtside r' hr'
      rwa [List.mem_cons, not_or] at hnot
    refine ⟨⟨last, .cons hr hleads, hn⟩, ?_, ?_⟩
    · refine List.nodup_cons.2 ⟨?_, hdistinct⟩
      intro hmem
      obtain ⟨r', hr', heq⟩ := List.mem_map.1 hmem
      exact (hout r' hr').1 heq
    · intro r' hr'
      rcases List.mem_cons.1 hr' with rfl | hr'
      · exact hstack
      · exact (hout r' hr').2

/-- The list holds what occurs in the copy. -/
theorem mem_occurrences {o : Occurrence K} :
    o ∈ c.occurrences project ↔ c.Holds project o := by
  induction c using Copy.induction project generalizing o with
  | step c ih =>
    rw [occurrences_eq, List.mem_flatMap]
    obtain ⟨way, node⟩ := o
    cases way with
    | nil =>
      rw [holds_nil]
      constructor
      · intro h
        obtain ⟨n, hn, hmem⟩ := h
        rcases List.mem_cons.1 hmem with heq | hmem
        · cases heq
          exact hn
        · obtain ⟨c', -, o', -, heq⟩ := mem_occurrencesBehind.1 hmem
          cases heq
      · intro h
        exact ⟨node, h, List.mem_cons_self⟩
    | cons r way =>
      show _ ↔ c.Holds project (Occurrence.behind r ⟨way, node⟩)
      rw [holds_behind]
      constructor
      · intro h
        obtain ⟨n, hn, hmem⟩ := h
        rcases List.mem_cons.1 hmem with heq | hmem
        · cases heq
        · obtain ⟨c', hb, o', ho', heq⟩ := mem_occurrencesBehind.1 hmem
          cases heq
          obtain ⟨hr, hstack, hinner⟩ := behind?_eq_some.1 ⟨hn, hb⟩
          refine ⟨hr, hstack, ?_⟩
          show (c.inner n c'.diagram).Holds project o'
          rw [← hinner]
          exact (ih n c' hb).1 ho'
      · intro h
        obtain ⟨hr, hstack, hholds⟩ := h
        have hb : r.ref ∈ c.diagram.firsts ∧
            c.behind? project r.ref = some (c.inner r.ref r.target) :=
          behind?_eq_some.2 ⟨hr, hstack, rfl⟩
        refine ⟨r.ref, hb.1, List.mem_cons_of_mem _ (mem_occurrencesBehind.2 ?_)⟩
        exact ⟨_, hb.2, ⟨way, node⟩, (ih _ _ hb.2).2 hholds, rfl⟩

/-- The flattened nodes of a copy are those of the occurrences, in order. -/
theorem nodes_eq_map_occurrences (c : Copy K) :
    c.nodes project = (c.occurrences project).map fun o => o.node.flat (c.scope ++ o.scope) := by
  induction c using Copy.induction project with
  | step c ih =>
    rw [nodes_eq, occurrences_eq, List.map_flatMap]
    refine List.flatMap_congr fun n _ => ?_
    rw [branch, List.map_cons, occurrencesBehind]
    have hown : c.scope ++ Occurrence.scope (⟨[], n⟩ : Occurrence K) = c.scope := String.append_empty
    rw [hown]
    refine congrArg _ ?_
    cases hb : c.behind? project n with
    | none => rfl
    | some c' =>
      obtain ⟨t, -, rfl⟩ := Option.map_eq_some_iff.1 hb
      rw [Option.elim_some, Option.elim_some, ih n _ hb, List.map_map]
      refine List.map_congr_left fun o _ => ?_
      show o.node.flat (c.scope ++ n.id ++ "." ++ o.scope) =
        o.node.flat (c.scope ++ (n.id ++ "." ++ o.scope))
      simp only [String.append_assoc]

/-! ### The order of the list -/

/-- The nodes that count stand in the order of their numbers. -/
theorem pairwise_indexOf_keepFirst (nodes : List (PlacedNode K)) :
    (keepFirst nodes).Pairwise fun m n =>
      (nodes.map (·.id)).idxOf m.id < (nodes.map (·.id)).idxOf n.id := by
  induction nodes with
  | nil => exact List.Pairwise.nil
  | cons first rest ih =>
    -- behind the first node all numbers go up by one
    have hsucc : ∀ n ∈ (keepFirst rest).filter (·.id ≠ first.id),
        ((first :: rest).map (·.id)).idxOf n.id = (rest.map (·.id)).idxOf n.id + 1 := by
      intro n hn
      have hne : n.id ≠ first.id := of_decide_eq_true (List.mem_filter.1 hn).2
      exact List.idxOf_cons_ne _ hne.symm
    rw [keepFirst, List.pairwise_cons]
    refine ⟨?_, ?_⟩
    · intro n hn
      have hzero : ((first :: rest).map (·.id)).idxOf first.id = 0 := List.idxOf_cons_self
      rw [hzero, hsucc n hn]
      omega
    · refine (ih.filter _).imp_of_mem ?_
      intro m n hm hn hlt
      rw [hsucc m hm, hsucc n hn]
      omega

theorem pairwise_precedes (c : Copy K) :
    (c.occurrences project).Pairwise (Occurrence.Precedes c.diagram) := by
  induction c using Copy.induction project with
  | step c ih =>
    -- all that comes with a node starts with the number of the node
    have hhead : ∀ n, ∀ o ∈ (⟨[], n⟩ : Occurrence K) :: c.occurrencesBehind project n,
        ∃ rest, pathFrom c.diagram o.node o.way = c.diagram.indexOf n.id :: rest := by
      intro n o ho
      rcases List.mem_cons.1 ho with rfl | ho
      · exact ⟨[], rfl⟩
      · obtain ⟨c', -, o', -, rfl⟩ := mem_occurrencesBehind.1 ho
        exact ⟨_, rfl⟩
    rw [occurrences_eq, List.pairwise_flatMap]
    refine ⟨?_, ?_⟩
    · intro n _
      rw [List.pairwise_cons]
      refine ⟨?_, ?_⟩
      · intro o ho
        obtain ⟨c', -, o', -, rfl⟩ := mem_occurrencesBehind.1 ho
        refine List.Lex.cons ?_
        -- no path behind a reference is empty
        show List.Lex _ [] (pathFrom c'.diagram o'.node o'.way)
        cases o'.way <;> exact List.Lex.nil
      · rw [occurrencesBehind]
        cases hb : c.behind? project n with
        | none => exact List.Pairwise.nil
        | some c' =>
          rw [Option.elim_some, List.pairwise_map]
          exact (ih n c' hb).imp List.Lex.cons
    · refine (pairwise_indexOf_keepFirst c.diagram.nodes).imp ?_
      intro m n hlt o ho o' ho'
      obtain ⟨rest, hrest⟩ := hhead m o ho
      obtain ⟨rest', hrest'⟩ := hhead n o' ho'
      rw [Occurrence.Precedes, hrest, hrest']
      exact List.Lex.rel hlt

end Copy

/-! ### The occurrences in a diagram -/

namespace Diagram

variable {project : Project K} {d : Diagram K}

/-- In the root itself the diagrams on the way down are the root alone. -/
theorem mem_occurrences_root {o : Occurrence K} :
    o ∈ d.root.occurrences project ↔ o.IsIn project d := by
  rw [Copy.mem_occurrences]
  constructor
  · intro h
    refine ⟨h.leads, List.nodup_cons.2 ⟨?_, h.distinct⟩⟩
    intro hmem
    obtain ⟨r, hr, heq⟩ := List.mem_map.1 hmem
    exact h.outside r hr (List.mem_singleton.2 heq)
  · intro h
    obtain ⟨hfresh, hdistinct⟩ := List.nodup_cons.1 h.distinct
    refine ⟨h.leads, hdistinct, ?_⟩
    intro r hr hmem
    exact hfresh (List.mem_map.2 ⟨r, hr, List.mem_singleton.1 hmem⟩)

theorem nodes_root : d.root.nodes project = (d.root.occurrences project).map Occurrence.flat := by
  rw [Copy.nodes_eq_map_occurrences]
  refine List.map_congr_left fun o _ => ?_
  show o.node.flat ("" ++ o.scope) = o.flat
  rw [String.empty_append, Occurrence.flat, Occurrence.id_eq]
  rfl

theorem nodup_occurrences_root : (d.root.occurrences project).Nodup := by
  refine (Copy.pairwise_precedes d.root).imp ?_
  intro o o' hprecedes heq
  -- nothing stands before itself
  subst heq
  exact List.lex_irrefl (fun i : Nat => lt_irrefl i) _ hprecedes

end Diagram

end NetBalance
