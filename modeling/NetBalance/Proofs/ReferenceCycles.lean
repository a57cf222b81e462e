import NetBalance.Proofs.Occurrences

/-! # Cycles of references

    A node closes a cycle when it refers to a diagram that the references on
    the way to it have entered.  Such a node occurs exactly when some diagram
    that the root leads to leads back to itself: ways that enter no diagram
    twice can be prolonged as long as no node closes a cycle, so that the
    second round of a cycle would enter a diagram twice. -/

namespace NetBalance

variable {K : Type}

/-! ### The graph of references -/

/-- A diagram refers to another one of the project; the id of the root stands for the root. -/
def Diagram.RefersTo (project : Project K) (root d t : Diagram K) : Prop :=
  ∃ r, d.Refers project r ∧ t = if r.target.id = root.id then root else r.target

/-- References lead from the root to a diagram, and from there back to it. -/
def Diagram.ReachesCycle (project : Project K) (root : Diagram K) : Prop :=
  ∃ d, Relation.ReflTransGen (RefersTo project root) root d ∧
    Relation.TransGen (RefersTo project root) d d

/-- The node of an occurrence refers by a name to a diagram that was entered on the way to it. -/
structure Occurrence.Closes (project : Project K) (root : Diagram K) (o : Occurrence K)
    (name : String) : Prop where
  kind : o.node.kind = .ok .reference
  named : o.node.payload.get? "graph_id" = some (.text name)
  entered : ∃ t, project.get? name = some t ∧ t.id ∈ root.id :: o.way.map (·.target.id)

section Leads

variable {project : Project K} {d mid last : Diagram K} {r : Passage K} {way way' : List (Passage K)}

theorem Diagram.Refers.target_mem (h : d.Refers project r) : r.target ∈ project.diagrams := by
  obtain ⟨name, -, hget⟩ := h.named
  exact List.mem_of_find?_eq_some hget

theorem Leads.trans (h : Leads project d way mid) (h' : Leads project mid way' last) :
    Leads project d (way ++ way') last := by
  induction h with
  | nil => exact h'
  | cons hr _ ih => exact .cons hr (ih h')

/-- A way in two parts stops in between. -/
theorem Leads.split (h : Leads project d (way ++ way') last) :
    ∃ mid, Leads project d way mid ∧ Leads project mid way' last := by
  induction way generalizing d with
  | nil => exact ⟨d, .nil d, h⟩
  | cons r way ih =>
    cases h with
    | cons hr hrest =>
      obtain ⟨mid, hto, hfrom⟩ := ih hrest
      exact ⟨mid, .cons hr hto, hfrom⟩

/-- The last diagram of a way has been entered. -/
theorem Leads.id_mem (h : Leads project d way last) :
    last.id ∈ d.id :: way.map (·.target.id) := by
  induction h with
  | nil => exact List.mem_cons_self
  | cons _ _ ih => exact List.mem_cons_of_mem _ ih

/-- Behind each reference on a way the rest of the way starts. -/
theorem Leads.rest_of_mem (h : Leads project d way last) (hr : r ∈ way) :
    r.target ∈ project.diagrams ∧ ∃ rest ⊆ way, Leads project r.target rest last := by
  induction h with
  | nil => cases hr
  | cons hfirst hrest ih =>
    rcases List.mem_cons.1 hr with rfl | hr
    · exact ⟨hfirst.target_mem, _, List.subset_cons_self _ _, hrest⟩
    · obtain ⟨hmem, rest, hsub, hleads⟩ := ih hr
      exact ⟨hmem, rest, List.subset_cons_of_subset _ hsub, hleads⟩

/-- A way that does not come back to the root is one of the graph. -/
theorem Leads.reaches {root : Diagram K} (h : Leads project d way last)
    (hroot : ∀ r ∈ way, r.target.id ≠ root.id) :
    Relation.ReflTransGen (Diagram.RefersTo project root) d last := by
  induction h with
  | nil => exact .refl
  | cons hr _ ih =>
    refine .head ⟨_, hr, ?_⟩ (ih fun r' hr' => hroot r' (List.mem_cons_of_mem _ hr'))
    rw [if_neg (hroot _ List.mem_cons_self)]

end Leads

/-! ### A node that closes a cycle -/

section Graph

variable {project : Project K} {root : Diagram K}

theorem Project.eq_of_id {t t' : Diagram K} (ht : t ∈ project.diagrams)
    (ht' : t' ∈ project.diagrams) (h : t.id = t'.id) : t = t' :=
  List.inj_on_of_nodup_map project.nodup ht ht' h

theorem reachesCycle_of_closes {o : Occurrence K} {name : String} (ho : o.IsIn project root)
    (hcloses : o.Closes project root name) : root.ReachesCycle project := by
  obtain ⟨last, hleads, hnode⟩ := ho.leads
  obtain ⟨t, hget, hentered⟩ := hcloses.entered
  have hrefers : last.Refers project ⟨o.node, t⟩ :=
    ⟨hnode, hcloses.kind, name, hcloses.named, hget⟩
  have hroot : ∀ r ∈ o.way, r.target.id ≠ root.id := by
    intro r hr heq
    exact (List.nodup_cons.1 ho.distinct).1 (List.mem_map.2 ⟨r, hr, heq⟩)
  rcases List.mem_cons.1 hentered with hback | hback
  · -- the cycle goes through the root
    have hstep : Diagram.RefersTo project root last root := ⟨_, hrefers, by rw [if_pos hback]⟩
    exact ⟨root, .refl, .tail' (hleads.reaches hroot) hstep⟩
  · -- the cycle starts behind one of the references
    obtain ⟨r, hr, hid⟩ := List.mem_map.1 hback
    obtain ⟨hmem, rest, hsub, hrest⟩ := hleads.rest_of_mem hr
    obtain rfl : r.target = t := Project.eq_of_id hmem hrefers.target_mem hid
    have hstep : Diagram.RefersTo project root last r.target :=
      ⟨_, hrefers, by rw [if_neg (hroot r hr)]⟩
    have hloop : Relation.TransGen (Diagram.RefersTo project root) last last :=
      .head' hstep (hrest.reaches fun r' hr' => hroot r' (hsub hr'))
    exact ⟨last, hleads.reaches hroot, hloop⟩

/-- Nothing occurs behind a node that closes a cycle. -/
theorem not_prefix_of_closes {o o' : Occurrence K} {r : Passage K} {name : String}
    (hcloses : o.Closes project root name) (ho' : o'.IsIn project root) (hr : r.ref = o.node) :
    ¬ o.way ++ [r] <+: o'.way := by
  intro hprefix
  obtain ⟨rest, hway⟩ := hprefix
  obtain ⟨last, hleads, -⟩ := ho'.leads
  rw [← hway, List.append_assoc] at hleads
  obtain ⟨mid, -, hbehind⟩ := hleads.split
  cases hbehind with
  | cons hrefers _ =>
    -- the reference behind the node leads where the node does
    obtain ⟨name', hnamed, hget⟩ := hrefers.named
    obtain ⟨t, hget', hentered⟩ := hcloses.entered
    rw [hr, hcloses.named, Option.some.injEq, Value.text.injEq] at hnamed
    obtain rfl : r.target = t := Option.some.inj (hget.symm.trans (hnamed ▸ hget'))
    have hdistinct := ho'.distinct
    rw [← hway, List.map_append, List.map_append, ← List.cons_append,
      ← List.cons_append] at hdistinct
    have hfresh := (List.nodup_append.1 (hdistinct.of_append_left)).2.2
    exact hfresh _ hentered _ (List.mem_singleton_self _) rfl

/-! ### Cycles are met -/

variable {d t : Diagram K} {way : List (Passage K)}

/-- Where no node closes a cycle, a way that enters no diagram twice goes on through each diagram
    that the last one refers to. -/
theorem exists_passage
    (hopen : ∀ (o : Occurrence K) name, o.IsIn project root → ¬ o.Closes project root name)
    (hway : Leads project root way d) (hdistinct : (root.id :: way.map (·.target.id)).Nodup)
    (h : Diagram.RefersTo project root d t) :
    ∃ r, Leads project d [r] t ∧ (root.id :: (way ++ [r]).map (·.target.id)).Nodup := by
  obtain ⟨r, hr, rfl⟩ := h
  obtain ⟨name, hnamed, hget⟩ := hr.named
  have hin : (⟨way, r.ref⟩ : Occurrence K).IsIn project root := ⟨⟨d, hway, hr.first⟩, hdistinct⟩
  have hfresh : r.target.id ∉ root.id :: way.map (·.target.id) := by
    intro hentered
    exact hopen _ name hin ⟨hr.kind, hnamed, r.target, hget, hentered⟩
  have hroot : r.target.id ≠ root.id := by
    intro heq
    exact hfresh (heq ▸ List.mem_cons_self)
  rw [if_neg hroot]
  refine ⟨r, .cons hr (.nil _), ?_⟩
  rw [List.map_append, ← List.cons_append]
  exact hdistinct.append (List.nodup_singleton _) (List.disjoint_singleton.2 hfresh)

/-- So it goes on along each walk through the graph. -/
theorem exists_way
    (hopen : ∀ (o : Occurrence K) name, o.IsIn project root → ¬ o.Closes project root name)
    (hway : Leads project root way d) (hdistinct : (root.id :: way.map (·.target.id)).Nodup)
    (h : Relation.TransGen (Diagram.RefersTo project root) d t) :
    ∃ r rest, Leads project d (r :: rest) t ∧
      (root.id :: (way ++ r :: rest).map (·.target.id)).Nodup := by
  induction h with
  | single h =>
    obtain ⟨r, hleads, hnodup⟩ := exists_passage hopen hway hdistinct h
    exact ⟨r, [], hleads, hnodup⟩
  | tail _ h ih =>
    obtain ⟨r, rest, hleads, hnodup⟩ := ih
    obtain ⟨r', hleads', hnodup'⟩ := exists_passage hopen (hway.trans hleads) hnodup h
    refine ⟨r, rest ++ [r'], hleads.trans hleads', ?_⟩
    rwa [List.append_assoc] at hnodup'

/-- A cycle that the root leads to is closed by the node of some occurrence. -/
theorem exists_closes (h : root.ReachesCycle project) :
    ∃ (o : Occurrence K) (name : String), o.IsIn project root ∧ o.Closes project root name := by
  by_contra hnone
  have hopen : ∀ (o : Occurrence K) name, o.IsIn project root → ¬ o.Closes project root name := by
    intro o name ho hcloses
    exact hnone ⟨o, name, ho, hcloses⟩
  obtain ⟨d, hreach, hloop⟩ := h
  have hroot : (root.id :: ([] : List (Passage K)).map (·.target.id)).Nodup := List.nodup_singleton _
  -- a way to the diagram on the cycle
  have hto : ∃ way, Leads project root way d ∧ (root.id :: way.map (·.target.id)).Nodup := by
    rcases Relation.reflTransGen_iff_eq_or_transGen.1 hreach with rfl | hreach
    · exact ⟨[], .nil _, hroot⟩
    · obtain ⟨r, rest, hleads, hnodup⟩ := exists_way hopen (.nil root) hroot hreach
      exact ⟨r :: rest, hleads, hnodup⟩
  obtain ⟨way, hway, hdistinct⟩ := hto
  -- once around the cycle the way enters the diagram again
  obtain ⟨r, rest, hround, hnodup⟩ := exists_way hopen hway hdistinct hloop
  have hagain : d.id ∈ (r :: rest).map (·.target.id) := by
    cases hround with
    | cons _ hrest => exact hrest.id_mem
  rw [List.map_append, ← List.cons_append, List.nodup_append] at hnodup
  exact hnodup.2.2 _ hway.id_mem _ hagain rfl

/-- A diagram leads to a cycle exactly when one of its occurrences closes one. -/
theorem reachesCycle_iff :
    root.ReachesCycle project ↔
      ∃ (o : Occurrence K) (name : String), o.IsIn project root ∧ o.Closes project root name := by
  constructor
  · exact exists_closes
  · intro h
    obtain ⟨o, name, ho, hcloses⟩ := h
    exact reachesCycle_of_closes ho hcloses

end Graph

/-! ### The nodes of a copy that close cycles -/

/-- The name that a value is, if it leads back to a diagram on the way down. -/
def Project.reentered? (project : Project K) (stack : List String) : Value K → Option String
  | .text name => (project.get? name).bind fun t => if t.id ∈ stack then some name else none
  | _ => none

/-- The name by which a node refers back to a diagram on the way down. -/
def PlacedNode.back? (n : PlacedNode K) (project : Project K) (stack : List String) :
    Option String :=
  match n.kind with
  | .ok kind => project.reentered? stack (kind.referencedDiagram n.payload)
  | .error _ => none

/-- The ids of the diagrams on the way to an occurrence, the last one first. -/
def Occurrence.stack (o : Occurrence K) (above : List String) : List String :=
  o.way.foldl (fun ids r => r.target.id :: ids) above

theorem Occurrence.mem_stack {o : Occurrence K} {above : List String} {id : String} :
    id ∈ o.stack above ↔ id ∈ above ∨ id ∈ o.way.map (·.target.id) := by
  obtain ⟨way, node⟩ := o
  rw [stack]
  induction way generalizing above with
  | nil => simp
  | cons r way ih =>
    rw [List.foldl_cons, ih, List.map_cons, List.mem_cons, List.mem_cons, or_left_comm, or_assoc]

theorem Project.reentered?_text {project : Project K} {stack : List String} {v : Value K}
    {name : String} :
    project.reentered? stack v = some name ↔
      v = .text name ∧ ∃ t, project.get? name = some t ∧ t.id ∈ stack := by
  cases v with
  | text other =>
    simp only [reentered?, Option.bind_eq_some_iff, Value.text.injEq]
    constructor
    · intro h
      obtain ⟨t, hget, hname⟩ := h
      split at hname
      · next hmem =>
        obtain rfl := Option.some.inj hname
        exact ⟨rfl, t, hget, hmem⟩
      · cases hname
    · intro h
      obtain ⟨rfl, t, hget, hmem⟩ := h
      exact ⟨t, hget, if_pos hmem⟩
  | null => simp [reentered?]
  | bool b => simp [reentered?]
  | int n => simp [reentered?]
  | real x => simp [reentered?]
  | list entries => simp [reentered?]
  | object fields => simp [reentered?]

theorem PlacedNode.back?_eq_some {n : PlacedNode K} {project : Project K} {stack : List String}
    {name : String} :
    n.back? project stack = some name ↔ n.kind = .ok .reference ∧
      n.payload.get? "graph_id" = some (.text name) ∧
        ∃ t, project.get? name = some t ∧ t.id ∈ stack := by
  rw [back?]
  cases hkind : n.kind with
  | error e => simp
  | ok kind =>
    simp only [Project.reentered?_text]
    cases kind with
    | source => simp [Kind.referencedDiagram]
    | sum => simp [Kind.referencedDiagram]
    | product => simp [Kind.referencedDiagram]
    | reference =>
      cases hvalue : n.payload.get? "graph_id" with
      | none => simp [Kind.referencedDiagram, hvalue]
      | some v => simp [Kind.referencedDiagram, hvalue]

namespace Copy

variable {project : Project K}

/-- What is told about an occurrence in a copy, if its node closes a cycle. -/
def cycleEvent? (project : Project K) (c : Copy K) (o : Occurrence K) : Option (Event K) :=
  (o.node.back? project (o.stack c.stack)).map (.closedCycle (c.scope ++ o.id))

/-- What is told about the cycles that are closed in a copy. -/
def cycleEvents (project : Project K) (c : Copy K) : List (Event K) :=
  (c.occurrences project).filterMap (c.cycleEvent? project)

/-- What is told about a node itself, if it closes a cycle. -/
def ownCycle (project : Project K) (c : Copy K) (n : PlacedNode K) : List (Event K) :=
  ((n.back? project c.stack).map (.closedCycle (c.scope ++ n.id))).toList

theorem cycleEvent?_nil {c : Copy K} {n : PlacedNode K} :
    c.cycleEvent? project ⟨[], n⟩ =
      (n.back? project c.stack).map (.closedCycle (c.scope ++ n.id)) := by
  have hid : (⟨[], n⟩ : Occurrence K).id = n.id := by
    rw [Occurrence.id_eq]
    exact String.empty_append
  rw [cycleEvent?, hid]
  rfl

/-- Seen from in front of a reference, an occurrence is told alike. -/
theorem cycleEvent?_behind {c : Copy K} {n : PlacedNode K} {t : Diagram K} {o : Occurrence K} :
    c.cycleEvent? project (o.behind ⟨n, t⟩) = (c.inner n t).cycleEvent? project o := by
  have hid : c.scope ++ (o.behind ⟨n, t⟩).id = c.scope ++ n.id ++ "." ++ o.id := by
    simp only [Occurrence.id_eq, Occurrence.scope_behind, String.append_assoc]
    rfl
  rw [cycleEvent?, hid]
  rfl

/-- A copy tells, node by node, about the node itself and then about what stands behind it. -/
theorem cycleEvents_eq (c : Copy K) :
    c.cycleEvents project = c.diagram.firsts.flatMap fun n =>
      c.ownCycle project n ++ (c.behind? project n).elim [] (cycleEvents project) := by
  rw [cycleEvents, occurrences_eq, List.filterMap_flatMap]
  refine List.flatMap_congr fun n _ => ?_
  have hown : ([⟨[], n⟩] : List (Occurrence K)).filterMap (c.cycleEvent? project) =
      c.ownCycle project n := by
    rw [ownCycle, List.filterMap_cons, cycleEvent?_nil]
    cases n.back? project c.stack <;> rfl
  have hbehind : (c.occurrencesBehind project n).filterMap (c.cycleEvent? project) =
      (c.behind? project n).elim [] (cycleEvents project) := by
    rw [occurrencesBehind]
    cases hb : c.behind? project n with
    | none => rfl
    | some c' =>
      obtain ⟨t, -, rfl⟩ := Option.map_eq_some_iff.1 hb
      rw [Option.elim_some, Option.elim_some, List.filterMap_map]
      exact List.filterMap_congr fun o _ => cycleEvent?_behind
  rw [← hown, ← hbehind, ← List.filterMap_append]
  rfl

end Copy

/-! ### The occurrences that close cycles -/

namespace Diagram

variable {project : Project K} {d : Diagram K}

/-- The occurrences whose nodes close cycles, each with the name by which it does. -/
def closings (project : Project K) (d : Diagram K) : List (Occurrence K × String) :=
  (d.root.occurrences project).filterMap fun o =>
    (o.node.back? project (o.stack [d.id])).map fun name => (o, name)

theorem mem_closings {o : Occurrence K} {name : String} :
    (o, name) ∈ d.closings project ↔ o.IsIn project d ∧ o.Closes project d name := by
  have hstack : ∀ id, id ∈ o.stack [d.id] ↔ id ∈ d.id :: o.way.map (·.target.id) := by
    intro id
    rw [Occurrence.mem_stack, List.mem_singleton, List.mem_cons]
  rw [closings, List.mem_filterMap]
  simp only [Option.map_eq_some_iff, Prod.mk.injEq]
  constructor
  · intro h
    obtain ⟨o', ho, name', hback, rfl, rfl⟩ := h
    obtain ⟨hkind, hnamed, t, hget, hentered⟩ := PlacedNode.back?_eq_some.1 hback
    exact ⟨mem_occurrences_root.1 ho, hkind, hnamed, t, hget, (hstack t.id).1 hentered⟩
  · intro h
    obtain ⟨ho, hkind, hnamed, t, hget, hentered⟩ := h
    refine ⟨o, mem_occurrences_root.2 ho, name, PlacedNode.back?_eq_some.2 ?_, rfl, rfl⟩
    exact ⟨hkind, hnamed, t, hget, (hstack t.id).2 hentered⟩

/-- The occurrences that close cycles are some of all, in order. -/
theorem closings_sublist :
    ((d.closings project).map (·.1)).Sublist (d.root.occurrences project) := by
  have hfilter : (d.closings project).map (·.1) = (d.root.occurrences project).filter fun o =>
      (o.node.back? project (o.stack [d.id])).isSome := by
    rw [closings, List.map_filterMap, ← List.filterMap_eq_filter]
    refine List.filterMap_congr fun o _ => ?_
    cases hback : o.node.back? project (o.stack [d.id]) with
    | none => simp [Option.guard, hback]
    | some name => simp [Option.guard, hback]
  rw [hfilter]
  exact List.filter_sublist

theorem closings_ne_nil_iff : d.closings project ≠ [] ↔ d.ReachesCycle project := by
  rw [reachesCycle_iff]
  constructor
  · intro h
    obtain ⟨x, hx⟩ := List.exists_mem_of_ne_nil _ h
    exact ⟨x.1, x.2, mem_closings.1 hx⟩
  · intro h
    obtain ⟨o, name, h⟩ := h
    exact List.ne_nil_of_mem (mem_closings.2 h)

theorem cycleEvents_root :
    d.root.cycleEvents project =
      (d.closings project).map fun x => .closedCycle x.1.id x.2 := by
  rw [closings, List.map_filterMap, Copy.cycleEvents]
  refine List.filterMap_congr fun o _ => ?_
  rw [Copy.cycleEvent?, Option.map_map]
  show (o.node.back? project (o.stack [d.id])).map (Event.closedCycle ("" ++ o.id)) = _
  rw [String.empty_append]
  rfl

end Diagram

end NetBalance
