import NetBalance.Proofs.ReferenceCycles

/-! # Strict flattening

    Flattening with and without strictness runs through the same steps up to
    the first reference that closes a cycle; there the strict run ends, and the
    other one tells about the reference and leaves it out.  Step by step, what
    the lenient run tells about cycles is the beginning of what there is to
    tell about the nodes that it goes through, and all of it once the run has
    ended well. -/

namespace NetBalance

variable {K α β : Type}

/-! ### Two runs of a computation -/

/-- Whether an event tells about a reference that closes a cycle. -/
def Event.isClosedCycle : Event K → Bool
  | .closedCycle .. => true
  | _ => false

/-- A reference that closes a cycle is refused. -/
def NetworkError.IsClosedCycle (e : NetworkError) : Prop := ∃ id name, e = .closedCycle id name

/-- What becomes of a computation when closed cycles are errors: it stays as it is if it tells about
    none, and otherwise ends at the first one that it tells about. -/
inductive StopsAtCycle (m m' : Logged K NetworkError α) : Prop where
  | never (same : m' = m) (quiet : ∀ e ∈ m.events, ¬ e.isClosedCycle)
  | first (before after : List (Event K)) (id name : String)
      (told : m.events = before ++ .closedCycle id name :: after)
      (quiet : ∀ e ∈ before, ¬ e.isClosedCycle)
      (refused : m' = ⟨before, .error (.closedCycle id name)⟩)

/-- A lenient computation beside the strict one, with the events about closed cycles that there are
    to tell. -/
structure Tracks (cycles : List (Event K)) (lenient strict : Logged K NetworkError α) : Prop where
  told : lenient.events.filter Event.isClosedCycle <+: cycles
  complete : ∀ a, lenient.result = .ok a → lenient.events.filter Event.isClosedCycle = cycles
  spared : ∀ e, lenient.result = .error e → ¬ e.IsClosedCycle
  stops : StopsAtCycle lenient strict

/-- A computation refuses no closed cycle. -/
def Spares (r : Except NetworkError α) : Prop :=
  ∀ e, r = .error e → ¬ e.IsClosedCycle

theorem StopsAtCycle.bind {m m' : Logged K NetworkError α} {f f' : α → Logged K NetworkError β}
    (h : StopsAtCycle m m') (hf : ∀ a, m.result = .ok a → StopsAtCycle (f a) (f' a)) :
    StopsAtCycle (m >>= f) (m' >>= f') := by
  cases h with
  | never same quiet =>
    subst same
    cases hresult : m'.result with
    | error e =>
      rw [Logged.bind_error hresult, Logged.bind_error hresult]
      exact .never rfl quiet
    | ok a =>
      rw [Logged.bind_ok hresult, Logged.bind_ok hresult]
      -- the second step is the first to tell about a cycle, if any
      cases hf a hresult with
      | never same' quiet' => exact .never (by rw [same']) (List.forall_mem_append.2 ⟨quiet, quiet'⟩)
      | first before after id name told quiet' refused =>
        refine .first (m'.events ++ before) after id name ?_ ?_ (by rw [refused])
        · show m'.events ++ (f a).events = _
          rw [told, List.append_assoc]
        · exact List.forall_mem_append.2 ⟨quiet, quiet'⟩
  | first before after id name told quiet refused =>
    -- the strict computation has ended already
    have hstrict : m' >>= f' = ⟨before, .error (.closedCycle id name)⟩ := by
      rw [refused]
      rfl
    cases hresult : m.result with
    | error e =>
      rw [Logged.bind_error hresult]
      exact .first before after id name told quiet hstrict
    | ok a =>
      rw [Logged.bind_ok hresult]
      refine .first before (after ++ (f a).events) id name ?_ quiet hstrict
      show m.events ++ (f a).events = _
      rw [told, List.append_assoc, List.cons_append]

namespace Tracks

variable {cycles cycles' : List (Event K)}

/-- What tells about no cycle, and refuses none, is the same in both runs. -/
theorem refl {m : Logged K NetworkError α} (hquiet : ∀ e ∈ m.events, ¬ e.isClosedCycle)
    (hspared : ∀ e, m.result = .error e → ¬ e.IsClosedCycle) : Tracks [] m m := by
  have hnone : m.events.filter Event.isClosedCycle = [] := List.filter_eq_nil_iff.2 hquiet
  exact ⟨hnone ▸ List.nil_prefix, fun _ _ => hnone, hspared, .never rfl hquiet⟩

theorem pure (a : α) : Tracks [] (pure a : Logged K NetworkError α) (Pure.pure a) :=
  refl (fun _ he => absurd he List.not_mem_nil) fun _ h => by cases h

theorem ofExcept {r : Except NetworkError α} (h : Spares r) :
    Tracks [] (.ofExcept r : Logged K NetworkError α) (.ofExcept r) :=
  refl (fun _ he => absurd he List.not_mem_nil) h

theorem bind {m m' : Logged K NetworkError α} {f f' : α → Logged K NetworkError β}
    (h : Tracks cycles m m') (hf : ∀ a, m.result = .ok a → Tracks cycles' (f a) (f' a)) :
    Tracks (cycles ++ cycles') (m >>= f) (m' >>= f') := by
  have hstops := h.stops.bind fun a ha => (hf a ha).stops
  cases hresult : m.result with
  | error e =>
    rw [Logged.bind_error hresult] at hstops ⊢
    refine ⟨h.told.trans (List.prefix_append _ _), ?_, ?_, hstops⟩
    · intro b hb
      cases hb
    · intro e' he'
      cases he'
      exact h.spared e hresult
  | ok a =>
    rw [Logged.bind_ok hresult] at hstops ⊢
    have hfilter : (m.events ++ (f a).events).filter Event.isClosedCycle =
        cycles ++ (f a).events.filter Event.isClosedCycle := by
      rw [List.filter_append, h.complete a hresult]
    refine ⟨?_, ?_, (hf a hresult).spared, hstops⟩
    · rw [hfilter, List.prefix_append_right_inj]
      exact (hf a hresult).told
    · intro b hb
      rw [hfilter, (hf a hresult).complete b hb]

/-- Nothing there is to tell about the first step. -/
theorem quiet_bind {m m' : Logged K NetworkError α} {f f' : α → Logged K NetworkError β}
    (h : Tracks [] m m') (hf : ∀ a, m.result = .ok a → Tracks cycles (f a) (f' a)) :
    Tracks cycles (m >>= f) (m' >>= f') := bind h hf

/-- Nothing there is to tell about what comes after the first step. -/
theorem bind_quiet {m m' : Logged K NetworkError α} {f f' : α → Logged K NetworkError β}
    (h : Tracks cycles m m') (hf : ∀ a, m.result = .ok a → Tracks [] (f a) (f' a)) :
    Tracks cycles (m >>= f) (m' >>= f') := by
  rw [← List.append_nil cycles]
  exact bind h hf

end Tracks

/-! ### Steps without references -/

section Spares

theorem spares_ok (a : α) : Spares (.ok a) := by
  intro e he
  cases he

theorem spares_map {r : Except NetworkError α} {f : α → β} (h : Spares r) : Spares (r.map f) :=
  fun e he => h e (map_eq_error.1 he)

theorem spares_bind {r : Except NetworkError α} {f : α → Except NetworkError β} (h : Spares r)
    (hf : ∀ a, Spares (f a)) : Spares (r >>= f) := by
  intro e he
  rcases bind_eq_error.1 he with he | ⟨a, -, he⟩
  · exact h e he
  · exact hf a e he

theorem spares_mapM {f : α → Except NetworkError β} (h : ∀ a, Spares (f a)) (xs : List α) :
    Spares (xs.mapM f) := by
  induction xs with
  | nil => exact spares_ok []
  | cons x xs ih =>
    rw [List.mapM_cons]
    exact spares_bind (h x) fun _ => spares_bind ih fun _ => spares_ok _

theorem spares_declaredPorts (kind : Kind) (p : Payload K) :
    Spares ((kind.declaredPorts p).mapError NetworkError.value) := by
  intro e he hcycle
  obtain ⟨id, name, rfl⟩ := hcycle
  cases hports : kind.declaredPorts p <;> rw [hports] at he <;> cases he

theorem spares_kind (n : PlacedNode K) : Spares n.kind := by
  intro e he hcycle
  obtain ⟨id, name, rfl⟩ := hcycle
  rw [PlacedNode.kind] at he
  cases htag : Kind.ofTag n.tag <;> rw [htag] at he <;> cases he

variable [Add K] [Div K] [One K] [Scalar K]

theorem spares_connectionPorts (d : Diagram K) : Spares d.connectionPorts := by
  have hexposed : ∀ n : PlacedNode K, Spares n.exposed := by
    intro n e he hcycle
    obtain ⟨id, name, rfl⟩ := hcycle
    rw [PlacedNode.exposed] at he
    split at he <;> cases he
  refine spares_bind (spares_bind ?_ fun _ => spares_mapM hexposed _) ?_
  · exact spares_mapM (fun n => spares_map (spares_map (spares_kind n))) _
  · intro nodes
    split <;> exact spares_ok _

omit [Add K] [Div K] [One K] [Scalar K] in
theorem spares_innerPort (target : Diagram K) (scope port : String) :
    Spares (innerPort target scope port) := by
  rw [innerPort]
  split
  · exact spares_ok _
  · exact spares_map (spares_kind _)

end Spares

/-! ### References -/

/-- What a reference leads back to is told or refused; everything else is alike in both runs. -/
theorem tracks_resolve {project : Project K} {stack : List String} {id : String} {v : Value K} :
    Tracks ((project.reentered? stack v).map (Event.closedCycle id)).toList
      (resolve project false stack id v) (resolve project true stack id v) := by
  -- a value that names no diagram is left out
  have hunknown : ∀ v : Value K, Tracks []
      (⟨[.unknownDiagram id v], .ok none⟩ : Logged K NetworkError (Option (Target project stack)))
      ⟨[.unknownDiagram id v], .ok none⟩ := by
    intro v
    refine .refl (fun e he => ?_) fun e he => by cases he
    cases List.mem_singleton.1 he
    exact Bool.false_ne_true
  have hname : ∀ e, (.error (.value .notAName) :
      Except NetworkError (Option (Target project stack))) = .error e → ¬ e.IsClosedCycle := by
    intro e he hcycle
    obtain ⟨id, name, rfl⟩ := hcycle
    cases he
  cases v with
  | text name =>
    cases hget : project.get? name with
    | none =>
      rw [resolve_text_of_none hget, resolve_text_of_none hget, Project.reentered?, hget]
      exact hunknown _
    | some t =>
      rw [Project.reentered?, hget, Option.bind_some]
      by_cases hs : t.id ∈ stack
      · rw [resolve_text_of_mem hget hs, resolve_text_of_mem hget hs, if_pos hs]
        refine ⟨List.prefix_rfl, fun _ _ => rfl, fun e he => (by cases he), ?_⟩
        exact .first [] [] id name rfl (fun e he => absurd he List.not_mem_nil) rfl
      · rw [resolve_text_of_notMem hget hs, resolve_text_of_notMem hget hs, if_neg hs]
        exact .pure _
  | null => exact .pure none
  | bool b => exact hunknown _
  | int n => exact hunknown _
  | real x => exact hunknown _
  | list entries => exact .ofExcept hname
  | object fields => exact .ofExcept hname

/-- Edges tell nothing about cycles. -/
theorem quiet_endEvents {slots : List Slot} {diagram : String} {edge : Edge}
    {stop : String × String} {e : Event K} (he : e ∈ endEvents slots diagram edge stop) :
    ¬ e.isClosedCycle := by
  rw [endEvents] at he
  split at he
  · cases List.mem_singleton.1 he
    exact Bool.false_ne_true
  · split at he
    · cases he
    · cases List.mem_singleton.1 he
      exact Bool.false_ne_true

/-! ### Nodes -/

variable [Add K] [Div K] [One K] [Scalar K]

/-- Node by node both runs go on, each counting the ids that are taken alike. -/
theorem tracks_inlineNodes {project : Project K} {stack : List String}
    {enter enter' : Enter project stack} {diagram scope : String}
    {own : PlacedNode K → List (Event K)}
    (h : ∀ n taken, Tracks (own n) (inlineNode project false stack enter diagram scope taken n)
      (inlineNode project true stack enter' diagram scope taken n))
    (seen : List Slot) (nodes : List (PlacedNode K)) (taken : List String) :
    Tracks ((unseen seen nodes).flatMap own)
      (inlineNodes project false stack enter diagram scope taken seen nodes)
      (inlineNodes project true stack enter' diagram scope taken seen nodes) := by
  induction nodes generalizing seen taken with
  | nil => exact .pure _
  | cons n rest ih =>
    rw [inlineNodes, inlineNodes]
    by_cases hn : seen.any (·.localId = n.id)
    · rw [unseen_cons_of_seen hn, if_pos hn, if_pos hn]
      refine .quiet_bind (.refl (fun e he => ?_) fun e he => by cases he) fun _ _ => ih seen taken
      cases List.mem_singleton.1 he
      exact Bool.false_ne_true
    · have hunseen : unseen seen (n :: rest) = n :: unseen (seen ++ [⟨n.id, [], []⟩]) rest :=
        unseen_cons_of_not_seen hn rfl
      rw [hunseen, List.flatMap_cons, if_neg hn, if_neg hn]
      refine .bind (h n taken) fun x hx => ?_
      -- the slot that the pass goes on with has the id of the node
      obtain ⟨flat, slot⟩ := x
      have hrest : unseen seen (n :: rest) = n :: unseen (seen ++ [slot]) rest :=
        unseen_cons_of_not_seen hn (localId_of_stepAt hx)
      rw [(List.cons.inj (hunseen.symm.trans hrest)).2]
      exact .bind_quiet (ih _ _) fun _ _ => .pure _

namespace Copy

variable {project : Project K} {c : Copy K}

theorem tracks_inlineNode (n : PlacedNode K)
    (ih : ∀ c', c.behind? project n = some c' → ∀ taken, Tracks (c'.cycleEvents project)
      (inline project false c'.stack c'.diagram c'.scope taken)
      (inline project true c'.stack c'.diagram c'.scope taken)) (taken : List String) :
    Tracks (c.ownCycle project n ++ (c.behind? project n).elim [] (cycleEvents project))
      (inlineNode project false c.stack (fun target scope taken =>
        inline project false (target.val.id :: c.stack) target.val scope taken) c.diagram.id c.scope
        taken n)
      (inlineNode project true c.stack (fun target scope taken =>
        inline project true (target.val.id :: c.stack) target.val scope taken) c.diagram.id c.scope
        taken n) := by
  unfold inlineNode
  by_cases hid : c.scope ++ n.id ∈ taken
  · simp only [hid, if_true]
    refine .quiet_bind (.refl (fun e he => by cases he) ?_) fun _ h => by cases h
    intro e he hcycle
    obtain ⟨id, name, rfl⟩ := hcycle
    cases he
  simp only [hid, if_false]
  refine .quiet_bind (.ofExcept (spares_kind n)) fun kind hkind => ?_
  have hkind : n.kind = .ok kind := hkind
  refine .quiet_bind (.ofExcept (spares_declaredPorts kind n.payload)) fun ports _ => ?_
  have hown : c.ownCycle project n =
      ((project.reentered? c.stack (kind.referencedDiagram n.payload)).map
        (Event.closedCycle (c.scope ++ n.id))).toList := by
    rw [ownCycle, PlacedNode.back?, hkind]
  rw [hown]
  refine .bind tracks_resolve fun found hfound => ?_
  obtain ⟨-, hfound⟩ := resolve_result.1 hfound
  have htarget : n.target? project c.stack = found := by
    rw [PlacedNode.target?, hkind, hfound]
  rw [behind?, htarget]
  cases found with
  | none => exact .pure _
  | some target =>
    have hb : c.behind? project n = some (c.inner n target.val) := by
      rw [behind?, htarget, Option.map_some]
    refine .bind_quiet (ih _ hb _) fun copy _ => ?_
    refine .quiet_bind (.ofExcept (spares_connectionPorts target.val)) fun exposed _ => ?_
    refine .quiet_bind (.ofExcept (spares_mapM (spares_innerPort _ _) _)) fun inner _ => ?_
    exact .pure _

/-- Level by level the lenient run tells what there is to tell about the cycles in a copy, and the
    strict one stops at the first of them. -/
theorem tracks_inline (c : Copy K) (taken : List String) :
    Tracks (c.cycleEvents project) (inline project false c.stack c.diagram c.scope taken)
      (inline project true c.stack c.diagram c.scope taken) := by
  induction c using Copy.induction project generalizing taken with
  | step c ih =>
    rw [inline, inline, cycleEvents_eq, Diagram.firsts, ← unseen_nil]
    have hnodes := tracks_inlineNodes (fun n taken => tracks_inlineNode n (ih n) taken) []
      c.diagram.nodes taken
    refine .bind_quiet hnodes fun x _ =>
      .quiet_bind (.refl ?_ fun e he => by cases he) fun _ _ => .pure _
    intro e he
    obtain ⟨edge, -, he⟩ := List.mem_flatMap.1 he
    obtain ⟨stop, -, he⟩ := List.mem_flatMap.1 he
    exact quiet_endEvents he

end Copy

namespace Diagram

variable {project : Project K} {d : Diagram K}

theorem tracks_flatten (project : Project K) (d : Diagram K) :
    Tracks ((d.closings project).map fun x => .closedCycle x.1.id x.2) (d.flatten project false)
      (d.flatten project true) := by
  rw [← cycleEvents_root]
  exact Copy.tracks_inline d.root []

/-- Where strict flattening ends well, no occurrence closes a cycle. -/
theorem closings_eq_nil {flat : Flat K} (h : (d.flatten project true).result = .ok flat) :
    d.closings project = [] := by
  have htracks := tracks_flatten project d
  cases htracks.stops with
  | never same quiet =>
    rw [same] at h
    have hnone : (d.flatten project false).events.filter Event.isClosedCycle = [] :=
      List.filter_eq_nil_iff.2 quiet
    rw [htracks.complete flat h] at hnone
    exact List.map_eq_nil_iff.1 hnone
  | first before after id name told quiet refused =>
    rw [refused] at h
    cases h

/-- Where strict flattening refuses a cycle, some occurrence closes one. -/
theorem closings_ne_nil {e : NetworkError} (h : (d.flatten project true).result = .error e)
    (he : e.IsClosedCycle) : d.closings project ≠ [] := by
  have htracks := tracks_flatten project d
  intro hnil
  cases htracks.stops with
  | never same quiet =>
    rw [same] at h
    exact htracks.spared e h he
  | first before after id name told quiet refused =>
    -- the event about the refused cycle is one too many
    have hprefix := htracks.told
    rw [hnil, List.map_nil, List.prefix_nil, List.filter_eq_nil_iff, told] at hprefix
    exact hprefix (.closedCycle id name) (List.mem_append_right _ List.mem_cons_self) rfl

end Diagram

/-- Where the lenient flattening tells about no closed cycle, the strict one is the same, with all
    events; otherwise it ends at the first cycle, with the events before it.  Where nothing else
    goes wrong, it fails exactly when references lead from the root to a cycle.  A lenient
    flattening that ends well tells once, and in order, about each occurrence whose node closes a
    cycle, and it lists nothing behind such a node. -/
theorem flatten_strict (project : Project K) (d : Diagram K) :
    ((∀ e ∈ (d.flatten project false).events, ¬ e.isClosedCycle) →
      d.flatten project true = d.flatten project false) ∧
    ((∃ e ∈ (d.flatten project false).events, e.isClosedCycle) →
      ∃ before after id name,
        (d.flatten project false).events = before ++ .closedCycle id name :: after ∧
        (∀ e ∈ before, ¬ e.isClosedCycle) ∧
        d.flatten project true = ⟨before, .error (.closedCycle id name)⟩) ∧
    ((∀ e, (d.flatten project true).result = .error e → e.IsClosedCycle) →
      ((∃ e, (d.flatten project true).result = .error e) ↔ d.ReachesCycle project)) ∧
    ∀ flat, (d.flatten project false).result = .ok flat →
      ∃ (os : List (Occurrence K)) (closings : List (Occurrence K × String)),
        flat.nodes = os.map Occurrence.flat ∧ (∀ o, o ∈ os ↔ o.IsIn project d) ∧
        (d.flatten project false).events.filter Event.isClosedCycle =
          closings.map (fun x => .closedCycle x.1.id x.2) ∧
        (closings.map (·.1)).Sublist os ∧ (closings.map (·.1)).Nodup ∧
        (∀ o name, (o, name) ∈ closings ↔ o.IsIn project d ∧ o.Closes project d name) ∧
        ∀ x ∈ closings, ∀ o ∈ os, ∀ r : Passage K, r.ref = x.1.node → ¬ x.1.way ++ [r] <+: o.way := by
  have htracks := Diagram.tracks_flatten project d
  refine ⟨?_, ?_, ?_, ?_⟩
  · intro hquiet
    cases htracks.stops with
    | never same quiet => exact same
    | first before after id name told quiet refused =>
      rw [told] at hquiet
      exact absurd rfl (hquiet (.closedCycle id name) (List.mem_append_right _ List.mem_cons_self))
  · intro h
    obtain ⟨e, he, hcycle⟩ := h
    cases htracks.stops with
    | never same quiet => exact absurd hcycle (quiet e he)
    | first before after id name told quiet refused =>
      exact ⟨before, after, id, name, told, quiet, refused⟩
  · intro honly
    rw [← Diagram.closings_ne_nil_iff]
    cases hresult : (d.flatten project true).result with
    | ok flat => simp [Diagram.closings_eq_nil hresult]
    | error e => simp [Diagram.closings_ne_nil hresult (honly e hresult)]
  · intro flat hflat
    obtain ⟨rfl, -, -⟩ := Diagram.flatten_eq_ok.1 hflat
    refine ⟨d.root.occurrences project, d.closings project, Diagram.nodes_root,
      fun o => Diagram.mem_occurrences_root, htracks.complete _ hflat, Diagram.closings_sublist,
      Diagram.closings_sublist.nodup Diagram.nodup_occurrences_root,
      fun o name => Diagram.mem_closings, ?_⟩
    intro x hx o ho r hr hprefix
    obtain ⟨-, hcloses⟩ := Diagram.mem_closings.1 hx
    exact not_prefix_of_closes hcloses (Diagram.mem_occurrences_root.1 ho) hr hprefix

/-- A diagram with a reference to itself. -/
def Diagram.loop : Diagram ℚ := ⟨"loop", "loop", [.reference "r" "loop"], []⟩

/-- Strict flattening refuses the loop, and the other one tells about it and leaves it out. -/
theorem flatten_strict_loop :
    Diagram.loop.ReachesCycle (.ofList [.loop]) ∧
      (Diagram.loop.flatten (.ofList [.loop]) true).result = .error (.closedCycle "r" "loop") ∧
      ∃ flat : Flat ℚ, (Diagram.loop.flatten (.ofList [.loop]) false).result = .ok flat ∧
        flat.ids = ["r"] := by
  have hstrict : (Diagram.loop.flatten (.ofList [.loop]) true).result.map Flat.ids =
      .error (.closedCycle "r" "loop") := by
    decide +kernel
  have hlenient : (Diagram.loop.flatten (.ofList [.loop]) false).result.map Flat.ids =
      .ok ["r"] := by
    decide +kernel
  have hrefused := map_eq_error.1 hstrict
  obtain ⟨flat, hflat, hids⟩ := map_eq_ok.1 hlenient
  have honly : ∀ e, (Diagram.loop.flatten (.ofList [.loop]) true).result = .error e →
      e.IsClosedCycle := by
    intro e he
    exact ⟨"r", "loop", Except.error.inj (he.symm.trans hrefused)⟩
  obtain ⟨-, -, hcycle, -⟩ := flatten_strict (.ofList [.loop]) Diagram.loop
  exact ⟨(hcycle honly).1 ⟨_, hrefused⟩, hrefused, flat, hflat, hids⟩

end NetBalance
