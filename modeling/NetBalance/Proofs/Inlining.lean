import NetBalance.Proofs.Unfolding

/-! # Flattening returns the unfolding

    The pass over the nodes of a diagram skips duplicates; what it returns is
    what a pass over the nodes that count returns.  Such a pass ends well
    exactly when each node can be read and no id is taken, and it then returns
    the unfolding, level by level down the references. -/

namespace NetBalance

variable {K : Type}

/-! ### Taken ids -/

/-- The ids of the nodes are distinct and none of them is taken. -/
def Fresh (taken : List String) (nodes : List (FlatNode K)) : Prop :=
  (nodes.map (·.id)).Nodup ∧ ∀ n ∈ nodes, n.id ∉ taken

theorem fresh_cons {taken : List String} {n : FlatNode K} {nodes : List (FlatNode K)} :
    Fresh taken (n :: nodes) ↔ n.id ∉ taken ∧ Fresh (n.id :: taken) nodes := by
  rw [Fresh, Fresh, List.map_cons, List.nodup_cons, List.forall_mem_cons]
  simp only [List.mem_map, not_exists, not_and, List.mem_cons, not_or]
  constructor
  · intro h
    obtain ⟨⟨hn, hnodup⟩, hid, hfree⟩ := h
    exact ⟨hid, hnodup, fun m hm => ⟨hn m hm, hfree m hm⟩⟩
  · intro h
    obtain ⟨hid, hnodup, hfree⟩ := h
    exact ⟨⟨fun m hm => (hfree m hm).1, hnodup⟩, hid, fun m hm => (hfree m hm).2⟩

theorem fresh_append {taken : List String} {nodes others : List (FlatNode K)} :
    Fresh taken (nodes ++ others) ↔
      Fresh taken nodes ∧ Fresh (nodes.map (·.id) ++ taken) others := by
  simp only [Fresh, List.map_append, List.nodup_append, List.mem_append, not_or]
  -- what must be distinct in the whole is distinct in each part, and the parts do not meet
  constructor
  · intro h'
    obtain ⟨⟨hnodes, hothers, hdisj⟩, hfree⟩ := h'
    refine ⟨⟨hnodes, fun n hn => hfree n (Or.inl hn)⟩, hothers, fun n hn => ?_⟩
    refine ⟨?_, hfree n (Or.inr hn)⟩
    intro h
    exact hdisj _ h _ (List.mem_map_of_mem hn) rfl
  · intro h
    obtain ⟨⟨hnodes, hfree⟩, hothers, hfree'⟩ := h
    refine ⟨⟨hnodes, hothers, ?_⟩, ?_⟩
    · rintro _ hid _ hid' rfl
      obtain ⟨n, hn, hn'⟩ := List.mem_map.1 hid'
      exact (hfree' n hn).1 (hn' ▸ hid)
    · rintro n (hn | hn)
      · exact hfree n hn
      · exact (hfree' n hn).2

/-! ### A pass without duplicates -/

/-- Flatten nodes in a row, each beside the ids of those before it. -/
def inlineAll (step : List String → PlacedNode K → Except NetworkError (Flat K × Slot)) :
    List String → List (PlacedNode K) → Except NetworkError (Flat K × List Slot)
  | _, [] => .ok (.empty, [])
  | taken, n :: rest => do
    let (own, slot) ← step taken n
    let (others, slots) ← inlineAll step (own.ids ++ taken) rest
    .ok (own ++ others, slot :: slots)

section Pass

variable {step step' : List String → PlacedNode K → Except NetworkError (Flat K × Slot)}
  {ns : List (PlacedNode K)}

/-- Two ways to flatten a node that list the same nodes, or fail alike, do so in a row. -/
theorem nodes_inlineAll_congr (h : ∀ n ∈ ns, ∀ taken,
      (step taken n).map (·.1.nodes) = (step' taken n).map (·.1.nodes)) (taken : List String) :
    (inlineAll step taken ns).map (·.1.nodes) = (inlineAll step' taken ns).map (·.1.nodes) := by
  induction ns generalizing taken with
  | nil => rfl
  | cons n rest ih =>
    rw [inlineAll, inlineAll, map_bind, map_bind]
    refine bind_congr_of_map (h n List.mem_cons_self taken) ?_
    intro own own' hnodes
    -- the nodes tell which ids are taken for the rest
    have hids : own.1.ids = own'.1.ids := by rw [Flat.ids, Flat.ids, hnodes]
    rw [map_bind, map_bind, hids]
    refine bind_congr_of_map (ih (fun m hm => h m (List.mem_cons_of_mem n hm)) _) ?_
    intro others others' hothers
    simp [Except.map, hnodes, hothers]

/-- When flattening a node ends well exactly if the node is good and its ids are free, so does a
    pass over many. -/
theorem inlineAll_eq_ok {slot : PlacedNode K → Slot} {branch : PlacedNode K → List (FlatNode K)}
    {links : PlacedNode K → List Link} {good : PlacedNode K → Prop}
    (h : ∀ n ∈ ns, ∀ taken own s, step taken n = .ok (own, s) ↔
      own = ⟨branch n, links n⟩ ∧ s = slot n ∧ good n ∧ Fresh taken (branch n))
    (taken : List String) (flat : Flat K) (slots : List Slot) :
    inlineAll step taken ns = .ok (flat, slots) ↔
      flat = ⟨ns.flatMap branch, ns.flatMap links⟩ ∧ slots = ns.map slot ∧ (∀ n ∈ ns, good n) ∧
        Fresh taken (ns.flatMap branch) := by
  -- node by node; the ids of each are taken for those after it
  induction ns generalizing taken flat slots with
  | nil => simp [inlineAll, Flat.empty, Fresh, eq_comm]
  | cons n rest ih =>
    have hn := h n List.mem_cons_self taken
    have hrest := ih fun m hm => h m (List.mem_cons_of_mem n hm)
    rw [inlineAll, List.flatMap_cons, List.flatMap_cons, List.map_cons, List.forall_mem_cons,
      fresh_append, bind_eq_ok]
    constructor
    · intro h
      obtain ⟨⟨own, s⟩, hown, h⟩ := h
      obtain ⟨⟨others, ss⟩, hothers, e⟩ := bind_eq_ok.1 h
      obtain ⟨rfl, rfl, hgood, hfresh⟩ := (hn own s).1 hown
      obtain ⟨rfl, rfl, hgoods, hfreshs⟩ := (hrest _ others ss).1 hothers
      obtain ⟨rfl, rfl⟩ := Prod.mk.inj (Except.ok.inj e)
      exact ⟨rfl, rfl, ⟨hgood, hgoods⟩, hfresh, hfreshs⟩
    · intro h
      obtain ⟨rfl, rfl, ⟨hgood, hgoods⟩, hfresh, hfreshs⟩ := h
      refine ⟨_, (hn _ _).2 ⟨rfl, rfl, hgood, hfresh⟩, bind_eq_ok.2 ?_⟩
      exact ⟨_, (hrest _ _ _).2 ⟨rfl, rfl, hgoods, hfreshs⟩, rfl⟩

end Pass

variable [Add K] [Div K] [One K] [Scalar K]

section Level

/-- The nodes that count and whose ids are not those of nodes before them. -/
def unseen (seen : List Slot) (nodes : List (PlacedNode K)) : List (PlacedNode K) :=
  (keepFirst nodes).filter fun n => !seen.any (·.localId = n.id)

variable {project : Project K} {strict : Bool} {stack : List String}
  {enter : Enter project stack} {diagram scope : String} {taken : List String}

/-- The way a pass flattens one node. -/
def stepAt (project : Project K) (strict : Bool) (stack : List String)
    (enter : Enter project stack) (diagram scope : String) (taken : List String)
    (n : PlacedNode K) : Except NetworkError (Flat K × Slot) :=
  (inlineNode project strict stack enter diagram scope taken n).result

theorem stepAt_eq_ok {n : PlacedNode K} {own : Flat K} {slot : Slot} :
    stepAt project strict stack enter diagram scope taken n = .ok (own, slot) ↔
      scope ++ n.id ∉ taken ∧ ∃ kind ports, n.kind = .ok kind ∧
        kind.declaredPorts n.payload = .ok ports ∧
        project.Resolves strict stack (kind.referencedDiagram n.payload) ∧
        match n.target? project stack with
        | none => own = ⟨[n.flat scope], []⟩ ∧ slot = ⟨n.id, ports, []⟩
        | some target => ∃ copy exposed inner,
          (enter target (scope ++ n.id ++ ".") ((scope ++ n.id) :: taken)).result = .ok copy ∧
          target.val.connectionPorts = .ok exposed ∧
          exposed.all.mapM (innerPort target.val (scope ++ n.id ++ ".")) = .ok inner ∧
          own = ⟨n.flat scope :: copy.nodes, copy.links⟩ ∧ slot = ⟨n.id, exposed.all, inner⟩ := by
  unfold stepAt inlineNode
  -- in the order of the checks: the id, the kind, the ports, the reference
  by_cases hid : scope ++ n.id ∈ taken
  · simp [hid]
  cases hkind : n.kind with
  | error e => simp [hid]
  | ok kind =>
    cases hports : kind.declaredPorts n.payload with
    | error e => simp [hid, hports]
    | ok ports =>
      have hflat : n.flat scope = ⟨scope ++ n.id, n.id, scope, kind, n.payload, []⟩ := by
        simp [PlacedNode.flat, hkind, Except.toOption]
      have htarget : n.target? project stack =
          project.enterable? stack (kind.referencedDiagram n.payload) := by
        simp [PlacedNode.target?, hkind]
      simp only [hid, if_false, hports, hflat, htarget, ok_mapError, Logged.bind_result,
        Logged.ofExcept_result, ok_bind, bind_eq_ok, resolve_result]
      cases hfound : project.enterable? stack (kind.referencedDiagram n.payload) with
      | none => simp [hports, @eq_comm _ own, @eq_comm _ slot]
      | some target =>
        simp [hports, bind_eq_ok, map_eq_ok, @eq_comm _ own, @eq_comm _ slot]

/-- A node that was flattened has left its id in its slot. -/
theorem localId_of_stepAt {n : PlacedNode K} {own : Flat K} {slot : Slot}
    (h : stepAt project strict stack enter diagram scope taken n = .ok (own, slot)) :
    slot.localId = n.id := by
  obtain ⟨-, kind, ports, -, -, -, h⟩ := stepAt_eq_ok.1 h
  cases htarget : n.target? project stack with
  | none =>
    rw [htarget] at h
    rw [h.2]
  | some target =>
    rw [htarget] at h
    obtain ⟨copy, exposed, inner, -, -, -, -, rfl⟩ := h
    rfl

omit [Add K] [Div K] [One K] [Scalar K] in
theorem unseen_nil (nodes : List (PlacedNode K)) : unseen [] nodes = keepFirst nodes := by
  simp [unseen]

omit [Add K] [Div K] [One K] [Scalar K] in
/-- A duplicate is left out; those with its id are out of the rest anyway. -/
theorem unseen_cons_of_seen {seen : List Slot} {n : PlacedNode K} {rest : List (PlacedNode K)}
    (hn : seen.any (·.localId = n.id)) : unseen seen (n :: rest) = unseen seen rest := by
  rw [unseen, keepFirst, List.filter_cons, if_neg (by simp [hn]), List.filter_filter, unseen]
  refine List.filter_congr fun m _ => ?_
  by_cases hm : m.id = n.id
  · simp [hm, hn]
  · simp [hm]

omit [Add K] [Div K] [One K] [Scalar K] in
/-- The first node with its id counts, and those with its id are out of the rest. -/
theorem unseen_cons_of_not_seen {seen : List Slot} {slot : Slot} {n : PlacedNode K}
    {rest : List (PlacedNode K)} (hn : ¬ seen.any (·.localId = n.id)) (hslot : slot.localId = n.id) :
    unseen seen (n :: rest) = n :: unseen (seen ++ [slot]) rest := by
  rw [unseen, keepFirst, List.filter_cons, if_pos (by simp [hn]), List.filter_filter, unseen]
  congr 1
  refine List.filter_congr fun m _ => ?_
  simp [hslot, eq_comm]

/-- Behind the nodes that were seen, the pass over the others reads those that count. -/
theorem inlineNodes_result (seen : List Slot) (nodes : List (PlacedNode K)) (taken : List String) :
    (inlineNodes project strict stack enter diagram scope taken seen nodes).result =
      (inlineAll (stepAt project strict stack enter diagram scope) taken (unseen seen nodes)).map
        fun (flat, slots) => (flat, seen ++ slots) := by
  induction nodes generalizing seen taken with
  | nil => simp [inlineNodes, unseen, keepFirst, inlineAll, Except.map]
  | cons n rest ih =>
    rw [inlineNodes]
    by_cases hn : seen.any (·.localId = n.id)
    · -- the event about the duplicate does not count for the result
      rw [unseen_cons_of_seen hn]
      simp only [hn, if_true, Logged.bind_result, Logged.tell_result, ok_bind, ih]
    · simp only [hn, Bool.false_eq_true, if_false, Logged.bind_result, Logged.pure_result]
      cases hs : stepAt project strict stack enter diagram scope taken n with
      | error e =>
        have hslot : (⟨n.id, [], []⟩ : Slot).localId = n.id := rfl
        rw [unseen_cons_of_not_seen hn hslot, inlineAll, hs]
        rw [stepAt] at hs
        simp [hs, Except.map]
      | ok own =>
        obtain ⟨own, slot⟩ := own
        rw [unseen_cons_of_not_seen hn (localId_of_stepAt hs), inlineAll, hs]
        rw [stepAt] at hs
        simp only [hs, ok_bind, ih]
        cases inlineAll (stepAt project strict stack enter diagram scope) (own.ids ++ taken)
          (unseen (seen ++ [slot]) rest) with
        | error e => rfl
        | ok others => simp [Except.map]

end Level

/-! ### The descent -/

namespace Copy

variable {project : Project K} {strict : Bool} {c : Copy K}

/-- Flatten a copy beside the ids that are taken. -/
def flattenAt (project : Project K) (strict : Bool) (c : Copy K) (taken : List String) :
    Except NetworkError (Flat K) :=
  (inline project strict c.stack c.diagram c.scope taken).result

/-- How the pass over the nodes of a copy flattens one of them. -/
def step (project : Project K) (strict : Bool) (c : Copy K) :
    List String → PlacedNode K → Except NetworkError (Flat K × Slot) :=
  stepAt project strict c.stack
    (fun target scope taken =>
      inline project strict (target.val.id :: c.stack) target.val scope taken)
    c.diagram.id c.scope

/-- A copy is flattened by a pass over the nodes that count, and then its edges are read. -/
theorem flattenAt_eq (taken : List String) :
    c.flattenAt project strict taken =
      (inlineAll (c.step project strict) taken c.diagram.firsts).map fun (flat, slots) =>
        ⟨flat.nodes, flat.links ++ levelLinks c.scope slots c.diagram.edges⟩ := by
  rw [flattenAt, inline, inlineLevel, Logged.bind_result, inlineNodes_result, unseen_nil,
    ← Diagram.firsts]
  simp only [step, List.nil_append, Logged.bind_result, Logged.tellAll_result, Logged.pure_result]
  cases inlineAll _ taken c.diagram.firsts <;> rfl

/-- The nodes that flattening one node of a copy lists. -/
theorem nodes_step (n : PlacedNode K) (taken : List String) :
    (c.step project strict taken n).map (·.1.nodes) =
      if c.scope ++ n.id ∈ taken then
        .error (.idTaken n.id c.diagram.id (c.scope ++ n.id))
      else do
        let kind ← n.kind
        let _ ← (kind.declaredPorts n.payload).mapError NetworkError.value
        let target? ← (resolve project strict c.stack (c.scope ++ n.id)
          (kind.referencedDiagram n.payload)).result
        match target? with
        | some target => do
          let copy ← (c.inner n target.val).flattenAt project strict ((c.scope ++ n.id) :: taken)
          let _ ← target.val.connectionPorts
          return n.flat c.scope :: copy.nodes
        | none => return [n.flat c.scope] := by
  rw [step, stepAt, inlineNode]
  -- in the order of the checks, each of which may end the step
  by_cases hid : c.scope ++ n.id ∈ taken
  · simp [hid, Except.map]
  simp only [hid, if_false]
  cases hkind : n.kind with
  | error e => simp [Except.map]
  | ok kind =>
    have hflat : n.flat c.scope = ⟨c.scope ++ n.id, n.id, c.scope, kind, n.payload, []⟩ := by
      simp [PlacedNode.flat, hkind, Except.toOption]
    cases hports : (kind.declaredPorts n.payload).mapError NetworkError.value with
    | error e => simp [hports, Except.map]
    | ok ports =>
      simp only [hflat, Logged.bind_result, Logged.ofExcept_result, ok_bind, hports]
      cases hres : (resolve project strict c.stack (c.scope ++ n.id)
        (kind.referencedDiagram n.payload)).result with
      | error e => simp [Except.map]
      | ok found =>
        cases found with
        | none => rfl
        | some target =>
          simp only [ok_bind, Logged.bind_result, Logged.ofExcept_result]
          show Except.map _ ((c.inner n target.val).flattenAt project strict _ >>= _) = _
          cases (c.inner n target.val).flattenAt project strict ((c.scope ++ n.id) :: taken) with
          | error e => simp [Except.map]
          | ok copy =>
            cases hexposed : target.val.connectionPorts with
            | error e => simp [Except.map]
            | ok exposed =>
              have hinner := mapM_innerPort (c := c.inner n target.val) hexposed
              simp only [inner] at hinner
              simp [Except.map, hinner]

/-- Flattening one node of a copy, in terms of what stands behind it. -/
theorem step_eq_ok {n : PlacedNode K} {taken : List String} {own : Flat K} {s : Slot} :
    c.step project strict taken n = .ok (own, s) ↔
      c.scope ++ n.id ∉ taken ∧ c.Reads project strict n ∧ s = c.slot project n ∧
        match c.behind? project n with
        | none => own = ⟨[n.flat c.scope], []⟩
        | some c' => ∃ copy, c'.flattenAt project strict ((c.scope ++ n.id) :: taken) = .ok copy ∧
          own = ⟨n.flat c.scope :: copy.nodes, copy.links⟩ := by
  rw [step, stepAt_eq_ok]
  refine and_congr_right fun _ => ?_
  cases htarget : n.target? project c.stack with
  | none =>
    have hnone : c.behind? project n = none := by rw [behind?, htarget, Option.map_none]
    simp only [hnone, slot_of_none hnone]
    constructor
    · intro h'
      obtain ⟨kind, ports, hkind, hports, hres, rfl, rfl⟩ := h'
      refine ⟨⟨⟨kind, ports, hkind, hports, hres⟩, fun c' h => ?_⟩, ?_, rfl⟩
      · exact absurd (hnone.symm.trans h) (by simp)
      simp only [PlacedNode.ownPorts, hkind, hports]
    · intro h
      obtain ⟨⟨⟨kind, ports, hkind, hports, hres⟩, -⟩, rfl, rfl⟩ := h
      refine ⟨kind, ports, hkind, hports, hres, rfl, ?_⟩
      simp only [PlacedNode.ownPorts, hkind, hports]
  | some target =>
    have hsome : c.behind? project n = some (c.inner n target.val) := by
      rw [behind?, htarget, Option.map_some]
    -- the ports of the slot are those that the target exposes
    have hslot : ∀ exposed, target.val.connectionPorts = .ok exposed → c.slot project n =
        ⟨n.id, exposed.all, exposed.all.map fun id => (id, (c.inner n target.val).port id)⟩ := by
      intro exposed hexposed
      rw [slot_of_some hsome]
      simp only [Diagram.exposedIds, Copy.inner, hexposed]
    simp only [hsome]
    constructor
    · intro h'
      obtain ⟨kind, ports, hkind, hports, hres, copy, exposed, inner, hcopy, hexposed, hinner,
        rfl, rfl⟩ := h'
      refine ⟨⟨⟨kind, ports, hkind, hports, hres⟩, fun c' h => ?_⟩, ?_, copy, hcopy, rfl⟩
      · exact Option.some.inj (hsome.symm.trans h) ▸ ⟨exposed, hexposed⟩
      · have hall := mapM_innerPort (c := c.inner n target.val) hexposed
        rw [hslot exposed hexposed, Except.ok.inj (hinner.symm.trans hall)]
    · intro h
      obtain ⟨⟨⟨kind, ports, hkind, hports, hres⟩, hreads⟩, rfl, copy, hcopy, rfl⟩ := h
      obtain ⟨exposed, hexposed⟩ := hreads _ hsome
      exact ⟨kind, ports, hkind, hports, hres, copy, exposed, _, hcopy, hexposed,
        mapM_innerPort (c := c.inner n target.val) hexposed, rfl, hslot exposed hexposed⟩

/-- Flattening one node returns its branch, once the copy behind it flattens to its unfolding. -/
theorem step_eq_ok_branch {n : PlacedNode K}
    (ih : ∀ c', c.behind? project n = some c' → ∀ taken flat,
      c'.flattenAt project strict taken = .ok flat ↔ flat = c'.unfold project ∧
        (∀ d ∈ c'.descendants project, d.IsSound project strict) ∧ Fresh taken (c'.nodes project))
    (taken : List String) (own : Flat K) (s : Slot) :
    c.step project strict taken n = .ok (own, s) ↔
      own = ⟨c.branch project n, (c.below project n).flatMap (·.links project)⟩ ∧
        s = c.slot project n ∧
        (c.Reads project strict n ∧ ∀ d ∈ c.below project n, d.IsSound project strict) ∧
        Fresh taken (c.branch project n) := by
  rw [step_eq_ok, branch, below, fresh_cons]
  cases hbehind : c.behind? project n with
  -- nothing is inlined, and the node is its own branch
  | none =>
    simp only [Option.elim_none, List.flatMap_nil, List.not_mem_nil, false_implies, implies_true,
      and_true, Fresh, List.map_nil, List.nodup_nil]
    constructor
    · intro h
      obtain ⟨hid, hreads, rfl, rfl⟩ := h
      exact ⟨rfl, rfl, hreads, hid⟩
    · intro h
      obtain ⟨rfl, rfl, hreads, hid⟩ := h
      exact ⟨hid, hreads, rfl, rfl⟩
  | some c' =>
    simp only [ih c' hbehind, Option.elim_some]
    constructor
    · intro h
      obtain ⟨hid, hreads, rfl, _, ⟨rfl, hsound, hfresh⟩, rfl⟩ := h
      exact ⟨rfl, rfl, ⟨hreads, hsound⟩, hid, hfresh⟩
    · intro h
      obtain ⟨rfl, rfl, ⟨hreads, hsound⟩, hid, hfresh⟩ := h
      exact ⟨hid, hreads, rfl, _, ⟨rfl, hsound, hfresh⟩, rfl⟩

/-- A copy can be flattened exactly when all copies below it are sound and no id occurs twice; the
    result is its unfolding. -/
theorem flattenAt_eq_ok (taken : List String) (flat : Flat K) :
    c.flattenAt project strict taken = .ok flat ↔ flat = c.unfold project ∧
      (∀ d ∈ c.descendants project, d.IsSound project strict) ∧
      Fresh taken (c.nodes project) := by
  induction c using Copy.induction project generalizing taken flat with
  | step c ih =>
    -- what stands behind a node flattens to its unfolding, by induction on the way down
    have hstep : ∀ n ∈ c.diagram.firsts, ∀ taken own s,
        c.step project strict taken n = .ok (own, s) ↔
          own = ⟨c.branch project n, (c.below project n).flatMap (·.links project)⟩ ∧
          s = c.slot project n ∧
          (c.Reads project strict n ∧ ∀ d ∈ c.below project n, d.IsSound project strict) ∧
          Fresh taken (c.branch project n) := by
      intro n _
      exact step_eq_ok_branch (ih n)
    have hall := inlineAll_eq_ok hstep
    rw [flattenAt_eq, map_eq_ok, forall_descendants, unfold_eq, nodes_eq]
    constructor
    · intro h
      obtain ⟨⟨flat, slots⟩, hflat, rfl⟩ := h
      obtain ⟨rfl, rfl, hgood, hfresh⟩ := (hall taken flat slots).1 hflat
      exact ⟨rfl, ⟨fun n hn => (hgood n hn).1, fun n hn => (hgood n hn).2⟩, hfresh⟩
    · intro h
      obtain ⟨rfl, ⟨hsound, hbelow⟩, hfresh⟩ := h
      exact ⟨_, (hall taken _ _).2 ⟨rfl, rfl, fun n hn => ⟨hsound n hn, hbelow n hn⟩, hfresh⟩, rfl⟩

end Copy

namespace Diagram

variable {project : Project K} {strict : Bool} {d : Diagram K}

/-- The copy that flattening starts with. -/
def root (d : Diagram K) : Copy K := ⟨d, "", [d.id]⟩

theorem flatten_result : (d.flatten project strict).result = d.root.flattenAt project strict [] :=
  rfl

/-- A diagram can be flattened exactly when every copy is sound and no id occurs twice; the result
    is the unfolding. -/
theorem flatten_eq_ok {flat : Flat K} :
    (d.flatten project strict).result = .ok flat ↔ flat = d.root.unfold project ∧
      (∀ c ∈ d.root.descendants project, c.IsSound project strict) ∧
      ((d.root.nodes project).map (·.id)).Nodup := by
  rw [flatten_result, Copy.flattenAt_eq_ok, Fresh]
  simp

end Diagram

end NetBalance
