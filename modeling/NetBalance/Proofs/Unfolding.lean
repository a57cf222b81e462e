import NetBalance.Network.Inlining
import NetBalance.Proofs.Keys
import Mathlib.Logic.Relation

/-! # The unfolding of a diagram

    Flattening walks through copies of diagrams: the root, and below each copy
    one copy for every reference that leads to a diagram not yet on the way
    down.  The unfolding says without errors or taken ids what such a walk
    collects.  Flattening ends well exactly when every node on the way can be
    read and no id occurs twice, and it then returns the unfolding. -/

namespace NetBalance

variable {K : Type}

/-! ### Nodes that count -/

/-- Of several nodes with one id keep the first. -/
def keepFirst : List (PlacedNode K) → List (PlacedNode K)
  | [] => []
  | n :: rest => n :: (keepFirst rest).filter (·.id ≠ n.id)

/-- The nodes of a diagram that are not dropped as duplicates. -/
def Diagram.firsts (d : Diagram K) : List (PlacedNode K) := keepFirst d.nodes

theorem find?_keepFirst (nodes : List (PlacedNode K)) (id : String) :
    (keepFirst nodes).find? (·.id = id) = nodes.find? (·.id = id) := by
  induction nodes with
  | nil => rfl
  | cons n rest ih =>
    rw [keepFirst, List.find?_cons, List.find?_cons]
    -- those that the first node rules out have its id, which is not the one in question
    by_cases h : n.id = id
    · simp [h]
    · simp only [h, decide_false, ← ih, List.find?_filter]
      congr 1
      funext m
      by_cases hm : m.id = id
      · simp [hm, Ne.symm h]
      · simp [hm]

theorem nodup_keepFirst (nodes : List (PlacedNode K)) : ((keepFirst nodes).map (·.id)).Nodup := by
  induction nodes with
  | nil => exact List.nodup_nil
  | cons n rest ih =>
    rw [keepFirst, List.map_cons, List.nodup_cons]
    refine ⟨?_, ih.sublist (List.filter_sublist.map _)⟩
    intro h
    obtain ⟨m, hm, hid⟩ := List.mem_map.1 h
    exact of_decide_eq_true (List.mem_filter.1 hm).2 hid

/-- Among nodes with distinct ids none is dropped. -/
theorem keepFirst_of_nodup {nodes : List (PlacedNode K)} (h : (nodes.map (·.id)).Nodup) :
    keepFirst nodes = nodes := by
  induction nodes with
  | nil => rfl
  | cons n rest ih =>
    rw [List.map_cons, List.nodup_cons] at h
    rw [keepFirst, ih h.2, List.filter_eq_self.2]
    intro m hm
    exact decide_eq_true fun hid => h.1 (hid ▸ List.mem_map_of_mem hm)

/-- Nodes are dropped as duplicates whatever else changes in them. -/
theorem keepFirst_map {f : PlacedNode K → PlacedNode K} (hf : ∀ n, (f n).id = n.id)
    (nodes : List (PlacedNode K)) : keepFirst (nodes.map f) = (keepFirst nodes).map f := by
  induction nodes with
  | nil => rfl
  | cons n rest ih =>
    rw [List.map_cons, keepFirst, keepFirst, List.map_cons, ih, List.filter_map]
    simp only [Function.comp_def, hf]

theorem keepFirst_subset (nodes : List (PlacedNode K)) : keepFirst nodes ⊆ nodes := by
  induction nodes with
  | nil => exact List.Subset.refl _
  | cons n rest ih =>
    intro m hm
    rcases List.mem_cons.1 hm with rfl | hm
    · exact List.mem_cons_self
    · exact List.mem_cons_of_mem n (ih (List.mem_filter.1 hm).1)

namespace Diagram

variable {d : Diagram K} {n : PlacedNode K} {id : String}

theorem find?_firsts : d.firsts.find? (·.id = id) = d.node? id := find?_keepFirst d.nodes id

theorem nodup_firsts (d : Diagram K) : (d.firsts.map (·.id)).Nodup := nodup_keepFirst d.nodes

/-- A node counts when it is the first with its id. -/
theorem mem_firsts_iff : n ∈ d.firsts ↔ d.node? n.id = some n := by
  rw [← find?_firsts, find?_key_eq_some_iff d.nodup_firsts, and_iff_left rfl]

theorem id_of_node? (h : d.node? id = some n) : n.id = id := key_of_find? h

theorem mem_firsts_of_node? (h : d.node? id = some n) : n ∈ d.firsts :=
  mem_firsts_iff.2 (id_of_node? h ▸ h)

/-- Under the id of a node there is a first one. -/
theorem exists_node? (hn : n ∈ d.nodes) : ∃ first, d.node? n.id = some first :=
  Option.isSome_iff_exists.1 (List.find?_isSome.2 ⟨n, hn, decide_eq_true rfl⟩)

end Diagram

/-! ### References -/

theorem Project.isTarget_of_get? {project : Project K} {stack : List String} {name : String}
    {target : Diagram K} (h : project.get? name = some target) (hs : target.id ∉ stack) :
    target ∈ project.diagrams ∧ target.id ∉ stack :=
  ⟨List.mem_of_find?_eq_some h, hs⟩

/-- The diagram that a value names, as long as it may be entered. -/
def Project.enterable? (project : Project K) (stack : List String) :
    Value K → Option (Target project stack)
  | .text name =>
    match h : project.get? name with
    | none => none
    | some target =>
      if hs : target.id ∈ stack then none else some ⟨target, isTarget_of_get? h hs⟩
  | _ => none

/-- A name leads to the diagram that has it, unless that one is on the way down already. -/
theorem Project.enterable?_text {project : Project K} {stack : List String} {name : String}
    {target : Target project stack} :
    project.enterable? stack (.text name) = some target ↔ project.get? name = some target.val := by
  simp only [enterable?]
  split
  · next h => simp [h]
  · next found h =>
    have hfound : project.get? name = some target.val ↔ found = target.val := by
      rw [h, Option.some.injEq]
    rw [hfound]
    -- a diagram on the way down is not entered
    by_cases hs : found.id ∈ stack
    · rw [dif_pos hs]
      constructor
      · intro e
        cases e
      · intro e
        exact absurd (e ▸ hs) target.property.2
    · rw [dif_neg hs, Option.some.injEq, Subtype.ext_iff]

theorem Project.enterable?_text_eq_none {project : Project K} {stack : List String}
    {name : String} :
    project.enterable? stack (.text name) = none ↔
      ∀ target, project.get? name = some target → target.id ∈ stack := by
  rw [Option.eq_none_iff_forall_ne_some]
  constructor
  · intro h target ht
    by_contra hs
    exact h ⟨target, List.mem_of_find?_eq_some ht, hs⟩ (Project.enterable?_text.2 ht)
  · intro h target ht
    exact target.property.2 (h _ (Project.enterable?_text.1 ht))

/-- Looking for the diagram that a value names raises no error. -/
def Project.Resolves (project : Project K) (strict : Bool) (stack : List String) : Value K → Prop
  | .list _ | .object _ => False
  | .text name => strict = true → ∀ target, project.get? name = some target → target.id ∉ stack
  | .null | .bool _ | .int _ | .real _ => True

section Resolve

variable {project : Project K} {strict : Bool} {stack : List String} {id name : String}
  {d : Diagram K}

theorem resolve_text_of_none (h : project.get? name = none) :
    resolve project strict stack id (.text name) =
      ⟨[.unknownDiagram id (.text name)], .ok none⟩ := by
  rw [resolve]
  split
  · rfl
  · next d hd =>
    rw [h] at hd
    cases hd

theorem resolve_text_of_mem (h : project.get? name = some d) (hs : d.id ∈ stack) :
    resolve project strict stack id (.text name) =
      if strict then ⟨[], .error (.closedCycle id name)⟩
      else ⟨[.closedCycle id name], .ok none⟩ := by
  rw [resolve]
  split
  · next hnone =>
    rw [hnone] at h
    cases h
  · next d' hd =>
    obtain rfl : d' = d := Option.some.inj (hd.symm.trans h)
    rw [dif_pos hs]
    cases strict <;> rfl

theorem resolve_text_of_notMem (h : project.get? name = some d) (hs : d.id ∉ stack) :
    resolve project strict stack id (.text name) =
      ⟨[], .ok (some ⟨d, List.mem_of_find?_eq_some h, hs⟩)⟩ := by
  rw [resolve]
  split
  · next hnone =>
    rw [hnone] at h
    cases h
  · next d' hd =>
    obtain rfl : d' = d := Option.some.inj (hd.symm.trans h)
    rw [dif_neg hs]
    rfl

theorem resolve_result {v : Value K} {found : Option (Target project stack)} :
    (resolve project strict stack id v).result = .ok found ↔
      project.Resolves strict stack v ∧ found = project.enterable? stack v := by
  cases v with
  | text name =>
    cases hd : project.get? name with
    | none =>
      have hnone : project.enterable? stack (.text name) = none :=
        Project.enterable?_text_eq_none.2 fun target ht => absurd (hd.symm.trans ht) (by simp)
      simp [resolve_text_of_none hd, Project.Resolves, hd, hnone, eq_comm]
    | some d =>
      by_cases hs : d.id ∈ stack
      · have hnone : project.enterable? stack (.text name) = none :=
          Project.enterable?_text_eq_none.2 fun other ho => Option.some.inj (hd.symm.trans ho) ▸ hs
        cases strict <;>
          simp [resolve_text_of_mem hd hs, Project.Resolves, hd, hs, hnone, eq_comm]
      · have hsome : project.enterable? stack (.text name) =
            some ⟨d, List.mem_of_find?_eq_some hd, hs⟩ := Project.enterable?_text.2 hd
        simp [resolve_text_of_notMem hd hs, Project.Resolves, hd, hs, hsome, eq_comm]
  | null => simp [resolve, Project.Resolves, Project.enterable?, eq_comm]
  | list entries => simp [resolve, Project.Resolves]
  | object fields => simp [resolve, Project.Resolves]
  | bool b => simp [resolve, Project.Resolves, Project.enterable?, Except.map, eq_comm]
  | int n => simp [resolve, Project.Resolves, Project.enterable?, Except.map, eq_comm]
  | real x => simp [resolve, Project.Resolves, Project.enterable?, Except.map, eq_comm]

end Resolve

/-! ### Copies -/

/-- A diagram as it is inlined at one place: under a scope, with the diagrams on the way down. -/
structure Copy (K : Type) where
  diagram : Diagram K
  scope : String
  stack : List String

namespace PlacedNode

/-- The diagram that is inlined in the place of a node, if any. -/
def target? (n : PlacedNode K) (project : Project K) (stack : List String) :
    Option (Target project stack) :=
  match n.kind with
  | .ok kind => project.enterable? stack (kind.referencedDiagram n.payload)
  | .error _ => none

/-- The flattened node of a placed one under a scope. -/
def flat (n : PlacedNode K) (scope : String) : FlatNode K :=
  ⟨scope ++ n.id, n.id, scope, n.kind.toOption.getD .reference, n.payload, []⟩

theorem kind_flat {n : PlacedNode K} {kind : Kind} (h : n.kind = .ok kind) (scope : String) :
    (n.flat scope).kind = kind := by
  simp [flat, h, Except.toOption]

/-- Only a node of unknown kind is flattened under a kind that is not its own. -/
theorem kind_of_flat {n : PlacedNode K} {kind : Kind} {scope : String}
    (h : (n.flat scope).kind = kind) (hne : kind ≠ .reference) : n.kind = .ok kind := by
  cases hk : n.kind with
  | error e =>
    refine absurd ?_ hne
    simp [← h, flat, hk, Except.toOption]
  | ok other => rw [← h, kind_flat hk]

end PlacedNode

namespace Copy

variable {project : Project K}

/-- The copy of a diagram that stands in the place of a node. -/
def inner (c : Copy K) (n : PlacedNode K) (target : Diagram K) : Copy K :=
  ⟨target, c.scope ++ n.id ++ ".", target.id :: c.stack⟩

/-- What is inlined in the place of a node, if anything. -/
def behind? (c : Copy K) (project : Project K) (n : PlacedNode K) : Option (Copy K) :=
  (n.target? project c.stack).map fun target => c.inner n target.val

/-- The copies below a copy and the copy itself, in the order in which their edges are read. -/
def descendants (project : Project K) (c : Copy K) : List (Copy K) :=
  (c.diagram.firsts.flatMap fun n =>
    match n.target? project c.stack with
    | none => []
    | some target => descendants project (c.inner n target.val)) ++ [c]
termination_by (project.outside c.stack).length
decreasing_by exact Project.length_outside_lt target

/-- The flattened nodes of a copy, each reference followed by those of what it stands for. -/
def nodes (project : Project K) (c : Copy K) : List (FlatNode K) :=
  c.diagram.firsts.flatMap fun n => n.flat c.scope ::
    match n.target? project c.stack with
    | none => []
    | some target => nodes project (c.inner n target.val)
termination_by (project.outside c.stack).length
decreasing_by exact Project.length_outside_lt target

/-- The copies in the place of a node. -/
def below (project : Project K) (c : Copy K) (n : PlacedNode K) : List (Copy K) :=
  (c.behind? project n).elim [] (descendants project)

/-- A node with all that stands in its place. -/
def branch (project : Project K) (c : Copy K) (n : PlacedNode K) : List (FlatNode K) :=
  n.flat c.scope :: (c.behind? project n).elim [] (nodes project)

theorem descendants_eq (c : Copy K) :
    c.descendants project = c.diagram.firsts.flatMap (c.below project) ++ [c] := by
  rw [descendants]
  -- by cases on what stands behind the node
  congr 2
  funext n
  simp only [below, behind?]
  split <;> simp_all

theorem nodes_eq (c : Copy K) : c.nodes project = c.diagram.firsts.flatMap (c.branch project) := by
  rw [nodes]
  congr 1
  funext n
  simp only [branch, behind?]
  split <;> simp_all

/-- One copy is inlined in the place of a node of another. -/
def Enters (project : Project K) (c c' : Copy K) : Prop :=
  ∃ n ∈ c.diagram.firsts, c.behind? project n = some c'

/-- Induction along the way down: each step enters a diagram that is not on the way yet. -/
theorem induction (project : Project K) {motive : Copy K → Prop}
    (step : ∀ c : Copy K, (∀ n c', c.behind? project n = some c' → motive c') → motive c)
    (c : Copy K) : motive c :=
  step c fun _ c' _ => induction project step c'
termination_by (project.outside c.stack).length
decreasing_by
  next h =>
  obtain ⟨target, -, rfl⟩ := Option.map_eq_some_iff.1 h
  exact Project.length_outside_lt target

theorem mem_below {c c' : Copy K} {n : PlacedNode K} :
    c' ∈ c.below project n ↔ ∃ c₁, c.behind? project n = some c₁ ∧ c' ∈ c₁.descendants project := by
  rw [below]
  cases c.behind? project n <;> simp

theorem mem_descendants_iff {c c' : Copy K} :
    c' ∈ c.descendants project ↔
      c' = c ∨ ∃ c₁, c.Enters project c₁ ∧ c' ∈ c₁.descendants project := by
  rw [descendants_eq, List.mem_append, List.mem_singleton, List.mem_flatMap, or_comm]
  refine or_congr_right ?_
  constructor
  · intro h
    obtain ⟨n, hn, h⟩ := h
    obtain ⟨c₁, hc₁, h⟩ := mem_below.1 h
    exact ⟨c₁, ⟨n, hn, hc₁⟩, h⟩
  · intro h
    obtain ⟨c₁, ⟨n, hn, hc₁⟩, h⟩ := h
    exact ⟨n, hn, mem_below.2 ⟨c₁, hc₁, h⟩⟩

theorem forall_descendants {c : Copy K} {motive : Copy K → Prop} :
    (∀ d ∈ c.descendants project, motive d) ↔
      motive c ∧ ∀ n ∈ c.diagram.firsts, ∀ d ∈ c.below project n, motive d := by
  simp only [descendants_eq, List.mem_append, List.mem_singleton, List.mem_flatMap]
  constructor
  · intro h
    exact ⟨h c (Or.inr rfl), fun n hn d hd => h d (Or.inl ⟨n, hn, hd⟩)⟩
  · rintro ⟨hc, h⟩ d (⟨n, hn, hd⟩ | rfl)
    · exact h n hn d hd
    · exact hc

/-- The copies below a copy are those that a chain of references leads to. -/
theorem mem_descendants {c c' : Copy K} :
    c' ∈ c.descendants project ↔ Relation.ReflTransGen (Enters project) c c' := by
  induction c using Copy.induction project with
  | step c ih =>
    -- a chain is empty or starts with a step to a copy below
    rw [mem_descendants_iff, Relation.ReflTransGen.cases_head_iff, eq_comm]
    refine or_congr_right (exists_congr fun c₁ => and_congr_right ?_)
    intro h
    obtain ⟨n, -, h⟩ := h
    exact ih n c₁ h

end Copy

/-! ### Ports and links of a copy -/

/-- The ports that a node declares in its payload. -/
def PlacedNode.ownPorts (n : PlacedNode K) : List String :=
  match n.kind with
  | .ok kind =>
    match kind.declaredPorts n.payload with
    | .ok ports => ports
    | .error _ => []
  | .error _ => []

theorem PlacedNode.ownPorts_of_source {n : PlacedNode K} (h : n.kind = .ok .source) :
    n.ownPorts = ["a", "b"] := by
  simp [ownPorts, h, Kind.declaredPorts, Kind.listedPorts, Kind.sourceTerminals, Value.isAtom, pure,
    Except.pure]

/-- A connection port is a source. -/
theorem PlacedNode.kind_of_isConnectionPort [Scalar K] {n : PlacedNode K}
    (h : n.isConnectionPort = .ok true) : n.kind = .ok .source := by
  obtain ⟨kind, hkind, hport⟩ := map_eq_ok.1 h
  cases kind with
  | source => exact hkind
  | sum => simp [Kind.isConnectionPort] at hport
  | product => simp [Kind.isConnectionPort] at hport
  | reference => simp [Kind.isConnectionPort] at hport

variable [Add K] [Div K] [One K] [Scalar K]

namespace Diagram

/-- The ids of the connection ports of a diagram, the left column first. -/
def exposedIds (d : Diagram K) : List String :=
  match d.connectionPorts with
  | .ok ports => ports.all
  | .error _ => []

/-- The connection terminal of the first node with an id. -/
def terminal (d : Diagram K) (id : String) : PortName :=
  match d.node? id with
  | none => none
  | some n => (n.kind.toOption.map Kind.connectionTerminal).getD none

omit [Add K] [Div K] [One K] in
/-- Nodes are listed with what they say about themselves. -/
theorem mem_flagged {nodes : List (PlacedNode K)} {flagged : List (PlacedNode K × Bool)}
    (h : nodes.mapM (fun n => n.isConnectionPort.map (n, ·)) = .ok flagged) {n : PlacedNode K}
    {flag : Bool} : (n, flag) ∈ flagged ↔ n ∈ nodes ∧ n.isConnectionPort = .ok flag := by
  rw [mapM_eq_ok] at h
  -- membership is easier to follow among the results of the steps
  have hlift : (n, flag) ∈ flagged ↔
      (.ok (n, flag) : Except NetworkError (PlacedNode K × Bool)) ∈ flagged.map .ok := by
    simp
  rw [hlift, ← h, List.mem_map]
  constructor
  · intro h
    obtain ⟨m, hm, hflag⟩ := h
    obtain ⟨flag', hport, hpair⟩ := map_eq_ok.1 hflag
    obtain ⟨rfl, rfl⟩ := Prod.mk.inj hpair
    exact ⟨hm, hport⟩
  · intro h
    obtain ⟨hn, hport⟩ := h
    exact ⟨n, hn, map_eq_ok.2 ⟨flag, hport, rfl⟩⟩

variable {d : Diagram K} {id : String}

omit [Add K] [Div K] [One K] in
/-- What shows up is read off the nodes that say they are connection ports. -/
theorem exposedNodes_eq_ok {exposed : List (ExposedNode K)} (h : d.exposedNodes = .ok exposed) :
    ∃ ports : List (PlacedNode K), ports.map PlacedNode.exposed = exposed.map .ok ∧
      ∀ n, n ∈ ports ↔ n ∈ d.nodes ∧ n.isConnectionPort = .ok true := by
  obtain ⟨flagged, hflagged, hexposed⟩ := bind_eq_ok.1 h
  refine ⟨_, mapM_eq_ok.1 hexposed, fun n => ?_⟩
  rw [← mem_flagged hflagged, List.mem_filterMap]
  simp

omit [Add K] [Div K] [One K] in
/-- What shows up can be read exactly when each node tells whether it is a connection port, and
    those that are have both coordinates. -/
theorem exists_exposedNodes_iff :
    (∃ exposed, d.exposedNodes = .ok exposed) ↔ ∀ n ∈ d.nodes, ∃ flag,
      n.isConnectionPort = .ok flag ∧ (flag = true → ∃ x, n.exposed = .ok x) := by
  constructor
  · rintro ⟨exposed, h⟩ n hn
    obtain ⟨flagged, hflagged, -⟩ := bind_eq_ok.1 h
    obtain ⟨ports, hports, hmem⟩ := exposedNodes_eq_ok h
    obtain ⟨pair, hpair⟩ := exists_map_eq_ok.1 ⟨flagged, mapM_eq_ok.1 hflagged⟩ n hn
    obtain ⟨flag, hflag, -⟩ := map_eq_ok.1 hpair
    refine ⟨flag, hflag, ?_⟩
    rintro rfl
    exact exists_map_eq_ok.1 ⟨exposed, hports⟩ n ((hmem n).2 ⟨hn, hflag⟩)
  · intro h
    -- all nodes tell whether they are ports, and then those that are have coordinates
    have hflags : ∀ n ∈ d.nodes, ∃ pair, n.isConnectionPort.map (n, ·) = .ok pair := by
      intro n hn
      obtain ⟨flag, hflag, -⟩ := h n hn
      exact ⟨_, map_eq_ok.2 ⟨flag, hflag, rfl⟩⟩
    obtain ⟨flagged, hflagged⟩ := exists_map_eq_ok.2 hflags
    rw [← mapM_eq_ok] at hflagged
    rw [exposedNodes, hflagged, ok_bind]
    simp only [mapM_eq_ok]
    refine exists_map_eq_ok.2 fun n hn => ?_
    have hport : (n, true) ∈ flagged := by simpa using hn
    obtain ⟨hn, hflag⟩ := (mem_flagged hflagged).1 hport
    obtain ⟨flag, hflag', hcoordinates⟩ := h n hn
    exact hcoordinates (Except.ok.inj (hflag'.symm.trans hflag))

/-- Where the columns can be made is where the nodes in them can be read. -/
theorem exists_connectionPorts_iff :
    (∃ ports, d.connectionPorts = .ok ports) ↔ ∃ exposed, d.exposedNodes = .ok exposed := by
  constructor
  · intro h
    obtain ⟨ports, h⟩ := h
    obtain ⟨exposed, hexposed, -⟩ := bind_eq_ok.1 h
    exact ⟨exposed, hexposed⟩
  · intro h
    obtain ⟨exposed, hexposed⟩ := h
    rw [connectionPorts, hexposed, ok_bind]
    split
    · exact ⟨_, rfl⟩
    · exact ⟨_, rfl⟩

/-- Where the connection ports of a diagram can be read, all its nodes have known kinds. -/
theorem kind_of_connectionPorts {ports : ConnectionPorts} (h : d.connectionPorts = .ok ports)
    {n : PlacedNode K} (hn : n ∈ d.nodes) : ∃ kind, n.kind = .ok kind := by
  have hread := exists_exposedNodes_iff.1 (exists_connectionPorts_iff.1 ⟨ports, h⟩)
  obtain ⟨flag, hflag, -⟩ := hread n hn
  obtain ⟨kind, hkind, -⟩ := map_eq_ok.1 hflag
  exact ⟨kind, hkind⟩

omit [Add K] [Div K] [One K] in
theorem exists_of_mem_columns {nodes : List (ExposedNode K)} {split : K}
    (h : id ∈ (ExposedNode.columns nodes split).all) : ∃ x ∈ nodes, x.id = id := by
  simp only [ExposedNode.columns, ConnectionPorts.all, ExposedNode.topToBottom, List.mem_append,
    List.mem_map, List.mem_filter, List.mem_mergeSort] at h
  rcases h with ⟨x, ⟨hx, -⟩, hid⟩ | ⟨x, ⟨hx, -⟩, hid⟩
  · exact ⟨x, hx, hid⟩
  · exact ⟨x, hx, hid⟩

omit [Add K] [Div K] [One K] in
/-- The nodes that show up are those that are connection ports. -/
theorem exists_of_mem_exposedNodes {exposed : List (ExposedNode K)}
    (h : d.exposedNodes = .ok exposed) {x : ExposedNode K} (hx : x ∈ exposed) :
    ∃ n ∈ d.nodes, n.id = x.id ∧ n.isConnectionPort = .ok true := by
  obtain ⟨ports, hports, hmem⟩ := exposedNodes_eq_ok h
  have hx' : (.ok x : Except NetworkError (ExposedNode K)) ∈ exposed.map .ok :=
    List.mem_map_of_mem hx
  rw [← hports] at hx'
  obtain ⟨n, hn, hnx⟩ := List.mem_map.1 hx'
  obtain ⟨hn, hport⟩ := (hmem n).1 hn
  refine ⟨n, hn, ?_, hport⟩
  rw [PlacedNode.exposed] at hnx
  split at hnx
  · rw [← Except.ok.inj hnx]
  · cases hnx

/-- A connection port is a source among the nodes of its diagram. -/
theorem exists_of_mem_exposedIds (h : id ∈ d.exposedIds) :
    ∃ n ∈ d.nodes, n.id = id ∧ n.isConnectionPort = .ok true := by
  rw [exposedIds] at h
  cases hports : d.connectionPorts with
  | error e =>
    rw [hports] at h
    exact absurd h List.not_mem_nil
  | ok ports =>
    rw [hports] at h
    obtain ⟨exposed, hexposed, hcolumns⟩ := bind_eq_ok.1 hports
    split at hcolumns
    · obtain rfl := Except.ok.inj hcolumns
      exact absurd h List.not_mem_nil
    · obtain rfl := Except.ok.inj hcolumns
      obtain ⟨x, hx, rfl⟩ := exists_of_mem_columns h
      exact exists_of_mem_exposedNodes hexposed hx

theorem node?_of_mem_exposedIds (h : id ∈ d.exposedIds) : ∃ n, d.node? id = some n := by
  obtain ⟨n, hn, rfl, -⟩ := exists_of_mem_exposedIds h
  exact exists_node? hn

/-- Where ids are distinct, the node behind a connection port is the source itself. -/
theorem source_of_mem_exposedIds (h : (d.nodes.map (·.id)).Nodup) (hid : id ∈ d.exposedIds) :
    ∃ n, d.node? id = some n ∧ n.kind = .ok .source ∧ d.terminal id = some "a" := by
  obtain ⟨n, hn, rfl, hport⟩ := exists_of_mem_exposedIds hid
  have hfirsts : d.firsts = d.nodes := keepFirst_of_nodup h
  have hnode : d.node? n.id = some n := mem_firsts_iff.1 (hfirsts ▸ hn)
  have hkind := n.kind_of_isConnectionPort hport
  refine ⟨n, hnode, hkind, ?_⟩
  simp [terminal, hnode, hkind, Except.toOption, Kind.connectionTerminal]

end Diagram

namespace Copy

variable {project : Project K}

/-- The port behind a port of a reference: a copy's terminal of that name. -/
def port (c : Copy K) (id : String) : Port := ⟨c.scope ++ id, c.diagram.terminal id⟩

/-- What edges may use of a node of the copy. -/
def slot (c : Copy K) (project : Project K) (n : PlacedNode K) : Slot :=
  match c.behind? project n with
  | none => ⟨n.id, n.ownPorts, []⟩
  | some c' => ⟨n.id, c'.diagram.exposedIds, c'.diagram.exposedIds.map fun id => (id, c'.port id)⟩

theorem slot_of_none {c : Copy K} {n : PlacedNode K} (h : c.behind? project n = none) :
    c.slot project n = ⟨n.id, n.ownPorts, []⟩ := by
  rw [slot, h]

theorem slot_of_some {c c' : Copy K} {n : PlacedNode K} (h : c.behind? project n = some c') :
    c.slot project n = ⟨n.id, c'.diagram.exposedIds,
      c'.diagram.exposedIds.map fun id => (id, c'.port id)⟩ := by
  rw [slot, h]

def slots (c : Copy K) (project : Project K) : List Slot := c.diagram.firsts.map (c.slot project)

/-- The links that the edges of the copy add. -/
def links (c : Copy K) (project : Project K) : List Link :=
  levelLinks c.scope (c.slots project) c.diagram.edges

/-- What flattening collects from a copy. -/
def unfold (project : Project K) (c : Copy K) : Flat K :=
  ⟨c.nodes project, (c.descendants project).flatMap (·.links project)⟩

theorem unfold_eq (c : Copy K) :
    c.unfold project = ⟨c.diagram.firsts.flatMap (c.branch project),
      (c.diagram.firsts.flatMap fun n => (c.below project n).flatMap (·.links project)) ++
        c.links project⟩ := by
  rw [unfold, nodes_eq, descendants_eq, List.flatMap_append, List.flatMap_assoc,
    List.flatMap_singleton]

end Copy

/-! ### Reading a node -/

namespace Copy

variable {project : Project K} {strict : Bool}

/-- A node can be flattened where it stands: its kind is known, its ports and its reference can be
    read, and so can the connection ports of the diagram that it stands for. -/
structure Reads (c : Copy K) (project : Project K) (strict : Bool) (n : PlacedNode K) : Prop where
  kind : ∃ kind ports, n.kind = .ok kind ∧ kind.declaredPorts n.payload = .ok ports ∧
    project.Resolves strict c.stack (kind.referencedDiagram n.payload)
  exposed : ∀ c', c.behind? project n = some c' → ∃ ports, c'.diagram.connectionPorts = .ok ports

/-- Every node of the copy that counts can be flattened there. -/
def IsSound (project : Project K) (strict : Bool) (c : Copy K) : Prop :=
  ∀ n ∈ c.diagram.firsts, c.Reads project strict n

theorem mapM_innerPort {c : Copy K} {ports : ConnectionPorts}
    (h : c.diagram.connectionPorts = .ok ports) :
    ports.all.mapM (innerPort c.diagram c.scope) =
      .ok (ports.all.map fun id => (id, c.port id)) := by
  rw [mapM_eq_ok, List.map_map]
  refine List.map_congr_left fun id _ => ?_
  simp only [innerPort, Function.comp_apply, port, Diagram.terminal]
  cases hn : c.diagram.node? id with
  | none => rfl
  | some n =>
    obtain ⟨kind, hkind⟩ := Diagram.kind_of_connectionPorts h (List.mem_of_find?_eq_some hn)
    simp [hkind, Except.map, Except.toOption]

end Copy

end NetBalance
