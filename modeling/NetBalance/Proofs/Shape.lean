import NetBalance.Proofs.Failures
import NetBalance.Proofs.History

/-! # The shape of a system

    In a network that was built the two terminals of a source are at one net,
    or at none.  So a node contributes one equation or none, which one can see
    without reading any values, and a system has a row for each node that
    contributes, in order.  Its shape does not depend on where it is taken:
    a solve that is refused for the shape is refused with its first step, and
    for a square system the choice between elimination and least squares does
    not come up. -/

namespace NetBalance

variable {K : Type}

/-! ### Nodes that contribute an equation -/

namespace Kind

/-- Whether a terminal of a source is at a net. -/
def isConnected (net? : PortName → Option Nat) : Bool :=
  sourceTerminals.any fun t => (net? (some t)).isSome

/-- Whether a port of a row is at a net. -/
def rowIsConnected (net? : PortName → Option Nat) (p : Payload K) (key : String) : Bool :=
  (row p key).toOption.any fun listed =>
    listed.any fun v => ((portName? v).toOption.join.bind net?).isSome

end Kind

/-- Whether the node contributes an equation: a locked source at a net, a sum with a connected port
    in one of its rows, or a product with one in each. -/
def FlatNode.contributes [Zero K] [One K] [Scalar K] (m : FlatNode K) : Bool :=
  match m.kind with
  | .source => Kind.isLocked m.payload && Kind.isConnected m.net?
  | .sum => Kind.rowIsConnected m.net? m.payload "top_ports" ||
      Kind.rowIsConnected m.net? m.payload "bottom_ports"
  | .product => Kind.rowIsConnected m.net? m.payload "top_ports" &&
      Kind.rowIsConnected m.net? m.payload "bottom_ports"
  | .reference => false

namespace Kind

variable {net? : PortName → Option Nat} {p : Payload K} {key : String} {is : List Nat}

theorem any_eq_isEmpty_filterMap {listed : List (Value K)} {names : List (Option PortName)}
    (h : listed.map portName? = names.map .ok) :
    (listed.any fun v => ((portName? v).toOption.join.bind net?).isSome) =
      !(names.filterMap fun name => name.bind net?).isEmpty := by
  induction listed generalizing names with
  | nil =>
    obtain rfl := List.map_eq_nil_iff.1 h.symm
    rfl
  | cons v listed ih =>
    cases names with
    | nil => cases h
    | cons name names =>
      rw [List.map_cons, List.map_cons, List.cons.injEq] at h
      rw [List.any_cons, ih h.2, h.1, List.filterMap_cons]
      show ((name.bind net?).isSome || _) = _
      cases name.bind net? with
      | none => rfl
      | some i => rfl

theorem rowIsConnected_eq (h : rowNets net? p key = .ok is) :
    rowIsConnected net? p key = !is.isEmpty := by
  obtain ⟨listed, hlisted, h⟩ := bind_eq_ok.1 h
  obtain ⟨names, hnames, h⟩ := bind_eq_ok.1 h
  obtain rfl := Except.ok.inj h
  rw [rowIsConnected, hlisted]
  exact any_eq_isEmpty_filterMap (mapM_eq_ok.1 hnames)

theorem terminalNets_eq (h : net? (some "a") = net? (some "b")) :
    terminalNets net? = (net? (some "a")).toList := by
  rw [terminalNets, sourceTerminals]
  simp only [List.filterMap_cons, List.filterMap_nil, ← h]
  cases net? (some "a") with
  | none => rfl
  | some i => simp [List.eraseDups_cons]

theorem isConnected_eq (h : net? (some "a") = net? (some "b")) :
    isConnected net? = (net? (some "a")).isSome := by
  rw [isConnected, sourceTerminals]
  simp [← h]

/-- A source whose terminals are at one net, or at none, has one equation if it is locked there. -/
theorem length_equations_source [Zero K] [One K] [Scalar K] {es : List (Equation K)}
    (hterminals : net? (some "a") = net? (some "b")) (hes : Kind.source.equations p net? = .ok es) :
    es.length = if isLocked p && isConnected net? then 1 else 0 := by
  rw [equations, terminalNets_eq hterminals] at hes
  rw [isConnected_eq hterminals]
  by_cases hlocked : isLocked p
  · rw [if_pos hlocked] at hes
    obtain ⟨v, -, hes⟩ := bind_eq_ok.1 hes
    obtain rfl := Except.ok.inj hes
    rw [List.length_map, hlocked]
    cases net? (some "a") with
    | none => rfl
    | some i => rfl
  · rw [if_neg hlocked] at hes
    -- there is one net at most, and nothing to equate it with
    have hes : es = [] := by
      cases hnet : net? (some "a") with
      | none =>
        rw [hnet] at hes
        exact (Except.ok.inj hes).symm
      | some i =>
        rw [hnet] at hes
        exact (Except.ok.inj hes).symm
    simp [hes, hlocked]

end Kind

/-- A node whose terminals are at one net contributes one equation or none. -/
theorem FlatNode.length_equations [Zero K] [One K] [Scalar K] {m : FlatNode K}
    {es : List (Equation K)} (hterminals : m.kind = .source → m.net? (some "a") = m.net? (some "b"))
    (hes : m.equations = .ok es) : es.length = if m.contributes then 1 else 0 := by
  rw [equations] at hes
  rw [contributes]
  cases hkind : m.kind with
  | source =>
    rw [hkind] at hes
    exact Kind.length_equations_source (hterminals hkind) hes
  | sum =>
    rw [hkind] at hes
    obtain ⟨top, htop, hes⟩ := bind_eq_ok.1 hes
    obtain ⟨bottom, hbottom, hes⟩ := bind_eq_ok.1 hes
    obtain rfl := Except.ok.inj hes
    simp only [Kind.rowIsConnected_eq htop, Kind.rowIsConnected_eq hbottom]
    cases top.isEmpty <;> cases bottom.isEmpty <;> rfl
  | product =>
    rw [hkind] at hes
    obtain ⟨top, htop, hes⟩ := bind_eq_ok.1 hes
    obtain ⟨bottom, hbottom, hes⟩ := bind_eq_ok.1 hes
    obtain rfl := Except.ok.inj hes
    simp only [Kind.rowIsConnected_eq htop, Kind.rowIsConnected_eq hbottom]
    cases top.isEmpty <;> cases bottom.isEmpty <;> rfl
  | reference =>
    rw [hkind] at hes
    obtain rfl := Except.ok.inj hes
    rfl

/-! ### Sources in networks that were built -/

section Built

variable [Add K] [Div K] [Zero K] [One K] [Scalar K] {project : Project K} {strict : Bool}
  {d : Diagram K} {default : K} {net : Network K} {m : FlatNode K}
  (h : (d.build project strict default).result = .ok net) (hm : m ∈ net.nodes)
include h hm

/-- The two terminals of a source are at one net, or both at none. -/
theorem Diagram.terminals_of_build (hkind : m.kind = .source) :
    m.net? (some "a") = m.net? (some "b") := by
  obtain ⟨-, hnet⟩ := build_eq_ok.1 h
  have hmem := hm
  rw [Topology.nodes_network hnet] at hmem
  obtain ⟨fresh, hfresh, hrecord⟩ := List.mem_map.1 hmem
  have hid : m.id = fresh.id := by
    rw [← hrecord, FlatNode.id_recordNets]
  have hfreshKind : fresh.kind = .source := by
    rw [← hkind, ← hrecord, FlatNode.kind_recordNets]
  have hfolded : _ ∨ (d.root.unfold project).joined.graph.Adjacent _ _ :=
    Topology.terminals_foldAliases hfresh hfreshKind
  rcases hfolded with ⟨ha, hb⟩ | hadjacent
  · -- no net lists either of them
    have hnone : ∀ t, fresh.terminal t ∉ (d.root.unfold project).joined.graph.ports →
        m.net? (some t) = none := by
      intro t ht
      rw [Option.eq_none_iff_forall_ne_some]
      intro i hi
      obtain ⟨n, hn, hmember⟩ := (net?_of_build h hm).1 hi
      rw [hid] at hmember
      exact ht ((Topology.isListed_iff hnet).1 ⟨n, List.mem_of_getElem? hn, hmember⟩)
    rw [hnone "a" ha, hnone "b" hb]
  · -- one net lists them both
    obtain ⟨n, hn, ha, hb⟩ := (Topology.exists_net_iff hnet).2
      ⟨hadjacent.mem_ports, hadjacent.joined⟩
    obtain ⟨i, hi⟩ := List.mem_iff_getElem?.1 hn
    have hsome : ∀ t, fresh.terminal t ∈ n.members → m.net? (some t) = some i := by
      intro t ht
      rw [net?_of_build h hm, hid]
      exact ⟨n, hi, ht⟩
    rw [hsome "a" ha, hsome "b" hb]

end Built

/-! ### Systems -/

/-- The sources of the equations are the nodes that contribute one, in order. -/
theorem map_fst_equationsOf [Zero K] [One K] [Scalar K] {nodes : List (FlatNode K)}
    {es : List (String × Equation K)}
    (hnodes : ∀ m ∈ nodes, m.kind = .source → m.net? (some "a") = m.net? (some "b"))
    (hes : equationsOf nodes = .ok es) :
    es.map (·.1) = (nodes.filter FlatNode.contributes).map (·.id) := by
  induction nodes generalizing es with
  | nil =>
    obtain rfl := Except.ok.inj hes
    rfl
  | cons m nodes ih =>
    rw [List.forall_mem_cons] at hnodes
    obtain ⟨own, others, hown, hothers, rfl⟩ := equationsOf_cons_eq_ok.1 hes
    have hlength := m.length_equations hnodes.1 hown
    rw [List.map_append, ih hnodes.2 hothers, List.map_map]
    cases hcontributes : m.contributes with
    | true =>
      rw [hcontributes] at hlength
      obtain ⟨e, rfl⟩ := List.length_eq_one_iff.1 hlength
      rw [List.filter_cons_of_pos hcontributes]
      rfl
    | false =>
      rw [hcontributes] at hlength
      obtain rfl := List.length_eq_zero_iff.1 hlength
      rw [List.filter_cons_of_neg (by simp [hcontributes])]
      rfl

variable [Add K] [Sub K] [Mul K] [Div K] [Neg K] [Zero K] [One K] [Scalar K]

namespace Network

variable {net : Network K} {x y : Array K} {s t : EquationSystem K net.size}

omit [Div K] in
theorem sources_of_assemble (h : net.assemble x = .ok s) :
    ∃ es, equationsOf net.nodes = .ok es ∧ s.sources = es.map (·.1) := by
  obtain ⟨es, hes, -, hrows⟩ := assemble_eq_ok.1 h
  refine ⟨es, hes, ?_⟩
  rw [EquationSystem.sources, ← hrows, List.map_map]
  rfl

omit [Div K] in
/-- All systems of a network have the same sources. -/
theorem sources_eq (hs : net.assemble x = .ok s) (ht : net.assemble y = .ok t) :
    s.sources = t.sources := by
  obtain ⟨es, hes, hs⟩ := sources_of_assemble hs
  obtain ⟨es', hes', ht⟩ := sources_of_assemble ht
  obtain rfl := Except.ok.inj (hes.symm.trans hes')
  rw [hs, ht]

omit [Div K] in
theorem length_rows_eq (hs : net.assemble x = .ok s) (ht : net.assemble y = .ok t) :
    s.rows.length = t.rows.length := by
  have hlength := congrArg List.length (sources_eq hs ht)
  simpa [EquationSystem.sources] using hlength

omit [Div K] in
/-- The rows of a system come from the nodes that contribute, in order. -/
theorem sources_of_terminals
    (hnodes : ∀ m ∈ net.nodes, m.kind = .source → m.net? (some "a") = m.net? (some "b"))
    (h : net.assemble x = .ok s) :
    s.sources = (net.nodes.filter FlatNode.contributes).map (·.id) := by
  obtain ⟨es, hes, hsources⟩ := sources_of_assemble h
  rw [hsources, map_fst_equationsOf hnodes hes]

omit [Div K] in
theorem length_rows_of_terminals
    (hnodes : ∀ m ∈ net.nodes, m.kind = .source → m.net? (some "a") = m.net? (some "b"))
    (h : net.assemble x = .ok s) : s.rows.length = net.nodes.countP FlatNode.contributes := by
  have hlength := congrArg List.length (sources_of_terminals hnodes h)
  simpa [EquationSystem.sources, List.countP_eq_length_filter] using hlength

/-- Each system has as many equations as there are nets. -/
def IsSquare (net : Network K) : Prop := ∀ x s, net.assemble x = .ok s → s.rows.length = net.size

omit [Div K] in
theorem isSquare_of_assemble (hs : net.assemble x = .ok s) (h : s.rows.length = net.size) :
    net.IsSquare := by
  intro y t ht
  rw [length_rows_eq ht hs, h]

end Network

/-! ### Systems that are refused for their shape -/

namespace LinearOperator

variable {m n rows cols : Nat}

theorem ofMatrix_eq_notSquare (a : RowMatrix K m n) (tolerance : K) (allowLeastSquares : Bool) :
    ofMatrix a tolerance allowLeastSquares = .error (.notSquare rows cols) ↔
      m ≠ n ∧ allowLeastSquares = false ∧ m = rows ∧ n = cols := by
  by_cases hsquare : m = n
  · subst hsquare
    have hother : ofMatrix a tolerance allowLeastSquares ≠ .error (.notSquare rows cols) := by
      intro h
      rw [ofMatrix, dif_pos rfl, map_eq_error, factor] at h
      split at h
      · cases h
      · simp only at h
        split at h
        · cases h
        · split at h
          · cases h
          · cases h
    exact iff_of_false hother fun h => h.1 rfl
  · rw [ofMatrix, dif_neg hsquare]
    cases allowLeastSquares with
    | true => simp
    | false => simp [hsquare]

omit [Neg K] in
theorem solve_ne_notSquare (op : LinearOperator K m n) (b : Vector K m) :
    op.solve b ≠ .error (.notSquare rows cols) := by
  intro h
  unfold solve at h
  split at h
  · cases h
  · cases op with
    | factored square f => cases h
    | leastSquares a =>
      simp only at h
      split at h
      · cases h
      · cases h

end LinearOperator

section Steps

variable {n rows cols : Nat} {cfg : SolverConfig K} {s : EquationSystem K n}

/-- A linear step is refused for the shape of the system exactly if this is not square and least
    squares are not allowed. -/
theorem newtonStep_eq_notSquare : cfg.newtonStep s = .error (.linear (.notSquare rows cols)) ↔
    s.rows.length ≠ n ∧ cfg.leastSquares = false ∧ s.rows.length = rows ∧ n = cols := by
  rw [SolverConfig.newtonStep, mapError_eq_error,
    ← LinearOperator.ofMatrix_eq_notSquare s.matrix cfg.singularTolerance]
  constructor
  · intro h
    obtain ⟨cause, hcause, heq⟩ := h
    cases heq
    rcases bind_eq_error.1 hcause with h | ⟨op, -, h⟩
    · exact h
    · exact absurd h (op.solve_ne_notSquare _)
  · intro h
    exact ⟨_, bind_eq_error.2 (Or.inl h), rfl⟩

/-- How systems that are not square are to be solved does not matter to square ones. -/
theorem newtonStep_of_square (h : s.rows.length = n) (allowLeastSquares : Bool) :
    SolverConfig.newtonStep { cfg with leastSquares := allowLeastSquares } s = cfg.newtonStep s := by
  rw [SolverConfig.newtonStep, SolverConfig.newtonStep, LinearOperator.ofMatrix,
    LinearOperator.ofMatrix, dif_pos h, dif_pos h]

variable {assemble : Vector K n → Except AssemblyError (EquationSystem K n)}
  {linearStep linearStep' : EquationSystem K n → Except (SolveError K) (Vector K n)}
  {state : NewtonState K n} {cause : LinearError K} {left : Nat}

omit [Sub K] [Div K] [Neg K] [One K] in
/-- A step that fails for its linear system gets as far as that. -/
theorem takeStep_eq_linear
    (h : takeStep cfg assemble linearStep state = .error (.solve (.linear cause))) :
    ∃ s, assemble state.x = .ok s ∧ linearStep s = .error (.linear cause) := by
  rw [takeStep] at h
  rcases bind_eq_error.1 h with h | ⟨s, hs, h⟩
  · obtain ⟨cause, -, h⟩ := mapError_eq_error.1 h
    cases h
  · refine ⟨s, mapError_eq_ok.1 hs, ?_⟩
    rcases bind_eq_error.1 h with h | ⟨⟨⟩, -, h⟩
    · obtain ⟨cause, hcause, h⟩ := mapError_eq_error.1 h
      cases h
      rw [EquationSystem.checkFinite] at hcause
      split at hcause
      · cases hcause
      · split at hcause
        · cases hcause
        · cases hcause
    · rcases bind_eq_error.1 h with h | ⟨delta, -, h⟩
      · obtain ⟨cause, hcause, h⟩ := mapError_eq_error.1 h
        cases h
        exact hcause
      · split at h
        · cases h
        · cases h

omit [Sub K] [Div K] [Neg K] [One K] in
/-- Two ways to solve linear systems that agree on those that come up take the same steps; how
    systems that are not square are to be solved does not matter beside. -/
theorem iterate_congr (h : ∀ x s, assemble x = .ok s → linearStep s = linearStep' s)
    (allowLeastSquares : Bool) :
    iterate { cfg with leastSquares := allowLeastSquares } assemble linearStep left state =
      iterate cfg assemble linearStep' left state := by
  have hstep : ∀ state,
      takeStep { cfg with leastSquares := allowLeastSquares } assemble linearStep state =
        takeStep cfg assemble linearStep' state := by
    intro state
    rw [takeStep, takeStep]
    cases hs : assemble state.x with
    | error e => rfl
    | ok s =>
      simp only [ok_mapError, ok_bind]
      rw [h _ s hs]
  induction left generalizing state with
  | zero => rw [iterate, iterate, hstep]
  | succ left ih =>
    rw [iterate, iterate, hstep]
    simp only [ih]

end Steps

/-! ### Solves -/

namespace Network

variable {net : Network K} {cfg : SolverConfig K} {events : List (Event K)} {rows cols : Nat}

/-- A solve that is refused for the shape of its system is refused with the first step. -/
theorem events_of_notSquare
    (h : net.solve cfg = ⟨events, .error (.solve (.linear (.notSquare rows cols)))⟩) :
    events = [] ∧ cols = net.size ∧ ∃ x s, net.assemble x = .ok s ∧ s.rows.length = rows := by
  rcases exists_takeStep_of_solve_error (congrArg Logged.result h) with h' | ⟨hsize, state, hstep⟩
  · cases h'
  · obtain ⟨s, hs, hlinear⟩ := takeStep_eq_linear hstep
    obtain ⟨hshape, hrefused, hrows, hcols⟩ := newtonStep_eq_notSquare.1 hlinear
    refine ⟨?_, hcols.symm, _, s, hs, hrows⟩
    cases hfirst : takeStep cfg (fun x => net.assemble x.toArray) cfg.newtonStep
        (.initial net.start) with
    | error e =>
      rw [solve_of_takeStep_error hsize hfirst] at h
      cases h
      rfl
    | ok r =>
      -- the first system is of the same shape
      obtain ⟨first, hassemble, hfirst⟩ := bind_eq_ok.1 hfirst
      obtain ⟨-, -, hfirst⟩ := bind_eq_ok.1 hfirst
      obtain ⟨delta, hdelta, -⟩ := bind_eq_ok.1 hfirst
      have hlength := length_rows_eq (mapError_eq_ok.1 hassemble) hs
      have herror : cfg.newtonStep first = .error (.linear (.notSquare rows cols)) :=
        newtonStep_eq_notSquare.2 ⟨by omega, hrefused, by omega, hcols⟩
      rw [mapError_eq_ok, herror] at hdelta
      cases hdelta

section Idle

variable (hidle : ∀ m ∈ net.nodes, m.kind = .reference ∨ m.kind = .source ∧ ¬ Kind.isLocked m.payload)
include hidle

omit [Add K] [Sub K] [Mul K] [Div K] [Neg K] in
/-- Of free sources and references no values are read. -/
theorem looseLocksRead_of_idle : net.LooseLocksRead := by
  intro m hm hkind hlocked _
  rcases hidle m hm with hreference | ⟨-, hfree⟩
  · rw [hkind] at hreference
    cases hreference
  · exact absurd hlocked hfree

omit [Add K] [Sub K] [Mul K] [Div K] [Neg K] in
/-- Free sources and references have no equations. -/
theorem countP_contributes_of_idle : net.nodes.countP FlatNode.contributes = 0 := by
  rw [List.countP_eq_zero]
  intro m hm
  rcases hidle m hm with hkind | ⟨hkind, hfree⟩
  · simp [FlatNode.contributes, hkind]
  · simp [FlatNode.contributes, hkind, hfree]

end Idle

/-- A network without equations is refused for its shape. -/
theorem solve_of_noRows {s : EquationSystem K net.size} (hsize : net.size ≠ 0)
    (hs : net.assemble net.start.toArray = .ok s) (hrows : s.rows = [])
    (hcfg : cfg.leastSquares = false) :
    net.solve cfg = ⟨[], .error (.solve (.linear (.notSquare 0 net.size)))⟩ := by
  have hlength : s.rows.length = 0 := by rw [hrows]; rfl
  have hlinear : cfg.newtonStep s = .error (.linear (.notSquare 0 net.size)) :=
    newtonStep_eq_notSquare.2 ⟨by omega, hcfg, hlength, rfl⟩
  have hfinite : s.checkFinite = .ok () := by
    rw [EquationSystem.checkFinite, EquationSystem.residual, EquationSystem.jacobian, hrows]
    rfl
  apply solve_of_takeStep_error hsize
  rw [takeStep, NewtonState.initial, hs]
  simp only [ok_mapError, ok_bind, hfinite, hlinear, error_mapError, error_bind]

/-- How systems that are not square are to be solved does not matter to a square network. -/
theorem solve_of_isSquare (h : net.IsSquare) (allowLeastSquares : Bool) :
    net.solve { cfg with leastSquares := allowLeastSquares } = net.solve cfg := by
  rw [solve, solve, solveWith, solveWith, iterateFrom, iterateFrom]
  by_cases hsize : net.size = 0
  · rw [if_pos hsize, if_pos hsize]
  · rw [if_neg hsize, if_neg hsize, iterate_congr]
    · rfl
    · intro x s hs
      exact newtonStep_of_square (h _ s hs) allowLeastSquares

end Network

/-! ### Networks that were built -/

section Built

variable {project : Project K} {strict : Bool} {d : Diagram K} {default : K} {net : Network K}
  (h : (d.build project strict default).result = .ok net)
include h

omit [Sub K] [Mul K] [Neg K] in
/-- No source equates two nets. -/
theorem Diagram.equate_notMem_of_build {m : FlatNode K} (hm : m ∈ net.nodes)
    (hkind : m.kind = .source) {es : List (Equation K)} (hes : m.equations = .ok es)
    (first second : Nat) : .equate first second ∉ es := by
  intro he
  rcases Kind.equation_cases hes he with ⟨i, -, v, h'⟩ | ⟨i, j, hnets, -⟩ |
    ⟨top, bottom, -, -, h' | h'⟩
  · cases h'
  · rw [Kind.terminalNets_eq (terminals_of_build h hm hkind)] at hnets
    have hlength := congrArg List.length hnets
    cases hnet : m.net? (some "a") with
    | none => simp [hnet] at hlength
    | some k => simp [hnet] at hlength
  · cases h'
  · cases h'

/-- A network of free sources and references alone is refused for its shape. -/
theorem Diagram.solve_of_build_idle (hsize : net.size ≠ 0)
    (hidle : ∀ m ∈ net.nodes, m.kind = .reference ∨ m.kind = .source ∧ ¬ Kind.isLocked m.payload)
    {cfg : SolverConfig K} (hcfg : cfg.leastSquares = false) :
    net.solve cfg = ⟨[], .error (.solve (.linear (.notSquare 0 net.size)))⟩ := by
  have hstart : net.size ≤ net.start.toArray.size := by
    rw [Vector.size_toArray]
  have hloose := Network.looseLocksRead_of_idle hidle
  obtain ⟨s, hs⟩ := (exists_system_iff_of_build h hstart).2 hloose
  have hempty : s.rows.length = 0 := by
    rw [Network.length_rows_of_terminals (fun _ hm => terminals_of_build h hm) hs,
      Network.countP_contributes_of_idle hidle]
  exact Network.solve_of_noRows hsize hs (List.length_eq_zero_iff.1 hempty) hcfg

/-- Let a network be built.  The two terminals of each source are at one net or at none, so that no
    source equates nets.  Where there is a system, which is everywhere or nowhere, it has one row for
    each node that contributes one, in the order of the nodes.  So a solve is refused for the shape
    with its first step only, and is so if there are nets but neither locked sources nor sums nor
    products; and least squares make no difference if as many nodes contribute as there are nets. -/
theorem Diagram.shape_of_build :
    (∀ m ∈ net.nodes, m.kind = .source → m.net? (some "a") = m.net? (some "b") ∧
      ∀ es, m.equations = .ok es → ∀ first second, .equate first second ∉ es) ∧
    (∀ x : Array K, net.size ≤ x.size →
      ((∃ s, net.assemble x = .ok s) ↔ net.LooseLocksRead)) ∧
    (∀ x s, net.assemble x = .ok s →
      s.sources = (net.nodes.filter FlatNode.contributes).map (·.id)) ∧
    (∀ cfg events rows cols,
      net.solve cfg = ⟨events, .error (.solve (.linear (.notSquare rows cols)))⟩ →
        events = [] ∧ rows = net.nodes.countP FlatNode.contributes ∧ cols = net.size) ∧
    (net.size ≠ 0 →
      (∀ m ∈ net.nodes, m.kind = .reference ∨ m.kind = .source ∧ ¬ Kind.isLocked m.payload) →
        ∀ cfg, cfg.leastSquares = false →
          net.solve cfg = ⟨[], .error (.solve (.linear (.notSquare 0 net.size)))⟩) ∧
    (net.nodes.countP FlatNode.contributes = net.size → ∀ (cfg : SolverConfig K) allowLeastSquares,
      net.solve { cfg with leastSquares := allowLeastSquares } = net.solve cfg) := by
  have hterminals : ∀ m ∈ net.nodes, m.kind = .source → m.net? (some "a") = m.net? (some "b") :=
    fun m hm hkind => terminals_of_build h hm hkind
  refine ⟨?_, fun x => exists_system_iff_of_build h,
    fun x s => Network.sources_of_terminals hterminals, ?_, ?_, ?_⟩
  · intro m hm hkind
    exact ⟨hterminals m hm hkind, fun es hes => equate_notMem_of_build h hm hkind hes⟩
  · intro cfg events rows cols hsolve
    obtain ⟨hevents, hcols, x, s, hs, hlength⟩ := Network.events_of_notSquare hsolve
    exact ⟨hevents, by rw [← hlength, Network.length_rows_of_terminals hterminals hs], hcols⟩
  · intro hsize hidle cfg
    exact solve_of_build_idle h hsize hidle
  · intro hsquare cfg
    apply Network.solve_of_isSquare
    intro x s hs
    rw [Network.length_rows_of_terminals hterminals hs, hsquare]

end Built

/-- A loose lock does not contribute: the one locked source at the net makes the system square. -/
theorem Diagram.shape_of_build_looseLock :
    ∃ net : Network ℚ, ((Diagram.looseLock (.text "5")).build .empty true 1).result = .ok net ∧
      (∀ m ∈ net.nodes, m.kind = .source → m.net? (some "a") = m.net? (some "b")) ∧
      (∀ x : Array ℚ, 1 ≤ x.size → ∃ s, net.assemble x = .ok s ∧ s.sources = ["t"]) ∧
      ∀ (cfg : SolverConfig ℚ) allowLeastSquares,
        net.solve { cfg with leastSquares := allowLeastSquares } = net.solve cfg := by
  have hruns : ((Diagram.looseLock (.text "5")).build .empty true 1).result.toOption.map (fun net =>
      decide (net.size = 1 ∧ net.LooseLocksRead ∧
        (net.nodes.filter FlatNode.contributes).map (·.id) = ["t"] ∧
        net.nodes.countP FlatNode.contributes = net.size)) = some true := by
    decide +kernel
  obtain ⟨net, hbuild, hruns⟩ := Option.map_eq_some_iff.1 hruns
  obtain ⟨hsize, hloose, hcontributing, hsquare⟩ := of_decide_eq_true hruns
  have hbuild := toOption_eq_some.1 hbuild
  obtain ⟨hterminals, hsystem, hsources, -, -, hsame⟩ := shape_of_build hbuild
  refine ⟨net, hbuild, fun m hm hkind => (hterminals m hm hkind).1, ?_, hsame hsquare⟩
  intro x hx
  obtain ⟨s, hs⟩ := (hsystem x (hsize ▸ hx)).2 hloose
  exact ⟨s, hs, by rw [hsources x s hs, hcontributing]⟩

/-- With null for a value the same diagram is built, and the same node is to contribute, but there is
    no system at all. -/
theorem Diagram.looseLock_shapeless :
    ∃ net : Network ℚ, ((Diagram.looseLock .null).build .empty true 1).result = .ok net ∧
      net.size = 1 ∧ (net.nodes.filter FlatNode.contributes).map (·.id) = ["t"] ∧
      ∀ x : Array ℚ, 1 ≤ x.size → ¬ ∃ s, net.assemble x = .ok s := by
  have hruns : ((Diagram.looseLock .null).build .empty true 1).result.toOption.map (fun net =>
      decide (net.size = 1 ∧ (net.nodes.filter FlatNode.contributes).map (·.id) = ["t"] ∧
        ¬ net.LooseLocksRead)) = some true := by
    decide +kernel
  obtain ⟨net, hbuild, hruns⟩ := Option.map_eq_some_iff.1 hruns
  obtain ⟨hsize, hcontributing, hloose⟩ := of_decide_eq_true hruns
  have hbuild := toOption_eq_some.1 hbuild
  refine ⟨net, hbuild, hsize, hcontributing, fun x hx => ?_⟩
  rw [exists_system_iff_of_build hbuild (hsize ▸ hx)]
  exact hloose

end NetBalance
