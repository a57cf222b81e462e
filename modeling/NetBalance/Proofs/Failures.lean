import NetBalance.Proofs.Atomicity
import NetBalance.Proofs.Reseeding

/-! # What can fail after a network is built

    Building a network reads the ports of all nodes, and the values of the
    sources at nets.  Assembling reads the same payloads again, and the values
    of locked sources that are at no net.  So if these are numbers, too, then
    every system can be assembled, and a solve fails for a system that is not
    square, for a singular one, or for numbers that are not finite. -/

namespace NetBalance

variable {K : Type}

/-! ### Payloads that were read before -/

namespace Kind

variable [Zero K] [One K] [Scalar K] {kind : Kind} {p : Payload K}
  {net? : PortName → Option Nat} {ports : List String}

omit [Zero K] [One K] [Scalar K] in
theorem exists_rowNets {key : String} {listed : List (Value K)} (hrow : row p key = .ok listed)
    (hatoms : ∀ v ∈ listed, v.isAtom) : ∃ is, rowNets net? p key = .ok is := by
  have hname : ∀ v ∈ listed, ∃ name, portName? v = .ok name := by
    intro v hv
    cases v with
    | list _ => cases hatoms _ hv
    | object _ => cases hatoms _ hv
    | _ => exact ⟨_, rfl⟩
  obtain ⟨names, hnames⟩ := exists_map_eq_ok.2 hname
  exact ⟨_, bind_eq_ok.2 ⟨listed, hrow, bind_eq_ok.2 ⟨names, mapM_eq_ok.2 hnames, rfl⟩⟩⟩

omit [Zero K] [One K] [Scalar K] in
/-- The ports that a sum or a product declares are those that its equation is about. -/
theorem exists_rowNets_of_declared (net? : PortName → Option Nat)
    (hkind : kind = .sum ∨ kind = .product) (h : kind.declaredPorts p = .ok ports) :
    (∃ top, rowNets net? p "top_ports" = .ok top) ∧
      ∃ bottom, rowNets net? p "bottom_ports" = .ok bottom := by
  obtain ⟨listed, hlisted, h⟩ := bind_eq_ok.1 h
  have hrows : ∃ top bottom, row p "top_ports" = .ok top ∧ row p "bottom_ports" = .ok bottom ∧
      listed = top ++ bottom := by
    have hlisted : (do
        let top ← row p "top_ports"
        let bottom ← row p "bottom_ports"
        return top ++ bottom) = Except.ok listed := by
      rcases hkind with rfl | rfl
      · exact hlisted
      · exact hlisted
    obtain ⟨top, htop, hlisted⟩ := bind_eq_ok.1 hlisted
    obtain ⟨bottom, hbottom, hlisted⟩ := bind_eq_ok.1 hlisted
    exact ⟨top, bottom, htop, hbottom, (Except.ok.inj hlisted).symm⟩
  obtain ⟨top, bottom, htop, hbottom, rfl⟩ := hrows
  by_cases hatoms : (top ++ bottom).all Value.isAtom
  · rw [List.all_eq_true] at hatoms
    exact ⟨exists_rowNets htop fun v hv => hatoms v (List.mem_append_left _ hv),
      exists_rowNets hbottom fun v hv => hatoms v (List.mem_append_right _ hv)⟩
  · rw [if_neg hatoms] at h
    cases h

/-- A node that declares its ports has equations, if only it is not locked at something that is no
    number. -/
theorem exists_equations_iff (h : kind.declaredPorts p = .ok ports) :
    (∃ es, kind.equations p net? = .ok es) ↔
      (kind = .source → isLocked p → ∃ v, configuredValue p = .ok v) := by
  cases kind with
  | source =>
    show (∃ es, (if isLocked p then _ else _) = Except.ok es) ↔ _
    by_cases hlocked : isLocked p
    · rw [if_pos hlocked]
      constructor
      · intro h _ _
        obtain ⟨es, hes⟩ := h
        obtain ⟨v, hv, -⟩ := bind_eq_ok.1 hes
        exact ⟨v, hv⟩
      · intro h
        obtain ⟨v, hv⟩ := h rfl hlocked
        exact ⟨_, bind_eq_ok.2 ⟨v, hv, rfl⟩⟩
    · rw [if_neg hlocked]
      refine iff_of_true ?_ fun _ h => absurd h hlocked
      split
      · exact ⟨_, rfl⟩
      · exact ⟨_, rfl⟩
  | sum | product =>
    obtain ⟨⟨top, htop⟩, ⟨bottom, hbottom⟩⟩ := exists_rowNets_of_declared net? (by decide) h
    refine iff_of_true ⟨_, bind_eq_ok.2 ⟨top, htop, bind_eq_ok.2 ⟨bottom, hbottom, rfl⟩⟩⟩ ?_
    exact fun h => nomatch h
  | reference => exact iff_of_true ⟨[], rfl⟩ fun h => nomatch h

end Kind

/-! ### Networks that were built -/

/-- A source whose terminals are at no net. -/
def FlatNode.IsLoose (m : FlatNode K) : Prop :=
  ∀ t ∈ Kind.sourceTerminals, m.net? (some t) = none

/-- The values of the locked sources that are at no net can be read, too. -/
def Network.LooseLocksRead [Zero K] [One K] [Scalar K] (net : Network K) : Prop :=
  ∀ m ∈ net.nodes, m.kind = .source → Kind.isLocked m.payload → m.IsLoose →
    ∃ v, Kind.configuredValue m.payload = .ok v

instance [Zero K] [One K] [Scalar K] {net : Network K} : Decidable net.LooseLocksRead :=
  decidable_of_iff (∀ m ∈ net.nodes, m.kind = .source → Kind.isLocked m.payload →
      (∀ t ∈ Kind.sourceTerminals, m.net? (some t) = none) →
        (Kind.configuredValue m.payload).toOption.isSome)
    (by
      simp only [Option.isSome_iff_exists, toOption_eq_some]
      rfl)

section Built

variable [Add K] [Div K] [Zero K] [One K] [Scalar K] {project : Project K} {strict : Bool}
  {d : Diagram K} {default : K} {net : Network K} {m : FlatNode K}
  (h : (d.build project strict default).result = .ok net) (hm : m ∈ net.nodes)
include h hm

namespace Diagram

theorem exists_declaredPorts_of_build : ∃ ports, m.kind.declaredPorts m.payload = .ok ports := by
  obtain ⟨c, -, n, -, hreads, rfl⟩ := exists_place_of_build h hm
  obtain ⟨kind, ports, hkind, hports, -⟩ := hreads.kind
  refine ⟨ports, ?_⟩
  rw [FlatNode.kind_recordNets, FlatNode.payload_recordNets, PlacedNode.kind_flat hkind]
  exact hports

theorem net?_lt_size_of_build {name : PortName} {i : Nat} (hi : m.net? name = some i) :
    i < net.size := by
  obtain ⟨n, hn, -⟩ := (net?_of_build h hm).1 hi
  exact (List.getElem?_eq_some_iff.1 hn).1

/-- The value of a source at a net was read for its seed. -/
theorem exists_configuredValue_of_build (hkind : m.kind = .source) (hloose : ¬ m.IsLoose) :
    ∃ v, Kind.configuredValue m.payload = .ok v := by
  obtain ⟨hflat, hnet⟩ := build_eq_ok.1 h
  obtain ⟨-, -, hnodup⟩ := flatten_eq_ok.1 hflat
  simp only [FlatNode.IsLoose, not_forall] at hloose
  obtain ⟨t, -, ht⟩ := hloose
  obtain ⟨i, hi⟩ := Option.ne_none_iff_exists'.1 ht
  obtain ⟨n, hn, hp⟩ := (net?_of_build h hm).1 hi
  rw [Topology.nodes_network hnet] at hm
  obtain ⟨fresh, hfresh, rfl⟩ := List.mem_map.1 hm
  have hnode : (d.root.unfold project).joined.node? fresh.id = some fresh :=
    (Topology.node?_eq_some_iff hnodup).2 ⟨hfresh, rfl⟩
  rw [FlatNode.id_recordNets] at hp
  rw [FlatNode.kind_recordNets] at hkind
  rw [FlatNode.payload_recordNets]
  exact Topology.exists_configuredValue hnet (List.mem_of_getElem? hn) hp hnode hkind

end Diagram

end Built

variable [Add K] [Sub K] [Mul K] [Div K] [Neg K] [Zero K] [One K] [Scalar K]

/-- The system of a network that was built can be assembled at any vector with an entry for each
    net, provided that the values of locked sources at no net are numbers, too. -/
theorem Diagram.exists_system_iff_of_build {project : Project K} {strict : Bool} {d : Diagram K}
    {default : K} {net : Network K} (h : (d.build project strict default).result = .ok net)
    {x : Array K} (hx : net.size ≤ x.size) :
    (∃ s, net.assemble x = .ok s) ↔ net.LooseLocksRead := by
  have hequations : ∀ m ∈ net.nodes, (∃ es, m.equations = .ok es) ↔
      (m.kind = .source → Kind.isLocked m.payload → ∃ v, Kind.configuredValue m.payload = .ok v) := by
    intro m hm
    obtain ⟨ports, hports⟩ := exists_declaredPorts_of_build h hm
    exact Kind.exists_equations_iff hports
  rw [Network.exists_system_iff]
  constructor
  · intro hsystem m hm hkind hlocked _
    obtain ⟨es, hes, -⟩ := hsystem m hm
    exact (hequations m hm).1 ⟨es, hes⟩ hkind hlocked
  · intro hloose m hm
    obtain ⟨es, hes⟩ := (hequations m hm).2 fun hkind hlocked => by
      by_cases hm' : m.IsLoose
      · exact hloose m hm hkind hlocked hm'
      · exact exists_configuredValue_of_build h hm hkind hm'
    refine ⟨es, hes, fun e he i hi => ?_⟩
    obtain ⟨name, hname⟩ := Kind.exists_port_of_mem_nets hes he hi
    have hlt := net?_lt_size_of_build h hm hname
    omega

/-! ### Errors of a solver -/

/-- The matrix is not square, or it is singular. -/
def LinearError.OfMatrix : LinearError K → Prop
  | .notAMatrix _ | .notSquare _ _ | .zeroPivot _ | .illConditioned _ => True
  | .notFinite | .wrongLength => False

/-- The errors that a solve is meant to end with: the matrix is not square or singular, or numbers
    are not finite. -/
def Error.OfSolver : Error K → Prop
  | .solve (.linear cause) => cause.OfMatrix
  | .solve (.residualNotFinite _) | .solve .jacobianNotFinite | .solve .stepNotFinite
  | .solve .solutionNotFinite => True
  | .network _ | .assembly _ => False

/-! ### The linear step -/

section LinearStep

variable {m n : Nat} {a : RowMatrix K m n} {tolerance : K} {allowLeastSquares : Bool}
  {op : LinearOperator K m n} {b : Vector K m}

/-- A matrix of finite numbers is refused for its shape or because it is singular. -/
theorem LinearOperator.ofMatrix_error {e : LinearError K} (ha : a.isFinite)
    (h : ofMatrix a tolerance allowLeastSquares = .error e) : e.OfMatrix := by
  by_cases hsquare : m = n
  · subst hsquare
    have hfactor := map_eq_error.1 (by simpa [ofMatrix] using h)
    rw [factor, ha] at hfactor
    simp only [Bool.not_true, Bool.false_eq_true, if_false] at hfactor
    split at hfactor
    · cases hfactor
      trivial
    · split at hfactor
      · cases hfactor
      · cases hfactor
        trivial
  · rw [ofMatrix, dif_neg hsquare] at h
    split at h
    · cases h
    · cases h
      trivial

/-- Once a matrix of finite numbers is ready, it is solved for any finite right-hand side. -/
theorem LinearOperator.exists_solve (ha : a.isFinite) (hb : b.toList.all Scalar.isFinite)
    (h : ofMatrix a tolerance allowLeastSquares = .ok op) : ∃ x, op.solve b = .ok x := by
  have hready : ∀ a', op = .leastSquares a' → a' = a := by
    intro a' hop
    by_cases hsquare : m = n
    · rw [ofMatrix, dif_pos hsquare, map_eq_ok] at h
      obtain ⟨f, -, hf⟩ := h
      rw [hop] at hf
      cases hf
    · rw [ofMatrix, dif_neg hsquare] at h
      split at h
      · rw [← Except.ok.inj h] at hop
        cases hop
        rfl
      · cases h
  cases op with
  | factored square f =>
    rw [solve, hb]
    exact ⟨_, rfl⟩
  | leastSquares a' =>
    obtain rfl := hready a' rfl
    rw [solve, hb, ha]
    exact ⟨_, rfl⟩

end LinearStep

section Steps

variable {n : Nat} {cfg : SolverConfig K} {s : EquationSystem K n}

omit [Add K] [Sub K] [Mul K] [Div K] [Neg K] [Zero K] [One K] in
theorem isFinite_of_checkFinite (h : s.checkFinite = .ok ()) :
    (∀ row ∈ s.rows, Scalar.isFinite row.residual) ∧ s.matrix.isFinite := by
  rw [EquationSystem.checkFinite] at h
  split at h
  · cases h
  · next hresidual =>
    split at h
    · cases h
    · next hjacobian =>
      refine ⟨?_, ?_⟩
      · simpa [EquationSystem.residual] using hresidual
      · simpa [EquationSystem.jacobian, RowMatrix.isFinite, EquationSystem.matrix] using hjacobian

omit [Add K] [Sub K] [Mul K] [Div K] [Neg K] [Zero K] [One K] in
theorem checkFinite_error {e : SolveError K} (h : s.checkFinite = .error e) :
    (Error.solve e).OfSolver := by
  rw [EquationSystem.checkFinite] at h
  split at h
  · cases h
    trivial
  · split at h
    · cases h
      trivial
    · cases h

/-- The linear step of a system of finite numbers fails for its matrix only. -/
theorem newtonStep_error (hneg : ∀ x : K, Scalar.isFinite x → Scalar.isFinite (-x))
    (hfinite : s.checkFinite = .ok ()) {e : SolveError K} (h : cfg.newtonStep s = .error e) :
    (Error.solve e).OfSolver := by
  obtain ⟨hresidual, hmatrix⟩ := isFinite_of_checkFinite hfinite
  have hright : s.rightHandSide.toList.all Scalar.isFinite := by
    rw [List.all_eq_true]
    intro y hy
    have hy : y ∈ s.rows.map fun row => -row.residual := by
      simpa [EquationSystem.rightHandSide] using hy
    obtain ⟨row, hrow, rfl⟩ := List.mem_map.1 hy
    exact hneg _ (hresidual row hrow)
  obtain ⟨cause, hcause, rfl⟩ := mapError_eq_error.1 h
  rcases bind_eq_error.1 hcause with hready | ⟨op, hop, hsolve⟩
  · exact LinearOperator.ofMatrix_error hmatrix hready
  · obtain ⟨x, hx⟩ := LinearOperator.exists_solve hmatrix hright hop
    rw [hx] at hsolve
    cases hsolve

variable {assemble : Vector K n → Except AssemblyError (EquationSystem K n)}
  {state : NewtonState K n} {e : Error K}

/-- A step fails because the system cannot be assembled, or as a solver may. -/
theorem takeStep_error (hneg : ∀ x : K, Scalar.isFinite x → Scalar.isFinite (-x))
    (h : takeStep cfg assemble cfg.newtonStep state = .error e) :
    (∃ cause, assemble state.x = .error cause ∧ e = .assembly cause) ∨ e.OfSolver := by
  rw [takeStep] at h
  rcases bind_eq_error.1 h with h | ⟨s, -, h⟩
  · obtain ⟨cause, hcause, rfl⟩ := mapError_eq_error.1 h
    exact Or.inl ⟨cause, hcause, rfl⟩
  · right
    rcases bind_eq_error.1 h with h | ⟨⟨⟩, hcheck, h⟩
    · obtain ⟨cause, hcause, rfl⟩ := mapError_eq_error.1 h
      exact checkFinite_error hcause
    · rw [mapError_eq_ok] at hcheck
      rcases bind_eq_error.1 h with h | ⟨delta, -, h⟩
      · obtain ⟨cause, hcause, rfl⟩ := mapError_eq_error.1 h
        exact newtonStep_error hneg hcheck hcause
      · split at h
        · cases h
          trivial
        · cases h

section Iteration

variable {linearStep : EquationSystem K n → Except (SolveError K) (Vector K n)} {left : Nat}

omit [Sub K] [Div K] [Neg K] [One K] in
/-- An iteration that fails does so with its first step, or later. -/
theorem step_of_iterate_error
    (h : (iterate cfg assemble linearStep left state).result = .error e) :
    takeStep cfg assemble linearStep state = .error e ∨ ∃ left' next, left = left' + 1 ∧
      (iterate cfg assemble linearStep left' next).result = .error e := by
  rw [iterate, Logged.bind_result, bind_eq_error] at h
  rcases h with h | ⟨⟨next, record⟩, -, h⟩
  · exact Or.inl h
  · right
    simp only [Logged.bind_result, Logged.tell_result, ok_bind] at h
    split at h
    · cases h
    · split at h
      · cases h
      · cases left with
        | zero => cases h
        | succ left => exact ⟨left, next, rfl, h⟩

omit [Sub K] [Div K] [Neg K] [One K] in
theorem exists_takeStep_error
    (h : (iterate cfg assemble linearStep left state).result = .error e) :
    ∃ state', takeStep cfg assemble linearStep state' = .error e := by
  induction left generalizing state with
  | zero =>
    rcases step_of_iterate_error h with hstep | ⟨left', next, hleft, -⟩
    · exact ⟨state, hstep⟩
    · omega
  | succ left ih =>
    rcases step_of_iterate_error h with hstep | ⟨left', next, hleft, hrest⟩
    · exact ⟨state, hstep⟩
    · obtain rfl : left' = left := by omega
      exact ih hrest

end Iteration

end Steps

/-! ### Solves of a network -/

namespace Network

variable {net : Network K} {cfg : SolverConfig K} {e : Error K}

/-- A solve fails with a step, or because of the values that it ends with. -/
theorem exists_takeStep_of_solve_error (h : (net.solve cfg).result = .error e) :
    e = .solve .solutionNotFinite ∨ net.size ≠ 0 ∧ ∃ state,
      takeStep cfg (fun x => net.assemble x.toArray) cfg.newtonStep state = .error e := by
  rw [solve, solveWith, Logged.bind_result, bind_eq_error] at h
  rcases h with h | ⟨⟨status, final⟩, -, h⟩
  · rw [iterateFrom] at h
    split at h
    · cases h
    · next hsize => exact Or.inr ⟨hsize, exists_takeStep_error h⟩
  · simp only at h
    split at h
    · cases h
      exact Or.inl rfl
    · cases h

/-- Where every system can be assembled, a solve fails as a solver may. -/
theorem ofSolver_of_solve_error (hneg : ∀ x : K, Scalar.isFinite x → Scalar.isFinite (-x))
    (hsystem : net.size ≠ 0 → ∀ x : Vector K net.size, ∃ s, net.assemble x.toArray = .ok s)
    (h : (net.solve cfg).result = .error e) : e.OfSolver := by
  rcases exists_takeStep_of_solve_error h with rfl | ⟨hsize, state, hstep⟩
  · trivial
  · rcases takeStep_error hneg hstep with ⟨cause, hcause, rfl⟩ | h
    · obtain ⟨s, hs⟩ := hsystem hsize state.x
      rw [hs] at hcause
      cases hcause
    · exact h

/-- A solve whose first step fails tells nothing. -/
theorem solve_of_takeStep_error (hsize : net.size ≠ 0)
    (h : takeStep cfg (fun x => net.assemble x.toArray) cfg.newtonStep (.initial net.start) =
      .error e) : net.solve cfg = ⟨[], .error e⟩ := by
  rw [solve, solveWith, iterateFrom, if_neg hsize, iterate, h]
  rfl

/-- Where no system can be assembled, a solve fails for that. -/
theorem solve_of_assemble_error {cause : AssemblyError} (hsize : net.size ≠ 0)
    (h : net.assemble net.start.toArray = .error cause) :
    (net.solve cfg).result = .error (.assembly cause) := by
  have hstep : takeStep cfg (fun x => net.assemble x.toArray) cfg.newtonStep
      (.initial net.start) = .error (.assembly cause) := by
    rw [takeStep, NewtonState.initial, h]
    rfl
  rw [solve_of_takeStep_error hsize hstep]

omit [Div K] in
/-- What a solve may change does not matter to whether there is a system. -/
theorem Revalues.exists_system_iff {net' : Network K} (h : net.Revalues net') {x : Array K} :
    (∃ s, net'.assemble x = .ok s) ↔ ∃ s, net.assemble x = .ok s := by
  have htable := h.table_assemble x
  constructor
  · intro hsystem
    obtain ⟨s, hs⟩ := hsystem
    obtain ⟨s', hs', -⟩ := map_eq_ok.1 (htable.symm.trans (congrArg _ hs))
    exact ⟨s', hs'⟩
  · intro hsystem
    obtain ⟨s, hs⟩ := hsystem
    obtain ⟨s', hs', -⟩ := map_eq_ok.1 (htable.trans (congrArg _ hs))
    exact ⟨s', hs'⟩

end Network

/-- Let a network be built.  Its system can be assembled at every vector with an entry for each net,
    and a solve of it, after any others, fails only as a solver may, exactly if the locked sources
    at no net have numbers for values; without nets no solve asks for them.  Each row of a system
    has one column for each net. -/
theorem Diagram.failures_of_build (hneg : ∀ x : K, Scalar.isFinite x → Scalar.isFinite (-x))
    {project : Project K} {strict : Bool} {d : Diagram K} {default : K} {net : Network K}
    (h : (d.build project strict default).result = .ok net) :
    (∀ x : Array K, net.size ≤ x.size →
      ((∃ s, net.assemble x = .ok s) ↔ net.LooseLocksRead)) ∧
    (∀ x s, net.assemble x = .ok s → ∀ row ∈ s.jacobian, row.toList.length = net.size) ∧
    ∀ cfgs cfg, (∀ e, ((net.afterSolves cfgs).solve cfg).result = .error e → e.OfSolver) ↔
      net.size = 0 ∨ net.LooseLocksRead := by
  refine ⟨fun x => exists_system_iff_of_build h, fun x s _ row _ => Vector.length_toList, ?_⟩
  intro cfgs cfg
  have hafter := Network.revalues_afterSolves net cfgs
  have hsize := hafter.size_eq
  have hsystem : ∀ x : Vector K (net.afterSolves cfgs).size,
      (∃ s, (net.afterSolves cfgs).assemble x.toArray = .ok s) ↔ net.LooseLocksRead := by
    intro x
    have hx : net.size ≤ x.toArray.size := by
      rw [Vector.size_toArray, hsize]
    rw [hafter.exists_system_iff, exists_system_iff_of_build h hx]
  constructor
  · intro hsolver
    by_cases hnets : net.size = 0
    · exact Or.inl hnets
    · right
      rw [← hsystem (net.afterSolves cfgs).start]
      cases hassemble : (net.afterSolves cfgs).assemble (net.afterSolves cfgs).start.toArray with
      | ok s => exact ⟨s, rfl⟩
      | error cause =>
        -- the first step of the solve fails in the same way
        exact (hsolver _ (Network.solve_of_assemble_error (hsize ▸ hnets) hassemble)).elim
  · intro hloose e he
    refine Network.ofSolver_of_solve_error hneg (fun hnets x => ?_) he
    rw [hsystem x]
    exact hloose.resolve_left (hsize ▸ hnets)

/-! ### A loose source -/

/-- A locked source that is joined to a free one, and another locked one at no net. -/
def Diagram.looseLock (v : Value ℚ) : Diagram ℚ :=
  ⟨"loose", "loose",
    [.valued "t" 3 true, .valued "u" 0 false,
      ⟨"l", .text "source", [("value", v), ("locked", .bool true)], []⟩],
    [⟨"t", "a", "u", "a"⟩]⟩

/-- A text that is a numeral does for a value; what may still go wrong is that the system is too
    close to a singular one. -/
theorem Diagram.failures_of_build_looseLock :
    ∃ net : Network ℚ, ((Diagram.looseLock (.text "5")).build .empty true 1).result = .ok net ∧
      (∀ x : Array ℚ, 1 ≤ x.size → ∃ s, net.assemble x = .ok s) ∧
      (∀ cfgs cfg e, ((net.afterSolves cfgs).solve cfg).result = .error e → e.OfSolver) ∧
      ∃ e, (net.solve .unsolvable).result = .error e := by
  have hruns : ((Diagram.looseLock (.text "5")).build .empty true 1).result.toOption.map (fun net =>
      (net.size, decide net.LooseLocksRead, (net.solve .unsolvable).result.toOption.isNone)) =
        some (1, true, true) := by
    decide +kernel
  obtain ⟨net, hbuild, hruns⟩ := Option.map_eq_some_iff.1 hruns
  simp only [Prod.mk.injEq] at hruns
  obtain ⟨hsize, hloose, hfails⟩ := hruns
  have hloose := of_decide_eq_true hloose
  have hbuild := toOption_eq_some.1 hbuild
  obtain ⟨hsystem, -, hsolver⟩ := failures_of_build (fun _ _ => rfl) hbuild
  refine ⟨net, hbuild, ?_, ?_, ?_⟩
  · intro x hx
    exact (hsystem x (hsize ▸ hx)).2 hloose
  · intro cfgs cfg
    exact (hsolver cfgs cfg).2 (Or.inr hloose)
  · cases hsolve : (net.solve .unsolvable).result with
    | error e => exact ⟨e, rfl⟩
    | ok s =>
      rw [hsolve] at hfails
      cases hfails

/-- Null does not do for a value: the network is built, but its system cannot be assembled, and
    each solve fails for that. -/
theorem Diagram.looseLock_unread :
    ∃ net : Network ℚ, ((Diagram.looseLock .null).build .empty true 1).result = .ok net ∧
      net.size = 1 ∧ net.assemble #[1] = .error (.value .notANumber) ∧
      ∀ cfg, (net.solve cfg).result = .error (.assembly (.value .notANumber)) ∧
        ¬ (Error.assembly (.value .notANumber) : Error ℚ).OfSolver := by
  have hruns : ((Diagram.looseLock .null).build .empty true 1).result.toOption.map (fun net =>
      decide (net.size = 1 ∧
        (net.assemble #[1]).map EquationSystem.table = .error (.value .notANumber) ∧
        (net.assemble net.start.toArray).map EquationSystem.table =
          .error (.value .notANumber))) = some true := by
    decide +kernel
  obtain ⟨net, hbuild, hruns⟩ := Option.map_eq_some_iff.1 hruns
  obtain ⟨hsize, hone, hstart⟩ := of_decide_eq_true hruns
  rw [map_eq_error] at hone hstart
  have hnets : net.size ≠ 0 := by omega
  refine ⟨net, toOption_eq_some.1 hbuild, hsize, hone, fun cfg => ?_⟩
  exact ⟨Network.solve_of_assemble_error hnets hstart, not_false⟩

end NetBalance
