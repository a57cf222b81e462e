import NetBalance.Proofs.LinearConstraints
import NetBalance.Proofs.Projection

/-! # Networks without products

    Where no product contributes an equation, the derivatives are the same at
    all points.  The first step, which is not damped, then leads to a point
    where the residual is orthogonal to the columns of the derivatives, so
    that the step from there is zero.  A solve ends with one of these two
    steps, wherever it starts; and on a square network it ends with the one
    solution there is. -/

namespace NetBalance

open Matrix

variable {K : Type} {n : Nat}

/-- The residual is orthogonal to the columns of the derivatives: no change of the values brings all
    residuals together nearer to zero. -/
def EquationSystem.IsStationary [Add K] [Mul K] [Zero K] (s : EquationSystem K n) : Prop :=
  ∀ k : Fin n, (s.rows.map fun row => row.row.get k * row.residual).sum = 0

/-- The system that a step leads to where all derivatives stay as they are. -/
def EquationSystem.moved [Add K] [Mul K] [Zero K] (s : EquationSystem K n) (a : K)
    (delta : Vector K n) : EquationSystem K n :=
  ⟨s.rows.map fun row => { row with residual := row.residual + a * Linear.dot row.row delta }⟩

/-! ### Steps -/

section Steps

variable [Field K] {s t : EquationSystem K n} {delta : Vector K n}

theorem Linear.addScaled_zeros_right (x : Vector K n) (a : K) : addScaled x a (zeros K n) = x := by
  have hzeros : (zeros K n).get = 0 := funext get_zeros
  apply get_injective
  rw [get_addScaled, hzeros, smul_zero, add_zero]

/-- The product of a column with a vector that is read off the rows. -/
theorem EquationSystem.transpose_mulVec (s : EquationSystem K n) (f : SystemRow K n → K)
    {v : Fin s.rows.length → K} (hv : ∀ i, v i = -f (s.rows.get i)) (k : Fin n) :
    ((s.matrix.toMatrix)ᵀ *ᵥ v) k = -(s.rows.map fun row => row.row.get k * f row).sum := by
  have hterm : ∀ i, (s.matrix.toMatrix)ᵀ k i * v i =
      -((s.rows.get i).row.get k * f (s.rows.get i)) := by
    intro i
    rw [hv, transpose_apply, RowMatrix.toMatrix_apply, RowMatrix.entry, s.get_matrix, mul_neg]
  show ∑ i, (s.matrix.toMatrix)ᵀ k i * v i = _
  rw [Finset.sum_congr rfl fun i _ => hterm i, Finset.sum_neg_distrib, ← List.sum_ofFn]
  refine congrArg (fun terms => -List.sum terms) ?_
  exact List.ofFn_getElem_eq_map s.rows fun row => row.row.get k * f row

variable [LinearOrder K] [IsStrictOrderedRing K] [Scalar K] (hK : Scalar.IsUnrounded K)
  {cfg : SolverConfig K}
include hK

/-- A full Newton step leads to where the residual is orthogonal to the columns. -/
theorem isStationary_moved (h : cfg.newtonStep s = .ok delta) : (s.moved 1 delta).IsStationary := by
  obtain ⟨op, hop, hsolve⟩ := newtonStep_eq_ok.1 h
  intro k
  have hvalues : ∀ i, (s.rightHandSide.get - s.matrix.toMatrix *ᵥ delta.get) i =
      -((s.rows.get i).residual + 1 * Linear.dot (s.rows.get i).row delta) := by
    intro i
    have hrow : (s.matrix.toMatrix *ᵥ delta.get) i = Linear.dot (s.rows.get i).row delta := by
      rw [Linear.dot_eq, ← s.get_matrix]
      rfl
    rw [Pi.sub_apply, hrow, s.get_rightHandSide]
    ring
  have hk := s.transpose_mulVec (fun row => row.residual + 1 * Linear.dot row.row delta) hvalues k
  rw [LinearOperator.transpose_mulVec_solve hK hop hsolve, Pi.zero_apply, zero_eq_neg] at hk
  rw [EquationSystem.moved, List.map_map]
  exact hk

/-- From a point where the residual is orthogonal to the columns a Newton step does not move. -/
theorem newtonStep_of_isStationary (hs : s.IsStationary) (h : cfg.newtonStep s = .ok delta) :
    delta = zeros K n := by
  obtain ⟨op, hop, hsolve⟩ := newtonStep_eq_ok.1 h
  apply LinearOperator.solve_eq_zeros hK hop hsolve
  funext k
  rw [s.transpose_mulVec (·.residual) s.get_rightHandSide, hs k, neg_zero]
  rfl

omit [LinearOrder K] [IsStrictOrderedRing K] hK in
/-- Whether a matrix can be made ready depends on its rows only. -/
theorem exists_ofMatrix_congr {ls ls' : List (Vector K n)} {m m' : Nat} (hrows : ls = ls')
    (hm : ls.toArray.size = m) (hm' : ls'.toArray.size = m') {tolerance : K} {allow : Bool}
    (h : ∃ op, LinearOperator.ofMatrix (⟨ls.toArray, hm⟩ : RowMatrix K m n) tolerance allow =
      .ok op) :
    ∃ op, LinearOperator.ofMatrix (⟨ls'.toArray, hm'⟩ : RowMatrix K m' n) tolerance allow =
      .ok op := by
  subst hrows hm hm'
  exact h

omit [IsStrictOrderedRing K] in
/-- Where one system has a Newton step, any other one with the same derivatives does. -/
theorem exists_newtonStep (hjacobian : s.jacobian = t.jacobian)
    (h : cfg.newtonStep s = .ok delta) : ∃ next, cfg.newtonStep t = .ok next := by
  obtain ⟨op, hop, -⟩ := newtonStep_eq_ok.1 h
  obtain ⟨op, hop⟩ : ∃ op, LinearOperator.ofMatrix t.matrix cfg.singularTolerance
      cfg.leastSquares = .ok op := exists_ofMatrix_congr hjacobian _ _ ⟨op, hop⟩
  have hfinite : t.matrix.isFinite := by
    simp [RowMatrix.isFinite, hK.isFinite]
  have hright : t.rightHandSide.toList.all Scalar.isFinite := by
    simp [hK.isFinite]
  obtain ⟨next, hnext⟩ := LinearOperator.exists_solve hfinite hright hop
  exact ⟨next, newtonStep_eq_ok.2 ⟨op, hop, hnext⟩⟩

end Steps

/-! ### Systems of linear networks -/

namespace Network

variable [Field K] [Scalar K] {net : Network K} {x delta : Vector K net.size}
  {s : EquationSystem K net.size}

/-- No node contributes an equation that is not linear. -/
def IsLinear (net : Network K) : Prop :=
  ∀ m ∈ net.nodes, ∀ es, m.equations = .ok es → ∀ e ∈ es, e.IsLinear

/-- It does for no product to contribute. -/
theorem isLinear_of_products (h : ∀ m ∈ net.nodes, m.kind = .product → ¬ m.contributes) :
    net.IsLinear := by
  intro m hm es hes e he
  by_cases hkind : m.kind = .product
  · have hsource : m.kind = .source → m.net? (some "a") = m.net? (some "b") := by
      rw [hkind]
      exact Kind.noConfusion
    have hlength := m.length_equations hsource hes
    rw [if_neg (h m hm hkind)] at hlength
    rw [List.length_eq_zero_iff.1 hlength] at he
    cases he
  · exact Kind.isLinear_of_equations hkind hes he

/-- Along a step the residuals of a linear network change by the products with the rows, and the
    rows stay. -/
theorem assemble_addScaled (hlinear : net.IsLinear) (hs : net.assemble x.toArray = .ok s) (a : K)
    (delta : Vector K net.size) :
    net.assemble (Linear.addScaled x a delta).toArray = .ok (s.moved a delta) := by
  obtain ⟨es, hes, hfits, hrows⟩ := assemble_eq_ok.1 hs
  refine assemble_eq_ok.2 ⟨es, hes, ?_, ?_⟩
  · intro e he
    simpa [Equation.Fits] using hfits e he
  · rw [EquationSystem.moved, ← hrows, List.map_map]
    apply List.map_congr_left
    intro e he
    obtain ⟨m, hm, own, hown, e, hmem, rfl⟩ := (mem_equationsOf hes).1 he
    have hlinear := hlinear m hm own hown e hmem
    have hrow : ∀ y z : Nat → K, e.row net.size y = e.row net.size z := by
      intro y z
      cases e with
      | pin net value => rfl
      | equate first second => rfl
      | equalSums top bottom => rfl
      | equalProducts top bottom => cases hlinear
    have hresidual := Equation.residual_addScaled hlinear (Kind.isProper_of_equations hown hmem) x
      delta a
    simp only [SystemRow.ofEquation, Equation.linearised, Function.comp_apply, hresidual]
    rw [hrow]

end Network

/-! ### Solves of linear networks -/

namespace Network

variable [Field K] [LinearOrder K] [IsStrictOrderedRing K] [Scalar K] {net : Network K}
  {cfg : SolverConfig K} {delta : Vector K net.size} {s : EquationSystem K net.size}

omit [IsStrictOrderedRing K] in
/-- A first step that is too long does not end a run that may go on for a second one. -/
theorem ending?_first (hK : Scalar.IsUnrounded K) (hbudget : 2 ≤ cfg.maxIterations)
    (hdamping : cfg.minDamping ≤ 1) {first : Stride K n}
    (hlong : ¬ Scalar.lt first.stepNorm cfg.tolerance) : cfg.ending? ([] ++ [first]) = none := by
  have hone : cfg.dampingAfter ([] ++ [first]) = 1 := rfl
  have hsmall : Scalar.lt 1 cfg.minDamping = false := by
    rw [← Bool.not_eq_true, hK.lt_iff, not_lt]
    exact hdamping
  have hleft : ¬ cfg.maxIterations ≤ 1 := by omega
  rw [ending?_concat, if_neg hlong, hone, hsmall]
  simp [hleft]

omit [IsStrictOrderedRing K] in
/-- A full step and one of length zero end a run. -/
theorem endsFirst_second (hK : Scalar.IsUnrounded K) (htolerance : 0 < cfg.tolerance)
    {first : Stride K n} (hgoes : cfg.ending? ([] ++ [first]) = none) (t : EquationSystem K n) :
    cfg.EndsFirst ([] ++ [first] ++ [⟨t, zeros K n⟩]) .converged := by
  rw [SolverConfig.endsFirst_concat, SolverConfig.goesOn_concat, ending?_concat]
  refine ⟨⟨SolverConfig.goesOn_nil, hgoes⟩, if_pos ?_⟩
  show Scalar.lt (norm (zeros K n).toList) cfg.tolerance
  rw [zeros, Vector.toList_replicate, norm_zeros hK.toIsExact, hK.lt_iff]
  exact htolerance

/-- On a linear network a run ends with its first step, or with one of length zero behind that. -/
theorem exists_run_of_isLinear (hK : Scalar.IsUnrounded K) (hlinear : net.IsLinear)
    (htolerance : 0 < cfg.tolerance) (hbudget : 2 ≤ cfg.maxIterations)
    (hdamping : cfg.minDamping ≤ 1) (hs : net.assemble net.start.toArray = .ok s)
    (hdelta : cfg.newtonStep s = .ok delta) :
    ∃ ss, net.Run cfg cfg.newtonStep ss (Linear.addScaled net.start 1 delta) ∧
      cfg.EndsFirst ss .converged ∧ (ss.length = 1 ∨ ss.length = 2) := by
  have hfinite : ∀ x : Vector K net.size, x.toList.all Scalar.isFinite := by
    intro x
    simp [hK.isFinite]
  let first : Stride K net.size := ⟨s, delta⟩
  have hfirst : first.StartsAt (fun x => net.assemble x.toArray) cfg.newtonStep net.start :=
    ⟨hs, checkFinite_eq_ok hK.toIsExact s, hdelta, hfinite delta⟩
  have hrun : net.Run cfg cfg.newtonStep ([] ++ [first]) (Linear.addScaled net.start 1 delta) :=
    NewtonRun.start.step hfirst
  by_cases hshort : Scalar.lt first.stepNorm cfg.tolerance
  · refine ⟨_, hrun, ?_, Or.inl rfl⟩
    rw [SolverConfig.endsFirst_concat, ending?_concat]
    exact ⟨SolverConfig.goesOn_nil, if_pos hshort⟩
  · have hjacobian : s.jacobian = (s.moved 1 delta).jacobian := by
      rw [EquationSystem.jacobian, EquationSystem.jacobian, EquationSystem.moved, List.map_map]
      rfl
    obtain ⟨next, hnext⟩ := exists_newtonStep hK hjacobian hdelta
    obtain rfl := newtonStep_of_isStationary hK (isStationary_moved hK hdelta) hnext
    have hsecond : (⟨s.moved 1 delta, zeros K net.size⟩ : Stride K net.size).StartsAt
        (fun x => net.assemble x.toArray) cfg.newtonStep (Linear.addScaled net.start 1 delta) :=
      ⟨assemble_addScaled hlinear hs 1 delta, checkFinite_eq_ok hK.toIsExact _, hnext, hfinite _⟩
    have hrun' := hrun.step hsecond
    rw [Linear.addScaled_zeros_right] at hrun'
    exact ⟨_, hrun', endsFirst_second hK htolerance (ending?_first hK hbudget hdamping hshort) _,
      Or.inr rfl⟩

/-- A linear network is solved by its first step, or by that and one of length zero. -/
theorem solve_of_isLinear (hK : Scalar.IsUnrounded K) (hlinear : net.IsLinear)
    (hsize : net.size ≠ 0) (htolerance : 0 < cfg.tolerance) (hbudget : 2 ≤ cfg.maxIterations)
    (hdamping : cfg.minDamping ≤ 1) (hs : net.assemble net.start.toArray = .ok s)
    (hdelta : cfg.newtonStep s = .ok delta) :
    ∃ solution solved, (net.solve cfg).result = .ok (solution, solved) ∧
      solution.status = .converged ∧ (solution.iterations = 1 ∨ solution.iterations = 2) ∧
      solved.values = (Linear.addScaled net.start 1 delta).toList := by
  obtain ⟨ss, hrun, hends, hlength⟩ :=
    exists_run_of_isLinear hK hlinear htolerance hbudget hdamping hs hdelta
  have hfinite : (Linear.addScaled net.start 1 delta).toList.all Scalar.isFinite := by
    simp [hK.isFinite]
  obtain ⟨events, solution, solved, halong, hstatus⟩ := exists_solvesAlong hrun hends hfinite
  refine ⟨solution, solved, ?_, hstatus, halong.iterations ▸ hlength, ?_⟩
  · rw [solve, (solveWith_eq_ok_iff_run hsize).2 ⟨ss, _, halong⟩]
  · rw [halong.written]
    exact values_withValues Vector.length_toList

omit [LinearOrder K] [IsStrictOrderedRing K] in
/-- All equations hold behind a full step exactly if this solves the system before it. -/
theorem satisfies_addScaled (hlinear : net.IsLinear) (hs : net.assemble net.start.toArray = .ok s)
    (delta : Vector K net.size) :
    net.Satisfies (Linear.addScaled net.start 1 delta).toList ↔ s.IsSolvedBy delta := by
  have hmoved : net.assemble (Linear.addScaled net.start 1 delta).toList.toArray =
      .ok (s.moved 1 delta) := assemble_addScaled hlinear hs 1 delta
  rw [satisfies_iff hmoved, EquationSystem.moved, List.forall_mem_map]
  apply forall₂_congr
  intro row _
  show row.residual + 1 * Linear.dot row.row delta = 0 ↔ Linear.dot row.row delta = -row.residual
  rw [one_mul, add_comm, add_eq_zero_iff_eq_neg]

/-- The values that a square linear network is solved by are the only ones that satisfy it. -/
theorem satisfies_of_isLinear (hK : Scalar.IsUnrounded K) (hlinear : net.IsLinear)
    (hsquare : s.rows.length = net.size) (hs : net.assemble net.start.toArray = .ok s)
    (hdelta : cfg.newtonStep s = .ok delta) :
    net.Satisfies (Linear.addScaled net.start 1 delta).toList ∧
      ∀ xs, xs.length = net.size → net.Satisfies xs →
        xs = (Linear.addScaled net.start 1 delta).toList := by
  obtain ⟨hsolves, hunique⟩ := isSolvedBy_newtonStep hK hsquare hdelta
  refine ⟨(satisfies_addScaled hlinear hs delta).2 hsolves, ?_⟩
  intro xs hlength hholds
  -- the values are a step away from the start, and the step is the one there is
  let x : Vector K net.size := ⟨xs.toArray, hlength⟩
  have hx : Linear.addScaled net.start 1 (Linear.addScaled x (-1) net.start) = x := by
    apply Linear.get_injective
    rw [Linear.get_addScaled, Linear.get_addScaled]
    module
  have hstep := hunique (Linear.addScaled x (-1) net.start)
    ((satisfies_addScaled hlinear hs _).1 (by rw [hx]; exact hholds))
  rw [← hstep, hx]
  rfl

omit [LinearOrder K] [IsStrictOrderedRing K] in
/-- Which values the nets start from does not matter to whether there is a system. -/
theorem exists_system_withValues {seeds : List K} {x : Array K} :
    (∃ t, (net.withValues seeds).assemble x = .ok t) ↔ ∃ t, net.assemble x = .ok t := by
  rw [exists_system_iff, exists_system_iff, size_withValues]
  rfl

omit [LinearOrder K] [IsStrictOrderedRing K] in
/-- A network that is solved has a system where it starts. -/
theorem exists_system_of_solve (hsize : net.size ≠ 0) {r : Solution K × Network K}
    (h : (net.solve cfg).result = .ok r) : ∃ s, net.assemble net.start.toArray = .ok s := by
  cases hs : net.assemble net.start.toArray with
  | error cause =>
    rw [solve_of_assemble_error hsize hs] at h
    cases h
  | ok s => exact ⟨s, rfl⟩

end Network

/-! ### Networks that were built -/

section Built

variable [Field K] [Scalar K] {project : Project K} {strict : Bool} {d : Diagram K} {default : K}
  {net : Network K} (h : (d.build project strict default).result = .ok net) (seeds : List K)
include h

theorem Diagram.exists_start_system_iff :
    (∃ s, (net.withValues seeds).assemble (net.withValues seeds).start.toArray = .ok s) ↔
      net.LooseLocksRead := by
  rw [Network.exists_system_withValues]
  apply exists_system_iff_of_build h
  rw [Vector.size_toArray, Network.size_withValues]

variable {seeds}

theorem Diagram.length_rows_of_build {x : Array K}
    {s : EquationSystem K (net.withValues seeds).size}
    (hs : (net.withValues seeds).assemble x = .ok s) :
    s.rows.length = net.nodes.countP FlatNode.contributes :=
  Network.length_rows_of_terminals (fun _ hm hkind => terminals_of_build h hm hkind) hs

end Built

/-- Let a network with nets be built to which no product contributes, and let it start from any
    values.  Provided that the linear system can be solved there, and that the settings allow for a
    second step, a solve returns exactly if the locked sources at no net have numbers for values.
    It converges with its first step or with its second one, and where it ends the residual is
    orthogonal to the columns of the derivatives.  If as many nodes contribute as there are nets,
    then all equations hold there, and nowhere else. -/
theorem Diagram.solve_of_build_linear [Field K] [LinearOrder K] [IsStrictOrderedRing K] [Scalar K]
    (hK : Scalar.IsUnrounded K) {project : Project K} {strict : Bool} {d : Diagram K} {default : K}
    {net : Network K} (h : (d.build project strict default).result = .ok net) (hsize : net.size ≠ 0)
    (hproducts : ∀ m ∈ net.nodes, m.kind = .product → ¬ m.contributes) {cfg : SolverConfig K}
    (htolerance : 0 < cfg.tolerance) (hbudget : 2 ≤ cfg.maxIterations)
    (hdamping : cfg.minDamping ≤ 1) (seeds : List K)
    (hstep : ∀ s, (net.withValues seeds).assemble (net.withValues seeds).start.toArray = .ok s →
      ∃ delta, cfg.newtonStep s = .ok delta) :
    ((∃ r, ((net.withValues seeds).solve cfg).result = .ok r) ↔ net.LooseLocksRead) ∧
    ∀ solution solved, ((net.withValues seeds).solve cfg).result = .ok (solution, solved) →
      solution.status = .converged ∧ (solution.iterations = 1 ∨ solution.iterations = 2) ∧
      (∃ t, (net.withValues seeds).assemble solved.values.toArray = .ok t ∧ t.IsStationary) ∧
      (net.nodes.countP FlatNode.contributes = net.size → net.Satisfies solved.values ∧
        ∀ xs, xs.length = net.size → net.Satisfies xs → xs = solved.values) := by
  have hlinear : (net.withValues seeds).IsLinear := Network.isLinear_of_products hproducts
  have hsize' : (net.withValues seeds).size ≠ 0 := by
    rw [Network.size_withValues]
    exact hsize
  constructor
  · rw [← exists_start_system_iff h seeds]
    constructor
    · intro hreturns
      obtain ⟨r, hr⟩ := hreturns
      exact Network.exists_system_of_solve hsize' hr
    · intro hs
      obtain ⟨s, hs⟩ := hs
      obtain ⟨delta, hdelta⟩ := hstep s hs
      obtain ⟨solution, solved, hsolve, -⟩ :=
        Network.solve_of_isLinear hK hlinear hsize' htolerance hbudget hdamping hs hdelta
      exact ⟨_, hsolve⟩
  · intro solution solved hsolve
    obtain ⟨s, hs⟩ := Network.exists_system_of_solve hsize' hsolve
    obtain ⟨delta, hdelta⟩ := hstep s hs
    obtain ⟨solution', solved', hsolve', hstatus, hiterations, hvalues⟩ :=
      Network.solve_of_isLinear hK hlinear hsize' htolerance hbudget hdamping hs hdelta
    obtain ⟨rfl, rfl⟩ := Prod.mk.inj (Except.ok.inj (hsolve'.symm.trans hsolve))
    have hmoved := Network.assemble_addScaled hlinear hs 1 delta
    rw [hvalues]
    refine ⟨hstatus, hiterations, ⟨_, hmoved, isStationary_moved hK hdelta⟩, fun hsquare => ?_⟩
    have hrows : s.rows.length = (net.withValues seeds).size := by
      rw [length_rows_of_build h hs, hsquare, Network.size_withValues]
    rw [← Network.size_withValues net seeds]
    exact Network.satisfies_of_isLinear hK hlinear hrows hs hdelta

/-! ### Three locks on one net -/

/-- Three locked sources at one net that disagree, and two free ones at another. -/
def Diagram.threeLocks : Diagram ℚ :=
  ⟨"locks", "locks",
    [.valued "t" 3 true, .valued "u" 4 true, .valued "v" 8 true, .valued "y" 0 false,
      .valued "z" 0 false],
    [⟨"t", "a", "u", "a"⟩, ⟨"t", "a", "v", "a"⟩, ⟨"y", "a", "z", "a"⟩]⟩

/-- Settings that allow for any shape. -/
def SolverConfig.lenient : SolverConfig ℚ := { standard with leastSquares := true }

/-- The first net gets the mean of the three; no equation is about the other one, which keeps its
    value. -/
theorem Diagram.solve_of_build_linear_threeLocks :
    ∃ net solution solved, (Diagram.threeLocks.build .empty true 1).result = .ok net ∧
      ((net.withValues [7, -2]).solve .lenient).result = .ok (solution, solved) ∧
      solved.values = [5, -2] ∧ solution.status = .converged ∧
      ∃ t, (net.withValues [7, -2]).assemble solved.values.toArray = .ok t ∧ t.IsStationary := by
  have hruns : (Diagram.threeLocks.build .empty true 1).result.toOption.map (fun net =>
      (decide (net.size ≠ 0 ∧ ∀ m ∈ net.nodes, m.kind = .product → ¬ m.contributes),
        ((net.withValues [7, -2]).assemble (net.withValues [7, -2]).start.toArray).toOption.map
          fun s => (SolverConfig.newtonStep .lenient s).toOption.isSome,
        ((net.withValues [7, -2]).solve .lenient).result.toOption.map fun (_, solved) =>
          solved.values)) = some (true, some true, some [5, -2]) := by
    decide +kernel
  obtain ⟨net, hbuild, hruns⟩ := Option.map_eq_some_iff.1 hruns
  simp only [Prod.mk.injEq] at hruns
  obtain ⟨hnet, hsystem, hsolve⟩ := hruns
  obtain ⟨hsize, hproducts⟩ := of_decide_eq_true hnet
  obtain ⟨s, hs, hdelta⟩ := Option.map_eq_some_iff.1 hsystem
  obtain ⟨delta, hdelta⟩ := Option.isSome_iff_exists.1 hdelta
  obtain ⟨⟨solution, solved⟩, hsolve, hvalues⟩ := Option.map_eq_some_iff.1 hsolve
  have hbuild := toOption_eq_some.1 hbuild
  have hsolve := toOption_eq_some.1 hsolve
  have hstep : ∀ t, (net.withValues [7, -2]).assemble (net.withValues [7, -2]).start.toArray =
      .ok t → ∃ delta, SolverConfig.newtonStep .lenient t = .ok delta := by
    intro t ht
    obtain rfl := Except.ok.inj ((toOption_eq_some.1 hs).symm.trans ht)
    exact ⟨delta, toOption_eq_some.1 hdelta⟩
  have htolerance : 0 < SolverConfig.lenient.tolerance := by decide +kernel
  have hbudget : 2 ≤ SolverConfig.lenient.maxIterations := by decide
  have hdamping : SolverConfig.lenient.minDamping ≤ 1 := by decide +kernel
  obtain ⟨-, hsolves⟩ := solve_of_build_linear Scalar.isUnrounded_rat hbuild hsize hproducts
    htolerance hbudget hdamping [7, -2] hstep
  obtain ⟨hstatus, -, hstationary, -⟩ := hsolves solution solved hsolve
  exact ⟨net, solution, solved, hbuild, hsolve, hvalues, hstatus, hstationary⟩

/-- A locked source at no net whose value is null keeps every solve from returning, though there is
    no product and the net has a locked value. -/
theorem Diagram.looseLock_unsolved :
    ∃ net : Network ℚ, ((Diagram.looseLock .null).build .empty true 1).result = .ok net ∧
      net.size = 1 ∧ (∀ m ∈ net.nodes, m.kind = .product → ¬ m.contributes) ∧
      net.nodes.countP FlatNode.contributes = net.size ∧
      ∀ seeds cfg, ∃ cause,
        ((net.withValues seeds).solve cfg).result = .error (.assembly cause) := by
  have hruns : ((Diagram.looseLock .null).build .empty true 1).result.toOption.map (fun net =>
      decide (net.size = 1 ∧ (∀ m ∈ net.nodes, m.kind = .product → ¬ m.contributes) ∧
        net.nodes.countP FlatNode.contributes = net.size ∧ ¬ net.LooseLocksRead)) = some true := by
    decide +kernel
  obtain ⟨net, hbuild, hruns⟩ := Option.map_eq_some_iff.1 hruns
  obtain ⟨hsize, hproducts, hsquare, hloose⟩ := of_decide_eq_true hruns
  have hbuild := toOption_eq_some.1 hbuild
  refine ⟨net, hbuild, hsize, hproducts, hsquare, fun seeds cfg => ?_⟩
  have hsize' : (net.withValues seeds).size ≠ 0 := by
    rw [Network.size_withValues, hsize]
    exact one_ne_zero
  cases hs : (net.withValues seeds).assemble (net.withValues seeds).start.toArray with
  | error cause => exact ⟨cause, Network.solve_of_assemble_error hsize' hs⟩
  | ok s => exact absurd ((exists_start_system_iff hbuild seeds).1 ⟨s, hs⟩) hloose

end NetBalance
