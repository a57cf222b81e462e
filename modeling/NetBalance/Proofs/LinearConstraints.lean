import NetBalance.Proofs.Derivatives
import NetBalance.Proofs.Elimination
import NetBalance.Proofs.RoundTrip
import NetBalance.Proofs.Runs
import NetBalance.Proofs.Shape

/-! # Linear equations along a run

    The residual of a source or of a sum is linear in the values of the nets.
    A step that solves the linearised system takes such a residual to zero,
    and a damped one scales it by what is left of the step.  The first step is
    not damped, so that from then on these equations hold. -/

namespace NetBalance

open Matrix

variable {K : Type} {n : Nat}

/-- The step solves the linearised system: along it each residual falls to zero. -/
def EquationSystem.IsSolvedBy [Add K] [Mul K] [Neg K] [Zero K] (s : EquationSystem K n)
    (delta : Vector K n) : Prop :=
  ∀ row ∈ s.rows, Linear.dot row.row delta = -row.residual

/-! ### Steps that solve a system -/

section Steps

theorem EquationSystem.get_rightHandSide [Neg K] (s : EquationSystem K n)
    (i : Fin s.rows.length) : s.rightHandSide.get i = -(s.rows.get i).residual := by
  simp [rightHandSide, Linear.get_eq_getElem]

theorem EquationSystem.get_matrix (s : EquationSystem K n) (i : Fin s.rows.length) :
    s.matrix.get i = (s.rows.get i).row := by
  simp [matrix, Linear.get_eq_getElem]

theorem EquationSystem.isSolvedBy_iff [CommRing K] {s : EquationSystem K n} {delta : Vector K n} :
    s.IsSolvedBy delta ↔ s.matrix.toMatrix *ᵥ delta.get = s.rightHandSide.get := by
  have hrow : ∀ i, (s.matrix.toMatrix *ᵥ delta.get) i = Linear.dot (s.rows.get i).row delta := by
    intro i
    rw [Linear.dot_eq, ← s.get_matrix]
    rfl
  rw [IsSolvedBy, List.forall_mem_iff_get, funext_iff]
  apply forall_congr'
  intro i
  rw [hrow, s.get_rightHandSide]

theorem newtonStep_eq_ok [Add K] [Sub K] [Mul K] [Div K] [Neg K] [Zero K] [One K] [Scalar K]
    {cfg : SolverConfig K} {s : EquationSystem K n} {delta : Vector K n} :
    cfg.newtonStep s = .ok delta ↔
      ∃ op, LinearOperator.ofMatrix s.matrix cfg.singularTolerance cfg.leastSquares = .ok op ∧
        op.solve s.rightHandSide = .ok delta := by
  rw [SolverConfig.newtonStep, mapError_eq_ok, bind_eq_ok]

/-- The Newton step of a square system solves it, and is the only one that does. -/
theorem isSolvedBy_newtonStep [Field K] [LinearOrder K] [IsStrictOrderedRing K] [Scalar K]
    (hK : Scalar.IsUnrounded K) {cfg : SolverConfig K} {s : EquationSystem K n}
    {delta : Vector K n} (hsquare : s.rows.length = n) (h : cfg.newtonStep s = .ok delta) :
    s.IsSolvedBy delta ∧ ∀ other, s.IsSolvedBy other → other = delta := by
  obtain ⟨op, hop, hsolve⟩ := newtonStep_eq_ok.1 h
  obtain ⟨hsolves, hunique⟩ := LinearOperator.mulVec_solve hK hsquare hop hsolve
  refine ⟨EquationSystem.isSolvedBy_iff.2 hsolves, fun other hother => ?_⟩
  apply Linear.get_injective
  exact hunique _ (EquationSystem.isSolvedBy_iff.1 hother)

end Steps

/-! ### One equation -/

section Equations

variable [CommRing K] {e : Equation K}

theorem valuesIn_of_lt (x : Vector K n) {i : Nat} (hi : i < n) :
    valuesIn x.toArray i = x.get ⟨i, hi⟩ := by
  simp [valuesIn, Linear.get_eq_getElem, hi]

theorem valuesIn_of_le (x : Vector K n) {i : Nat} (hi : n ≤ i) : valuesIn x.toArray i = 0 := by
  simp [valuesIn, hi]

theorem valuesIn_addScaled (x delta : Vector K n) (a : K) (i : Nat) :
    valuesIn (Linear.addScaled x a delta).toArray i =
      valuesIn x.toArray i + a * valuesIn delta.toArray i := by
  by_cases hi : i < n
  · simp only [valuesIn_of_lt _ hi, Linear.get_addScaled]
    rfl
  · have hi : n ≤ i := by omega
    simp only [valuesIn_of_le _ hi, mul_zero, add_zero]

namespace Equation

/-- The residual is linear in the values of the nets. -/
def IsLinear : Equation K → Prop
  | .pin .. | .equate .. | .equalSums .. => True
  | .equalProducts .. => False

theorem sum_map_add_mul (is : List Nat) (x d : Nat → K) (a : K) :
    (is.map fun i => x i + a * d i).sum = (is.map x).sum + a * (is.map d).sum := by
  rw [List.sum_map_add, List.sum_map_mul_left]

/-- Along a direction a linear residual changes by what its terms say. -/
theorem residual_add_mul (he : e.IsLinear) (x d : Nat → K) (a : K) :
    e.residual (fun i => x i + a * d i) = e.residual x + a * weigh d (e.terms x) := by
  cases e with
  | pin net value =>
    simp only [residual, terms, weigh, List.map_cons, List.map_nil, List.sum_cons, List.sum_nil,
      smul_eq_mul]
    ring
  | equate first second =>
    simp only [residual, terms, weigh, List.map_cons, List.map_nil, List.sum_cons, List.sum_nil,
      smul_eq_mul]
    ring
  | equalSums top bottom =>
    rw [residual_equalSums, residual_equalSums, terms, weigh_append, weigh_map_const,
      weigh_map_const, sum_map_add_mul, sum_map_add_mul, smul_eq_mul, smul_eq_mul]
    ring
  | equalProducts top bottom => cases he

/-- The product of a row with a vector is the sum of the values with the weights of the terms. -/
theorem dot_row (he : e.IsProper) (x : Nat → K) (delta : Vector K n) :
    Linear.dot (e.row n x) delta = weigh (valuesIn delta.toArray) (e.terms x) := by
  have hbeyond : ∀ i, n ≤ i → valuesIn delta.toArray i = 0 := fun i => valuesIn_of_le delta
  rw [← weigh_row he hbeyond, Linear.dot_eq]
  refine Finset.sum_congr rfl fun k _ => ?_
  rw [valuesIn_of_lt delta k.isLt]
  rfl

/-- Along a damped step a linear residual changes by the product of its row with the step. -/
theorem residual_addScaled (hlinear : e.IsLinear) (he : e.IsProper) (x delta : Vector K n) (a : K) :
    e.residual (valuesIn (Linear.addScaled x a delta).toArray) =
      e.residual (valuesIn x.toArray) +
        a * Linear.dot (e.row n (valuesIn x.toArray)) delta := by
  rw [dot_row he, funext (valuesIn_addScaled x delta a), residual_add_mul hlinear]

end Equation

end Equations

/-! ### The equations of sources and sums -/

section Nodes

theorem Kind.equations_sum [Zero K] [One K] [Scalar K] {p : Payload K}
    {net? : PortName → Option Nat} {es : List (Equation K)}
    (h : Kind.sum.equations p net? = .ok es) :
    ∃ top bottom, rowNets net? p "top_ports" = .ok top ∧ rowNets net? p "bottom_ports" = .ok bottom ∧
      es = if top.isEmpty && bottom.isEmpty then [] else [.equalSums top bottom] := by
  obtain ⟨top, htop, h⟩ := bind_eq_ok.1 h
  obtain ⟨bottom, hbottom, h⟩ := bind_eq_ok.1 h
  exact ⟨top, bottom, htop, hbottom, (Except.ok.inj h).symm⟩

/-- Only products have equations that are not linear. -/
theorem Kind.isLinear_of_equations [CommRing K] [Scalar K] {kind : Kind} {p : Payload K}
    {net? : PortName → Option Nat} {es : List (Equation K)} (hkind : kind ≠ .product)
    (hes : kind.equations p net? = .ok es) {e : Equation K} (he : e ∈ es) : e.IsLinear := by
  rcases equation_cases hes he with ⟨i, -, v, rfl⟩ | ⟨first, second, -, rfl⟩ |
    ⟨top, bottom, htop, hbottom, rfl | rfl⟩
  · trivial
  · trivial
  · trivial
  · cases kind with
    | source =>
      rw [equations] at hes
      split at hes
      · obtain ⟨v, -, hes⟩ := bind_eq_ok.1 hes
        obtain rfl := Except.ok.inj hes
        simp at he
      · split at hes
        · obtain rfl := Except.ok.inj hes
          simp at he
        · obtain rfl := Except.ok.inj hes
          cases he
    | sum =>
      obtain ⟨top', bottom', -, -, rfl⟩ := equations_sum hes
      split at he
      · cases he
      · simp at he
    | product => exact absurd rfl hkind
    | reference =>
      obtain rfl := Except.ok.inj hes
      cases he

end Nodes

/-! ### Runs -/

namespace Network

variable [Field K] [Scalar K] {net : Network K} {cfg : SolverConfig K}
  {linearStep : EquationSystem K net.size → Except (SolveError K) (Vector K net.size)}
  {ss : List (Stride K net.size)} {x : Vector K net.size}

/-- All equations of sources and of sums hold at the values: so the nets of locked sources have the
    values of these, and the two rows of a sum have the same sum. -/
structure Keeps (net : Network K) (xs : List K) : Prop where
  equations : ∀ m ∈ net.nodes, m.kind ≠ .product → ∃ es, m.equations = .ok es ∧
    ∀ e ∈ es, e.residual (fun i => xs[i]?.getD 0) = 0
  locked : ∀ m ∈ net.nodes, m.kind = .source → Kind.isLocked m.payload →
    ∀ t ∈ Kind.sourceTerminals, ∀ i, m.net? (some t) = some i →
      ∃ v, Kind.configuredValue m.payload = .ok v ∧ xs[i]? = some v
  sums : ∀ m ∈ net.nodes, m.kind = .sum → ∃ top bottom,
    Kind.rowNets m.net? m.payload "top_ports" = .ok top ∧
    Kind.rowNets m.net? m.payload "bottom_ports" = .ok bottom ∧
      (top.map fun i => xs[i]?.getD 0).sum = (bottom.map fun i => xs[i]?.getD 0).sum

/-- Of a linear residual, a step that solves its system leaves the share that it is damped by. -/
theorem residual_step {s : Stride K net.size}
    (hs : s.StartsAt (fun x => net.assemble x.toArray) linearStep x)
    (hsolved : s.system.IsSolvedBy s.delta) (a : K) {m : FlatNode K} (hm : m ∈ net.nodes)
    {es : List (Equation K)} (hes : m.equations = .ok es) {e : Equation K} (he : e ∈ es)
    (hlinear : e.IsLinear) :
    e.residual (valuesIn (Linear.addScaled x a s.delta).toArray) =
      (1 - a) * e.residual (valuesIn x.toArray) := by
  obtain ⟨all, hall, -, hrows⟩ := assemble_eq_ok.1 hs.system
  have hmem : SystemRow.ofEquation net.size (valuesIn x.toArray) (m.id, e) ∈ s.system.rows := by
    rw [← hrows]
    exact List.mem_map_of_mem ((mem_equationsOf hall).2 ⟨m, hm, es, hes, e, he, rfl⟩)
  have hrow : Linear.dot (e.row net.size (valuesIn x.toArray)) s.delta =
      -e.residual (valuesIn x.toArray) := hsolved _ hmem
  rw [Equation.residual_addScaled hlinear (Kind.isProper_of_equations hes he), hrow]
  ring

/-- Behind the first step of a run whose steps solve their systems, linear residuals are zero. -/
theorem residual_of_run (hrun : net.Run cfg linearStep ss x) (hne : ss ≠ [])
    (hsolved : ∀ s ∈ ss, s.system.IsSolvedBy s.delta) {m : FlatNode K} (hm : m ∈ net.nodes)
    {es : List (Equation K)} (hes : m.equations = .ok es) {e : Equation K} (he : e ∈ es)
    (hlinear : e.IsLinear) : e.residual (valuesIn x.toArray) = 0 := by
  induction hrun with
  | start => exact absurd rfl hne
  | @step ss x s hrun hs ih =>
    rw [residual_step hs (hsolved s (by simp)) _ hm hes he hlinear]
    by_cases hss : ss = []
    · -- the first step is taken in full
      rw [hss]
      show (1 - 1) * _ = (0 : K)
      rw [sub_self, zero_mul]
    · rw [ih hss fun s hs => hsolved s (List.mem_append_left _ hs), mul_zero]

/-- Where its equation holds, or where it has none, a sum is balanced. -/
theorem balance_of_sum {m : FlatNode K} (hkind : m.kind = .sum) {es : List (Equation K)}
    (hes : m.equations = .ok es) {x : Nat → K} (hzero : ∀ e ∈ es, e.residual x = 0) :
    ∃ top bottom, Kind.rowNets m.net? m.payload "top_ports" = .ok top ∧
      Kind.rowNets m.net? m.payload "bottom_ports" = .ok bottom ∧
      (top.map x).sum = (bottom.map x).sum := by
  rw [FlatNode.equations, hkind] at hes
  obtain ⟨top, bottom, htop, hbottom, rfl⟩ := Kind.equations_sum hes
  refine ⟨top, bottom, htop, hbottom, ?_⟩
  by_cases hempty : top.isEmpty && bottom.isEmpty
  · rw [Bool.and_eq_true, List.isEmpty_iff, List.isEmpty_iff] at hempty
    rw [hempty.1, hempty.2]
  · rw [if_neg hempty] at hzero
    have hresidual := hzero _ (List.mem_singleton_self _)
    rw [Equation.residual_equalSums] at hresidual
    exact sub_eq_zero.1 hresidual

/-- Behind the first step of a run whose steps solve their systems, each node other than a product
    has equations, which are about nets of the network and hold. -/
theorem exists_equations_of_run (hrun : net.Run cfg linearStep ss x) (hne : ss ≠ [])
    (hsolved : ∀ s ∈ ss, s.system.IsSolvedBy s.delta) {m : FlatNode K} (hm : m ∈ net.nodes)
    (hkind : m.kind ≠ .product) : ∃ es, m.equations = .ok es ∧
      (∀ e ∈ es, ∀ i ∈ e.nets, i < x.toList.length) ∧
      ∀ e ∈ es, e.residual (fun i => x.toList[i]?.getD 0) = 0 := by
  obtain ⟨es, hes, hfits⟩ : ∃ es, m.equations = .ok es ∧ ∀ e ∈ es, ∀ i ∈ e.nets, i < net.size := by
    cases hrun with
    | start => exact absurd rfl hne
    | step hrun hs =>
      obtain ⟨es, hes, hfits⟩ := exists_system_iff.1 ⟨_, hs.system⟩ m hm
      exact ⟨es, hes, fun e he i hi => (hfits e he i hi).1⟩
  have hvalues : (fun i => x.toList[i]?.getD 0) = valuesIn x.toArray := by
    funext i
    simp [valuesIn]
  refine ⟨es, hes, ?_, ?_⟩
  · simpa using hfits
  · intro e he
    rw [hvalues]
    exact residual_of_run hrun hne hsolved hm hes he (Kind.isLinear_of_equations hkind hes he)

/-- Behind the first step of a run whose steps solve their systems, linear equations hold. -/
theorem keeps_of_run (hrun : net.Run cfg linearStep ss x) (hne : ss ≠ [])
    (hsolved : ∀ s ∈ ss, s.system.IsSolvedBy s.delta) : net.Keeps x.toList := by
  refine ⟨?_, ?_, ?_⟩
  · intro m hm hkind
    obtain ⟨es, hes, -, hzero⟩ := exists_equations_of_run hrun hne hsolved hm hkind
    exact ⟨es, hes, hzero⟩
  · intro m hm hkind hlocked t ht i hi
    have hother : m.kind ≠ .product := by simp [hkind]
    obtain ⟨es, hes, hfits, hzero⟩ := exists_equations_of_run hrun hne hsolved hm hother
    exact value_of_locked hkind hlocked hes hfits hzero ht hi
  · intro m hm hkind
    have hother : m.kind ≠ .product := by simp [hkind]
    obtain ⟨es, hes, -, hzero⟩ := exists_equations_of_run hrun hne hsolved hm hother
    exact balance_of_sum hkind hes hzero

/-- The steps of a run are found by the linear step. -/
theorem isSolvedBy_of_run (hexact : ∀ x s delta, net.assemble x = .ok s → linearStep s = .ok delta →
      s.IsSolvedBy delta) (hrun : net.Run cfg linearStep ss x) :
    ∀ s ∈ ss, s.system.IsSolvedBy s.delta := by
  induction hrun with
  | start => simp
  | @step ss x s hrun hs ih =>
    rw [List.forall_mem_append, List.forall_mem_singleton]
    exact ⟨ih, hexact _ _ _ hs.system hs.delta⟩

/-- The values that a solve ends with are where a run leads. -/
theorem exists_run_of_solveWith {solution : Solution K} {solved : Network K}
    (h : (net.solveWith cfg linearStep).result = .ok (solution, solved))
    (hiterations : 1 ≤ solution.iterations) :
    ∃ ss x, net.Run cfg linearStep ss x ∧ ss ≠ [] ∧ solved.values = x.toList := by
  have hsize : net.size ≠ 0 := by
    intro hsize
    rw [solveWith_of_size_eq_zero hsize] at h
    cases h
    cases hiterations
  have hsolve : net.solveWith cfg linearStep =
      ⟨(net.solveWith cfg linearStep).events, .ok (solution, solved)⟩ := by
    rw [← h]
  obtain ⟨ss, x, halong⟩ := (solveWith_eq_ok_iff_run hsize).1 hsolve
  refine ⟨ss, x, halong.run, ?_, ?_⟩
  · rintro rfl
    rw [halong.iterations] at hiterations
    cases hiterations
  · rw [halong.written]
    exact values_withValues Vector.length_toList

/-- Let each Newton step solve the linearised system exactly.  Then wherever a run leads with its
    first step or later, however the steps are damped, the equations of sources and of sums hold.
    So they hold of the values that a solve ends with, also of one that is given up: each net of a
    locked source has the value of the source, and each sum is balanced. -/
theorem linear_equations_hold
    (hexact : ∀ x s delta, net.assemble x = .ok s → linearStep s = .ok delta → s.IsSolvedBy delta) :
    (∀ ss x, net.Run cfg linearStep ss x → ss ≠ [] → net.Keeps x.toList) ∧
    ∀ solution solved, (net.solveWith cfg linearStep).result = .ok (solution, solved) →
      1 ≤ solution.iterations → net.Keeps solved.values := by
  have hruns : ∀ ss x, net.Run cfg linearStep ss x → ss ≠ [] → net.Keeps x.toList := by
    intro ss x hrun hne
    exact keeps_of_run hrun hne (isSolvedBy_of_run hexact hrun)
  refine ⟨hruns, ?_⟩
  intro solution solved hsolve hiterations
  obtain ⟨ss, x, hrun, hne, hvalues⟩ := exists_run_of_solveWith hsolve hiterations
  rw [hvalues]
  exact hruns ss x hrun hne

end Network

/-! ### A solve that is given up -/

theorem Scalar.isUnrounded_rat : Scalar.IsUnrounded ℚ where
  toIsExact := isExact_rat
  isZero_iff _ := decide_eq_true_iff
  abs_eq a := by
    show (if a < 0 then -a else a) = |a|
    split
    · next h => exact (abs_of_neg h).symm
    · next h => exact (abs_of_nonneg (not_lt.1 h)).symm
  epsilon_eq := rfl

/-- The steps of a square network solve their systems, so that the values that the iteration is given
    up with still have the locked zero and the locked one in place. -/
theorem Network.linear_equations_hold_noRoot :
    ∃ net solution solved, (Diagram.noRoot.build .empty true 1).result = .ok net ∧
      (net.solve .brief).result = .ok (solution, solved) ∧ solution.status = .aborted ∧
      (∀ x s delta, net.assemble x = .ok s → SolverConfig.newtonStep .brief s = .ok delta →
        s.IsSolvedBy delta) ∧
      1 ≤ solution.iterations ∧ net.Keeps solved.values := by
  have hruns : (Diagram.noRoot.build .empty true 1).result.toOption.map (fun net =>
      ((net.assemble net.start.toArray).toOption.map fun s =>
          decide (s.rows.length = net.size),
        (net.solve .brief).result.toOption.map fun (solution, _) =>
          (solution.status, solution.iterations))) = some (some true, some (.aborted, 5)) := by
    decide +kernel
  obtain ⟨net, hbuild, hruns⟩ := Option.map_eq_some_iff.1 hruns
  obtain ⟨hsystem, hsolve⟩ := Prod.mk.inj hruns
  obtain ⟨s, hs, hlength⟩ := Option.map_eq_some_iff.1 hsystem
  obtain ⟨⟨solution, solved⟩, hsolve, hends⟩ := Option.map_eq_some_iff.1 hsolve
  obtain ⟨haborted, hiterations⟩ := Prod.mk.inj hends
  have hsquare := isSquare_of_assemble (toOption_eq_some.1 hs) (of_decide_eq_true hlength)
  have hexact : ∀ x s delta, net.assemble x = .ok s → SolverConfig.newtonStep .brief s = .ok delta →
      s.IsSolvedBy delta := by
    intro x s delta hs hdelta
    exact (isSolvedBy_newtonStep Scalar.isUnrounded_rat (hsquare x s hs) hdelta).1
  have hsteps : 1 ≤ solution.iterations := by omega
  have hsolve := toOption_eq_some.1 hsolve
  exact ⟨net, solution, solved, toOption_eq_some.1 hbuild, hsolve, haborted, hexact, hsteps,
    (linear_equations_hold hexact).2 solution solved hsolve hsteps⟩

end NetBalance
