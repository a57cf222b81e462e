import NetBalance.Proofs.Rows
import NetBalance.Solver.Solution
import Mathlib.Algebra.Order.Field.Basic

/-! # Solving from a solution

    Over exact numbers a right-hand side of zeros has the solution zero, by
    elimination as well as by least squares.  So where all equations hold the
    Newton step is zero, and an iteration that starts there ends with it. -/

namespace NetBalance

variable {K : Type}

/-- Comparisons, conversions and roots that fit an ordered field. -/
structure Scalar.IsExact (K : Type) [Field K] [LinearOrder K] [Scalar K] : Prop where
  lt_iff : ∀ a b : K, Scalar.lt a b ↔ a < b
  isFinite : ∀ a : K, Scalar.isFinite a
  sqrt_zero : Scalar.sqrt (0 : K) = 0
  sqrt_nonneg : ∀ a : K, 0 ≤ Scalar.sqrt a
  ofInt? : ∀ n : Int, Scalar.ofInt? n = some (n : K)

/-! ### Zero vectors -/

section Zero

variable [Field K] {m n : Nat}

/-- The vector of zeros. -/
def zeros (K : Type) [Zero K] (n : Nat) : Vector K n := Vector.replicate n 0

theorem get_zeros (i : Fin n) : (zeros K n).get i = 0 := Row.get_zero i

theorem set_zeros (i : Fin n) : (zeros K n).set i 0 i.isLt = zeros K n := by
  ext j hj
  rw [Vector.getElem_set]
  split
  · exact (get_zeros ⟨j, hj⟩).symm
  · rfl

theorem sumLeft_eq_zero {xs : List K} (h : ∀ x ∈ xs, x = 0) : sumLeft xs = 0 := by
  induction xs with
  | nil => rfl
  | cons x xs ih =>
    rw [List.forall_mem_cons] at h
    rw [sumLeft, List.foldl_cons, h.1, add_zero]
    exact ih h.2

theorem dot_zeros (q : Vector K m) : Linear.dot q (zeros K m) = 0 := by
  refine sumLeft_eq_zero fun x hx => ?_
  obtain ⟨i, hi, rfl⟩ := List.mem_iff_getElem.1 hx
  simp [zeros]

theorem addScaled_zeros (u v : Vector K n) : Linear.addScaled u 0 v = u := by
  ext i hi
  simp [Linear.addScaled]

theorem toList_addScaled_one (u v : Vector K n) :
    (Linear.addScaled u 1 v).toList = List.zipWith (· + ·) u.toList v.toList := by
  refine List.ext_getElem ?_ ?_
  · simp
  · intro i hi hi'
    simp [Linear.addScaled]

theorem subScaled_zeros (u v : Vector K n) : Linear.subScaled u 0 v = u := by
  ext i hi
  simp [Linear.subScaled]

end Zero

/-! ### Solving for zero -/

section Solve

variable [Field K] {m n : Nat}

namespace LU

theorem reduceEntry_zeros (coefficient : Fin n → Fin n → K) (js : List (Fin n)) (i : Fin n) :
    reduceEntry coefficient js (zeros K n) i = 0 := by
  rw [reduceEntry, get_zeros]
  induction js with
  | nil => rfl
  | cons j js ih => rw [List.foldl_cons, get_zeros, mul_zero, sub_zero, ih]

/-- A sweep that finds zeros everywhere leaves zeros. -/
theorem sweep_zeros {order : List (Fin n)} {value : Vector K n → Fin n → K}
    (h : ∀ i, value (zeros K n) i = 0) : sweep order value (zeros K n) = zeros K n := by
  rw [sweep]
  induction order with
  | nil => rfl
  | cons i order ih => rw [List.foldl_cons, h, set_zeros, ih]

theorem solve_zeros (f : LU K n) : f.solve (zeros K n) = zeros K n := by
  have hordered : (Vector.ofFn fun i => (zeros K n).get (f.order.get i)) = zeros K n := by
    ext i hi
    rw [Vector.getElem_ofFn, get_zeros]
    exact (get_zeros ⟨i, hi⟩).symm
  have hlower : f.solveLower (zeros K n) = zeros K n :=
    sweep_zeros fun i => reduceEntry_zeros _ _ i
  rw [solve, hordered, hlower]
  refine sweep_zeros fun i => ?_
  rw [reduceEntry_zeros, zero_div]

end LU

namespace LeastSquares

theorem share_zeros (q : Vector K m) : share q (zeros K m) = 0 := by
  rw [share, dot_zeros, zero_div]

/-- Where nothing is missing in any direction, the shortest vector is zero. -/
theorem shortest_eq_zeros {ds : List (Direction K n)} (h : ∀ d ∈ ds, d.share = 0) :
    shortest ds = zeros K n := by
  rw [shortest]
  -- the vector stays at zero, whatever the rows are
  refine List.foldlRecOn (motive := fun s : List (Vector K n) × Vector K n => s.2 = zeros K n)
    ds _ rfl fun s hs d hd => ?_
  simp only [hs, h d hd, dot_zeros, sub_zero, zero_div, addScaled_zeros]

variable [Scalar K]

/-- Zeros have no share in any direction. -/
theorem share_directions {longest : K} {budget : Nat} {columns : List (Remaining K m n)}
    {d : Direction K n} (h : d ∈ directions longest budget columns (zeros K m)) : d.share = 0 := by
  induction budget generalizing columns with
  | zero => cases h
  | succ budget ih =>
    rw [directions] at h
    split at h
    · cases h
    · rcases List.mem_cons.1 h with rfl | h
      · exact share_zeros _
      · -- what is left of zeros are zeros
        rw [share_zeros, subScaled_zeros] at h
        exact ih h

theorem solve_zeros (a : RowMatrix K m n) : solve a (zeros K m) = zeros K n := by
  rw [solve]
  split
  · rfl
  · simp only
    rw [shortest_eq_zeros fun d hd => share_directions hd]
    ext i hi
    simp [zeros]

end LeastSquares

variable [Scalar K]

theorem LinearOperator.solve_zeros {op : LinearOperator K m n} {x : Vector K n}
    (h : op.solve (zeros K m) = .ok x) : x = zeros K n := by
  cases op with
  | factored square f =>
    cases square
    rw [solve] at h
    split at h
    · cases h
    · rw [← Except.ok.inj h]
      exact f.solve_zeros
  | leastSquares a =>
    rw [solve] at h
    split at h
    · cases h
    · -- the matrix is checked once more
      split at h
      · rw [← Except.ok.inj h, LeastSquares.solve_zeros]
      · cases h

/-- Where all equations hold, the Newton step is zero. -/
theorem newtonStep_eq_zeros {cfg : SolverConfig K} {s : EquationSystem K n} {delta : Vector K n}
    (hholds : ∀ row ∈ s.rows, row.residual = 0) (h : cfg.newtonStep s = .ok delta) :
    delta = zeros K n := by
  have hright : s.rightHandSide = zeros K s.rows.length := by
    ext i hi
    have hrow := hholds (s.rows[i]) (List.getElem_mem hi)
    simp [EquationSystem.rightHandSide, zeros, hrow]
  rw [SolverConfig.newtonStep, hright, mapError_eq_ok] at h
  obtain ⟨op, -, hsolve⟩ := bind_eq_ok.1 h
  exact LinearOperator.solve_zeros hsolve

end Solve

/-! ### One step -/

section Step

variable [Field K] [LinearOrder K] [Scalar K] {n : Nat} {cfg : SolverConfig K}
  {assemble : Vector K n → Except AssemblyError (EquationSystem K n)}
  {linearStep : EquationSystem K n → Except (SolveError K) (Vector K n)}

theorem norm_zeros (hK : Scalar.IsExact K) : norm (List.replicate n (0 : K)) = 0 := by
  have hsum : sumLeft ((List.replicate n (0 : K)).map fun x => x * x) = 0 := by
    refine sumLeft_eq_zero fun y hy => ?_
    obtain ⟨x, hx, rfl⟩ := List.mem_map.1 hy
    rw [List.eq_of_mem_replicate hx, mul_zero]
  rw [norm, hsum, hK.sqrt_zero]

theorem checkFinite_eq_ok (hK : Scalar.IsExact K) (s : EquationSystem K n) :
    s.checkFinite = .ok () := by
  simp [EquationSystem.checkFinite, hK.isFinite]

/-- The first step goes all the way. -/
theorem takeStep_initial (hK : Scalar.IsExact K) {x delta : Vector K n} {s : EquationSystem K n}
    (hs : assemble x = .ok s) (hdelta : linearStep s = .ok delta) :
    takeStep cfg assemble linearStep (.initial x) =
      .ok (⟨Linear.addScaled x 1 delta, 1, 1, some (norm s.residual), norm delta.toList⟩,
        ⟨1, 1, norm s.residual, norm delta.toList⟩) := by
  rw [takeStep]
  simp only [NewtonState.initial, hs, checkFinite_eq_ok hK, hdelta, ok_mapError, ok_bind]
  simp [hK.isFinite, pure, Except.pure]

/-- An iteration whose first step is short ends with it. -/
theorem iterate_of_short (hK : Scalar.IsExact K) {left : Nat} {x delta : Vector K n}
    {s : EquationSystem K n} (hs : assemble x = .ok s) (hdelta : linearStep s = .ok delta)
    (hshort : Scalar.lt (norm delta.toList) cfg.tolerance) :
    (iterate cfg assemble linearStep left (.initial x)).result =
      .ok (.converged,
        ⟨Linear.addScaled x 1 delta, 1, 1, some (norm s.residual), norm delta.toList⟩) := by
  rw [iterate]
  simp [takeStep_initial hK hs hdelta, hshort]

/-- What a step reports as its length is the norm of a vector. -/
theorem stepNorm_nonneg (hK : Scalar.IsExact K) {s next : NewtonState K n} {record : NewtonStep K}
    (h : takeStep cfg assemble linearStep s = .ok (next, record)) : 0 ≤ next.stepNorm := by
  rw [takeStep] at h
  obtain ⟨system, -, h⟩ := bind_eq_ok.1 h
  obtain ⟨-, -, h⟩ := bind_eq_ok.1 h
  obtain ⟨delta, -, h⟩ := bind_eq_ok.1 h
  split at h
  · cases h
  · cases h
    exact hK.sqrt_nonneg _

omit [LinearOrder K] in
/-- An iteration that ends well took a step, and the step was short or the iteration went on. -/
theorem step_of_converged {left : Nat} {s final : NewtonState K n}
    (h : (iterate cfg assemble linearStep left s).result = .ok (.converged, final)) :
    ∃ next record, takeStep cfg assemble linearStep s = .ok (next, record) ∧
      (Scalar.lt next.stepNorm cfg.tolerance ∨ ∃ left', left = left' + 1 ∧
        (iterate cfg assemble linearStep left' next).result = .ok (.converged, final)) := by
  rw [iterate, Logged.bind_result, Logged.ofExcept_result] at h
  obtain ⟨⟨next, record⟩, hstep, h⟩ := bind_eq_ok.1 h
  refine ⟨next, record, hstep, ?_⟩
  simp only [Logged.bind_result, Logged.tell_result, ok_bind] at h
  split at h
  · next hshort => exact Or.inl hshort
  · split at h
    · cases h
    · cases left with
      | zero => cases h
      | succ left => exact Or.inr ⟨left, rfl, h⟩

/-- Only a step shorter than the tolerance ends an iteration well. -/
theorem tolerance_pos (hK : Scalar.IsExact K) {left : Nat} {s final : NewtonState K n}
    (h : (iterate cfg assemble linearStep left s).result = .ok (.converged, final)) :
    0 < cfg.tolerance := by
  induction left generalizing s with
  | zero =>
    obtain ⟨next, record, hstep, hshort | ⟨left', hleft, -⟩⟩ := step_of_converged h
    · exact lt_of_le_of_lt (stepNorm_nonneg hK hstep) ((hK.lt_iff _ _).1 hshort)
    · cases hleft
  | succ left ih =>
    obtain ⟨next, record, hstep, hshort | ⟨left', hleft, hrest⟩⟩ := step_of_converged h
    · exact lt_of_le_of_lt (stepNorm_nonneg hK hstep) ((hK.lt_iff _ _).1 hshort)
    · cases hleft
      exact ih hrest

end Step

/-! ### Solving a network -/

namespace Network

theorem size_withValues (net : Network K) (xs : List K) : (net.withValues xs).size = net.size := by
  simp [size, withValues]

theorem members_withValues (net : Network K) (xs : List K) :
    (net.withValues xs).nets.map (·.members) = net.nets.map (·.members) := by
  refine List.ext_getElem ?_ ?_
  · simp [withValues]
  · intro i hi hi'
    simp [withValues]

/-- The values of a network that was given values are those. -/
theorem values_withValues {net : Network K} {xs : List K} (h : xs.length = net.size) :
    (net.withValues xs).values = xs := by
  refine List.ext_getElem ?_ ?_
  · simp [values, withValues, h, size]
  · intro i hi hi'
    simp [values, withValues, hi']

/-- Its own values change nothing. -/
theorem withValues_values (net : Network K) : net.withValues net.values = net := by
  obtain ⟨nodes, nets⟩ := net
  rw [withValues, Network.mk.injEq]
  refine ⟨rfl, List.ext_getElem ?_ ?_⟩
  · simp
  · intro i hi hi'
    simp [values, hi']

section Ends

variable [Add K] [Sub K] [Mul K] [Div K] [Neg K] [Zero K] [One K] [Scalar K]
  {net solved : Network K} {cfg : SolverConfig K} {solution : Solution K}

/-- A solve ends with the values that its iteration ends with, which are all finite. -/
theorem iterateFrom_of_solve (h : (net.solve cfg).result = .ok (solution, solved)) :
    ∃ final, (net.iterateFrom cfg cfg.newtonStep net.start).result = .ok (solution.status, final) ∧
      final.x.toList.all Scalar.isFinite ∧ solved = (net.withValues final.x.toList).finish ∧
      solution.payloads = solved.topLevelPayloads := by
  rw [solve, solveWith, Logged.bind_result] at h
  obtain ⟨⟨status, final⟩, hfinal, h⟩ := bind_eq_ok.1 h
  simp only at h
  split at h
  · cases h
  · next hfinite =>
    simp only [Logged.bind_result, Logged.tell_result, Logged.pure_result, ok_bind] at h
    cases h
    exact ⟨final, hfinal, by simpa using hfinite, rfl, rfl⟩

/-- A solve ends with finished payloads at some values. -/
theorem exists_values_of_solve (h : (net.solve cfg).result = .ok (solution, solved)) :
    ∃ xs : List K, xs.length = net.size ∧ xs.all Scalar.isFinite ∧
      solved = (net.withValues xs).finish ∧ solved.values = xs ∧
      solution.payloads = (net.withValues xs).finish.topLevelPayloads := by
  obtain ⟨final, -, hfinite, rfl, hpayloads⟩ := iterateFrom_of_solve h
  have hlength : final.x.toList.length = net.size := Vector.length_toList
  exact ⟨final.x.toList, hlength, hfinite, rfl, values_withValues hlength, hpayloads⟩

end Ends

variable [Field K] [Scalar K] {net solved : Network K} {cfg : SolverConfig K}
  {solution : Solution K} {xs step : List K}

/-- All equations of all nodes hold at the values. -/
def Satisfies (net : Network K) (xs : List K) : Prop :=
  ∀ m ∈ net.nodes, ∀ es, m.equations = .ok es → ∀ e ∈ es, e.residual (fun i => xs[i]?.getD 0) = 0

instance [DecidableEq K] : Decidable (net.Satisfies xs) :=
  decidable_of_iff (∀ m ∈ net.nodes, ∀ e ∈ m.equations.toOption.getD [],
      e.residual (fun i => xs[i]?.getD 0) = 0)
    (forall₂_congr fun m _ => by cases m.equations <;> simp [Except.toOption])

/-- The Newton step from the values. -/
def stepFrom (net : Network K) (cfg : SolverConfig K) (xs : List K) :
    Except (Error K) (List K) := do
  let s ← (net.assemble xs.toArray).mapError .assembly
  let delta ← (cfg.newtonStep s).mapError .solve
  return delta.toList

theorem stepFrom_eq_ok : net.stepFrom cfg xs = .ok step ↔
    ∃ s delta, net.assemble xs.toArray = .ok s ∧ cfg.newtonStep s = .ok delta ∧
      delta.toList = step := by
  simp only [stepFrom, bind_eq_ok, mapError_eq_ok, pure, Except.pure, Except.ok.injEq]
  constructor
  · intro h
    obtain ⟨s, hs, delta, hdelta, hstep⟩ := h
    exact ⟨s, delta, hs, hdelta, hstep⟩
  · intro h
    obtain ⟨s, delta, hs, hdelta, hstep⟩ := h
    exact ⟨s, hs, delta, hdelta, hstep⟩

/-- A locked source pins the nets of its terminals at its value. -/
theorem pin_mem_equations {m : FlatNode K} {es : List (Equation K)} {t : String} {i : Nat}
    (hkind : m.kind = .source) (hlocked : Kind.isLocked m.payload) (hes : m.equations = .ok es)
    (ht : t ∈ Kind.sourceTerminals) (hi : m.net? (some t) = some i) :
    ∃ v, Kind.configuredValue m.payload = .ok v ∧ .pin i v ∈ es := by
  rw [FlatNode.equations, hkind, Kind.equations, if_pos hlocked] at hes
  obtain ⟨v, hv, hes⟩ := bind_eq_ok.1 hes
  obtain rfl := Except.ok.inj hes
  exact ⟨v, hv, List.mem_map_of_mem (Kind.mem_terminalNets.2 ⟨t, ht, hi⟩)⟩

/-- Where its equations hold, a locked source has the values of its nets. -/
theorem value_of_locked {m : FlatNode K} (hkind : m.kind = .source)
    (hlocked : Kind.isLocked m.payload) {es : List (Equation K)} (hes : m.equations = .ok es)
    (hfits : ∀ e ∈ es, ∀ i ∈ e.nets, i < xs.length)
    (hzero : ∀ e ∈ es, e.residual (fun i => xs[i]?.getD 0) = 0) {t : String}
    (ht : t ∈ Kind.sourceTerminals) {i : Nat} (hi : m.net? (some t) = some i) :
    ∃ v, Kind.configuredValue m.payload = .ok v ∧ xs[i]? = some v := by
  obtain ⟨v, hv, hpin⟩ := pin_mem_equations hkind hlocked hes ht hi
  have hlt : i < xs.length := hfits _ hpin i (List.mem_singleton_self i)
  have hresidual : xs[i]?.getD 0 - v = 0 := hzero _ hpin
  rw [List.getElem?_eq_getElem hlt, Option.getD_some, sub_eq_zero] at hresidual
  exact ⟨v, hv, by rw [List.getElem?_eq_getElem hlt, hresidual]⟩

/-- All equations hold at values exactly if all residuals of the system there are zero. -/
theorem satisfies_iff {s : EquationSystem K net.size} (hs : net.assemble xs.toArray = .ok s) :
    net.Satisfies xs ↔ ∀ row ∈ s.rows, row.residual = 0 := by
  obtain ⟨es, hes, -, hrows⟩ := assemble_eq_ok.1 hs
  have hvalues : valuesIn xs.toArray = fun i => xs[i]?.getD 0 := by
    funext i
    simp [valuesIn]
  rw [← hrows, List.forall_mem_map, hvalues]
  constructor
  · intro hholds e he
    -- each row is an equation of a node
    obtain ⟨m, hm, own, hown, e', he', rfl⟩ := (mem_equationsOf hes).1 he
    exact hholds m hm own hown e' he'
  · intro hzero m hm own hown e he
    exact hzero (m.id, e) ((mem_equationsOf hes).2 ⟨m, hm, own, hown, e, he, rfl⟩)

/-- Where all equations hold, a step does not move. -/
theorem step_of_satisfies (hholds : net.Satisfies xs) (h : net.stepFrom cfg xs = .ok step) :
    step = List.replicate net.size 0 := by
  obtain ⟨s, delta, hs, hdelta, rfl⟩ := stepFrom_eq_ok.1 h
  rw [newtonStep_eq_zeros ((satisfies_iff hs).1 hholds) hdelta, zeros, Vector.toList_replicate]

end Network

/-- A solve that ends well with its first step, which it does in full, or without a step. -/
structure Solution.AtOnce [One K] (s : Solution K) : Prop where
  converged : s.status = .converged
  iterations : s.iterations ≤ 1
  damping : s.damping = 1

namespace Network

variable [Field K] [LinearOrder K] [Scalar K] {net solved : Network K} {cfg : SolverConfig K}
  {solution : Solution K}

/-- A network whose values have a short step is solved at once. -/
theorem solve_of_short (hK : Scalar.IsExact K) (step : List K)
    (h : net.size ≠ 0 → net.stepFrom cfg net.values = .ok step ∧
      Scalar.lt (norm step) cfg.tolerance) :
    ∃ solution, solution.AtOnce ∧ (net.solve cfg).result =
      .ok (solution, (net.withValues (List.zipWith (· + ·) net.values step)).finish) := by
  -- the iteration takes the step, or there is nothing to do
  have hiterate : ∃ final, (net.iterateFrom cfg cfg.newtonStep net.start).result =
      .ok (.converged, final) ∧ final.x.toList = List.zipWith (· + ·) net.values step ∧
        final.iterations ≤ 1 ∧ final.damping = 1 := by
    by_cases hsize : net.size = 0
    · rw [iterateFrom, if_pos hsize]
      refine ⟨_, rfl, ?_, Nat.zero_le 1, rfl⟩
      have hvalues : net.values = [] := by
        rw [values, List.map_eq_nil_iff]
        exact List.length_eq_zero_iff.1 hsize
      rw [hvalues]
      exact hvalues
    · obtain ⟨hstep, hshort⟩ := h hsize
      obtain ⟨s, delta, hs, hdelta, rfl⟩ := stepFrom_eq_ok.1 hstep
      rw [iterateFrom, if_neg hsize]
      refine ⟨_, iterate_of_short hK hs hdelta hshort, ?_, le_refl 1, rfl⟩
      rw [toList_addScaled_one]
      rfl
  obtain ⟨final, hfinal, hx, hiterations, hdamping⟩ := hiterate
  let moved := (net.withValues (List.zipWith (· + ·) net.values step)).finish
  refine ⟨⟨.converged, moved.topLevelPayloads, final.iterations, final.stepNorm,
    final.lastResidual.getD 0, final.damping⟩, ⟨rfl, hiterations, hdamping⟩, ?_⟩
  rw [solve, solveWith, Logged.bind_result, hfinal]
  simp [hK.isFinite, hx, moved, Except.map]

/-- A network whose values satisfy it is solved at once by them. -/
theorem solve_of_satisfies (hK : Scalar.IsExact K) (htolerance : net.size ≠ 0 → 0 < cfg.tolerance)
    (hholds : net.Satisfies net.values)
    (hstep : net.size ≠ 0 → ∃ step, net.stepFrom cfg net.values = .ok step) :
    ∃ solution, solution.AtOnce ∧ (net.solve cfg).result = .ok (solution, net.finish) := by
  -- the step is there, has length zero and moves nothing
  have hshort : net.size ≠ 0 → net.stepFrom cfg net.values = .ok (List.replicate net.size 0) ∧
      Scalar.lt (norm (List.replicate net.size (0 : K))) cfg.tolerance := by
    intro hsize
    obtain ⟨step, hstep⟩ := hstep hsize
    obtain rfl := step_of_satisfies hholds hstep
    refine ⟨hstep, ?_⟩
    rw [norm_zeros hK, hK.lt_iff]
    exact htolerance hsize
  have hsum : List.zipWith (· + ·) net.values (List.replicate net.size 0) = net.values := by
    refine List.ext_getElem ?_ ?_
    · simp [values, size]
    · intro i hi hi'
      simp
  obtain ⟨solution, honce, hsolve⟩ := solve_of_short hK _ hshort
  rw [hsum, withValues_values] at hsolve
  exact ⟨solution, honce, hsolve⟩

theorem tolerance_pos_of_solve (hK : Scalar.IsExact K) (hsize : net.size ≠ 0)
    (h : (net.solve cfg).result = .ok (solution, solved))
    (hconverged : solution.status = .converged) : 0 < cfg.tolerance := by
  obtain ⟨final, hfinal, -⟩ := iterateFrom_of_solve h
  rw [iterateFrom, if_neg hsize, hconverged] at hfinal
  exact tolerance_pos hK hfinal

end Network

end NetBalance
