import NetBalance.Proofs.Rational
import NetBalance.Solver.Solution

/-! # Runs of the damped iteration

    A run is a list of steps, each from where the one before it led to.  How
    far a step is followed, and whether the run ends with it, is read off the
    steps so far: the damping factor is one, multiplied by the backoff once
    for each step that stalled.  An iteration returns exactly if a run ends,
    and it returns what the first one does that does. -/

namespace NetBalance

variable {K : Type} {n : Nat}

/-- A step with what it is computed from. -/
structure Stride (K : Type) (n : Nat) where
  /-- The system at the point where the step starts. -/
  system : EquationSystem K n
  /-- The step in full, before it is damped. -/
  delta : Vector K n

variable [Add K] [Mul K] [Zero K] [One K] [Scalar K]

namespace Stride

/-- The norm of the residual at the point where the step starts. -/
def residualNorm (s : Stride K n) : K := norm s.system.residual

/-- The norm of the undamped step. -/
def stepNorm (s : Stride K n) : K := norm s.delta.toList

/-- The step is what assembling and solving give at a point, and all its numbers are finite. -/
structure StartsAt (assemble : Vector K n → Except AssemblyError (EquationSystem K n))
    (linearStep : EquationSystem K n → Except (SolveError K) (Vector K n)) (x : Vector K n)
    (s : Stride K n) : Prop where
  system : assemble x = .ok s.system
  systemFinite : s.system.checkFinite = .ok ()
  delta : linearStep s.system = .ok s.delta
  deltaFinite : s.delta.toList.all Scalar.isFinite

end Stride

namespace SolverConfig

variable (cfg : SolverConfig K)

/-- A step stalls behind another one if its residual has not fallen below the required share. -/
def Stalls (before s : Stride K n) : Bool :=
  Scalar.le (cfg.stallRatio * before.residualNorm) s.residualNorm

/-- How many of some steps stall behind the one before them. -/
def stalled (ss : List (Stride K n)) : Nat := (ss.zip ss.tail).countP fun (s, t) => cfg.Stalls s t

/-- The damping factor after some steps. -/
def dampingAfter (ss : List (Stride K n)) : K := (· * cfg.dampingBackoff)^[cfg.stalled ss] 1

/-- How a run ends with the last of some steps, if it does. -/
def ending? (ss : List (Stride K n)) : Option SolveStatus :=
  ss.getLast?.bind fun s =>
    if Scalar.lt s.stepNorm cfg.tolerance then some .converged
    else if Scalar.lt (cfg.dampingAfter ss) cfg.minDamping || cfg.maxIterations ≤ ss.length then
      some .aborted
    else none

/-- A run goes on behind some steps, and did so before each of them. -/
def GoesOn (ss : List (Stride K n)) : Prop := ∀ ss', ss' <+: ss → cfg.ending? ss' = none

/-- A run ends with the last of some steps, and with none before. -/
structure EndsFirst (ss : List (Stride K n)) (status : SolveStatus) : Prop where
  ends : cfg.ending? ss = some status
  before : ∀ ss', ss' <+: ss → ss' ≠ ss → cfg.ending? ss' = none

/-- The record of a step that follows some others. -/
def record (ss : List (Stride K n)) (s : Stride K n) : NewtonStep K :=
  ⟨ss.length + 1, cfg.dampingAfter ss, s.residualNorm, s.stepNorm⟩

/-- The records of some steps. -/
def trace (ss : List (Stride K n)) : List (NewtonStep K) :=
  ss.mapIdx fun k s => cfg.record (ss.take k) s

end SolverConfig

/-- Runs from a point: the steps that are taken, and where they lead. -/
inductive NewtonRun (cfg : SolverConfig K)
    (assemble : Vector K n → Except AssemblyError (EquationSystem K n))
    (linearStep : EquationSystem K n → Except (SolveError K) (Vector K n)) (start : Vector K n) :
    List (Stride K n) → Vector K n → Prop where
  | start : NewtonRun cfg assemble linearStep start [] start
  | step {ss : List (Stride K n)} {x : Vector K n} {s : Stride K n} :
    NewtonRun cfg assemble linearStep start ss x → s.StartsAt assemble linearStep x →
      NewtonRun cfg assemble linearStep start (ss ++ [s])
        (Linear.addScaled x (cfg.dampingAfter ss) s.delta)

/-- Where an iteration stands after a run. -/
def NewtonState.after (cfg : SolverConfig K) (ss : List (Stride K n)) (x : Vector K n) :
    NewtonState K n :=
  { x
    damping := cfg.dampingAfter ss
    iterations := ss.length
    lastResidual := ss.getLast?.map (·.residualNorm)
    stepNorm := (ss.getLast?.map (·.stepNorm)).getD 0 }

theorem NewtonState.damping_after (cfg : SolverConfig K) (ss : List (Stride K n)) (x : Vector K n) :
    (after cfg ss x).damping = cfg.dampingAfter ss := rfl

theorem NewtonState.stepNorm_after_concat (cfg : SolverConfig K) (ss : List (Stride K n))
    (s : Stride K n) (x : Vector K n) : (after cfg (ss ++ [s]) x).stepNorm = s.stepNorm := by
  rw [after, List.getLast?_concat]
  rfl

/-! ### One more step -/

section Steps

variable {cfg : SolverConfig K} {ss : List (Stride K n)} {s : Stride K n} {x : Vector K n}

omit [One K] in
theorem stalled_concat : cfg.stalled (ss ++ [s]) =
    cfg.stalled ss + if ss.getLast?.any (cfg.Stalls · s) then 1 else 0 := by
  induction ss with
  | nil => rfl
  | cons a ss ih =>
    cases ss with
    | nil =>
      show List.countP _ [(a, s)] = 0 + _
      rw [List.countP_singleton, Nat.zero_add]
      rfl
    | cons b ss =>
      simp only [SolverConfig.stalled, List.cons_append, List.tail_cons, List.zip_cons_cons,
        List.countP_cons, List.getLast?_cons_cons] at ih ⊢
      omega

theorem dampingAfter_concat : cfg.dampingAfter (ss ++ [s]) =
    if ss.getLast?.any (cfg.Stalls · s) then cfg.dampingAfter ss * cfg.dampingBackoff
    else cfg.dampingAfter ss := by
  rw [SolverConfig.dampingAfter, stalled_concat]
  split
  · exact Function.iterate_succ_apply' _ _ _
  · rfl

theorem trace_concat : cfg.trace (ss ++ [s]) = cfg.trace ss ++ [cfg.record ss s] := by
  rw [SolverConfig.trace, List.mapIdx_concat, List.take_left]
  refine congrArg (· ++ _) (List.ext_getElem ?_ ?_)
  · simp [SolverConfig.trace]
  · intro k hk _
    have hk : k < ss.length := by simpa using hk
    simp [SolverConfig.trace, List.take_append_of_le_length hk.le]

theorem ending?_concat : cfg.ending? (ss ++ [s]) =
    if Scalar.lt s.stepNorm cfg.tolerance then some .converged
    else if Scalar.lt (cfg.dampingAfter (ss ++ [s])) cfg.minDamping ||
        cfg.maxIterations ≤ ss.length + 1 then some .aborted
    else none := by
  simp [SolverConfig.ending?]

theorem exists_getLast?_of_ending? {status : SolveStatus} (h : cfg.ending? ss = some status) :
    ∃ s, ss.getLast? = some s := by
  obtain ⟨s, hs, -⟩ := Option.bind_eq_some_iff.1 h
  exact ⟨s, hs⟩

/-- A run that goes on has not used up its budget. -/
theorem length_lt_of_ending? (hne : ss ≠ []) (h : cfg.ending? ss = none) :
    ss.length < cfg.maxIterations := by
  obtain ⟨ss, s, rfl⟩ := (List.eq_nil_or_concat' ss).resolve_left hne
  rw [ending?_concat] at h
  split at h
  · cases h
  · split at h
    · cases h
    · next hbudget =>
      rw [Bool.or_eq_true, not_or, decide_eq_true_eq] at hbudget
      simpa using hbudget.2

theorem SolverConfig.goesOn_nil : cfg.GoesOn ([] : List (Stride K n)) := by
  intro ss' h
  rw [List.prefix_nil.1 h]
  rfl

theorem SolverConfig.goesOn_concat :
    cfg.GoesOn (ss ++ [s]) ↔ cfg.GoesOn ss ∧ cfg.ending? (ss ++ [s]) = none := by
  constructor
  · intro h
    exact ⟨fun ss' h' => h ss' (h'.trans (List.prefix_append ss [s])), h _ List.prefix_rfl⟩
  · rintro ⟨h, hends⟩ ss' h'
    rcases List.prefix_concat_iff.1 h' with rfl | h'
    · exact hends
    · exact h ss' h'

theorem SolverConfig.endsFirst_concat {status : SolveStatus} :
    cfg.EndsFirst (ss ++ [s]) status ↔ cfg.GoesOn ss ∧ cfg.ending? (ss ++ [s]) = some status := by
  constructor
  · intro h
    refine ⟨fun ss' h' => h.before ss' (h'.trans (List.prefix_append ss [s])) ?_, h.ends⟩
    -- a beginning of the steps before is shorter
    rintro rfl
    have hlength := h'.length_le
    rw [List.length_append, List.length_singleton] at hlength
    omega
  · rintro ⟨h, hends⟩
    exact ⟨hends, fun ss' h' hne => h ss' ((List.prefix_concat_iff.1 h').resolve_left hne)⟩

variable {assemble : Vector K n → Except AssemblyError (EquationSystem K n)}
  {linearStep : EquationSystem K n → Except (SolveError K) (Vector K n)}

/-- To step on behind some steps is to take one that starts where they lead. -/
theorem takeStep_after_eq_ok {next : NewtonState K n} {record : NewtonStep K} :
    takeStep cfg assemble linearStep (.after cfg ss x) = .ok (next, record) ↔
      ∃ s : Stride K n, s.StartsAt assemble linearStep x ∧
        next = .after cfg (ss ++ [s]) (Linear.addScaled x (cfg.dampingAfter ss) s.delta) ∧
        record = cfg.record ss s := by
  have hnext : ∀ s : Stride K n,
      NewtonState.after cfg (ss ++ [s]) (Linear.addScaled x (cfg.dampingAfter ss) s.delta) =
        { x := Linear.addScaled x (cfg.dampingAfter ss) s.delta
          damping := if (ss.getLast?.map (·.residualNorm)).any fun last =>
              Scalar.le (cfg.stallRatio * last) s.residualNorm then
            cfg.dampingAfter ss * cfg.dampingBackoff else cfg.dampingAfter ss
          iterations := ss.length + 1
          lastResidual := some s.residualNorm
          stepNorm := s.stepNorm } := by
    intro s
    rw [NewtonState.after, dampingAfter_concat, List.getLast?_concat, List.length_append,
      Option.any_map]
    rfl
  simp only [takeStep, bind_eq_ok, mapError_eq_ok]
  constructor
  · intro h
    obtain ⟨system, hsystem, ⟨⟩, hcheck, delta, hdelta, h⟩ := h
    split at h
    · cases h
    · next hfinite =>
      obtain ⟨rfl, rfl⟩ := Prod.mk.inj (Except.ok.inj h)
      exact ⟨⟨system, delta⟩, ⟨hsystem, hcheck, hdelta, by simpa using hfinite⟩,
        (hnext ⟨system, delta⟩).symm, rfl⟩
  · intro h
    obtain ⟨s, hs, rfl, rfl⟩ := h
    refine ⟨s.system, hs.system, (), hs.systemFinite, s.delta, hs.delta, ?_⟩
    rw [hs.deltaFinite, hnext]
    rfl

/-- An iteration that goes on behind some steps ends with the next one, or goes on behind that. -/
theorem iterate_after (hs : s.StartsAt assemble linearStep x) :
    iterate cfg assemble linearStep (cfg.followingSteps - ss.length) (.after cfg ss x) =
      .tell (.stepTaken (cfg.record ss s)) >>= fun _ =>
        let next := .after cfg (ss ++ [s]) (Linear.addScaled x (cfg.dampingAfter ss) s.delta)
        match cfg.ending? (ss ++ [s]) with
        | some status => pure (status, next)
        | none => iterate cfg assemble linearStep (cfg.followingSteps - (ss ++ [s]).length) next := by
  have hstep : takeStep cfg assemble linearStep (.after cfg ss x) =
      .ok (.after cfg (ss ++ [s]) (Linear.addScaled x (cfg.dampingAfter ss) s.delta),
        cfg.record ss s) := takeStep_after_eq_ok.2 ⟨s, hs, rfl, rfl⟩
  rw [iterate, hstep]
  refine (pure_bind _ _).trans (bind_congr fun _ => ?_)
  simp only [NewtonState.stepNorm_after_concat, NewtonState.damping_after, ending?_concat,
    List.length_append, List.length_singleton]
  by_cases hshort : Scalar.lt s.stepNorm cfg.tolerance
  · rw [if_pos hshort, if_pos hshort]
  by_cases hsmall : Scalar.lt (cfg.dampingAfter (ss ++ [s])) cfg.minDamping
  · simp [hshort, hsmall]
  -- the budget is used up exactly if no step is left
  by_cases hbudget : cfg.maxIterations ≤ ss.length + 1
  · have hleft : cfg.followingSteps - ss.length = 0 := by
      rw [SolverConfig.followingSteps]
      omega
    rw [hleft]
    simp [hshort, hsmall, hbudget]
  · obtain ⟨left, hleft⟩ : ∃ left, cfg.followingSteps - ss.length = left + 1 ∧
        cfg.followingSteps - (ss.length + 1) = left := by
      refine ⟨_, ?_, rfl⟩
      rw [SolverConfig.followingSteps]
      omega
    rw [hleft.1, hleft.2]
    simp [hshort, hsmall, hbudget]

/-- An iteration gets to where a run leads that has not ended. -/
theorem iterate_of_run {start : Vector K n} (hrun : NewtonRun cfg assemble linearStep start ss x)
    (hgoes : cfg.GoesOn ss) :
    iterate cfg assemble linearStep cfg.followingSteps (.initial start) =
      .tellAll ((cfg.trace ss).map .stepTaken) >>= fun _ =>
        iterate cfg assemble linearStep (cfg.followingSteps - ss.length) (.after cfg ss x) := by
  induction hrun with
  | start => exact (pure_bind _ _).symm
  | @step ss x s hrun hs ih =>
    obtain ⟨hgoes, hends⟩ := SolverConfig.goesOn_concat.1 hgoes
    rw [ih hgoes, iterate_after hs, hends, trace_concat, List.map_append]
    exact (bind_assoc _ _ _).symm

/-- An iteration that gets to the end of a run returns what the run gives. -/
theorem iterate_of_endsFirst {start : Vector K n} {status : SolveStatus}
    (hrun : NewtonRun cfg assemble linearStep start ss x) (hends : cfg.EndsFirst ss status) :
    iterate cfg assemble linearStep cfg.followingSteps (.initial start) =
      ⟨(cfg.trace ss).map .stepTaken, .ok (status, .after cfg ss x)⟩ := by
  cases hrun with
  | start => cases hends.ends
  | @step ss x s hrun hs =>
    obtain ⟨hgoes, hends⟩ := SolverConfig.endsFirst_concat.1 hends
    rw [iterate_of_run hrun hgoes, iterate_after hs, hends, trace_concat, List.map_append]
    rfl

/-- Where the iteration behind a run returns, the run can go on by a step, which ends it or not. -/
theorem endsFirst_or_goesOn {left : Nat} {r : SolveStatus × NewtonState K n}
    (hleft : cfg.followingSteps - ss.length = left) (hgoes : cfg.GoesOn ss)
    (h : (iterate cfg assemble linearStep left (.after cfg ss x)).result = .ok r) :
    ∃ s : Stride K n, s.StartsAt assemble linearStep x ∧
      ((∃ status, cfg.EndsFirst (ss ++ [s]) status) ∨ cfg.GoesOn (ss ++ [s]) ∧
        (iterate cfg assemble linearStep (cfg.followingSteps - (ss ++ [s]).length)
          (.after cfg (ss ++ [s])
            (Linear.addScaled x (cfg.dampingAfter ss) s.delta))).result = .ok r) := by
  subst hleft
  have hstep := h
  rw [iterate, Logged.bind_result, Logged.ofExcept_result] at hstep
  obtain ⟨⟨next, record⟩, hstep, -⟩ := bind_eq_ok.1 hstep
  obtain ⟨s, hs, -⟩ := takeStep_after_eq_ok.1 hstep
  refine ⟨s, hs, ?_⟩
  rw [iterate_after hs] at h
  cases hends : cfg.ending? (ss ++ [s]) with
  | some status => exact Or.inl ⟨status, SolverConfig.endsFirst_concat.2 ⟨hgoes, hends⟩⟩
  | none =>
    rw [hends] at h
    exact Or.inr ⟨SolverConfig.goesOn_concat.2 ⟨hgoes, hends⟩, h⟩

/-- An iteration that returns behind a run that has not ended gets to the end of a longer one. -/
theorem exists_endsFirst {start : Vector K n} {left : Nat} {r : SolveStatus × NewtonState K n}
    (hrun : NewtonRun cfg assemble linearStep start ss x)
    (hleft : cfg.followingSteps - ss.length = left) (hgoes : cfg.GoesOn ss)
    (h : (iterate cfg assemble linearStep left (.after cfg ss x)).result = .ok r) :
    ∃ ss' x' status, NewtonRun cfg assemble linearStep start ss' x' ∧ cfg.EndsFirst ss' status := by
  -- the next step ends the run, or uses up one of those that are left
  induction left generalizing ss x with
  | zero =>
    obtain ⟨s, hs, ⟨status, hends⟩ | ⟨hgoes', -⟩⟩ := endsFirst_or_goesOn hleft hgoes h
    · exact ⟨_, _, status, hrun.step hs, hends⟩
    · have hlength := length_lt_of_ending? (by simp) (hgoes' _ List.prefix_rfl)
      rw [List.length_append, List.length_singleton] at hlength
      rw [SolverConfig.followingSteps] at hleft
      omega
  | succ left ih =>
    obtain ⟨s, hs, ⟨status, hends⟩ | ⟨hgoes', h'⟩⟩ := endsFirst_or_goesOn hleft hgoes h
    · exact ⟨_, _, status, hrun.step hs, hends⟩
    · have hleft' : cfg.followingSteps - (ss ++ [s]).length = left := by
        rw [List.length_append, List.length_singleton]
        omega
      rw [hleft'] at h'
      exact ih (hrun.step hs) hleft' hgoes' h'

/-- The iteration from a point returns exactly if some run ends, and it returns what the first end
    gives. -/
theorem iterate_eq_ok {start : Vector K n} {es : List (Event K)} {status : SolveStatus}
    {final : NewtonState K n} :
    iterate cfg assemble linearStep cfg.followingSteps (.initial start) = ⟨es, .ok (status, final)⟩ ↔
      ∃ ss x, NewtonRun cfg assemble linearStep start ss x ∧ cfg.EndsFirst ss status ∧
        (cfg.trace ss).map .stepTaken = es ∧ .after cfg ss x = final := by
  constructor
  · intro h
    obtain ⟨ss, x, status', hrun, hends⟩ :=
      exists_endsFirst .start rfl SolverConfig.goesOn_nil (congrArg (·.result) h)
    have hsame := (iterate_of_endsFirst hrun hends).symm.trans h
    simp only [Logged.mk.injEq, Except.ok.injEq, Prod.mk.injEq] at hsame
    obtain ⟨htrace, rfl, hfinal⟩ := hsame
    exact ⟨ss, x, hrun, hends, htrace, hfinal⟩
  · intro h
    obtain ⟨ss, x, hrun, hends, rfl, rfl⟩ := h
    exact iterate_of_endsFirst hrun hends

end Steps

/-! ### Solves along runs -/

namespace Network

variable [Sub K] [Neg K] {net solved : Network K} {cfg : SolverConfig K}
  {linearStep : EquationSystem K net.size → Except (SolveError K) (Vector K net.size)}
  {ss : List (Stride K net.size)} {x : Vector K net.size} {events : List (Event K)}
  {solution : Solution K}

/-- Runs on the equations of a network, from the values of its nets. -/
abbrev Run (net : Network K) (cfg : SolverConfig K)
    (linearStep : EquationSystem K net.size → Except (SolveError K) (Vector K net.size)) :
    List (Stride K net.size) → Vector K net.size → Prop :=
  NewtonRun cfg (fun x => net.assemble x.toArray) linearStep net.start

/-- A solve that takes the steps of a run.  It ends with the last of them and with none before,
    reports that one, and writes the values that the run leads to. -/
structure SolvesAlong (net : Network K) (cfg : SolverConfig K)
    (linearStep : EquationSystem K net.size → Except (SolveError K) (Vector K net.size))
    (ss : List (Stride K net.size)) (x : Vector K net.size) (events : List (Event K))
    (solution : Solution K) (solved : Network K) : Prop where
  run : net.Run cfg linearStep ss x
  ends : cfg.EndsFirst ss solution.status
  finite : x.toList.all Scalar.isFinite
  iterations : solution.iterations = ss.length
  stepNorm : ss.getLast?.map (·.stepNorm) = some solution.stepNorm
  residualNorm : ss.getLast?.map (·.residualNorm) = some solution.residualNorm
  damping : solution.damping = cfg.dampingAfter ss
  written : solved = (net.withValues x.toList).finish
  payloads : solution.payloads = solved.topLevelPayloads
  events : events = (cfg.trace ss).map .stepTaken ++
    [if solution.status = .converged then .converged solution.iterations net.size
      else .aborted solution.iterations solution.damping solution.residualNorm solution.stepNorm]

/-- A solve returns where its iteration does, unless that ends with numbers that are not finite. -/
theorem solveWith_eq_ok : net.solveWith cfg linearStep = ⟨events, .ok (solution, solved)⟩ ↔
    ∃ es status final, net.iterateFrom cfg linearStep net.start = ⟨es, .ok (status, final)⟩ ∧
      final.x.toList.all Scalar.isFinite ∧ es ++ [endEvent status final] = events ∧
      ⟨status, solved.topLevelPayloads, final.iterations, final.stepNorm,
        final.lastResidual.getD 0, final.damping⟩ = solution ∧
      (net.withValues final.x.toList).finish = solved := by
  rw [solveWith]
  obtain ⟨es, (e | ⟨status, final⟩)⟩ := net.iterateFrom cfg linearStep net.start
  · rw [Logged.bind_error rfl]
    simp
  · rw [Logged.bind_ok rfl]
    by_cases hfinite : final.x.toList.all Scalar.isFinite
    · simp only [hfinite]
      constructor
      · intro h
        cases h
        exact ⟨es, status, final, rfl, hfinite, rfl, rfl, rfl⟩
      · rintro ⟨_, _, _, h, -, rfl, rfl, rfl⟩
        cases h
        rfl
    · simp only [hfinite]
      constructor
      · intro h
        cases h
      · rintro ⟨_, _, _, h, hfinite', -⟩
        cases h
        exact absurd hfinite' hfinite

/-- A network with nets is solved exactly along a run. -/
theorem solveWith_eq_ok_iff_run (hsize : net.size ≠ 0) :
    net.solveWith cfg linearStep = ⟨events, .ok (solution, solved)⟩ ↔
      ∃ ss x, net.SolvesAlong cfg linearStep ss x events solution solved := by
  simp only [solveWith_eq_ok, iterateFrom, if_neg hsize, iterate_eq_ok]
  constructor
  · rintro ⟨_, status, _, ⟨ss, x, hrun, hends, rfl, rfl⟩, hfinite, rfl, rfl, rfl⟩
    obtain ⟨s, hs⟩ := exists_getLast?_of_ending? hends.ends
    refine ⟨ss, x, hrun, hends, hfinite, rfl, ?_, ?_, rfl, rfl, rfl, rfl⟩
    · simp [NewtonState.after, hs]
    · simp [NewtonState.after, hs]
  · rintro ⟨ss, x, h⟩
    have hstep : (NewtonState.after cfg ss x).stepNorm = solution.stepNorm := by
      rw [NewtonState.after, h.stepNorm, Option.getD_some]
    have hresidual : (NewtonState.after cfg ss x).lastResidual.getD 0 = solution.residualNorm := by
      rw [NewtonState.after, h.residualNorm, Option.getD_some]
    refine ⟨_, solution.status, _, ⟨ss, x, h.run, h.ends, rfl, rfl⟩, h.finite, ?_, ?_,
      h.written.symm⟩
    · rw [h.events, endEvent, hstep, hresidual, h.iterations, h.damping]
      rfl
    · rw [hstep, hresidual, ← h.payloads]
      show (⟨_, _, ss.length, _, _, cfg.dampingAfter ss⟩ : Solution K) = solution
      rw [← h.iterations, ← h.damping]

/-- A run that ends at finite values is one that a solve takes. -/
theorem exists_solvesAlong {status : SolveStatus} (hrun : net.Run cfg linearStep ss x)
    (hends : cfg.EndsFirst ss status) (hfinite : x.toList.all Scalar.isFinite) :
    ∃ events solution solved, net.SolvesAlong cfg linearStep ss x events solution solved ∧
      solution.status = status := by
  obtain ⟨s, hs⟩ := exists_getLast?_of_ending? hends.ends
  let solved := (net.withValues x.toList).finish
  refine ⟨_, ⟨status, solved.topLevelPayloads, ss.length, s.stepNorm, s.residualNorm,
    cfg.dampingAfter ss⟩, solved, ⟨hrun, hends, hfinite, rfl, ?_, ?_, rfl, rfl, rfl, rfl⟩, rfl⟩
  · rw [hs, Option.map_some]
  · rw [hs, Option.map_some]

/-- The first ending of a run comes with the first step or within the budget. -/
theorem SolvesAlong.iterations_le (h : net.SolvesAlong cfg linearStep ss x events solution solved) :
    1 ≤ solution.iterations ∧ (solution.iterations : Int) ≤ max 1 cfg.maxIterations := by
  obtain ⟨s, hs⟩ := exists_getLast?_of_ending? h.ends.ends
  obtain ⟨ss, rfl⟩ := List.getLast?_eq_some_iff.1 hs
  rw [h.iterations, List.length_append, List.length_singleton]
  refine ⟨by omega, ?_⟩
  by_cases hss : ss = []
  · simp [hss]
  · -- the run did not end with the step before
    have hnone := h.ends.before ss (List.prefix_append ss [s]) (by simp)
    have hlength := length_lt_of_ending? hss hnone
    omega

/-- A network without nets is solved at once. -/
theorem solveWith_of_size_eq_zero (hsize : net.size = 0) : net.solveWith cfg linearStep =
    ⟨[.converged 0 0], .ok (⟨.converged, net.finish.topLevelPayloads, 0, 0, 0, 1⟩, net.finish)⟩ := by
  obtain ⟨nodes, nets⟩ := net
  obtain rfl : nets = [] := List.length_eq_zero_iff.1 hsize
  rfl

/-- Without nets a solve converges with no step.  On any other network, with whatever settings and
    whatever way to solve linear systems, it returns exactly if a run ends: with a step shorter than
    the tolerance, or else with a damping factor that has become too small, or with the budget used
    up.  It takes the steps up to the first end, at least one and not more than the budget, tells
    them one by one, reports the last one and writes the values that it leads to. -/
theorem solveWith_along_run (net : Network K) (cfg : SolverConfig K)
    (linearStep : EquationSystem K net.size → Except (SolveError K) (Vector K net.size)) :
    (net.size = 0 → net.solveWith cfg linearStep =
      ⟨[.converged 0 0],
        .ok (⟨.converged, net.finish.topLevelPayloads, 0, 0, 0, 1⟩, net.finish)⟩) ∧
    (net.size ≠ 0 → ∀ events solution solved,
      net.solveWith cfg linearStep = ⟨events, .ok (solution, solved)⟩ ↔
        ∃ ss x, net.SolvesAlong cfg linearStep ss x events solution solved) ∧
    ∀ ss x events solution solved, net.SolvesAlong cfg linearStep ss x events solution solved →
      1 ≤ solution.iterations ∧ (solution.iterations : Int) ≤ max 1 cfg.maxIterations := by
  refine ⟨solveWith_of_size_eq_zero, ?_, ?_⟩
  · intro hsize events solution solved
    exact solveWith_eq_ok_iff_run hsize
  · intro ss x events solution solved
    exact SolvesAlong.iterations_le

end Network

/-! ### A run that is given up -/

/-- A square that is to be minus one: added to the locked one it gives the locked zero. -/
def Diagram.noRoot : Diagram ℚ :=
  ⟨"root", "root",
    [.valued "u" 3 false, .product "m" ["p", "q"],
      ⟨"s", .text "plus", (PlacedNode.product "s" ["p", "q"]).payload, []⟩, .valued "t" 1 true,
      .valued "z" 0 true],
    [⟨"u", "a", "m", "p"⟩, ⟨"u", "a", "m", "q"⟩, ⟨"m", "bottom_0", "s", "p"⟩, ⟨"t", "a", "s", "q"⟩,
      ⟨"s", "bottom_0", "z", "a"⟩]⟩

/-- Settings with a budget of five steps. -/
def SolverConfig.brief : SolverConfig ℚ := { standard with maxIterations := 5 }

/-- The fourth step stalls, so that the fifth one is damped; it uses up the budget. -/
theorem Network.solveWith_along_run_noRoot :
    ∃ net events solution solved, (Diagram.noRoot.build .empty true 1).result = .ok net ∧
      net.solve .brief = ⟨events, .ok (solution, solved)⟩ ∧ solution.status = .aborted ∧
      solution.iterations = 5 ∧ solution.damping = 9 / 10 ∧ net.size ≠ 0 ∧
      ∃ ss x, net.SolvesAlong .brief (SolverConfig.newtonStep .brief) ss x events solution solved := by
  have hruns : (Diagram.noRoot.build .empty true 1).result.toOption.map (fun net =>
      (net.size, (net.solve .brief).result.toOption.map fun (solution, _) =>
        (solution.status, solution.iterations, solution.damping))) =
          some (4, some (.aborted, 5, 9 / 10)) := by
    decide +kernel
  obtain ⟨net, hbuild, hruns⟩ := Option.map_eq_some_iff.1 hruns
  simp only [Prod.mk.injEq] at hruns
  obtain ⟨hsize, hsolve⟩ := hruns
  obtain ⟨⟨solution, solved⟩, hsolve, hends⟩ := Option.map_eq_some_iff.1 hsolve
  simp only [Prod.mk.injEq] at hends
  obtain ⟨haborted, hiterations, hdamping⟩ := hends
  have hsolve : net.solve .brief = ⟨(net.solve .brief).events, .ok (solution, solved)⟩ := by
    rw [← toOption_eq_some.1 hsolve]
  have hnets : net.size ≠ 0 := by omega
  exact ⟨net, _, solution, solved, toOption_eq_some.1 hbuild, hsolve, haborted, hiterations,
    hdamping, hnets,
    ((solveWith_along_run net .brief (SolverConfig.newtonStep .brief)).2.1 hnets _ _ _).1 hsolve⟩

end NetBalance
