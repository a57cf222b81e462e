import NetBalance.Proofs.Rebuilding

/-! # Calculating a diagram again

    The diagram that comes back from a calculation has the equations of the
    one that went in, and where its nets restart it starts from the solved
    values.  If these are an exact solution, or if the next step is short
    anyhow, then calculating it once more ends after one step. -/

namespace NetBalance

variable {K : Type}

/-! ### The equations of the network that came back -/

namespace Network

section Written

variable [Field K] [Scalar K] {net net' : Network K} {cfg : SolverConfig K} {m : FlatNode K}
  {xs step : List K}

theorem satisfies_written (hnames : net.WellNamed) (h : net.Satisfies xs) :
    net.written.Satisfies xs := by
  intro m' hm' es hes
  obtain ⟨m, hm, rfl⟩ := List.mem_map.1 hm'
  rw [equations_withPayload hnames hm] at hes
  exact h m hm es hes

/-- The step depends on the rows of the nodes and the number of nets only. -/
theorem stepFrom_congr (hsize : net'.size = net.size)
    (hrows : rowsOf net.size xs.toArray net'.nodes = rowsOf net.size xs.toArray net.nodes) :
    net'.stepFrom cfg xs = net.stepFrom cfg xs := by
  have hrowsOf : ∀ (net : Network K) n, net.size = n → net.stepFrom cfg xs =
      ((rowsOf n xs.toArray net.nodes).mapError .assembly >>= fun rows =>
        ((cfg.newtonStep ⟨rows.flatten⟩).mapError .solve).map (·.toList)) := by
    intro net n hn
    subst hn
    rw [stepFrom, assemble, rowsOf]
    cases net.nodes.mapM fun node => node.systemRows net.size xs.toArray <;> rfl
  rw [hrowsOf net' net.size hsize, hrowsOf net net.size rfl, hrows]

theorem stepFrom_withValues {ys : List K} :
    (net.withValues ys).stepFrom cfg xs = net.stepFrom cfg xs :=
  stepFrom_congr (size_withValues net ys) rfl

theorem stepFrom_written (hnames : net.WellNamed) :
    net.written.stepFrom cfg xs = net.stepFrom cfg xs := by
  refine stepFrom_congr rfl (rowsOf_map fun m hm => ?_)
  rw [FlatNode.systemRows, FlatNode.systemRows, equations_withPayload hnames hm]
  rfl

variable [LinearOrder K]

/-- If the values satisfy a network, then solving it with them and with their payloads changes
    neither. -/
theorem solve_written_of_satisfies (hK : Scalar.IsExact K) (hnames : (net.withValues xs).WellNamed)
    (hlength : xs.length = net.size) (htolerance : net.size ≠ 0 → 0 < cfg.tolerance)
    (hholds : net.Satisfies xs) (hstep : net.size ≠ 0 → ∃ step, net.stepFrom cfg xs = .ok step) :
    ∃ again, again.AtOnce ∧ ((net.withValues xs).written.solve cfg).result =
      .ok (again, (net.withValues xs).written.finish) := by
  have hsize : (net.withValues xs).written.size = net.size := size_withValues net xs
  have hstart : (net.withValues xs).written.values = xs := values_withValues hlength
  refine solve_of_satisfies hK (hsize ▸ htolerance) ?_ ?_
  · rw [hstart]
    exact satisfies_written hnames hholds
  · rw [hstart, hsize]
    intro h
    obtain ⟨step, hstep⟩ := hstep h
    exact ⟨step, by rw [stepFrom_written hnames, stepFrom_withValues, hstep]⟩

/-- If the step from the values is short, then solving the network with them and with their payloads
    ends with that step. -/
theorem solve_written_of_short (hK : Scalar.IsExact K) (hnames : (net.withValues xs).WellNamed)
    (hlength : xs.length = net.size)
    (hstep : net.size ≠ 0 → ∃ step, net.stepFrom cfg xs = .ok step ∧
      Scalar.lt (norm step) cfg.tolerance) :
    ∃ again solved, again.AtOnce ∧ ((net.withValues xs).written.solve cfg).result =
      .ok (again, solved) := by
  have hsize : (net.withValues xs).written.size = net.size := size_withValues net xs
  have hstart : (net.withValues xs).written.values = xs := values_withValues hlength
  by_cases h : net.size = 0
  · -- without nets no step is taken
    obtain ⟨again, honce, hsolve⟩ := solve_of_short hK [] fun h' => absurd (hsize.trans h) h'
    exact ⟨again, _, honce, hsolve⟩
  · obtain ⟨step, hstep, hshort⟩ := hstep h
    have hstep : (net.withValues xs).written.stepFrom cfg (net.withValues xs).written.values =
        .ok step := by
      rw [hstart, stepFrom_written hnames, stepFrom_withValues, hstep]
    obtain ⟨again, honce, hsolve⟩ := solve_of_short hK step fun _ => ⟨hstep, hshort⟩
    exact ⟨again, _, honce, hsolve⟩

end Written

end Network

/-- Where all equations hold, locked sources have the values of their nets. -/
theorem Diagram.locksHold_of_satisfies [Field K] [Scalar K] {project : Project K} {strict : Bool}
    {d : Diagram K} {default : K} {net : Network K} {xs : List K} {cfg : SolverConfig K}
    (h : (d.build project strict default).result = .ok net) (hlength : xs.length = net.size)
    (hholds : net.Satisfies xs)
    (hstep : net.size ≠ 0 → ∃ step, net.stepFrom cfg xs = .ok step) :
    net.LocksHold (net.withValues xs) := by
  intro m hm hkind hlocked n hn hp
  obtain ⟨i, hi, hn⟩ := value_of_terminal h hm hn hp
  have hvalue : xs[i]? = some n.value := by
    rw [← Network.values_withValues hlength, Network.values, List.getElem?_map, hn, Option.map_some]
  have hsize : net.size ≠ 0 := by
    have hlt : i < xs.length := (List.getElem?_eq_some_iff.1 hvalue).1
    omega
  obtain ⟨step, hstep⟩ := hstep hsize
  obtain ⟨s, -, hs, -⟩ := Network.stepFrom_eq_ok.1 hstep
  obtain ⟨es, hes, hfits⟩ := Network.exists_system_iff.1 ⟨s, hs⟩ m hm
  have hlt : ∀ e ∈ es, ∀ j ∈ e.nets, j < xs.length := by
    intro e he j hj
    rw [hlength]
    exact (hfits e he j hj).1
  obtain ⟨v, hv, hpinned⟩ :=
    Network.value_of_locked hkind hlocked hes hlt (hholds m hm es hes) List.mem_cons_self hi
  rw [hv, Option.some.inj (hvalue.symm.trans hpinned)]

/-! ### Calculating again -/

namespace EngineConfig

variable [Field K] [Scalar K] {cfg : EngineConfig K} {project : Project K} {d : Diagram K}
  {net solved : Network K} {solution : Solution K}

variable [LinearOrder K] [IsStrictOrderedRing K] {xs : List K}

/-- The diagram that came back is solved as the network with the solved payloads and values. -/
theorem calculate_written (hK : Scalar.IsExact K) (hbuild : (cfg.build project d).result = .ok net)
    (hrestarts : (net.withValues xs).written.Restarts cfg.defaultNetValue)
    (hsolve : ((net.withValues xs).written.solve cfg.solver).result = .ok (solution, solved)) :
    (cfg.calculate project (d.withPayloads (net.withValues xs).finish.topLevelPayloads)).result =
      .ok (solution, (d.withPayloads (net.withValues xs).finish.topLevelPayloads).withPayloads
        solution.payloads) :=
  calculate_eq_ok.2 ⟨_, _, build_eq_ok.2 (Diagram.build_written hK (build_eq_ok.1 hbuild) hrestarts),
    hsolve, rfl⟩

/-- Where the solved values satisfy all equations, the diagram that came back stays as it is. -/
theorem again_of_satisfies (hK : Scalar.IsExact K)
    (hbuild : (cfg.build project d).result = .ok net)
    (hsolve : (net.solve cfg.solver).result = .ok (solution, solved))
    (hconverged : solution.status = .converged) (hseeds : net.Reseeds solved cfg.defaultNetValue)
    (hholds : net.Satisfies solved.values)
    (hstep : net.size ≠ 0 → ∃ step, net.stepFrom cfg.solver solved.values = .ok step) :
    ∃ again, again.AtOnce ∧ (cfg.calculate project (d.withPayloads solution.payloads)).result =
      .ok (again, d.withPayloads solution.payloads) := by
  obtain ⟨xs, hlength, -, rfl, hvalues, hpayloads⟩ := Network.exists_values_of_solve hsolve
  rw [hvalues] at hholds hstep
  have hbuild' := build_eq_ok.1 hbuild
  have hnames := (Diagram.wellNamed_of_build hbuild').withValues xs
  have hrestarts := Diagram.restarts_written hbuild' ⟨hseeds.sourced, hseeds.inlined⟩
    (Diagram.locksHold_of_satisfies hbuild' hlength hholds hstep)
  obtain ⟨again, honce, hagain⟩ := Network.solve_written_of_satisfies hK hnames hlength
    (fun h => Network.tolerance_pos_of_solve hK h hsolve hconverged) hholds hstep
  -- finishing once more gives the payloads that are there already
  obtain ⟨-, -, -, -, hsame⟩ := Network.iterateFrom_of_solve hagain
  rw [Network.topLevelPayloads_written hnames] at hsame
  have hcalculate := calculate_written hK hbuild hrestarts hagain
  rw [hsame, Diagram.withPayloads_withPayloads, ← hpayloads] at hcalculate
  exact ⟨again, honce, hcalculate⟩

/-- Where the step from the solved values is short, the diagram that came back is solved by it. -/
theorem again_of_short (hK : Scalar.IsExact K) (hbuild : (cfg.build project d).result = .ok net)
    (hsolve : (net.solve cfg.solver).result = .ok (solution, solved))
    (hseeds : net.Reseeds solved cfg.defaultNetValue) (hlocks : net.LocksHold solved)
    (hstep : net.size ≠ 0 → ∃ step, net.stepFrom cfg.solver solved.values = .ok step ∧
      Scalar.lt (norm step) cfg.solver.tolerance) :
    ∃ again d', again.AtOnce ∧
      (cfg.calculate project (d.withPayloads solution.payloads)).result = .ok (again, d') := by
  obtain ⟨xs, hlength, -, rfl, hvalues, hpayloads⟩ := Network.exists_values_of_solve hsolve
  rw [hvalues] at hstep
  have hbuild' := build_eq_ok.1 hbuild
  have hnames := (Diagram.wellNamed_of_build hbuild').withValues xs
  have hrestarts := Diagram.restarts_written hbuild' ⟨hseeds.sourced, hseeds.inlined⟩ hlocks
  obtain ⟨again, solved', honce, hagain⟩ := Network.solve_written_of_short hK hnames hlength hstep
  have hcalculate := calculate_written hK hbuild hrestarts hagain
  rw [← hpayloads] at hcalculate
  exact ⟨again, _, honce, hcalculate⟩

end EngineConfig

/-- If calculating a diagram converges, then calculating the diagram that comes back converges at
    once and gives it back. -/
def EngineConfig.RoundTrips [Add K] [Sub K] [Mul K] [Div K] [Neg K] [Zero K] [One K] [Scalar K]
    (cfg : EngineConfig K) (project : Project K) (d : Diagram K) : Prop :=
  ∀ solution back, (cfg.calculate project d).result = .ok (solution, back) →
    solution.status = .converged →
      ∃ again, again.AtOnce ∧ (cfg.calculate project back).result = .ok (again, back)

/-- Let the nets of a solved diagram restart from their values.  If these satisfy all equations
    exactly, and the linear system can be solved there, then the diagram makes the round trip.  If
    it is only that the locked sources have the values of their nets, and that the next step is
    shorter than the tolerance, then the diagram that comes back still converges at once. -/
theorem calculate_again [Field K] [LinearOrder K] [IsStrictOrderedRing K] [Scalar K]
    (hK : Scalar.IsExact K) {cfg : EngineConfig K} {project : Project K} {d : Diagram K}
    {net solved : Network K} {solution : Solution K}
    (hbuild : (cfg.build project d).result = .ok net)
    (hsolve : (net.solve cfg.solver).result = .ok (solution, solved))
    (hseeds : net.Reseeds solved cfg.defaultNetValue) :
    (net.Satisfies solved.values →
      (net.size ≠ 0 → ∃ step, net.stepFrom cfg.solver solved.values = .ok step) →
        cfg.RoundTrips project d) ∧
    (net.LocksHold solved →
      (net.size ≠ 0 → ∃ step, net.stepFrom cfg.solver solved.values = .ok step ∧
        Scalar.lt (norm step) cfg.solver.tolerance) →
          ∃ back, (cfg.calculate project d).result = .ok (solution, back) ∧
            ∃ again back', again.AtOnce ∧
              (cfg.calculate project back).result = .ok (again, back')) := by
  have hcalculate := EngineConfig.calculate_eq_ok.2 ⟨net, solved, hbuild, hsolve, rfl⟩
  refine ⟨?_, ?_⟩
  · intro hholds hstep solution' back hcalculate' hconverged
    obtain ⟨rfl, rfl⟩ := Prod.mk.inj (Except.ok.inj (hcalculate.symm.trans hcalculate'))
    exact EngineConfig.again_of_satisfies hK hbuild hsolve hconverged hseeds hholds hstep
  · intro hlocks hstep
    exact ⟨_, hcalculate, EngineConfig.again_of_short hK hbuild hsolve hseeds hlocks hstep⟩

/-! ### Runs over the rational numbers -/

theorem Scalar.isExact_rat : Scalar.IsExact ℚ where
  lt_iff _ _ := decide_eq_true_iff
  isFinite _ := rfl
  sqrt_zero := by decide +kernel
  sqrt_nonneg a := by
    show 0 ≤ mkRat _ _
    rw [Rat.mkRat_eq_div]
    positivity
  ofInt? _ := rfl

/-- A locked source, a free one behind a sum, and a reference at zero, as its source is. -/
def Diagram.threeNets : Diagram ℚ :=
  ⟨"three", "three",
    [.valued "s" 3 true, .balance "p", .valued "u" 0 false, .valued "z" 0 true,
      .reference "r" "cell"],
    [⟨"s", "a", "p", "top_0"⟩, ⟨"p", "bottom_0", "u", "a"⟩, ⟨"z", "a", "r", "p"⟩]⟩

/-- The free source takes over three, and the diagram that comes back stays. -/
theorem calculate_again_threeNets :
    ∃ net solution solved, (EngineConfig.standard.build .ofCell .threeNets).result = .ok net ∧
      (net.solve .standard).result = .ok (solution, solved) ∧ solved.values = [3, 3, 0] ∧
      net.Reseeds solved 1 ∧ net.Satisfies solved.values ∧
      EngineConfig.standard.RoundTrips .ofCell .threeNets := by
  have hruns : ((EngineConfig.standard.build .ofCell .threeNets).result >>= fun net =>
      (net.solve .standard).result.map fun (_, solved) =>
        decide (solved.values = [3, 3, 0] ∧ net.Reseeds solved 1 ∧ net.Satisfies solved.values ∧
          (net.stepFrom .standard solved.values).toOption = some [0, 0, 0])).toOption =
            some true := by
    decide +kernel
  obtain ⟨net, hbuild, hruns⟩ := bind_eq_ok.1 (toOption_eq_some.1 hruns)
  obtain ⟨⟨solution, solved⟩, hsolve, hruns⟩ := map_eq_ok.1 hruns
  obtain ⟨hvalues, hseeds, hholds, hstep⟩ := of_decide_eq_true hruns
  obtain ⟨hexact, -⟩ := calculate_again Scalar.isExact_rat hbuild hsolve hseeds
  exact ⟨net, solution, solved, hbuild, hsolve, hvalues, hseeds, hholds,
    hexact hholds fun _ => ⟨_, toOption_eq_some.1 hstep⟩⟩

/-! ### Diagrams that do not make the round trip -/

section Drift

variable [Add K] [Sub K] [Mul K] [Div K] [Neg K] [Zero K] [One K] [Scalar K]

/-- The values that the nodes of a diagram are configured with. -/
def Diagram.configuredValues (d : Diagram K) : List (Option K) :=
  d.nodes.map fun n => (Kind.configuredValue n.payload).toOption

/-- How calculating a diagram ends and with which values, and how many steps the second calculation
    takes and to which values, if it does not fail. -/
def EngineConfig.twice (cfg : EngineConfig K) (project : Project K) (d : Diagram K) :
    Except (Error K) (SolveStatus × List (Option K) × Option (Nat × List (Option K))) :=
  (cfg.calculate project d).result.map fun (solution, back) =>
    (solution.status, back.configuredValues,
      (cfg.calculate project back).result.toOption.map fun (again, back') =>
        (again.iterations, back'.configuredValues))

/-- Where the second calculation fails, takes more steps or changes a value, there is no round
    trip. -/
theorem EngineConfig.not_roundTrips_of_twice {cfg : EngineConfig K} {project : Project K}
    {d : Diagram K} {values : List (Option K)} {second : Option (Nat × List (Option K))}
    (h : (cfg.twice project d).toOption = some (.converged, values, second))
    (hsecond : ∀ n ≤ 1, second ≠ some (n, values)) : ¬ cfg.RoundTrips project d := by
  intro hround
  obtain ⟨⟨solution, back⟩, hfirst, hends⟩ := map_eq_ok.1 (toOption_eq_some.1 h)
  simp only [Prod.mk.injEq] at hends
  obtain ⟨hconverged, hvalues, hsecond'⟩ := hends
  obtain ⟨again, honce, hagain⟩ := hround solution back hfirst hconverged
  refine hsecond again.iterations honce.iterations ?_
  rw [← hsecond', hagain, ← hvalues]
  rfl

end Drift

/-- A net between a sum and a product, without a source. -/
def Diagram.sourceless : Diagram ℚ :=
  ⟨"sourceless", "sourceless", [.valued "s" 3 true, .balance "p", .product "q" ["top_0"]],
    [⟨"s", "a", "p", "top_0"⟩, ⟨"p", "bottom_0", "q", "top_0"⟩]⟩

/-- A locked source at the port of a reference, whose source has another value. -/
def Diagram.lockedCell : Diagram ℚ :=
  ⟨"locked", "locked", [.valued "s" 3 true, .reference "r" "cell"], [⟨"s", "a", "r", "p"⟩]⟩

/-- A free source whose square is two. -/
def Diagram.squareRoot : Diagram ℚ :=
  ⟨"root", "root", [.valued "u" 1 false, .valued "s" 2 true, .product "m" ["top_0", "top_1"]],
    [⟨"u", "a", "m", "top_0"⟩, ⟨"u", "a", "m", "top_1"⟩, ⟨"m", "bottom_0", "s", "a"⟩]⟩

/-- A product of two free sources; the first one is joined to a locked source, and so is the
    product. -/
def Diagram.factors (x u y z : ℚ) : Diagram ℚ :=
  ⟨"factors", "factors",
    [.valued "x" x true, .valued "u" u false, .valued "y" y false, .valued "z" z true,
      .product "m" ["top_0", "top_1"]],
    [⟨"x", "a", "u", "a"⟩, ⟨"x", "a", "m", "top_0"⟩, ⟨"y", "a", "m", "top_1"⟩,
      ⟨"m", "bottom_0", "z", "a"⟩]⟩

/-- Two locked sources that should be equal and are not. -/
def Diagram.unequal : Diagram ℚ :=
  ⟨"unequal", "unequal", [.valued "s" 0 true, .balance "p", .valued "t" 3 true],
    [⟨"s", "a", "p", "top_0"⟩, ⟨"p", "bottom_0", "t", "a"⟩]⟩

/-- The standard configuration, but that systems need not be square. -/
def EngineConfig.leastSquares : EngineConfig ℚ :=
  { EngineConfig.standard with solver := { SolverConfig.standard with leastSquares := true } }

/-- Each condition of the round trip is needed.  The net without a source starts from the default
    value each time; the source behind the reference keeps its value; the square root of two is
    only approximated, and better the second time; where the first factor is zero the matrix is
    singular; where it is small the next step is long; and where the locked sources contradict each
    other no values agree with both. -/
theorem not_roundTrips :
    ¬ EngineConfig.standard.RoundTrips .ofCell .sourceless ∧
    ¬ EngineConfig.standard.RoundTrips .ofCell .lockedCell ∧
    ¬ EngineConfig.standard.RoundTrips .ofCell .squareRoot ∧
    ¬ EngineConfig.standard.RoundTrips .ofCell (.factors 0 (2 / 10 ^ 9) 1 0) ∧
    ¬ EngineConfig.standard.RoundTrips .ofCell
      (.factors (1 / 10 ^ 12) (2 / 10 ^ 9 - 1 / 10 ^ 12) (1 / 10 ^ 9) (1 / 10 ^ 18)) ∧
    ¬ EngineConfig.leastSquares.RoundTrips .ofCell .unequal := by
  have hsourceless : (EngineConfig.standard.twice .ofCell .sourceless).toOption =
      some (.converged, [some 3, some 0, some 0], some (2, [some 3, some 0, some 0])) := by
    decide +kernel
  have hlocked : (EngineConfig.standard.twice .ofCell .lockedCell).toOption =
      some (.converged, [some 3, some 0], some (2, [some 3, some 0])) := by
    decide +kernel
  have hroot : (EngineConfig.standard.twice .ofCell .squareRoot).toOption =
      some (.converged, [some (886731088897 / 627013566048), some 2, some 0],
        some (1, [some (1572584048032918633353217 / 1111984844349868137938112), some 2,
          some 0])) := by
    decide +kernel
  have hzero : (EngineConfig.standard.twice .ofCell (.factors 0 (2 / 10 ^ 9) 1 0)).toOption =
      some (.converged, [some 0, some 0, some 1, some 0, some 0], none) := by
    decide +kernel
  have hsmall : (EngineConfig.standard.twice .ofCell (.factors (1 / 10 ^ 12)
      (2 / 10 ^ 9 - 1 / 10 ^ 12) (1 / 10 ^ 9) (1 / 10 ^ 18))).toOption =
        some (.converged, [some (1 / 10 ^ 12), some (1 / 10 ^ 12), some (1999 / 10 ^ 12),
          some (1 / 10 ^ 18), some 0],
            some (2, [some (1 / 10 ^ 12), some (1 / 10 ^ 12), some (1 / 10 ^ 6),
              some (1 / 10 ^ 18), some 0])) := by
    decide +kernel
  have hunequal : (EngineConfig.leastSquares.twice .ofCell .unequal).toOption =
      some (.converged, [some 0, some 0, some 3], some (2, [some 0, some 0, some 3])) := by
    decide +kernel
  -- the second calculation takes two steps
  have htwo : ∀ values again : List (Option ℚ), ∀ n ≤ 1, some (2, again) ≠ some (n, values) := by
    intro values again n hn h
    cases h
    omega
  refine ⟨EngineConfig.not_roundTrips_of_twice hsourceless (htwo _ _),
    EngineConfig.not_roundTrips_of_twice hlocked (htwo _ _),
    EngineConfig.not_roundTrips_of_twice hroot ?_, EngineConfig.not_roundTrips_of_twice hzero ?_,
    EngineConfig.not_roundTrips_of_twice hsmall (htwo _ _),
    EngineConfig.not_roundTrips_of_twice hunequal (htwo _ _)⟩
  · -- it takes one step, to another value
    intro n hn h
    norm_num at h
  · -- it fails
    intro n hn h
    cases h

end NetBalance
