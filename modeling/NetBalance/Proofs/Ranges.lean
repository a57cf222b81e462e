import NetBalance.Proofs.Grammar

/-! # Settings in range

    The bounds of a setting are checked by refusing what lies outside of them,
    and what is not a number lies on no side of anything.  So a bounded
    setting is in range exactly if it does not read as such. -/

namespace NetBalance

/-! ## Comparisons of doubles -/

section Comparison

open Float.Model

/-- Only what is not a number compares to nothing. -/
theorem compare_eq_none_iff (a b : UnpackedFloat) :
    a.compare b = none ↔ a.isNaN ∨ b.isNaN := by
  rcases a with ⟨⟨⟩⟩ | _ | ⟨⟨⟩⟩ | ⟨⟨⟩, m, e, hm⟩ <;>
    rcases b with ⟨⟨⟩⟩ | _ | ⟨⟨⟩⟩ | ⟨⟨⟩, m', e', hm'⟩ <;>
    simp [UnpackedFloat.compare, UnpackedFloat.isNaN]

theorem compare_swap (a b : UnpackedFloat) : b.compare a = (a.compare b).map Ordering.swap := by
  rcases a with ⟨⟨⟩⟩ | _ | ⟨⟨⟩⟩ | ⟨⟨⟩, m, e, hm⟩ <;>
    rcases b with ⟨⟨⟩⟩ | _ | ⟨⟨⟩⟩ | ⟨⟨⟩, m', e', hm'⟩ <;>
    first
    | rfl
    | simp [UnpackedFloat.compare, Ordering.swap_then, Std.OrientedOrd.eq_swap (a := e) (b := e'),
        Std.OrientedOrd.eq_swap (a := m) (b := m')]

/-- Of two numbers one is at most the other; what is not a number is neither. -/
theorem float_le_iff {x y : Float} : x ≤ y ↔ ¬ y < x ∧ ¬ x.isNaN ∧ ¬ y.isNaN := by
  have hle : x ≤ y ↔ (x.toModel.unpack.compare y.toModel.unpack).any (·.isLE) :=
    decide_eq_true_iff
  have hlt : y < x ↔ (y.toModel.unpack.compare x.toModel.unpack == some .lt) :=
    decide_eq_true_iff
  have hnan := compare_eq_none_iff x.toModel.unpack y.toModel.unpack
  rw [hle, hlt, compare_swap x.toModel.unpack, ← not_or]
  show _ ↔ _ ∧ ¬ (x.toModel.unpack.isNaN ∨ y.toModel.unpack.isNaN)
  rw [← hnan]
  cases x.toModel.unpack.compare y.toModel.unpack with
  | none => simp
  | some o => cases o <;> simp

end Comparison

/-! ## Ranges -/

namespace Config

/-- A number is at least the lower bound of a range and at most the upper one. -/
def Range.Contains : Range → Float → Prop
  | .any, _ => True
  | .nonNegative, x => 0 ≤ x
  | .unit, x => 0 ≤ x ∧ x ≤ 1

/-- What is not refused is contained, unless it is not a number and the range has bounds. -/
theorem Range.contains_iff {range : Range} {x : Float} (h : range.Admits x) :
    range.Contains x ↔ range = .any ∨ ¬ x.isNaN := by
  have hzero : ¬ (0 : Float).isNaN := by decide
  have hone : ¬ (1 : Float).isNaN := by decide
  cases range with
  | any => exact ⟨fun _ => .inl rfl, fun _ => trivial⟩
  | nonNegative =>
    have h0 : ¬ x < 0 := fun hx => h (decide_eq_true hx)
    show 0 ≤ x ↔ _
    rw [float_le_iff]
    exact ⟨fun hx => .inr hx.2.2, fun hx => ⟨h0, hzero, hx.resolve_left nofun⟩⟩
  | unit =>
    have h0 : ¬ x < 0 := fun hx => h.1 (decide_eq_true hx)
    have h1 : ¬ 1 < x := fun hx => h.2 (decide_eq_true hx)
    show 0 ≤ x ∧ x ≤ 1 ↔ _
    rw [float_le_iff, float_le_iff]
    refine ⟨fun hx => .inr hx.2.2.1, fun hx => ?_⟩
    have hnumber := hx.resolve_left nofun
    exact ⟨⟨h0, hzero, hnumber⟩, h1, hnumber, hone⟩

/-- What an expected setting is set to is in its range.  Texts and truth values have none. -/
def Expected.Contains : Expected → Entry Float → Prop
  | .number range, .number x => range.Contains x
  | .count, .count n => 1 ≤ n
  | _, _ => True

/-- A setting of a number that has bounds. -/
def Expected.IsBounded (e : Expected) : Prop := ∃ range, e = .number range ∧ range ≠ .any

theorem Expected.contains_iff {e : Expected} {d : Document Float} {v : Entry Float}
    (h : e.Takes d v) :
    e.Contains v ↔ ¬ (e.IsBounded ∧ ∃ x, d.toScalar? = some x ∧ x.isNaN) := by
  cases e with
  | number range =>
    obtain ⟨x, hx, hrange, rfl⟩ := h
    show range.Contains x ↔ _
    rw [Range.contains_iff hrange]
    by_cases hany : range = .any
    · simp [IsBounded, hany]
    · simp [IsBounded, hany, hx]
  | count =>
    obtain ⟨n, -, hn, rfl⟩ := h
    simp [Contains, IsBounded, hn]
  | truth => simp [Contains, IsBounded]
  | level => simp [Contains, IsBounded]
  | text => simp [Contains, IsBounded]

theorem Field.contains_standard (f : Field) :
    f.expected.Contains ((EngineConfig.standard : EngineConfig Float).entry f) := by
  cases f with
  | tolerance => exact (by decide : (0 : Float) ≤ SolverConfig.standard.tolerance)
  | maxIterations => exact (by decide : (1 : Int) ≤ 100)
  | minDamping =>
    exact (by decide : (0 : Float) ≤ SolverConfig.standard.minDamping ∧
      SolverConfig.standard.minDamping ≤ (1 : Float))
  | dampingBackoff =>
    exact (by decide : (0 : Float) ≤ SolverConfig.standard.dampingBackoff ∧
      SolverConfig.standard.dampingBackoff ≤ (1 : Float))
  | stallRatio => exact (by decide : (0 : Float) ≤ SolverConfig.standard.stallRatio)
  | singularTolerance => exact (by decide : (0 : Float) ≤ SolverConfig.standard.singularTolerance)
  | leastSquares | defaultNetValue | strictReferences | level | file => trivial

end Config

open Config

/-- All bounds that the settings of a solve have. -/
structure SolverConfig.InRange (cfg : SolverConfig Float) : Prop where
  tolerance : 0 ≤ cfg.tolerance
  maxIterations : 1 ≤ cfg.maxIterations
  minDamping : 0 ≤ cfg.minDamping ∧ cfg.minDamping ≤ 1
  dampingBackoff : 0 ≤ cfg.dampingBackoff ∧ cfg.dampingBackoff ≤ 1
  stallRatio : 0 ≤ cfg.stallRatio
  singularTolerance : 0 ≤ cfg.singularTolerance

/-- The settings of a solve are in range if each field is. -/
theorem EngineConfig.solver_inRange_iff {cfg : EngineConfig Float} :
    cfg.solver.InRange ↔ ∀ f : Field, f.expected.Contains (cfg.entry f) := by
  constructor
  · intro h f
    cases f with
    | tolerance => exact h.tolerance
    | maxIterations => exact h.maxIterations
    | minDamping => exact h.minDamping
    | dampingBackoff => exact h.dampingBackoff
    | stallRatio => exact h.stallRatio
    | singularTolerance => exact h.singularTolerance
    | defaultNetValue => trivial
    | leastSquares | strictReferences => trivial
    | level | file => trivial
  · intro h
    exact ⟨h .tolerance, h .maxIterations, h .minDamping, h .dampingBackoff, h .stallRatio,
      h .singularTolerance⟩

/-- A document sets a bounded field to what is not a number. -/
def Document.Unbounds (d : Document Float) (f : Field) : Prop :=
  f.expected.IsBounded ∧ ∃ v x, d.setting? f = some v ∧ v.toScalar? = some x ∧ x.isNaN

/-- A field of an accepted configuration is out of range exactly if it is bounded and set to what
    is not a number. -/
theorem EngineConfig.inRange_iff_of_ofDocument {d : Document Float} {cfg : EngineConfig Float}
    (h : ofDocument d = .ok cfg) :
    (∀ f : Field, f.expected.Contains (cfg.entry f) ↔ ¬ d.Unbounds f) ∧
      (cfg.solver.InRange ↔ ∀ f, ¬ d.Unbounds f) := by
  have hfield (f : Field) : f.expected.Contains (cfg.entry f) ↔ ¬ d.Unbounds f := by
    have htakes := (ofDocument_eq_ok_iff.1 h).2 f
    unfold Document.Unbounds
    cases hv : d.setting? f with
    | none =>
      rw [hv] at htakes
      have hstandard : cfg.entry f = standard.entry f := htakes
      rw [hstandard]
      simp [Field.contains_standard f]
    | some v =>
      rw [hv] at htakes
      rw [Expected.contains_iff htakes]
      simp
  exact ⟨hfield, by rw [solver_inRange_iff, forall_congr' hfield]⟩

/-- A document that sets two bounded fields, one to a text that is not a number and one to
    infinity. -/
def boundlessSteps : Document Float :=
  .mapping [(.text "solver",
    .mapping [(.text "min_damping", .text "nan"), (.text "stall_ratio", .text "inf")])]

/-- Infinity is in range, what is not a number is not. -/
theorem EngineConfig.inRange_iff_of_ofDocument_boundlessSteps :
    ∃ cfg, ofDocument boundlessSteps = .ok cfg ∧
      (∀ f : Field, f.expected.Contains (cfg.entry f) ↔ f ≠ .minDamping) ∧
      ¬ cfg.solver.InRange := by
  have hok : ofDocument boundlessSteps =
      .ok { standard with
              solver := { SolverConfig.standard with
                            minDamping := Decimal.Numeral.nan.toFloat
                            stallRatio := (Decimal.Numeral.infinite false).toFloat } } := rfl
  obtain ⟨hfields, hall⟩ := inRange_iff_of_ofDocument hok
  have hnan : boundlessSteps.Unbounds .minDamping :=
    ⟨⟨.unit, rfl, nofun⟩, .text "nan", Decimal.Numeral.nan.toFloat, rfl, rfl, by decide⟩
  refine ⟨_, hok, fun f => ?_, fun h => hall.1 h .minDamping hnan⟩
  rw [hfields f]
  refine not_congr ⟨?_, fun h => h ▸ hnan⟩
  rintro ⟨-, v, x, hv, hx, hxnan⟩
  cases f with
  | minDamping => rfl
  | stallRatio =>
    cases hv
    cases hx
    exact absurd hxnan (by decide)
  | _ => cases hv

/-- A document that sets the tolerance to what is not a number. -/
def nanTolerance : Document Float :=
  .mapping [(.text "solver", .mapping [(.text "tolerance", .real Decimal.Numeral.nan.toFloat)])]

/-- It is accepted, although a tolerance is to be at least zero. -/
theorem EngineConfig.nanTolerance_outOfRange :
    ∃ cfg, ofDocument nanTolerance = .ok cfg ∧ ¬ cfg.solver.InRange :=
  ⟨{ standard with
       solver := { SolverConfig.standard with tolerance := Decimal.Numeral.nan.toFloat } }, rfl,
    fun h => absurd h.tolerance (by decide)⟩

end NetBalance
