import NetBalance.Proofs.PartialProducts
import NetBalance.Proofs.Rational
import NetBalance.Proofs.Rows

/-! # Derivatives of residuals

    The residual of an equation is a polynomial in the values of its nets, and
    its derivative is a sum over the places where the equation mentions a net.
    The row of the equation collects these terms net by net, whatever nets
    stand at several places and whatever values are zero.  So over the real
    numbers, or over any other normed field, the rows of a system are the
    derivative of its residual. -/

namespace NetBalance

/-! ### Rows as collected terms -/

namespace Equation

variable {K : Type} [CommRing K] {M : Type} [AddCommGroup M] [Module K M]

/-- The places where the equation mentions a net, each with the derivative of the residual by the
    value there. -/
def terms (x : Nat → K) : Equation K → List (Nat × K)
  | .pin net _ => [(net, 1)]
  | .equate first second => [(first, 1), (second, -1)]
  | .equalSums top bottom => top.map (·, 1) ++ bottom.map (·, -1)
  | .equalProducts top bottom =>
    top.zip (partials (top.map x)) ++
      (bottom.zip (partials (bottom.map x))).map fun t => (t.1, -t.2)

/-- The sum of some vectors, one for each net, with the weights of some terms. -/
def weigh (v : Nat → M) (ts : List (Nat × K)) : M := (ts.map fun t => t.2 • v t.1).sum

section Weigh

variable {v : Nat → M}

theorem weigh_cons (i : Nat) (w : K) (ts : List (Nat × K)) :
    weigh v ((i, w) :: ts) = w • v i + weigh v ts := by
  rw [weigh, List.map_cons, List.sum_cons, weigh]

theorem weigh_append (ts us : List (Nat × K)) :
    weigh v (ts ++ us) = weigh v ts + weigh v us := by
  rw [weigh, List.map_append, List.sum_append, weigh, weigh]

theorem weigh_map_const (is : List Nat) (w : K) :
    weigh v (is.map (·, w)) = w • (is.map v).sum := by
  rw [weigh, List.map_map, List.smul_sum, List.map_map]
  rfl

theorem weigh_map_neg (ts : List (Nat × K)) :
    weigh v (ts.map fun t => (t.1, -t.2)) = -weigh v ts := by
  induction ts with
  | nil => simp [weigh]
  | cons t ts ih => rw [List.map_cons, weigh_cons, ih, weigh_cons, neg_smul, neg_add]

theorem weigh_zip_map_mul (is : List Nat) (w : K) (ws : List K) :
    weigh v (is.zip (ws.map (w * ·))) = w • weigh v (is.zip ws) := by
  rw [weigh, weigh, List.zip_map_right, List.map_map, List.smul_sum, List.map_map]
  refine congrArg _ (List.map_congr_left fun t _ => ?_)
  exact mul_smul w t.2 (v t.1)

end Weigh

theorem residual_equalSums (x : Nat → K) (top bottom : List Nat) :
    (equalSums top bottom).residual x = (top.map x).sum - (bottom.map x).sum := by
  have hup : top.foldl (fun r i => r + x i) 0 = (top.map x).sum := by
    rw [List.sum_eq_foldl, List.foldl_map]
  have hdown : ∀ a : K, bottom.foldl (fun r i => r - x i) a = a - (bottom.map x).sum := by
    induction bottom with
    | nil => simp
    | cons i bottom ih =>
      intro a
      rw [List.foldl_cons, ih, List.map_cons, List.sum_cons, sub_sub]
  rw [residual, hup, hdown]

theorem residual_equalProducts (x : Nat → K) (top bottom : List Nat) :
    (equalProducts top bottom).residual x = (top.map x).prod - (bottom.map x).prod := by
  rw [residual, List.prod_eq_foldl, List.prod_eq_foldl]

/-- It does not equate a net with itself. -/
def IsProper (e : Equation K) : Prop := ∀ first second, e = .equate first second → first ≠ second

end Equation

namespace Row

variable {K : Type} [CommRing K] {M : Type} [AddCommGroup M] [Module K M] {n : Nat}
  {v : Nat → M}

/-- The sum of the first `n` vectors with the weights of a row. -/
def weigh (v : Nat → M) (row : Row K n) : M := ∑ k : Fin n, row.get k • v k

/-- All terms added to the coefficients of their nets. -/
def collect (row : Row K n) (ts : List (Nat × K)) : Row K n :=
  ts.foldl (fun row t => Row.addAt row t.1 t.2) row

theorem get_addAt (row : Row K n) (i : Nat) (w : K) (k : Fin n) :
    (row.addAt i w).get k = row.get k + if i = k then w else 0 := by
  rw [addAt]
  split
  · show (row.set i (row[i] + w) _)[k.val] = row[k.val] + _
    rw [Vector.getElem_set]
    by_cases h : i = k
    · subst h
      simp
    · simp [h]
  · have hne : i ≠ k := by omega
    rw [if_neg hne, add_zero]

theorem subAt_eq_addAt (row : Row K n) (i : Nat) (w : K) : row.subAt i w = row.addAt i (-w) := by
  rw [subAt, addAt]
  simp only [sub_eq_add_neg]

/-- To set a coefficient that is zero is to add to it. -/
theorem put_eq_addAt {row : Row K n} {i : Nat} {w : K} (h : ∀ k : Fin n, i = k → row.get k = 0) :
    row.put i w = row.addAt i w := by
  rw [put, addAt]
  by_cases hi : i < n
  · have hzero : row[i] = 0 := h ⟨i, hi⟩ rfl
    rw [dif_pos hi, dif_pos hi, hzero, zero_add]
  · rw [dif_neg hi, dif_neg hi]

theorem weigh_zero : weigh v (zero : Row K n) = 0 := by
  simp [weigh, get_zero]

/-- A net beyond the row counts for nothing if its vector is zero. -/
theorem weigh_addAt (hv : ∀ i, n ≤ i → v i = 0) (row : Row K n) (i : Nat) (w : K) :
    weigh v (row.addAt i w) = weigh v row + w • v i := by
  have hterm : ∑ k : Fin n, (if i = k then w else 0) • v k = w • v i := by
    by_cases hi : i < n
    · rw [Finset.sum_eq_single ⟨i, hi⟩]
      · rw [if_pos rfl]
      · intro k _ hk
        have hne : i ≠ k := fun h => hk (Fin.ext h.symm)
        rw [if_neg hne, zero_smul]
      · intro h
        exact absurd (Finset.mem_univ _) h
    · rw [hv i (by omega), smul_zero]
      refine Finset.sum_eq_zero fun k _ => ?_
      have hne : i ≠ k := by omega
      rw [if_neg hne, zero_smul]
  simp only [weigh, get_addAt, add_smul, Finset.sum_add_distrib, hterm]

theorem weigh_collect (hv : ∀ i, n ≤ i → v i = 0) (row : Row K n) (ts : List (Nat × K)) :
    weigh v (row.collect ts) = weigh v row + Equation.weigh v ts := by
  induction ts generalizing row with
  | nil => simp [collect, Equation.weigh]
  | cons t ts ih =>
    show weigh v ((row.addAt t.1 t.2).collect ts) = _
    rw [ih, weigh_addAt hv, Equation.weigh_cons, add_assoc]

theorem collect_append (row : Row K n) (ts us : List (Nat × K)) :
    row.collect (ts ++ us) = (row.collect ts).collect us := by
  rw [collect, List.foldl_append]
  rfl

end Row

namespace Equation

variable {K : Type} [CommRing K] {M : Type} [AddCommGroup M] [Module K M] {n : Nat}
  {v : Nat → M} {e : Equation K}

/-- The row of an equation collects its terms. -/
theorem row_eq_collect (he : e.IsProper) (x : Nat → K) :
    e.row n x = Row.zero.collect (e.terms x) := by
  cases e with
  | pin net value => exact Row.put_eq_addAt fun k _ => Row.get_zero k
  | equate first second =>
    have hfirst : (Row.zero : Row K n).put first 1 = Row.zero.addAt first 1 :=
      Row.put_eq_addAt fun k _ => Row.get_zero k
    show ((Row.zero : Row K n).put first 1).put second (-1) =
      (Row.zero.addAt first 1).addAt second (-1)
    rw [hfirst]
    refine Row.put_eq_addAt fun k hk => ?_
    -- the two nets are not the same
    have hne : first ≠ k := fun h => he first second rfl (h.trans hk.symm)
    rw [Row.get_addAt, Row.get_zero, if_neg hne, add_zero]
  | equalSums top bottom =>
    rw [terms, Row.collect_append, Row.collect, Row.collect, List.foldl_map, List.foldl_map, row]
    simp only [Row.subAt_eq_addAt]
  | equalProducts top bottom =>
    rw [terms, Row.collect_append, Row.collect, Row.collect, List.foldl_map, row]
    simp only [Row.subAt_eq_addAt]

theorem weigh_row (he : e.IsProper) (hv : ∀ i, n ≤ i → v i = 0) (x : Nat → K) :
    Row.weigh v (e.row n x) = weigh v (e.terms x) := by
  rw [row_eq_collect he, Row.weigh_collect hv, Row.weigh_zero, zero_add]

end Equation

/-- The two nets that a source equates are not the same. -/
theorem Kind.ne_of_terminalNets {net? : PortName → Option Nat} {first second : Nat}
    (h : terminalNets net? = [first, second]) : first ≠ second := by
  rw [terminalNets] at h
  cases hnets : sourceTerminals.filterMap fun t => net? (some t) with
  | nil =>
    rw [hnets] at h
    cases h
  | cons i rest =>
    rw [hnets, List.eraseDups_cons, List.cons.injEq] at h
    obtain ⟨rfl, h⟩ := h
    -- the second one is among those that are left beside the first
    have hsecond : second ∈ (rest.filter fun j => !j == i).eraseDups := by
      rw [h]
      exact List.mem_singleton_self second
    rw [List.mem_eraseDups, List.mem_filter] at hsecond
    have hne : second ≠ i := by simpa using hsecond.2
    exact hne.symm

theorem Kind.isProper_of_equations {K : Type} [Zero K] [One K] [Scalar K] {kind : Kind}
    {p : Payload K} {net? : PortName → Option Nat} {es : List (Equation K)}
    (hes : kind.equations p net? = .ok es) {e : Equation K} (he : e ∈ es) : e.IsProper := by
  rintro first second rfl
  rcases equation_cases hes he with ⟨i, -, v, h⟩ | ⟨_, _, hnets, h⟩ | ⟨_, _, -, -, h | h⟩
  · cases h
  · cases h
    exact ne_of_terminalNets hnets
  · cases h
  · cases h

/-! ### Derivatives along a family of values -/

section Family

variable {𝕜 : Type} [NontriviallyNormedField 𝕜] {E : Type} [NormedAddCommGroup E]
  [NormedSpace 𝕜 E] {f : E → Nat → 𝕜} {f' : Nat → E →L[𝕜] 𝕜} {y : E}
  (hf : ∀ i, HasFDerivAt (fun z => f z i) (f' i) y)
include hf

theorem hasFDerivAt_sum_nets (is : List Nat) :
    HasFDerivAt (fun z => (is.map (f z)).sum) (is.map f').sum y := by
  induction is with
  | nil => exact hasFDerivAt_const 0 y
  | cons i is ih => exact (hf i).add ih

/-- The product rule for a row of nets, which may repeat. -/
theorem hasFDerivAt_prod_nets (is : List Nat) :
    HasFDerivAt (fun z => (is.map (f z)).prod)
      (Equation.weigh f' (is.zip (partials (is.map (f y))))) y := by
  induction is with
  | nil => exact hasFDerivAt_const 1 y
  | cons i is ih =>
    refine ((hf i).mul ih).congr_fderiv ?_
    rw [List.map_cons, partials_cons, List.zip_cons_cons, Equation.weigh_cons,
      Equation.weigh_zip_map_mul, add_comm]

/-- The residual of an equation changes by what its terms say. -/
theorem hasFDerivAt_residual (e : Equation 𝕜) :
    HasFDerivAt (fun z => e.residual (f z)) (Equation.weigh f' (e.terms (f y))) y := by
  cases e with
  | pin net value =>
    refine ((hf net).sub_const value).congr_fderiv ?_
    simp [Equation.terms, Equation.weigh]
  | equate first second =>
    refine ((hf first).sub (hf second)).congr_fderiv ?_
    simp [Equation.terms, Equation.weigh, sub_eq_add_neg]
  | equalSums top bottom =>
    simp only [Equation.residual_equalSums]
    refine ((hasFDerivAt_sum_nets hf top).sub (hasFDerivAt_sum_nets hf bottom)).congr_fderiv ?_
    rw [Equation.terms, Equation.weigh_append, Equation.weigh_map_const, Equation.weigh_map_const,
      one_smul, neg_smul, one_smul, sub_eq_add_neg]
  | equalProducts top bottom =>
    simp only [Equation.residual_equalProducts]
    refine ((hasFDerivAt_prod_nets hf top).sub (hasFDerivAt_prod_nets hf bottom)).congr_fderiv ?_
    rw [Equation.terms, Equation.weigh_append, Equation.weigh_map_neg, sub_eq_add_neg]

end Family

/-! ### Rows are derivatives -/

section Vectors

variable {𝕜 : Type} [NontriviallyNormedField 𝕜] {n : Nat}

/-- The linear form whose coefficients are those of a row. -/
def Row.form (row : Row 𝕜 n) : (Fin n → 𝕜) →L[𝕜] 𝕜 :=
  ∑ k : Fin n, row.get k • ContinuousLinearMap.proj k

variable {e : Equation 𝕜} (he : e.IsProper)
include he

/-- A coefficient of a row is the derivative of the residual by the value of one net. -/
theorem hasDerivAt_residual_update (x : Nat → 𝕜) (k : Fin n) :
    HasDerivAt (fun t => e.residual (Function.update x k t)) ((e.row n x).get k) (x k) := by
  let f' : Nat → 𝕜 →L[𝕜] 𝕜 := fun i => if i = k then ContinuousLinearMap.id 𝕜 𝕜 else 0
  have hf : ∀ i, HasFDerivAt (fun t => Function.update x k t i) (f' i) (x k) := by
    intro i
    by_cases hi : i = k
    · have hid : HasFDerivAt (fun t : 𝕜 => t) (ContinuousLinearMap.id 𝕜 𝕜) (x k) :=
        hasFDerivAt_id (x k)
      simpa [f', hi] using hid
    · simpa [f', hi] using hasFDerivAt_const (x i) (x k)
  have hbeyond : ∀ i, n ≤ i → f' i = 0 := by
    intro i hi
    have hne : i ≠ k := by omega
    exact if_neg hne
  have hresidual := hasFDerivAt_residual hf e
  rw [Function.update_eq_self, ← Equation.weigh_row he hbeyond] at hresidual
  refine hresidual.hasDerivAt.congr_deriv ?_
  -- of the row only the coefficient of the net is left
  simp [Row.weigh, f', Fin.val_inj]

/-- The row of an equation is the derivative of its residual by the values of all nets. -/
theorem hasFDerivAt_residual_vector (x : Fin n → 𝕜) :
    HasFDerivAt (fun y => e.residual (valuesIn (Array.ofFn y)))
      (e.row n (valuesIn (Array.ofFn x))).form x := by
  let f' : Nat → (Fin n → 𝕜) →L[𝕜] 𝕜 := fun i =>
    if h : i < n then ContinuousLinearMap.proj ⟨i, h⟩ else 0
  have hf : ∀ i, HasFDerivAt (fun y : Fin n → 𝕜 => valuesIn (Array.ofFn y) i) (f' i) x := by
    intro i
    by_cases hi : i < n
    · simpa [valuesIn, f', hi] using hasFDerivAt_apply (⟨i, hi⟩ : Fin n) x
    · simpa [valuesIn, f', hi] using hasFDerivAt_const (0 : 𝕜) x
  have hbeyond : ∀ i, n ≤ i → f' i = 0 := by
    intro i hi
    have hge : ¬ i < n := by omega
    exact dif_neg hge
  refine (hasFDerivAt_residual hf e).congr_fderiv ?_
  rw [← Equation.weigh_row he hbeyond]
  simp [Row.weigh, Row.form, f']

end Vectors

/-- Where a network has a system, it has one with the same sources at every vector, and the rows are
    the derivative of the residual there. -/
theorem Network.exists_residual {𝕜 : Type} [NontriviallyNormedField 𝕜] [Scalar 𝕜]
    {net : Network 𝕜} {x : Fin net.size → 𝕜} {s : EquationSystem 𝕜 net.size}
    (h : net.assemble (Array.ofFn x) = .ok s) :
    ∃ r : (Fin net.size → 𝕜) → Fin s.rows.length → 𝕜,
      (∀ y, ∃ t, net.assemble (Array.ofFn y) = .ok t ∧ t.residual = List.ofFn (r y) ∧
        t.sources = s.sources) ∧
      HasFDerivAt r (ContinuousLinearMap.pi fun i => (s.rows.get i).row.form) x := by
  obtain ⟨es, hes, hfits, hrows⟩ := assemble_eq_ok.1 h
  obtain ⟨rows⟩ := s
  subst hrows
  refine ⟨fun y i => (es.get (i.cast (List.length_map _))).2.residual (valuesIn (Array.ofFn y)),
    ?_, ?_⟩
  · intro y
    -- whether an equation keeps to the vector depends on its size only
    have hfits' : ∀ e ∈ es, e.2.Fits net.size (Array.ofFn y) := by
      intro e he
      simpa [Equation.Fits] using hfits e he
    refine ⟨⟨_⟩, assemble_eq_ok.2 ⟨es, hes, hfits', rfl⟩, ?_, ?_⟩
    · refine List.ext_getElem ?_ ?_
      · simp [EquationSystem.residual]
      · intro i hi hi'
        simp [EquationSystem.residual, SystemRow.ofEquation, Equation.linearised]
    · simp [EquationSystem.sources, SystemRow.ofEquation]
  · refine hasFDerivAt_pi.2 fun i => ?_
    have hproper : (es.get (i.cast (List.length_map _))).2.IsProper := by
      obtain ⟨m, -, own, hown, e, he, heq⟩ := (mem_equationsOf hes).1 (List.get_mem es _)
      rw [← heq]
      exact Kind.isProper_of_equations hown he
    have hrow : (List.get _ i : SystemRow 𝕜 net.size).row =
        (es.get (i.cast (List.length_map _))).2.row net.size (valuesIn (Array.ofFn x)) := by
      simp [SystemRow.ofEquation, Equation.linearised]
    rw [hrow]
    exact hasFDerivAt_residual_vector hproper x

/-- Over any normed field, such as the real numbers: each coefficient of the row of an equation that
    a node contributes is the derivative of the residual by the value of that net, whatever nets the
    ports of the node are at.  So at each vector where a network has a system, it has one at all
    vectors, with the same sources, and the rows are the derivative of the residual there. -/
theorem jacobian_is_derivative {𝕜 : Type} [NontriviallyNormedField 𝕜] [Scalar 𝕜] :
    (∀ (m : FlatNode 𝕜) es, m.equations = .ok es → ∀ e ∈ es, ∀ (n : Nat) (x : Nat → 𝕜) (k : Fin n),
      HasDerivAt (fun t => e.residual (Function.update x k t)) ((e.row n x).get k) (x k)) ∧
    ∀ (net : Network 𝕜) (x : Fin net.size → 𝕜) s, net.assemble (Array.ofFn x) = .ok s →
      ∃ r : (Fin net.size → 𝕜) → Fin s.rows.length → 𝕜,
        (∀ y, ∃ t, net.assemble (Array.ofFn y) = .ok t ∧ t.residual = List.ofFn (r y) ∧
          t.sources = s.sources) ∧
        HasFDerivAt r (ContinuousLinearMap.pi fun i => (s.rows.get i).row.form) x := by
  refine ⟨?_, ?_⟩
  · intro m es hes e he n x k
    exact hasDerivAt_residual_update (Kind.isProper_of_equations hes he) x k
  · intro net x s hs
    exact Network.exists_residual hs

/-! ### A square over the real numbers -/

noncomputable instance : Scalar ℝ where
  lt a b := decide (a < b)
  le a b := decide (a ≤ b)
  isZero x := decide (x = 0)
  isFinite _ := true
  abs x := |x|
  sqrt := Real.sqrt
  epsilon := 0
  ofInt? n := some n
  ofNumeral? n := n.toRat?.map (↑)
  truncate? x := some (if 0 ≤ x then ⌊x⌋ else ⌈x⌉)

/-- A product of one net with itself. -/
def FlatNode.square : FlatNode ℝ :=
  ⟨"m", "m", "", .product, [("top_ports", .list [.text "p", .text "q"]),
    ("bottom_ports", .list [.text "r"])], [(some "p", 0), (some "q", 0), (some "r", 1)]⟩

/-- The square and what it should be equal to. -/
def Network.square : Network ℝ :=
  ⟨[.square], [⟨0, [⟨"m", some "p"⟩, ⟨"m", some "q"⟩]⟩, ⟨5, [⟨"m", some "r"⟩]⟩]⟩

/-- Where the root is zero, the derivative of its square is zero. -/
theorem jacobian_is_derivative_square :
    FlatNode.square.equations = .ok [.equalProducts [0, 0] [1]] ∧
    HasDerivAt (fun t : ℝ => t * t - 5) 0 0 ∧
    ∃ s, Network.square.assemble (Array.ofFn ![0, 5]) = .ok s ∧
      s.jacobian.map (·.toList) = [[0, -1]] ∧
      ∃ r : (Fin 2 → ℝ) → Fin s.rows.length → ℝ,
        HasFDerivAt r (ContinuousLinearMap.pi fun i => (s.rows.get i).row.form) ![0, 5] := by
  have hequations : FlatNode.square.equations = .ok [.equalProducts [0, 0] [1]] := rfl
  have hrow : ∀ x : Nat → ℝ, x 0 = 0 →
      (Equation.equalProducts [0, 0] [1] : Equation ℝ).row 2 x = #v[0, -1] := by
    intro x hx
    simp [Equation.row, partials, productsBefore, productsAfter, Row.addAt, Row.subAt, Row.zero, hx]
    rfl
  refine ⟨hequations, ?_, ?_⟩
  · have hderiv := jacobian_is_derivative.1 FlatNode.square _ hequations _
      (List.mem_singleton_self _) 2 (fun i => if i = 0 then 0 else 5) 0
    rw [hrow _ rfl] at hderiv
    simpa [Equation.residual] using hderiv
  · have hassemble : Network.square.assemble (Array.ofFn ![0, 5]) =
        .ok ⟨[.ofEquation 2 (valuesIn (Array.ofFn ![0, 5])) ("m", .equalProducts [0, 0] [1])]⟩ := by
      refine Network.assemble_eq_ok.2 ⟨[("m", .equalProducts [0, 0] [1])], rfl, ?_, rfl⟩
      simp [Equation.Fits, Equation.nets, Network.square, Network.size]
    obtain ⟨r, -, hr⟩ := jacobian_is_derivative.2 Network.square ![0, 5] _ hassemble
    refine ⟨_, hassemble, ?_, r, hr⟩
    show [((Equation.equalProducts [0, 0] [1]).row 2 (valuesIn (Array.ofFn ![0, 5]))).toList] = _
    rw [hrow _ rfl]
    rfl

end NetBalance
