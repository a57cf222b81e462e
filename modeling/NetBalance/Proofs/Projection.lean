import NetBalance.Proofs.Elimination

/-! # Least squares over an ordered field

    Without rounding a column is alive as long as anything is left of it.  So
    the directions reach all columns, and what they leave of the right-hand
    side is orthogonal to each of them.  The rows of coefficients are
    independent, and a vector that meets the shares of all of them brings the
    columns as near to the right-hand side as possible: what is missing is
    orthogonal to the columns. -/

namespace NetBalance.LeastSquares

open Matrix

variable {K : Type} {m n : Nat}

/-! ### Shares -/

section Shares

variable [Field K]

theorem share_eq (q v : Vector K m) : share q v = (q.get ⬝ᵥ v.get) / (q.get ⬝ᵥ q.get) := by
  rw [share, Linear.dot_eq, Linear.dot_eq]

variable {q v : Vector K m}

theorem share_eq_zero (h : q.get ⬝ᵥ v.get = 0) : share q v = 0 := by
  rw [share_eq, h, zero_div]

/-- What is left of a vector beside a direction is orthogonal to it. -/
theorem dotProduct_sub_share [LinearOrder K] [IsStrictOrderedRing K] (hq : q.get ≠ 0) :
    q.get ⬝ᵥ (v.get - share q v • q.get) = 0 := by
  have hlength : q.get ⬝ᵥ q.get ≠ 0 := by
    rwa [Ne, dotProduct_self_eq_zero]
  rw [dotProduct_sub, dotProduct_smul, share_eq, smul_eq_mul, div_mul_cancel₀ _ hlength, sub_self]

end Shares

/-! ### Meeting all shares -/

section Shortest

variable [Field K]

/-- One more row beside orthogonal ones, and the vector that meets its share, too. -/
def takeIn (s : List (Vector K n) × Vector K n) (d : Direction K n) :
    List (Vector K n) × Vector K n :=
  let p := orthogonalTo s.1 d.coefficients
  (s.1 ++ [p], Linear.addScaled s.2 ((d.share - Linear.dot d.coefficients s.2) / Linear.dot p p) p)

theorem shortest_eq (ds : List (Direction K n)) :
    shortest ds = (ds.foldl takeIn ([], zeros K n)).2 := rfl

/-- The products with the rows of some directions are the shares in them. -/
def Meets (ds : List (Direction K n)) (x : Fin n → K) : Prop :=
  ∀ d ∈ ds, d.coefficients.get ⬝ᵥ x = d.share

/-- Each row has a product with a vector that those before it have none with. -/
def Fresh (ds : List (Direction K n)) : Prop :=
  ∀ before d, before ++ [d] <+: ds →
    ∃ w : Fin n → K, d.coefficients.get ⬝ᵥ w ≠ 0 ∧ ∀ e ∈ before, e.coefficients.get ⬝ᵥ w = 0

theorem fresh_nil : Fresh ([] : List (Direction K n)) := by
  intro before d h
  have hlength := h.length_le
  simp at hlength

/-- A row may come first if it alone has a coefficient at some index. -/
theorem Fresh.cons {ds : List (Direction K n)} (h : Fresh ds) {d : Direction K n} {j : Fin n}
    (hd : d.coefficients.get j = 1) (hds : ∀ e ∈ ds, e.coefficients.get j = 0) :
    Fresh (d :: ds) := by
  intro before e hprefix
  cases before with
  | nil =>
    obtain ⟨rfl, -⟩ := List.cons_prefix_cons.1 hprefix
    refine ⟨Pi.single j 1, ?_, by simp⟩
    rw [dotProduct_single, hd, mul_one]
    exact one_ne_zero
  | cons first before =>
    obtain ⟨rfl, hrest⟩ := List.cons_prefix_cons.1 hprefix
    obtain ⟨w, hw, hbefore⟩ := h before e hrest
    have hmem : ∀ f ∈ before ++ [e], f ∈ ds := fun f hf => hrest.subset hf
    rw [List.forall_mem_append, List.forall_mem_singleton] at hmem
    -- the vector loses its product with the first row at the index that is only there
    have hsame : ∀ f ∈ ds, f.coefficients.get ⬝ᵥ
        (w - (first.coefficients.get ⬝ᵥ w) • Pi.single j 1) = f.coefficients.get ⬝ᵥ w := by
      intro f hf
      rw [dotProduct_sub, dotProduct_smul, dotProduct_single, hds f hf, zero_mul, smul_zero, sub_zero]
    refine ⟨w - (first.coefficients.get ⬝ᵥ w) • Pi.single j 1, ?_, ?_⟩
    · rw [hsame e hmem.2]
      exact hw
    · rw [List.forall_mem_cons]
      constructor
      · rw [dotProduct_sub, dotProduct_smul, dotProduct_single, hd, mul_one, smul_eq_mul, mul_one,
          sub_self]
      · intro f hf
        rw [hsame f (hmem.1 f hf)]
        exact hbefore f hf

/-- Orthogonal rows that reach as far as those of some directions, and a vector that meets the
    shares in these. -/
structure Reaches (ds : List (Direction K n)) (s : List (Vector K n) × Vector K n) : Prop where
  orthogonal : s.1.Pairwise fun p q => p.get ⬝ᵥ q.get = 0
  nonzero : ∀ p ∈ s.1, p.get ≠ 0
  iff : ∀ v : Fin n → K, (∀ p ∈ s.1, p.get ⬝ᵥ v = 0) ↔ ∀ d ∈ ds, d.coefficients.get ⬝ᵥ v = 0
  meets : Meets ds s.2.get

/-- To a vector that is orthogonal to the earlier rows, a row stays what it was. -/
theorem orthogonalTo_dotProduct {earlier : List (Vector K n)} {v : Fin n → K}
    (h : ∀ p ∈ earlier, p.get ⬝ᵥ v = 0) (row : Vector K n) :
    (orthogonalTo earlier row).get ⬝ᵥ v = row.get ⬝ᵥ v := by
  rw [orthogonalTo]
  induction earlier generalizing row with
  | nil => rfl
  | cons p earlier ih =>
    rw [List.forall_mem_cons] at h
    rw [List.foldl_cons, ih h.2, Linear.get_subScaled, sub_dotProduct, smul_dotProduct, h.1,
      smul_zero, sub_zero]

variable [LinearOrder K] [IsStrictOrderedRing K]

/-- Beside orthogonal rows a row becomes orthogonal to them. -/
theorem dotProduct_orthogonalTo {earlier : List (Vector K n)}
    (hpairwise : earlier.Pairwise fun p q => p.get ⬝ᵥ q.get = 0)
    (hnonzero : ∀ p ∈ earlier, p.get ≠ 0) (row : Vector K n) {p : Vector K n} (hp : p ∈ earlier) :
    p.get ⬝ᵥ (orthogonalTo earlier row).get = 0 := by
  induction earlier generalizing row with
  | nil => cases hp
  | cons q earlier ih =>
    rw [List.pairwise_cons] at hpairwise
    rw [List.forall_mem_cons] at hnonzero
    rcases List.mem_cons.1 hp with rfl | hp
    · -- the rows that follow leave the product with this one as it is
      have hlater : ∀ r ∈ earlier, r.get ⬝ᵥ p.get = 0 := by
        intro r hr
        rw [dotProduct_comm]
        exact hpairwise.1 r hr
      rw [dotProduct_comm, orthogonalTo, List.foldl_cons]
      refine (orthogonalTo_dotProduct hlater _).trans ?_
      rw [Linear.get_subScaled, dotProduct_comm]
      exact dotProduct_sub_share hnonzero.1
    · exact ih hpairwise.2 hnonzero.2 _ hp

/-- One more direction. -/
theorem Reaches.takeIn {ds : List (Direction K n)} {s : List (Vector K n) × Vector K n}
    (h : Reaches ds s) {d : Direction K n}
    (hfresh : ∃ w : Fin n → K, d.coefficients.get ⬝ᵥ w ≠ 0 ∧
      ∀ e ∈ ds, e.coefficients.get ⬝ᵥ w = 0) : Reaches (ds ++ [d]) (takeIn s d) := by
  obtain ⟨rows, x⟩ := s
  have hbeside : ∀ q ∈ rows, q.get ⬝ᵥ (orthogonalTo rows d.coefficients).get = 0 :=
    fun q => dotProduct_orthogonalTo h.orthogonal h.nonzero d.coefficients
  have hproduct : ∀ v : Fin n → K, (∀ q ∈ rows, q.get ⬝ᵥ v = 0) →
      (orthogonalTo rows d.coefficients).get ⬝ᵥ v = d.coefficients.get ⬝ᵥ v :=
    fun v hv => orthogonalTo_dotProduct hv d.coefficients
  rw [LeastSquares.takeIn]
  generalize orthogonalTo rows d.coefficients = p at hbeside hproduct
  have hp : p.get ≠ 0 := by
    obtain ⟨w, hw, hbefore⟩ := hfresh
    rintro hzero
    rw [← hproduct w ((h.iff w).2 hbefore), hzero, zero_dotProduct] at hw
    exact hw rfl
  refine ⟨?_, ?_, ?_, ?_⟩
  · rw [List.pairwise_append]
    exact ⟨h.orthogonal, List.pairwise_singleton _ _, fun q hq r hr =>
      (List.mem_singleton.1 hr) ▸ hbeside q hq⟩
  · rw [List.forall_mem_append]
    exact ⟨h.nonzero, by simpa using hp⟩
  · intro v
    rw [List.forall_mem_append, List.forall_mem_append, ← h.iff v]
    simp only [List.forall_mem_singleton]
    refine and_congr_right fun hv => ?_
    rw [hproduct v hv]
  · have hlength : p.get ⬝ᵥ p.get ≠ 0 := by
      rwa [Ne, dotProduct_self_eq_zero]
    intro e he
    rw [Linear.get_addScaled, Linear.dot_eq, Linear.dot_eq, dotProduct_add, dotProduct_smul,
      smul_eq_mul]
    rcases List.mem_append.1 he with he | he
    · rw [(h.iff p.get).1 hbeside e he, mul_zero, add_zero]
      exact h.meets e he
    · rw [List.mem_singleton.1 he, ← hproduct p.get hbeside, div_mul_cancel₀ _ hlength]
      exact add_sub_cancel _ _

/-- All directions. -/
theorem meets_shortest {ds : List (Direction K n)} (h : Fresh ds) : Meets ds (shortest ds).get := by
  have hrun : Reaches ds (ds.foldl takeIn ([], zeros K n)) := by
    induction ds using List.reverseRecOn with
    | nil =>
      refine ⟨List.Pairwise.nil, ?_, ?_, ?_⟩
      · simp
      · simp
      · simp [Meets]
    | append_singleton ds d ih =>
      rw [List.foldl_append, List.foldl_cons, List.foldl_nil]
      refine (ih fun before e he => ?_).takeIn (h ds d List.prefix_rfl)
      exact h before e (he.trans (List.prefix_append ds [d]))
  rw [shortest_eq]
  exact hrun.meets

end Shortest

/-! ### Directions -/

/-- The columns are of different indices. -/
def Distinct (cs : List (Remaining K m n)) : Prop := (cs.map (·.index)).Nodup

theorem Distinct.index_ne {p : Remaining K m n} {cs : List (Remaining K m n)}
    (h : Distinct (p :: cs)) : ∀ c ∈ cs, c.index ≠ p.index := by
  intro c hc hindex
  exact (List.nodup_cons.1 h).1 (List.mem_map.2 ⟨c, hc, hindex⟩)

theorem Distinct.tail {p : Remaining K m n} {cs : List (Remaining K m n)}
    (h : Distinct (p :: cs)) : Distinct cs :=
  (List.nodup_cons.1 h).2

theorem Distinct.perm {cs cs' : List (Remaining K m n)} (h : Distinct cs) (hperm : cs.Perm cs') :
    Distinct cs' :=
  (hperm.map _).nodup_iff.1 h

theorem Distinct.perm_cons {cs : List (Remaining K m n)} (h : Distinct cs) {p : Remaining K m n}
    (hp : p ∈ cs) : cs.Perm (p :: cs.filter (·.index ≠ p.index)) := by
  induction cs with
  | nil => cases hp
  | cons c cs ih =>
    rcases List.mem_cons.1 hp with rfl | hp
    · -- no other column has its index
      have hothers : cs.filter (·.index ≠ p.index) = cs := by
        apply List.filter_eq_self.2
        intro d hd
        exact decide_eq_true (h.index_ne d hd)
      rw [List.filter_cons_of_neg (by simp), hothers]
    · have hne : c.index ≠ p.index := (h.index_ne p hp).symm
      rw [List.filter_cons_of_pos (by simpa using hne)]
      exact ((ih h.tail hp).cons c).trans (List.Perm.swap p c _)

section Directions

variable [Field K]

/-- The columns with the weights of a vector, added up. -/
def combine (y : Fin n → K) (cs : List (Remaining K m n)) : Fin m → K :=
  (cs.map fun c => y c.index • c.rest.get).sum

theorem combine_cons (y : Fin n → K) (c : Remaining K m n) (cs : List (Remaining K m n)) :
    combine y (c :: cs) = y c.index • c.rest.get + combine y cs := by
  rw [combine, List.map_cons, List.sum_cons, combine]

theorem combine_perm {cs cs' : List (Remaining K m n)} (h : cs.Perm cs') (y : Fin n → K) :
    combine y cs = combine y cs' :=
  (h.map _).sum_eq

/-- What a direction leaves of a column. -/
def Remaining.beside (q : Vector K m) (c : Remaining K m n) : Remaining K m n :=
  { c with rest := Linear.subScaled c.rest (share q c.rest) q }

theorem Remaining.rest_eq (q : Vector K m) (c : Remaining K m n) :
    c.rest.get = (c.beside q).rest.get + share q c.rest • q.get := by
  rw [Remaining.beside, Linear.get_subScaled, sub_add_cancel]

theorem Distinct.beside {cs : List (Remaining K m n)} (h : Distinct cs) (q : Vector K m) :
    Distinct (cs.map (Remaining.beside q)) := by
  rw [Distinct, List.map_map]
  exact h

/-- A vector with the share of a direction in a column at the index of this. -/
def setShare (q : Vector K m) (v : Vector K n) : Remaining K m n → Vector K n
  | ⟨j, _, rest⟩ => v.set j (share q rest) j.isLt

/-- The same for some columns. -/
def setShares (q : Vector K m) (cs : List (Remaining K m n)) (v : Vector K n) : Vector K n :=
  cs.foldl (setShare q) v

theorem get_setShare (q : Vector K m) (v : Vector K n) (c : Remaining K m n) (j : Fin n) :
    (setShare q v c).get j = if c.index = j then share q c.rest else v.get j :=
  Linear.get_set v c.index (share q c.rest) j

/-- The coefficients of a direction: one for the pivot, and the shares of the others. -/
def row (pivot : Remaining K m n) (others : List (Remaining K m n)) : Vector K n :=
  setShares pivot.rest others (Linear.unit pivot.index)

/-- An index that no column has is not reached. -/
theorem get_setShares {q : Vector K m} {cs : List (Remaining K m n)} {j : Fin n}
    (hj : ∀ c ∈ cs, c.index ≠ j) (v : Vector K n) : (setShares q cs v).get j = v.get j := by
  induction cs generalizing v with
  | nil => rfl
  | cons c cs ih =>
    rw [List.forall_mem_cons] at hj
    show (setShares q cs (setShare q v c)).get j = _
    rw [ih hj.2, get_setShare, if_neg hj.1]

theorem get_row_pivot {pivot : Remaining K m n} {others : List (Remaining K m n)}
    (h : ∀ c ∈ others, c.index ≠ pivot.index) : (row pivot others).get pivot.index = 1 := by
  rw [row, get_setShares h, Linear.unit, Linear.get_ofFn, if_pos rfl]

theorem get_row_of_ne {pivot : Remaining K m n} {others : List (Remaining K m n)} {j : Fin n}
    (h : ∀ c ∈ others, c.index ≠ j) (hpivot : pivot.index ≠ j) : (row pivot others).get j = 0 := by
  rw [row, get_setShares h, Linear.unit, Linear.get_ofFn, if_neg hpivot.symm]

/-- Setting an entry that was zero adds to a product. -/
theorem setShare_dotProduct {q : Vector K m} {v : Vector K n} {c : Remaining K m n}
    (hv : v.get c.index = 0) (y : Fin n → K) :
    (setShare q v c).get ⬝ᵥ y = v.get ⬝ᵥ y + share q c.rest * y c.index := by
  have hset : (setShare q v c).get = v.get + Pi.single c.index (share q c.rest) := by
    funext i
    rw [get_setShare, Pi.add_apply, Pi.single_apply]
    by_cases hi : i = c.index
    · rw [hi, if_pos rfl, if_pos rfl, hv, zero_add]
    · rw [if_neg (Ne.symm hi), if_neg hi, add_zero]
  rw [hset, add_dotProduct, single_dotProduct]

theorem setShares_dotProduct {q : Vector K m} {cs : List (Remaining K m n)}
    (hdistinct : Distinct cs) {v : Vector K n} (hv : ∀ c ∈ cs, v.get c.index = 0) (y : Fin n → K) :
    (setShares q cs v).get ⬝ᵥ y =
      v.get ⬝ᵥ y + (cs.map fun c => share q c.rest * y c.index).sum := by
  induction cs generalizing v with
  | nil => simp [setShares]
  | cons c cs ih =>
    rw [List.forall_mem_cons] at hv
    have hrest : ∀ d ∈ cs, (setShare q v c).get d.index = 0 := by
      intro d hd
      rw [get_setShare, if_neg (hdistinct.index_ne d hd).symm]
      exact hv.2 d hd
    show (setShares q cs (setShare q v c)).get ⬝ᵥ y = _
    rw [ih hdistinct.tail hrest, setShare_dotProduct hv.1, List.map_cons, List.sum_cons, add_assoc]

/-- Columns are what a direction leaves of them, and the direction as often as its row says. -/
theorem combine_pivot {pivot : Remaining K m n} {others : List (Remaining K m n)}
    (hdistinct : Distinct (pivot :: others)) (y : Fin n → K) :
    combine y (pivot :: others) =
      combine y (others.map (Remaining.beside pivot.rest)) +
        ((row pivot others).get ⬝ᵥ y) • pivot.rest.get := by
  have hunit : ∀ c ∈ others, (Linear.unit pivot.index : Vector K n).get c.index = 0 := by
    intro c hc
    rw [Linear.unit, Linear.get_ofFn, if_neg (hdistinct.index_ne c hc)]
  have hone : (Linear.unit pivot.index : Vector K n).get ⬝ᵥ y = y pivot.index := by
    have hsingle : (Linear.unit pivot.index : Vector K n).get = Pi.single pivot.index 1 := by
      funext i
      rw [Linear.unit, Linear.get_ofFn, Pi.single_apply]
    rw [hsingle, single_dotProduct, one_mul]
  have hsum : ∀ cs : List (Remaining K m n), combine y cs =
      combine y (cs.map (Remaining.beside pivot.rest)) +
        (cs.map fun c => share pivot.rest c.rest * y c.index).sum • pivot.rest.get := by
    intro cs
    induction cs with
    | nil => simp [combine]
    | cons c cs ih =>
      rw [List.map_cons, combine_cons, combine_cons, ih, List.map_cons, List.sum_cons, add_smul,
        Remaining.rest_eq pivot.rest c, smul_add, smul_smul, mul_comm (y c.index)]
      show y c.index • (c.beside pivot.rest).rest.get + _ + _ =
        y c.index • (c.beside pivot.rest).rest.get + _ + _
      abel
  rw [combine_cons, hsum others, row, setShares_dotProduct hdistinct.tail hunit, hone, add_smul]
  abel

/-- What is orthogonal to all columns is orthogonal to what they add up to. -/
theorem dotProduct_combine {v : Fin m → K} {cs : List (Remaining K m n)}
    (h : ∀ c ∈ cs, v ⬝ᵥ c.rest.get = 0) (y : Fin n → K) : v ⬝ᵥ combine y cs = 0 := by
  induction cs with
  | nil => simp [combine]
  | cons c cs ih =>
    rw [List.forall_mem_cons] at h
    rw [combine_cons, dotProduct_add, dotProduct_smul, h.1, smul_zero, zero_add]
    exact ih h.2

theorem combine_append (y : Fin n → K) (cs ds : List (Remaining K m n)) :
    combine y (cs ++ ds) = combine y cs + combine y ds := by
  rw [combine, List.map_append, List.sum_append, combine, combine]

theorem combine_eq_zero {cs : List (Remaining K m n)} (h : ∀ c ∈ cs, c.rest.get = 0)
    (y : Fin n → K) : combine y cs = 0 := by
  apply List.sum_eq_zero
  intro v hv
  obtain ⟨c, hc, rfl⟩ := List.mem_map.1 hv
  rw [h c hc, smul_zero]

end Directions

/-! ### One direction -/

section Pivot

theorem mem_of_longestOf [Add K] [Mul K] [Zero K] [Scalar K] {cs : List (Remaining K m n)}
    {pivot : Remaining K m n} (h : longestOf cs = some pivot) : pivot ∈ cs := by
  cases cs with
  | nil => cases h
  | cons c cs =>
    obtain rfl := Option.some.inj h
    -- the longest so far is one of those seen
    apply List.foldlRecOn (motive := fun best => best ∈ c :: cs) cs
    · exact List.mem_cons_self
    · intro best hbest d hd
      split
      · exact List.mem_cons_of_mem c hd
      · exact hbest

theorem eq_nil_of_longestOf [Add K] [Mul K] [Zero K] [Scalar K] {cs : List (Remaining K m n)}
    (h : longestOf cs = none) : cs = [] := by
  cases cs with
  | nil => rfl
  | cons c cs => cases h

variable [Field K] [LinearOrder K] [IsStrictOrderedRing K] [Scalar K] {longest : K}

/-- Without rounding a column is alive as long as anything is left of it. -/
theorem isAlive_iff (hK : Scalar.IsUnrounded K) (c : Remaining K m n) :
    c.isAlive longest ↔ c.rest.get ≠ 0 := by
  have hlength : 0 < c.rest.get ⬝ᵥ c.rest.get ↔ c.rest.get ≠ 0 := by
    have hnonneg : 0 ≤ c.rest.get ⬝ᵥ c.rest.get := Finset.sum_nonneg fun i _ => mul_self_nonneg _
    rw [hnonneg.lt_iff_ne', Ne, dotProduct_self_eq_zero]
  simp only [Remaining.isAlive, squaredLength, noise, hK.epsilon_eq, mul_zero, zero_mul,
    Bool.and_eq_true, hK.lt_iff, and_self]
  rw [Linear.dot_eq, hlength]

/-- Columns of which nothing is left, one of the others, and the rest of them. -/
structure Splits (cs : List (Remaining K m n)) (pivot : Remaining K m n)
    (others dead : List (Remaining K m n)) : Prop where
  perm : cs.Perm (dead ++ pivot :: others)
  dead : ∀ c ∈ dead, c.rest.get = 0
  nonzero : pivot.rest.get ≠ 0
  distinct : Distinct (pivot :: others)

/-- Either nothing is left of any column, or a direction is taken out of those that are alive. -/
theorem directions_succ (hK : Scalar.IsUnrounded K) (budget : Nat) {cs : List (Remaining K m n)}
    (hdistinct : Distinct cs) (b : Vector K m) :
    ((∀ c ∈ cs, c.rest.get = 0) ∧ directions longest (budget + 1) cs b = []) ∨
    ∃ pivot others dead, Splits cs pivot others dead ∧ directions longest (budget + 1) cs b =
      ⟨row pivot others, share pivot.rest b⟩ ::
        directions longest budget (others.map (Remaining.beside pivot.rest))
          (Linear.subScaled b (share pivot.rest b) pivot.rest) := by
  rw [directions]
  have hsplit := (List.filter_append_perm (Remaining.isAlive longest) cs).symm.trans
    List.perm_append_comm
  have hdead : ∀ c ∈ cs.filter (!Remaining.isAlive longest ·), c.rest.get = 0 := by
    intro c hc
    have hc := (List.mem_filter.1 hc).2
    rw [Bool.not_eq_true', ← Bool.not_eq_true, isAlive_iff hK, not_not] at hc
    exact hc
  cases hpivot : longestOf (cs.filter (Remaining.isAlive longest)) with
  | none =>
    left
    rw [eq_nil_of_longestOf hpivot, List.append_nil] at hsplit
    refine ⟨?_, by simp only⟩
    intro c hc
    exact hdead c (hsplit.mem_iff.1 hc)
  | some pivot =>
    right
    have hmem := mem_of_longestOf hpivot
    have halive : Distinct (cs.filter (Remaining.isAlive longest)) :=
      hdistinct.sublist (List.filter_sublist.map _)
    have hperm := halive.perm_cons hmem
    have hnonzero : pivot.rest.get ≠ 0 := (isAlive_iff hK pivot).1 (List.mem_filter.1 hmem).2
    exact ⟨pivot, _, _, ⟨hsplit.trans (hperm.append_left _), hdead, hnonzero, halive.perm hperm⟩,
      rfl⟩

variable {cs others dead : List (Remaining K m n)} {pivot : Remaining K m n}
  (h : Splits cs pivot others dead)
include h

omit [LinearOrder K] [IsStrictOrderedRing K] [Scalar K] in
theorem Splits.length_le {budget : Nat} (hbudget : cs.length ≤ budget + 1) :
    (others.map (Remaining.beside pivot.rest)).length ≤ budget := by
  have hlength := h.perm.length_eq
  rw [List.length_append, List.length_cons] at hlength
  rw [List.length_map]
  omega

omit [LinearOrder K] [IsStrictOrderedRing K] [Scalar K] in
/-- A property of all columns is one of those that are taken, and of those that are left. -/
theorem Splits.forall_mem {p : Remaining K m n → Prop} (hall : ∀ c ∈ cs, p c) :
    p pivot ∧ ∀ c ∈ others, p c := by
  have hall' : ∀ c ∈ dead ++ pivot :: others, p c := fun c hc => hall c (h.perm.mem_iff.2 hc)
  rw [List.forall_mem_append, List.forall_mem_cons] at hall'
  exact hall'.2

omit [Scalar K] in
/-- What a direction leaves of the columns is orthogonal to it. -/
theorem Splits.dotProduct_beside (c : Remaining K m n) :
    pivot.rest.get ⬝ᵥ (c.beside pivot.rest).rest.get = 0 := by
  rw [Remaining.beside, Linear.get_subScaled]
  exact dotProduct_sub_share h.nonzero

omit [LinearOrder K] [IsStrictOrderedRing K] [Scalar K] in
theorem Splits.combine_eq (y : Fin n → K) : combine y cs =
    combine y (others.map (Remaining.beside pivot.rest)) +
      ((row pivot others).get ⬝ᵥ y) • pivot.rest.get := by
  rw [combine_perm h.perm, combine_append, combine_eq_zero h.dead, zero_add,
    combine_pivot h.distinct]

end Pivot

/-! ### All directions -/

section Normal

variable [Field K] [LinearOrder K] [IsStrictOrderedRing K] [Scalar K] {longest : K} {budget : Nat}
  {cs : List (Remaining K m n)} {b : Vector K m}

/-- Where all shares are met, what is missing is orthogonal to the columns. -/
theorem normal_directions (hK : Scalar.IsUnrounded K) (hdistinct : Distinct cs)
    (hbudget : cs.length ≤ budget) {y : Fin n → K} (hy : Meets (directions longest budget cs b) y) :
    ∀ c ∈ cs, c.rest.get ⬝ᵥ (b.get - combine y cs) = 0 := by
  induction budget generalizing cs b with
  | zero =>
    rw [List.length_eq_zero_iff.1 (Nat.le_zero.1 hbudget)]
    simp
  | succ budget ih =>
    rcases directions_succ hK budget hdistinct b with ⟨hdead, -⟩ |
      ⟨pivot, others, dead, hsplits, hdirections⟩
    · intro c hc
      rw [hdead c hc, zero_dotProduct]
    · rw [hdirections, Meets, List.forall_mem_cons] at hy
      obtain ⟨hshare, hy⟩ := hy
      have hrest := ih (hsplits.distinct.tail.beside pivot.rest) (hsplits.length_le hbudget) hy
      -- what is missing of the right-hand side is what is missing behind the direction
      have hmissing : b.get - combine y cs =
          b.get - share pivot.rest b • pivot.rest.get -
            combine y (others.map (Remaining.beside pivot.rest)) := by
        rw [hsplits.combine_eq, hshare]
        abel
      rw [Linear.get_subScaled, ← hmissing, List.forall_mem_map] at hrest
      have hpivot : pivot.rest.get ⬝ᵥ (b.get - combine y cs) = 0 := by
        have hcombine : pivot.rest.get ⬝ᵥ combine y (others.map (Remaining.beside pivot.rest)) =
            0 := by
          apply dotProduct_combine
          rw [List.forall_mem_map]
          exact fun c _ => hsplits.dotProduct_beside c
        rw [hmissing, dotProduct_sub, hcombine, dotProduct_sub_share hsplits.nonzero, sub_zero]
      intro c hc
      rcases List.mem_append.1 (hsplits.perm.mem_iff.1 hc) with hc | hc
      · rw [hsplits.dead c hc, zero_dotProduct]
      · rcases List.mem_cons.1 hc with rfl | hc
        · exact hpivot
        · rw [Remaining.rest_eq pivot.rest c, add_dotProduct, smul_dotProduct, hpivot, hrest c hc,
            smul_zero, add_zero]

/-- The rows have no coefficients beside the columns. -/
theorem get_directions (hK : Scalar.IsUnrounded K) (hdistinct : Distinct cs) {j : Fin n}
    (hj : ∀ c ∈ cs, c.index ≠ j) :
    ∀ d ∈ directions longest budget cs b, d.coefficients.get j = 0 := by
  induction budget generalizing cs b with
  | zero => simp [directions]
  | succ budget ih =>
    rcases directions_succ hK budget hdistinct b with ⟨-, hdirections⟩ |
      ⟨pivot, others, dead, hsplits, hdirections⟩
    · rw [hdirections]
      simp
    · obtain ⟨hpivot, hothers⟩ := hsplits.forall_mem hj
      rw [hdirections, List.forall_mem_cons]
      refine ⟨get_row_of_ne hothers hpivot, ih (hsplits.distinct.tail.beside pivot.rest) ?_⟩
      rw [List.forall_mem_map]
      exact hothers

/-- The rows are independent: the pivot of a direction is in none of the rows that follow. -/
theorem fresh_directions (hK : Scalar.IsUnrounded K) (hdistinct : Distinct cs) :
    Fresh (directions longest budget cs b) := by
  induction budget generalizing cs b with
  | zero => exact fresh_nil
  | succ budget ih =>
    rcases directions_succ hK budget hdistinct b with ⟨-, hdirections⟩ |
      ⟨pivot, others, dead, hsplits, hdirections⟩
    · rw [hdirections]
      exact fresh_nil
    · have hdistinct' := hsplits.distinct.tail.beside pivot.rest
      rw [hdirections]
      apply (ih hdistinct').cons (get_row_pivot hsplits.distinct.index_ne)
      apply get_directions hK hdistinct'
      rw [List.forall_mem_map]
      exact hsplits.distinct.index_ne

/-- What is orthogonal to all columns has no share in any direction. -/
theorem share_directions_eq_zero (hK : Scalar.IsUnrounded K) (hdistinct : Distinct cs)
    (hb : ∀ c ∈ cs, c.rest.get ⬝ᵥ b.get = 0) :
    ∀ d ∈ directions longest budget cs b, d.share = 0 := by
  induction budget generalizing cs with
  | zero => simp [directions]
  | succ budget ih =>
    rcases directions_succ hK budget hdistinct b with ⟨-, hdirections⟩ |
      ⟨pivot, others, dead, hsplits, hdirections⟩
    · rw [hdirections]
      simp
    · obtain ⟨hpivot, hothers⟩ := hsplits.forall_mem hb
      have hshare := share_eq_zero hpivot
      rw [hdirections, List.forall_mem_cons, hshare, subScaled_zeros]
      refine ⟨rfl, ih (hsplits.distinct.tail.beside pivot.rest) ?_⟩
      rw [List.forall_mem_map]
      intro c hc
      rw [Remaining.beside, Linear.get_subScaled, sub_dotProduct, smul_dotProduct, hpivot,
        hothers c hc, smul_zero, sub_zero]

end Normal

/-! ### Solutions -/

section Solve

variable [Field K] [LinearOrder K] [IsStrictOrderedRing K] [Scalar K] {a : RowMatrix K m n}

omit [IsStrictOrderedRing K] in
theorem abs_le_largest (hK : Scalar.IsUnrounded K) {xs : List K} {x : K} (hx : x ∈ xs) :
    |x| ≤ largest xs := by
  induction xs using List.reverseRecOn with
  | nil => cases hx
  | append_singleton xs y ih =>
    rw [largest, List.foldl_append, List.foldl_cons, List.foldl_nil]
    show |x| ≤ if Scalar.lt (largest xs) (Scalar.abs y) then Scalar.abs y else largest xs
    have hlt := hK.lt_iff (largest xs) (Scalar.abs y)
    rw [hK.abs_eq] at hlt ⊢
    rcases List.mem_append.1 hx with hx | hx
    · have hle := ih hx
      split
      · next h => exact hle.trans (hlt.1 h).le
      · exact hle
    · rw [List.mem_singleton.1 hx]
      split
      · exact le_rfl
      · next h =>
        rw [hlt, not_lt] at h
        exact h

/-- A matrix whose largest entry is zero is zero. -/
theorem entry_eq_zero (hK : Scalar.IsUnrounded K)
    (h : largest (a.toList.flatMap Vector.toList) = 0) (i : Fin m) (j : Fin n) :
    a.entry i j = 0 := by
  have hmem : a.entry i j ∈ a.toList.flatMap Vector.toList := by
    rw [List.mem_flatMap]
    refine ⟨a.get i, ?_, ?_⟩
    · rw [Vector.mem_toList_iff]
      exact Vector.getElem_mem i.isLt
    · rw [Vector.mem_toList_iff]
      exact Vector.getElem_mem j.isLt
  have hle := abs_le_largest hK hmem
  rw [h] at hle
  exact abs_eq_zero.1 (le_antisymm hle (abs_nonneg _))

/-- The columns of a matrix before anything is taken out of them. -/
def scaled (a : RowMatrix K m n) (scale : K) : List (Remaining K m n) :=
  (List.finRange n).map fun j =>
    let c := (a.column j).map (· / scale)
    ⟨j, squaredLength c, c⟩

omit [LinearOrder K] [IsStrictOrderedRing K] [Scalar K] in
theorem distinct_scaled (a : RowMatrix K m n) (scale : K) : Distinct (scaled a scale) := by
  rw [Distinct, scaled, List.map_map]
  show ((List.finRange n).map id).Nodup
  rw [List.map_id]
  exact List.nodup_finRange n

omit [LinearOrder K] [IsStrictOrderedRing K] [Scalar K] in
theorem forall_mem_scaled {scale : K} {p : (Fin m → K) → Prop} :
    (∀ c ∈ scaled a scale, p c.rest.get) ↔ ∀ j, p (scale⁻¹ • (a.toMatrix)ᵀ j) := by
  have hcolumn : ∀ j, ((a.column j).map (· / scale)).get = scale⁻¹ • (a.toMatrix)ᵀ j := by
    intro j
    funext i
    rw [Linear.get_map, RowMatrix.column, Linear.get_ofFn, div_eq_inv_mul]
    rfl
  simp only [scaled, List.forall_mem_map, List.mem_finRange, true_imp_iff, hcolumn]

omit [LinearOrder K] [IsStrictOrderedRing K] [Scalar K] in
theorem combine_scaled (scale : K) (y : Fin n → K) :
    combine y (scaled a scale) = a.toMatrix *ᵥ fun j => y j / scale := by
  funext i
  rw [combine, scaled, List.map_map, ← Fin.sum_univ_def, Finset.sum_apply]
  apply Finset.sum_congr rfl
  intro j _
  show y j * ((a.column j).map (· / scale)).get i = a.entry i j * (y j / scale)
  rw [Linear.get_map, RowMatrix.column, Linear.get_ofFn]
  ring

/-- The zero matrix has the solution zero; any other one is scaled first. -/
theorem solve_cases (hK : Scalar.IsUnrounded K) (a : RowMatrix K m n) (b : Vector K m) :
    (a.toMatrix = 0 ∧ solve a b = zeros K n) ∨ ∃ scale longest : K, scale ≠ 0 ∧
      solve a b = (shortest (directions longest n (scaled a scale) b)).map (· / scale) := by
  rw [solve]
  simp only
  split
  · next hzero =>
    rw [hK.isZero_iff] at hzero
    left
    refine ⟨?_, rfl⟩
    ext i j
    exact entry_eq_zero hK hzero i j
  · next hzero =>
    rw [hK.isZero_iff] at hzero
    exact Or.inr ⟨_, _, hzero, rfl⟩

/-- What the solution leaves of the right-hand side is orthogonal to the columns. -/
theorem transpose_mulVec_solve (hK : Scalar.IsUnrounded K) (a : RowMatrix K m n) (b : Vector K m) :
    (a.toMatrix)ᵀ *ᵥ (b.get - a.toMatrix *ᵥ (solve a b).get) = 0 := by
  rcases solve_cases hK a b with ⟨hzero, -⟩ | ⟨scale, longest, hscale, hsolve⟩
  · rw [hzero, transpose_zero, zero_mulVec]
  · have hlength : (scaled a scale).length ≤ n := by
      rw [scaled, List.length_map, List.length_finRange]
    have hmeets : Meets (directions longest n (scaled a scale) b) _ :=
      meets_shortest (fresh_directions hK (distinct_scaled a scale))
    have hnormal := normal_directions hK (distinct_scaled a scale) hlength hmeets
    rw [combine_scaled, forall_mem_scaled (p := fun c => c ⬝ᵥ _ = 0)] at hnormal
    have hget : (solve a b).get = fun j =>
        (shortest (directions longest n (scaled a scale) b)).get j / scale := by
      funext j
      rw [hsolve, Linear.get_map]
    funext j
    have hj := hnormal j
    rw [smul_dotProduct, smul_eq_mul, mul_eq_zero, inv_eq_zero, ← hget] at hj
    exact hj.resolve_left hscale

/-- A right-hand side that is orthogonal to the columns has the solution zero. -/
theorem solve_eq_zeros (hK : Scalar.IsUnrounded K) {b : Vector K m}
    (h : (a.toMatrix)ᵀ *ᵥ b.get = 0) : solve a b = zeros K n := by
  rcases solve_cases hK a b with ⟨-, hsolve⟩ | ⟨scale, longest, -, hsolve⟩
  · exact hsolve
  · have hcolumns : ∀ c ∈ scaled a scale, c.rest.get ⬝ᵥ b.get = 0 := by
      rw [forall_mem_scaled (p := fun c => c ⬝ᵥ b.get = 0)]
      intro j
      have hj : (a.toMatrix)ᵀ j ⬝ᵥ b.get = 0 := congrFun h j
      rw [smul_dotProduct, hj, smul_zero]
    have hshares : ∀ d ∈ directions longest n (scaled a scale) b, d.share = 0 :=
      share_directions_eq_zero hK (distinct_scaled a scale) hcolumns
    rw [hsolve, shortest_eq_zeros hshares]
    ext j hj
    simp [zeros]

end Solve

end NetBalance.LeastSquares

/-! ### Operators -/

namespace NetBalance.LinearOperator

open Matrix

variable {K : Type} [Field K] [LinearOrder K] [IsStrictOrderedRing K] [Scalar K] {m n : Nat}
  {a : RowMatrix K m n} {tolerance : K} {allowLeastSquares : Bool} {op : LinearOperator K m n}
  {b : Vector K m} {x : Vector K n} (hK : Scalar.IsUnrounded K)
  (hop : ofMatrix a tolerance allowLeastSquares = .ok op) (hx : op.solve b = .ok x)

include hop hx in
omit [LinearOrder K] [IsStrictOrderedRing K] in
theorem eq_leastSquares (hshape : m ≠ n) : x = LeastSquares.solve a b := by
  rw [ofMatrix, dif_neg hshape] at hop
  split at hop
  · obtain rfl := Except.ok.inj hop
    rw [solve] at hx
    split at hx
    · cases hx
    · split at hx
      · exact (Except.ok.inj hx).symm
      · cases hx
  · cases hop

include hK hop hx

/-- What the solution leaves of the right-hand side is orthogonal to the columns, whatever the shape
    of the matrix is. -/
theorem transpose_mulVec_solve : (a.toMatrix)ᵀ *ᵥ (b.get - a.toMatrix *ᵥ x.get) = 0 := by
  by_cases hsquare : m = n
  · rw [(mulVec_solve hK hsquare hop hx).1, sub_self, mulVec_zero]
  · rw [eq_leastSquares hop hx hsquare]
    exact LeastSquares.transpose_mulVec_solve hK a b

/-- A right-hand side that is orthogonal to the columns has the solution zero. -/
theorem solve_eq_zeros (hb : (a.toMatrix)ᵀ *ᵥ b.get = 0) : x = zeros K n := by
  by_cases hsquare : m = n
  · obtain ⟨hsolves, hunique⟩ := mulVec_solve hK hsquare hop hx
    -- the right-hand side is made of the columns and orthogonal to them
    have hlength : b.get ⬝ᵥ b.get = 0 := by
      nth_rewrite 1 [← hsolves]
      rw [dotProduct_comm, dotProduct_mulVec, ← mulVec_transpose, hb, zero_dotProduct]
    rw [dotProduct_self_eq_zero] at hlength
    apply Linear.get_injective
    rw [← hunique 0 (by rw [mulVec_zero, hlength])]
    exact (funext get_zeros).symm
  · rw [eq_leastSquares hop hx hsquare]
    exact LeastSquares.solve_eq_zeros hK hb

end NetBalance.LinearOperator
