import NetBalance.Proofs.Allocation
import Mathlib.Data.List.Perm.Basic

/-! # The values that nets start from

    A net starts from the mean of what the sources among its ports propose.
    Over numbers that are added exactly the order of the ports does not matter,
    so that the lanes of a long sum give the plain sum. -/

namespace NetBalance

variable {K : Type}

/-! ### Exact sums -/

/-- Sums can be regrouped and reordered, and zero adds nothing. -/
structure AddsExactly (K : Type) [Add K] [Zero K] : Prop where
  assoc : ∀ a b c : K, a + b + c = a + (b + c)
  comm : ∀ a b : K, a + b = b + a
  zero_add : ∀ a : K, 0 + a = a

namespace AddsExactly

variable [Add K] [Zero K] (hK : AddsExactly K)
include hK

theorem foldl_add (a : K) (xs : List K) : xs.foldl (· + ·) a = a + sumLeft xs := by
  induction xs generalizing a with
  | nil => rw [sumLeft, List.foldl_nil, List.foldl_nil, hK.comm, hK.zero_add]
  | cons x xs ih => rw [sumLeft, List.foldl_cons, List.foldl_cons, ih, ih, hK.zero_add, hK.assoc]

theorem sumLeft_cons (x : K) (xs : List K) : sumLeft (x :: xs) = x + sumLeft xs := by
  rw [sumLeft, List.foldl_cons, hK.foldl_add, hK.zero_add]

theorem sumLeft_append (xs ys : List K) : sumLeft (xs ++ ys) = sumLeft xs + sumLeft ys := by
  rw [sumLeft, List.foldl_append, hK.foldl_add]
  rfl

theorem sumLeft_perm {xs ys : List K} (h : xs.Perm ys) : sumLeft xs = sumLeft ys := by
  induction h with
  | nil => rfl
  | cons x _ ih => rw [hK.sumLeft_cons, hK.sumLeft_cons, ih]
  | swap x y xs =>
    rw [hK.sumLeft_cons, hK.sumLeft_cons, hK.sumLeft_cons, hK.sumLeft_cons, ← hK.assoc,
      ← hK.assoc, hK.comm y x]
  | trans _ _ ih ih' => exact ih.trans ih'

theorem sumLeft_zipWith {xs ys : List K} (h : xs.length = ys.length) :
    sumLeft (List.zipWith (· + ·) xs ys) = sumLeft xs + sumLeft ys := by
  induction xs generalizing ys with
  | nil =>
    obtain rfl : ys = [] := List.length_eq_zero_iff.1 h.symm
    exact (hK.zero_add 0).symm
  | cons x xs ih =>
    cases ys with
    | nil => simp at h
    | cons y ys =>
      have hlen : xs.length = ys.length := by simpa using h
      -- the two heads are added first, then moved in front of their own rows
      calc sumLeft (List.zipWith (· + ·) (x :: xs) (y :: ys))
          = x + y + (sumLeft xs + sumLeft ys) := by
            rw [List.zipWith_cons_cons, hK.sumLeft_cons, ih hlen]
        _ = x + (sumLeft xs + (y + sumLeft ys)) := by
            rw [hK.assoc, ← hK.assoc y, hK.comm y, hK.assoc]
        _ = sumLeft (x :: xs) + sumLeft (y :: ys) := by
            rw [hK.sumLeft_cons, hK.sumLeft_cons, hK.assoc]

/-- Adding a row to lanes moves its sum into them, but for what is left over. -/
theorem sumLeft_addLanes (lanes xs : List K) :
    sumLeft (addLanes lanes xs).1 + sumLeft (addLanes lanes xs).2 =
      sumLeft lanes + sumLeft xs := by
  induction lanes, xs using addLanes.induct with
  | case1 lanes xs h ih =>
    have hlen : lanes.length = (xs.take lanes.length).length := by
      rw [List.length_take]
      omega
    rw [addLanes, dif_pos h, ih, hK.sumLeft_zipWith hlen, hK.assoc, ← hK.sumLeft_append,
      List.take_append_drop]
  | case2 lanes xs h => rw [addLanes, dif_neg h]

theorem sumLeft_sumPairs (xs : List K) : sumLeft (sumPairs xs) = sumLeft xs := by
  induction xs using sumPairs.induct with
  | case1 a b rest ih =>
    rw [sumPairs, hK.sumLeft_cons, ih, hK.sumLeft_cons, hK.sumLeft_cons, hK.assoc]
  | case2 xs h => rw [sumPairs]; exact h

theorem sumLanes_eq (xs : List K) : sumLanes xs = sumLeft xs := by
  show (addLanes (xs.take 8) (xs.drop 8)).2.foldl (· + ·)
    (sumLeft (sumPairs (sumPairs (sumPairs (addLanes (xs.take 8) (xs.drop 8)).1)))) = sumLeft xs
  rw [hK.foldl_add, hK.sumLeft_sumPairs, hK.sumLeft_sumPairs, hK.sumLeft_sumPairs,
    hK.sumLeft_addLanes, ← hK.sumLeft_append, List.take_append_drop]

/-- However a row is added up, the result is its plain sum. -/
theorem sum_eq (xs : List K) : sum xs = sumLeft xs := by
  -- the cases are a short row, a row cut into halves and one that is added lane by lane
  induction xs using sum.induct with
  | case1 xs h => rw [sum, if_pos h]
  | case2 xs h hlong half ih ih' =>
    rw [sum, if_neg h, dif_pos hlong]
    show sum (xs.take half) + sum (xs.drop half) = sumLeft xs
    rw [ih, ih', ← hK.sumLeft_append, List.take_append_drop]
  | case3 xs h hshort => rw [sum, if_neg h, dif_neg hshort, hK.sumLanes_eq]

theorem mean?_perm [Div K] [One K] [Scalar K] {xs ys : List K} (h : xs.Perm ys) :
    mean? xs = mean? ys := by
  -- a mean is a sum and a length, and neither depends on the order
  rw [mean?, mean?, hK.sum_eq, hK.sum_eq, hK.sumLeft_perm h, h.length_eq, h.isEmpty_eq]

end AddsExactly

/-! ### Seeds -/

namespace Topology

variable [Add K] [Div K] [Zero K] [One K] [Scalar K] {t t' : Topology K} {default value : K}
  {ms ms' : List Port}

/-- What a source proposes for a port, as far as it can be read. -/
def proposed (t : Topology K) (p : Port) : Option K := (t.proposal p).toOption.join

omit [Add K] [Div K] [Zero K] [One K] [Scalar K] in
theorem node?_eq_some_iff (h : (t.nodes.map (·.id)).Nodup) {id : String} {n : FlatNode K} :
    t.node? id = some n ↔ n ∈ t.nodes ∧ n.id = id :=
  find?_key_eq_some_iff h

omit [Add K] [Div K] in
/-- Only sources propose anything. -/
theorem proposal_eq_none {n : FlatNode K} {p : Port} (hn : t.node? p.node = some n)
    (hkind : n.kind ≠ .source) : t.proposal p = .ok none := by
  rw [proposal, hn]
  cases hk : n.kind with
  | source => exact absurd hk hkind
  | sum => simp [Kind.initialValues, hk, Except.map]
  | product => simp [Kind.initialValues, hk, Except.map]
  | reference => simp [Kind.initialValues, hk, Except.map]

omit [Add K] [Div K] in
theorem proposed_of_ok {p : Port} {o : Option K} (h : t.proposal p = .ok o) : t.proposed p = o := by
  simp [proposed, h, Except.toOption]

/-- A net has a seed exactly when all proposals can be read; the seed is their mean. -/
theorem seed_eq_ok :
    t.seed ms default = .ok value ↔ (∀ p ∈ ms, ∃ o, t.proposal p = .ok o) ∧
      value = (mean? (ms.filterMap t.proposed)).getD default := by
  -- proposals that can be read are those that `proposed` lists
  have hmap : (∀ p ∈ ms, ∃ o, t.proposal p = .ok o) →
      ms.map t.proposal = (ms.map t.proposed).map .ok := by
    intro hread
    rw [List.map_map]
    refine List.map_congr_left fun p hp => ?_
    obtain ⟨o, ho⟩ := hread p hp
    rw [Function.comp_apply, proposed_of_ok ho, ho]
  rw [seed, bind_eq_ok]
  constructor
  · intro h
    obtain ⟨props, hprops, hvalue⟩ := h
    rw [mapM_eq_ok] at hprops
    have hread : ∀ p ∈ ms, ∃ o, t.proposal p = .ok o := exists_map_eq_ok.1 ⟨props, hprops⟩
    obtain rfl : props = ms.map t.proposed :=
      List.map_injective_iff.2 (fun _ _ => Except.ok.inj) (hprops.symm.trans (hmap hread))
    refine ⟨hread, ?_⟩
    rw [← Except.ok.inj hvalue, List.filterMap_map]
    rfl
  · intro h
    obtain ⟨hread, rfl⟩ := h
    refine ⟨ms.map t.proposed, mapM_eq_ok.2 (hmap hread), ?_⟩
    rw [List.filterMap_map]
    rfl

/-- A net that keeps the ports with a proposal, in any order, has a seed as soon as the full net
    has one, and over exact numbers the same. -/
theorem exists_seed (stays : Port → Bool) (hperm : ms'.Perm (ms.filter stays))
    (hsame : ∀ p ∈ ms, stays p = true → t'.proposal p = t.proposal p)
    (hnone : ∀ p ∈ ms, stays p = false → t.proposal p = .ok none)
    (h : t.seed ms default = .ok value) :
    ∃ value', t'.seed ms' default = .ok value' ∧ (AddsExactly K → value' = value) := by
  obtain ⟨hread, rfl⟩ := seed_eq_ok.1 h
  have hmem : ∀ p ∈ ms', p ∈ ms ∧ stays p = true := fun p hp =>
    List.mem_filter.1 (hperm.mem_iff.1 hp)
  refine ⟨_, seed_eq_ok.2 ⟨fun p hp => ?_, rfl⟩, fun hK => ?_⟩
  · obtain ⟨hp, hstays⟩ := hmem p hp
    rw [hsame p hp hstays]
    exact hread p hp
  -- what is left out proposes nothing
  · have hkept : (ms.filter stays).filterMap t.proposed = ms.filterMap t.proposed := by
      rw [List.filterMap_filter]
      refine List.filterMap_congr fun p hp => ?_
      cases hstays : stays p with
      | true => rfl
      | false => exact (proposed_of_ok (hnone p hp hstays)).symm
    have heq : ms'.filterMap t'.proposed = ms'.filterMap t.proposed := by
      refine List.filterMap_congr fun p hp => ?_
      obtain ⟨hp, hstays⟩ := hmem p hp
      rw [proposed, proposed, hsame p hp hstays]
    rw [heq, hK.mean?_perm (hperm.filterMap t.proposed), hkept]

end Topology

end NetBalance
