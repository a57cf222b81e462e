import NetBalance.Proofs.Rational
import NetBalance.Proofs.Unfolding

/-! # Which nodes show up as ports

    The nodes that are connection ports are split at the median of their
    horizontal positions, and each goes to the left or to the right.  Whatever
    the order of the nodes, none is lost and none shows up twice, as long as the
    positions and their median are numbers; where one is not, the comparisons
    with the median all fail and nothing shows up. -/

namespace NetBalance

variable {K : Type} [Scalar K]

/-! ### Comparisons of numbers -/

namespace Scalar

/-- Comparable at all: whatever is not a number is not even at most itself. -/
def IsNumber (a : K) : Prop := le a a = true

/-- What the comparisons of exact numbers and those of doubles share: between numbers they are a
    total order, but for zeros of either sign, and what is not a number compares to nothing. -/
structure Compares (K : Type) [Add K] [Div K] [One K] [Scalar K] : Prop where
  isNumber_of_le : ∀ a b : K, le a b → IsNumber a ∧ IsNumber b
  trans : ∀ a b c : K, le a b → le b c → le a c
  total : ∀ a b : K, IsNumber a → IsNumber b → le a b ∨ le b a
  lt_iff : ∀ a b : K, lt a b ↔ le a b ∧ ¬ le b a
  /-- Whether a mean is a number does not depend on the signs of zeros. -/
  mean : ∀ a b a' b' : K, same a a' → same b b' → IsNumber ((a + b) / (1 + 1)) →
    IsNumber ((a' + b') / (1 + 1))
  isNumber_of_isFinite : ∀ a : K, isFinite a → IsNumber a
  /-- The mean of finite numbers may be out of range, but then it is infinite. -/
  mean_of_isFinite : ∀ a b : K, isFinite a → isFinite b → IsNumber ((a + b) / (1 + 1))

theorem same_iff {a b : K} : same a b ↔ le a b ∧ le b a := by
  rw [same, Bool.and_eq_true]

/-- The comparisons are those of a linear order, and so everything is a number. -/
structure IsOrdered (K : Type) [LinearOrder K] [Scalar K] : Prop where
  lt_iff : ∀ a b : K, lt a b ↔ a < b
  le_iff : ∀ a b : K, le a b ↔ a ≤ b

namespace IsOrdered

variable [LinearOrder K] (hK : IsOrdered K)
include hK

theorem isNumber (a : K) : IsNumber a := (hK.le_iff a a).2 le_rfl

theorem same_iff_eq (a b : K) : same a b ↔ a = b := by
  rw [same_iff, hK.le_iff, hK.le_iff]
  exact antisymm_iff

theorem compares [Add K] [Div K] [One K] : Compares K where
  isNumber_of_le a b _ := ⟨hK.isNumber a, hK.isNumber b⟩
  trans a b c := by
    rw [hK.le_iff, hK.le_iff, hK.le_iff]
    exact le_trans
  total a b _ _ := by
    rw [hK.le_iff, hK.le_iff]
    exact le_total a b
  lt_iff a b := by
    rw [hK.lt_iff, hK.le_iff, hK.le_iff]
    exact lt_iff_le_not_ge
  mean _ _ _ _ _ _ _ := hK.isNumber _
  isNumber_of_isFinite a _ := hK.isNumber a
  mean_of_isFinite _ _ _ _ := hK.isNumber _

end IsOrdered

theorem isOrdered_rat : IsOrdered ℚ where
  lt_iff a b := by simp only [lt, decide_eq_true_eq]
  le_iff a b := by simp only [le, decide_eq_true_eq]

theorem compares_rat : Compares ℚ := isOrdered_rat.compares

end Scalar

/-! ### Sorted rows -/

open Scalar

section Sorted

variable [Add K] [Div K] [One K] (hK : Compares K) {xs ys : List K}
include hK

/-- Numbers are sorted, as if they were all there is. -/
theorem Scalar.Compares.pairwise_mergeSort (h : ∀ x ∈ xs, IsNumber x) :
    (xs.mergeSort le).Pairwise fun a b => le a b := by
  -- with everything else above all numbers, any two can be compared
  let above (a b : K) : Bool := !le b b || (le a a && le a b)
  have habove : ∀ a b : K, IsNumber a → IsNumber b → le a b = above a b := by
    intro a b ha hb
    simp only [IsNumber] at ha hb
    simp [above, ha, hb]
  have htrans : ∀ a b c : K, above a b → above b c → above a c := by
    intro a b c hab hbc
    simp only [above, Bool.or_eq_true, Bool.not_eq_true', Bool.and_eq_true] at hab hbc ⊢
    rcases hbc with hc | ⟨hb, hbc⟩
    · exact Or.inl hc
    · rcases hab with hb' | ⟨ha, hab⟩
      · exact absurd hb (by simp [hb'])
      · exact Or.inr ⟨ha, hK.trans a b c hab hbc⟩
  have htotal : ∀ a b : K, above a b || above b a := by
    intro a b
    by_cases ha : IsNumber a
    · by_cases hb : IsNumber b
      · rw [← habove a b ha hb, ← habove b a hb ha, Bool.or_eq_true]
        exact hK.total a b ha hb
      · simp only [IsNumber, Bool.not_eq_true] at hb
        simp [above, hb]
    · simp only [IsNumber, Bool.not_eq_true] at ha
      simp [above, ha]
  have hsort : xs.mergeSort le = xs.mergeSort above := by
    have hmap := List.map_mergeSort (f := id) (l := xs) (r := le) (s := above)
      fun a ha b hb => habove a b (h a ha) (h b hb)
    simpa using hmap
  have hsorted := List.pairwise_mergeSort htrans htotal xs
  rw [hsort]
  refine hsorted.imp_of_mem ?_
  intro a b ha hb hab
  rw [habove a b (h a (List.mem_mergeSort.1 ha)) (h b (List.mem_mergeSort.1 hb))]
  exact hab

/-- In a sorted row at most `i` numbers are at most one that the entry with index `i` exceeds. -/
theorem Scalar.Compares.countP_le (hxs : xs.Pairwise fun a b => le a b) {i : Nat}
    (hi : i < xs.length) {b : K} (hb : ¬ le xs[i] b) : xs.countP (le · b) ≤ i := by
  have hdrop : xs.drop i = xs[i] :: xs.drop (i + 1) := List.drop_eq_getElem_cons hi
  have hrest : (xs.drop i).countP (le · b) = 0 := by
    refine List.countP_eq_zero.2 fun z hz hzb => hb ?_
    rw [hdrop] at hz
    rcases List.mem_cons.1 hz with rfl | hz
    · exact hzb
    · have hpair : (xs[i] :: xs.drop (i + 1)).Pairwise fun a b => le a b :=
        hdrop ▸ hxs.sublist (List.drop_sublist i xs)
      exact hK.trans _ _ _ (List.rel_of_pairwise_cons hpair hz) hzb
  have hfirst : (xs.take i).countP (le · b) ≤ i :=
    List.countP_le_length.trans (List.length_take_le i xs)
  calc xs.countP (le · b)
      = (xs.take i).countP (le · b) + (xs.drop i).countP (le · b) := by
        rw [← List.countP_append, List.take_append_drop]
    _ ≤ i := by omega

omit hK [Scalar K] [Add K] [Div K] [One K] in
/-- In a sorted row the entries up to index `i` are at most that with index `i`. -/
theorem lt_countP {r : K → K → Bool} (hys : ys.Pairwise fun a b => r a b) {i : Nat}
    (hi : i < ys.length) (hrefl : r ys[i] ys[i]) : i < ys.countP (r · ys[i]) := by
  have htake : ys.take (i + 1) = ys.take i ++ [ys[i]] := (List.take_append_getElem hi).symm
  have hall : (ys.take (i + 1)).countP (r · ys[i]) = (ys.take (i + 1)).length := by
    refine List.countP_eq_length.2 fun z hz => ?_
    rw [htake] at hz
    rcases List.mem_append.1 hz with hz | hz
    · have hpair : (ys.take i ++ [ys[i]]).Pairwise fun a b => r a b :=
        htake ▸ hys.sublist (List.take_sublist (i + 1) ys)
      exact (List.pairwise_append.1 hpair).2.2 z hz _ List.mem_cons_self
    · rw [List.mem_singleton.1 hz]
      exact hrefl
  have hlen : (ys.take (i + 1)).length = i + 1 := by
    rw [List.length_take]
    omega
  have hle : (ys.take (i + 1)).countP (r · ys[i]) ≤ ys.countP (r · ys[i]) :=
    (List.take_sublist (i + 1) ys).countP_le
  omega

/-- Of two sorted rows with the same numbers, each is at most the other, index by index. -/
theorem Scalar.Compares.le_of_perm (hperm : xs.Perm ys) (hxs : xs.Pairwise fun a b => le a b)
    (hys : ys.Pairwise fun a b => le a b) (h : ∀ x ∈ xs, IsNumber x) {i : Nat} {a b : K}
    (ha : xs[i]? = some a) (hb : ys[i]? = some b) : le a b := by
  by_contra hab
  obtain ⟨hi, rfl⟩ := List.getElem?_eq_some_iff.1 ha
  obtain ⟨hi', rfl⟩ := List.getElem?_eq_some_iff.1 hb
  -- more numbers of the one row than of the other would be at most `b`
  have hfew : xs.countP (le · ys[i]) ≤ i := hK.countP_le hxs hi hab
  have hmany : i < ys.countP (le · ys[i]) :=
    lt_countP hys hi' (h _ (hperm.mem_iff.2 (List.getElem_mem hi')))
  have hsame := hperm.countP_eq (le · ys[i])
  omega

theorem Scalar.Compares.same_of_perm (hperm : xs.Perm ys) (hxs : xs.Pairwise fun a b => le a b)
    (hys : ys.Pairwise fun a b => le a b) (h : ∀ x ∈ xs, IsNumber x) {i : Nat} {a b : K}
    (ha : xs[i]? = some a) (hb : ys[i]? = some b) : same a b :=
  have h' : ∀ y ∈ ys, IsNumber y := fun y hy => h y (hperm.mem_iff.2 hy)
  same_iff.2 ⟨hK.le_of_perm hperm hxs hys h ha hb, hK.le_of_perm hperm.symm hys hxs h' hb ha⟩

end Sorted

/-! ### Medians -/

section Medians

variable [Add K] [Div K] [One K] {xs ys : List K}

/-- The row has a median that is a number. -/
def HasMedian (xs : List K) : Prop := ∃ m, median? xs = some m ∧ IsNumber m

/-- A median that is a number is one of numbers. -/
theorem HasMedian.isNumber (h : HasMedian xs) : ∀ x ∈ xs, IsNumber x := by
  obtain ⟨m, hm, hnumber⟩ := h
  cases hfind : xs.find? fun x => !le x x with
  | some x =>
    -- otherwise the median would be the first entry that is no number
    have hx : ¬ IsNumber x := by simpa [IsNumber] using List.find?_some hfind
    rw [median?, hfind] at hm
    exact absurd (Option.some.inj hm ▸ hnumber) hx
  | none => simpa [IsNumber] using hfind

theorem median?_of_numbers (h : ∀ x ∈ xs, IsNumber x) : median? xs = middle? (xs.mergeSort le) := by
  have hfind : (xs.find? fun x => !le x x) = none := by simpa [IsNumber] using h
  rw [median?, hfind]

omit [Scalar K] in
/-- The middle entries of a row and how the median is made of them. -/
theorem middle?_cases (hne : xs ≠ []) :
    (xs.length % 2 = 1 ∧ ∃ m, xs[xs.length / 2]? = some m ∧ middle? xs = some m) ∨
      (xs.length % 2 = 0 ∧ ∃ a b, xs[xs.length / 2 - 1]? = some a ∧ xs[xs.length / 2]? = some b ∧
        middle? xs = some ((a + b) / (1 + 1))) := by
  have hpos : 0 < xs.length := List.length_pos_iff.2 hne
  have hhalf : xs.length / 2 < xs.length := by omega
  have hbelow : xs.length / 2 - 1 < xs.length := by omega
  by_cases hodd : xs.length % 2 = 1
  · refine Or.inl ⟨hodd, xs[xs.length / 2], List.getElem?_eq_getElem hhalf, ?_⟩
    rw [middle?, if_pos hodd, List.getElem?_eq_getElem hhalf]
  · refine Or.inr ⟨by omega, xs[xs.length / 2 - 1], xs[xs.length / 2],
      List.getElem?_eq_getElem hbelow, List.getElem?_eq_getElem hhalf, ?_⟩
    rw [middle?, if_neg hodd, List.getElem?_eq_getElem hhalf, List.getElem?_eq_getElem hbelow]
    rfl

variable (hK : Compares K)
include hK

/-- Whether the median is a number does not depend on the order. -/
theorem HasMedian.perm (h : HasMedian xs) (hperm : xs.Perm ys) : HasMedian ys := by
  have hnumber := h.isNumber
  have hnumber' : ∀ y ∈ ys, IsNumber y := fun y hy => hnumber y (hperm.mem_iff.2 hy)
  obtain ⟨m, hm, hmnumber⟩ := h
  rw [median?_of_numbers hnumber] at hm
  rw [HasMedian, median?_of_numbers hnumber']
  have hsorted : (xs.mergeSort le).Perm (ys.mergeSort le) :=
    (List.mergeSort_perm xs le).trans (hperm.trans (List.mergeSort_perm ys le).symm)
  have hsame : ∀ {i : Nat} {a b : K}, (xs.mergeSort le)[i]? = some a →
      (ys.mergeSort le)[i]? = some b → same a b := fun ha hb =>
    hK.same_of_perm hsorted (hK.pairwise_mergeSort hnumber) (hK.pairwise_mergeSort hnumber')
      (fun x hx => hnumber x (List.mem_mergeSort.1 hx)) ha hb
  have hlen := hsorted.length_eq
  have hne : xs.mergeSort le ≠ [] := by
    intro hnil
    rw [hnil] at hm
    simp [middle?] at hm
  have hne' : ys.mergeSort le ≠ [] := by
    intro hnil
    rw [hnil] at hsorted
    exact hne hsorted.eq_nil
  -- the middle entries are the same numbers, but for the signs of zeros
  rcases middle?_cases hne with ⟨hodd, a, ha, hmid⟩ | ⟨heven, a, b, ha, hb, hmid⟩
  · rcases middle?_cases hne' with ⟨-, a', ha', hmid'⟩ | ⟨heven', -⟩
    · rw [hlen] at ha
      have haa' := hsame ha ha'
      exact ⟨a', hmid', (hK.isNumber_of_le _ _ (same_iff.1 haa').1).2⟩
    · omega
  · rcases middle?_cases hne' with ⟨hodd', -⟩ | ⟨-, a', b', ha', hb', hmid'⟩
    · omega
    · rw [hlen] at ha hb
      obtain rfl : (a + b) / (1 + 1) = m := Option.some.inj (hmid.symm.trans hm)
      exact ⟨_, hmid', hK.mean _ _ _ _ (hsame ha ha') (hsame hb hb') hmnumber⟩

theorem hasMedian_congr (hperm : xs.Perm ys) : HasMedian xs ↔ HasMedian ys :=
  ⟨fun h => h.perm hK hperm, fun h => h.perm hK hperm.symm⟩

/-- Finite numbers have a median that is a number. -/
theorem hasMedian_of_isFinite (hne : xs ≠ []) (h : ∀ x ∈ xs, isFinite x) : HasMedian xs := by
  have hnumber : ∀ x ∈ xs, IsNumber x := fun x hx => hK.isNumber_of_isFinite x (h x hx)
  have hfinite : ∀ {i : Nat} {a : K}, (xs.mergeSort le)[i]? = some a → isFinite a := fun ha =>
    h _ (List.mem_mergeSort.1 (List.mem_of_getElem? ha))
  have hne' : xs.mergeSort le ≠ [] := by
    intro hnil
    have hlen : (xs.mergeSort le).length = xs.length := List.length_mergeSort xs
    rw [hnil] at hlen
    exact hne (List.length_eq_zero_iff.1 hlen.symm)
  rw [HasMedian, median?_of_numbers hnumber]
  rcases middle?_cases hne' with ⟨-, a, ha, hmid⟩ | ⟨-, a, b, ha, hb, hmid⟩
  · exact ⟨a, hmid, hK.isNumber_of_isFinite a (hfinite ha)⟩
  · exact ⟨_, hmid, hK.mean_of_isFinite a b (hfinite ha) (hfinite hb)⟩

end Medians

/-! ### Columns -/

section Columns

variable [Add K] [Div K] [One K] (hK : Compares K) {nodes : List (ExposedNode K)} {m : K}
include hK

/-- Between numbers the two columns hold every node once. -/
theorem perm_columns (hm : IsNumber m) (h : ∀ n ∈ nodes, IsNumber n.x) :
    (ExposedNode.columns nodes m).all.Perm (nodes.map (·.id)) := by
  have hsorted : (ExposedNode.topToBottom nodes).Perm nodes := List.mergeSort_perm _ _
  -- what is right of the median is what is not left of it or on it
  have hright : (ExposedNode.topToBottom nodes).filter (fun n => lt m n.x) =
      (ExposedNode.topToBottom nodes).filter fun n => !le n.x m := by
    refine List.filter_congr fun n hn => ?_
    have hx : IsNumber n.x := h n (hsorted.mem_iff.1 hn)
    rw [Bool.eq_iff_iff, hK.lt_iff, Bool.not_eq_true', Bool.eq_false_iff]
    constructor
    · exact And.right
    · intro hle
      exact ⟨(hK.total m n.x hm hx).resolve_right hle, hle⟩
  rw [ConnectionPorts.all, ExposedNode.columns, hright, ← List.map_append]
  exact ((List.filter_append_perm _ _).trans hsorted).map _

/-- Nothing compares to what is not a number. -/
theorem columns_of_not_isNumber (hm : ¬ IsNumber m) : (ExposedNode.columns nodes m).all = [] := by
  have hle : ∀ x : K, ¬ le x m := fun x hx => hm (hK.isNumber_of_le x m hx).2
  have hlt : ∀ x : K, ¬ lt m x := fun x hx =>
    hm (hK.isNumber_of_le m x ((hK.lt_iff m x).1 hx).1).1
  simp [ConnectionPorts.all, ExposedNode.columns, hle, hlt]

end Columns

/-! ### Exposed ids -/

/-- A connection port with its coordinates, as far as both can be told. -/
def PlacedNode.shown? (n : PlacedNode K) : Option (ExposedNode K) :=
  if n.isConnectionPort.toOption = some true then n.exposed.toOption else none

namespace Diagram

variable {d d' : Diagram K} {ports : ConnectionPorts}

/-- The connection ports with their coordinates, in the order of the nodes. -/
def shown (d : Diagram K) : List (ExposedNode K) := d.nodes.filterMap PlacedNode.shown?

theorem exposedNodes_eq_shown {exposed : List (ExposedNode K)} (h : d.exposedNodes = .ok exposed) :
    exposed = d.shown := by
  obtain ⟨flagged, hflagged, hexposed⟩ := bind_eq_ok.1 h
  rw [eq_filterMap_of_map_ok (mapM_eq_ok.1 hexposed),
    eq_filterMap_of_map_ok (mapM_eq_ok.1 hflagged), List.filterMap_filterMap,
    List.filterMap_filterMap, shown]
  congr 1
  funext n
  rw [PlacedNode.shown?]
  -- a node of unknown kind shows nothing either way
  cases n.isConnectionPort with
  | error e => rfl
  | ok flag => cases flag <;> rfl

variable [Add K] [Div K] [One K] (hK : Compares K)

theorem exposedIds_of_not_read (h : ¬ ∃ ports, d.connectionPorts = .ok ports) :
    d.exposedIds = [] := by
  cases hports : d.connectionPorts with
  | error e => rw [exposedIds, hports]
  | ok ports => exact absurd ⟨ports, hports⟩ h

/-- The connection ports are split at their median, where there are any. -/
theorem eq_columns_of_connectionPorts (h : d.connectionPorts = .ok ports) :
    ports = ((median? (d.shown.map (·.x))).map (ExposedNode.columns d.shown)).getD ⟨[], []⟩ := by
  obtain ⟨exposed, hexposed, hcolumns⟩ := bind_eq_ok.1 h
  rw [exposedNodes_eq_shown hexposed] at hcolumns
  cases hm : median? (d.shown.map (·.x)) with
  | none =>
    rw [hm] at hcolumns
    exact (Except.ok.inj hcolumns).symm
  | some m =>
    rw [hm] at hcolumns
    exact (Except.ok.inj hcolumns).symm

theorem exposedIds_of_connectionPorts (h : d.connectionPorts = .ok ports) :
    d.exposedIds = ((median? (d.shown.map (·.x))).map fun m =>
      (ExposedNode.columns d.shown m).all).getD [] := by
  rw [exposedIds, h, eq_columns_of_connectionPorts h]
  cases median? (d.shown.map (·.x)) <;> rfl

include hK

/-- With a median that is a number, every connection port shows up once. -/
theorem perm_exposedIds_of_hasMedian (h : d.connectionPorts = .ok ports)
    (hmedian : HasMedian (d.shown.map (·.x))) : d.exposedIds.Perm (d.shown.map (·.id)) := by
  have hnumber : ∀ n ∈ d.shown, IsNumber n.x := fun n hn =>
    hmedian.isNumber n.x (List.mem_map_of_mem hn)
  obtain ⟨m, hm, hmnumber⟩ := hmedian
  rw [exposedIds_of_connectionPorts h, hm]
  exact perm_columns hK hmnumber hnumber

/-- Without one, nothing shows up. -/
theorem exposedIds_of_not_hasMedian (h : ¬ HasMedian (d.shown.map (·.x))) : d.exposedIds = [] := by
  by_cases hread : ∃ ports, d.connectionPorts = .ok ports
  · obtain ⟨ports, hports⟩ := hread
    rw [exposedIds_of_connectionPorts hports]
    cases hm : median? (d.shown.map (·.x)) with
    | none => rfl
    | some m =>
      have hmnumber : ¬ IsNumber m := fun hnumber => h ⟨m, hm, hnumber⟩
      exact columns_of_not_isNumber hK hmnumber
  · exact exposedIds_of_not_read hread

/-- The order of the nodes does not count for what shows up. -/
theorem perm_exposedIds
    (hreads : (∃ ports, d.connectionPorts = .ok ports) ↔ ∃ ports, d'.connectionPorts = .ok ports)
    (hshown : d.shown.Perm d'.shown) : d.exposedIds.Perm d'.exposedIds := by
  have hmedian := hasMedian_congr hK (hshown.map (·.x))
  by_cases hread : ∃ ports, d.connectionPorts = .ok ports
  · obtain ⟨ports, hports⟩ := hread
    obtain ⟨ports', hports'⟩ := hreads.1 ⟨ports, hports⟩
    by_cases h : HasMedian (d.shown.map (·.x))
    · have hperm := perm_exposedIds_of_hasMedian hK hports h
      have hperm' := perm_exposedIds_of_hasMedian hK hports' (hmedian.1 h)
      exact hperm.trans ((hshown.map (·.id)).trans hperm'.symm)
    · rw [exposedIds_of_not_hasMedian hK h, exposedIds_of_not_hasMedian hK (mt hmedian.2 h)]
  · rw [exposedIds_of_not_read hread, exposedIds_of_not_read (mt hreads.2 hread)]

/-- Wherever the nodes stand, all connection ports show up, as long as it is at finite numbers. -/
theorem perm_exposedIds_of_isFinite (h : d.connectionPorts = .ok ports)
    (hfinite : ∀ n ∈ d.shown, isFinite n.x) : d.exposedIds.Perm (d.shown.map (·.id)) := by
  by_cases hne : d.shown.map (·.x) = []
  · have hnone : d.shown = [] := List.map_eq_nil_iff.1 hne
    rw [exposedIds_of_connectionPorts h, hnone]
    simp [median?, middle?]
  · refine perm_exposedIds_of_hasMedian hK h (hasMedian_of_isFinite hK hne fun x hx => ?_)
    obtain ⟨n, hn, rfl⟩ := List.mem_map.1 hx
    exact hfinite n hn

end Diagram

end NetBalance
