import NetBalance.Proofs.Positions

/-! # The two columns of a reference

    A reference shows the connection ports of its target in two columns.  They
    are split at the median of where they stand, and at least half of any row of
    numbers is at most its median, so the left column is never the shorter one.
    In a column the ports stand by height and then by id, which leaves no choice:
    the columns depend on the connection ports alone, in whatever order these
    come. -/

namespace NetBalance

variable {K : Type}

/-! ### Medians in order -/

section Medians

variable [Field K] [LinearOrder K] {xs ys : List K} {m m' : K}

/-- The middle entry of the row in ascending order, or the mean of the two in the middle. -/
def IsMedian (xs : List K) (m : K) : Prop :=
  ∃ sorted : List K, sorted.Perm xs ∧ sorted.Pairwise (· ≤ ·) ∧
    ((xs.length % 2 = 1 ∧ sorted[xs.length / 2]? = some m) ∨
      (xs.length % 2 = 0 ∧ ∃ a b, sorted[xs.length / 2 - 1]? = some a ∧
        sorted[xs.length / 2]? = some b ∧ m = (a + b) / 2))

/-- There is one median at most, whatever the order of the row. -/
theorem IsMedian.unique (h : IsMedian xs m) (h' : IsMedian ys m') (hperm : xs.Perm ys) :
    m = m' := by
  obtain ⟨sorted, hsorted, hascending, hm⟩ := h
  obtain ⟨sorted', hsorted', hascending', hm'⟩ := h'
  obtain rfl : sorted = sorted' :=
    List.Perm.eq_of_pairwise (fun _ _ _ _ => le_antisymm) hascending hascending'
      (hsorted.trans (hperm.trans hsorted'.symm))
  rw [← hperm.length_eq] at hm'
  rcases hm with ⟨hodd, hm⟩ | ⟨heven, a, b, ha, hb, rfl⟩
  · rcases hm' with ⟨-, hm'⟩ | ⟨heven', -⟩
    · exact Option.some.inj (hm.symm.trans hm')
    · omega
  · rcases hm' with ⟨hodd', -⟩ | ⟨-, a', b', ha', hb', rfl⟩
    · omega
    · rw [Option.some.inj (ha.symm.trans ha'), Option.some.inj (hb.symm.trans hb')]

/-- The median that is computed is the median. -/
theorem exists_isMedian [Scalar K] (hK : Scalar.IsOrdered K) (hne : xs ≠ []) :
    ∃ m, median? xs = some m ∧ IsMedian xs m := by
  have hsorted : (xs.mergeSort Scalar.le).Perm xs := List.mergeSort_perm xs _
  have hascending : (xs.mergeSort Scalar.le).Pairwise (· ≤ ·) :=
    (hK.compares.pairwise_mergeSort fun x _ => hK.isNumber x).imp fun {a b} => (hK.le_iff a b).1
  have hne' : xs.mergeSort Scalar.le ≠ [] := fun hnil => hne (hnil ▸ hsorted).symm.eq_nil
  rw [median?_of_numbers fun x _ => hK.isNumber x]
  rcases middle?_cases hne' with ⟨hodd, m, hm, hmid⟩ | ⟨heven, a, b, ha, hb, hmid⟩
  · rw [hsorted.length_eq] at hodd hm
    exact ⟨m, hmid, _, hsorted, hascending, Or.inl ⟨hodd, hm⟩⟩
  · rw [hsorted.length_eq] at heven ha hb
    exact ⟨_, hmid, _, hsorted, hascending,
      Or.inr ⟨heven, a, b, ha, hb, by rw [one_add_one_eq_two]⟩⟩

variable [IsStrictOrderedRing K]

/-- At least half of the entries are at most the median. -/
theorem IsMedian.length_le (h : IsMedian xs m) : xs.length ≤ 2 * xs.countP (· ≤ m) := by
  obtain ⟨sorted, hsorted, hascending, hm⟩ := h
  have hcount : ∀ {i : Nat} {a : K}, sorted[i]? = some a → i < sorted.countP (· ≤ a) := by
    intro i a ha
    obtain ⟨hi, rfl⟩ := List.getElem?_eq_some_iff.1 ha
    exact lt_countP (hascending.imp fun hab => decide_eq_true hab) hi (decide_eq_true le_rfl)
  rw [← hsorted.countP_eq]
  rcases hm with ⟨hodd, hm⟩ | ⟨heven, a, b, ha, hb, rfl⟩
  · have hhalf := hcount hm
    omega
  · -- the lower one of the two in the middle is at most their mean
    have hhalf := hcount ha
    have hab : a ≤ b := by
      obtain ⟨hi, rfl⟩ := List.getElem?_eq_some_iff.1 ha
      obtain ⟨hj, rfl⟩ := List.getElem?_eq_some_iff.1 hb
      exact hascending.rel_get_of_le (a := ⟨_, hi⟩) (b := ⟨_, hj⟩) (Nat.sub_le _ _)
    have hmean : a ≤ (a + b) / 2 := by linarith
    have hmore : sorted.countP (· ≤ a) ≤ sorted.countP (· ≤ (a + b) / 2) :=
      List.countP_mono_left fun x _ hx => decide_eq_true ((of_decide_eq_true hx).trans hmean)
    omega

end Medians

/-! ### Columns from top to bottom -/

namespace ExposedNode

variable {nodes nodes' : List (ExposedNode K)} {ids ids' : List String} {m : K}

/-- What counts for the place in a column: the height, then the id. -/
def place (n : ExposedNode K) : K ×ₗ String := toLex (n.y, n.id)

section Order

variable [LinearOrder K]

/-- The ids of the nodes, by height and then by id. -/
def IsColumn (nodes : List (ExposedNode K)) (ids : List String) : Prop :=
  ∃ sorted : List (ExposedNode K), sorted.Perm nodes ∧
    (sorted.Pairwise fun a b => a.place ≤ b.place) ∧ ids = sorted.map (·.id)

theorem IsColumn.length_eq (h : IsColumn nodes ids) : ids.length = nodes.length := by
  obtain ⟨sorted, hperm, -, rfl⟩ := h
  rw [List.length_map, hperm.length_eq]

/-- There is one way to fill a column: nodes at the same place have the same id. -/
theorem IsColumn.unique (h : IsColumn nodes ids) (h' : IsColumn nodes' ids')
    (hperm : nodes.Perm nodes') : ids = ids' := by
  obtain ⟨sorted, hsorted, horder, rfl⟩ := h
  obtain ⟨sorted', hsorted', horder', rfl⟩ := h'
  have hplaces : sorted.map place = sorted'.map place :=
    List.Perm.eq_of_pairwise (fun _ _ _ _ => le_antisymm) (List.pairwise_map.2 horder)
      (List.pairwise_map.2 horder') ((hsorted.trans (hperm.trans hsorted'.symm)).map place)
  have hids : ∀ ns : List (ExposedNode K),
      ns.map (·.id) = (ns.map place).map fun p => (ofLex p).2 := by
    intro ns
    rw [List.map_map]
    rfl
  rw [hids, hids, hplaces]

variable [Scalar K] (hK : Scalar.IsOrdered K)
include hK

theorem before_iff (a b : ExposedNode K) : before a b ↔ a.place < b.place := by
  rw [place, place, Prod.Lex.toLex_lt_toLex, before]
  split
  next hsame =>
    have hy : a.y = b.y := (hK.same_iff_eq _ _).1 hsame
    simp [hy]
  next hsame =>
    have hy : a.y ≠ b.y := mt (hK.same_iff_eq _ _).2 hsame
    simp [hy, hK.lt_iff]

theorem pairwise_topToBottom (nodes : List (ExposedNode K)) :
    (topToBottom nodes).Pairwise fun a b => a.place ≤ b.place := by
  have hle : ∀ a b : ExposedNode K, !before b a ↔ a.place ≤ b.place := by
    intro a b
    rw [Bool.not_eq_true', Bool.eq_false_iff, Ne, before_iff hK, not_lt]
  refine (List.pairwise_mergeSort ?_ ?_ nodes).imp fun {a b} => (hle a b).1
  · intro a b c
    rw [hle, hle, hle]
    exact le_trans
  · intro a b
    rw [Bool.or_eq_true, hle, hle]
    exact le_total _ _

theorem isColumn_filter (nodes : List (ExposedNode K)) (p : ExposedNode K → Bool) :
    IsColumn (nodes.filter p) (((topToBottom nodes).filter p).map (·.id)) :=
  ⟨_, (List.mergeSort_perm nodes _).filter p, (pairwise_topToBottom hK nodes).filter p, rfl⟩

theorem isColumn_left (nodes : List (ExposedNode K)) (m : K) :
    IsColumn (nodes.filter (·.x ≤ m)) (columns nodes m).left := by
  have hle : (fun n : ExposedNode K => Scalar.le n.x m) = fun n => decide (n.x ≤ m) := by
    funext n
    rw [Bool.eq_iff_iff, hK.le_iff, decide_eq_true_iff]
  rw [columns, hle]
  exact isColumn_filter hK nodes _

theorem isColumn_right (nodes : List (ExposedNode K)) (m : K) :
    IsColumn (nodes.filter (m < ·.x)) (columns nodes m).right := by
  have hlt : (fun n : ExposedNode K => Scalar.lt m n.x) = fun n => decide (m < n.x) := by
    funext n
    rw [Bool.eq_iff_iff, hK.lt_iff, decide_eq_true_iff]
  rw [columns, hlt]
  exact isColumn_filter hK nodes _

end Order

end ExposedNode

/-! ### Columns of a diagram -/

section Split

variable [Field K] [LinearOrder K] {nodes nodes' : List (ExposedNode K)}
  {ports ports' : ConnectionPorts} {m : K}

/-- The columns are split at `m`, which is the median if there are any nodes. -/
structure ConnectionPorts.SplitsAt (ports : ConnectionPorts) (nodes : List (ExposedNode K))
    (m : K) : Prop where
  median : nodes ≠ [] → IsMedian (nodes.map (·.x)) m
  left : ExposedNode.IsColumn (nodes.filter (·.x ≤ m)) ports.left
  right : ExposedNode.IsColumn (nodes.filter (m < ·.x)) ports.right

namespace ConnectionPorts.SplitsAt

/-- The columns depend on the nodes, but not on their order. -/
theorem unique {m' : K} (h : ports.SplitsAt nodes m) (h' : ports'.SplitsAt nodes' m')
    (hperm : nodes.Perm nodes') : ports = ports' := by
  have hsides : ports.left = ports'.left ∧ ports.right = ports'.right := by
    by_cases hne : nodes = []
    · -- wherever nothing is split, both columns are empty
      subst hne
      obtain rfl := hperm.symm.eq_nil
      exact ⟨h.left.unique h'.left (.refl _), h.right.unique h'.right (.refl _)⟩
    · have hne' : nodes' ≠ [] := fun hnil => hne (hnil ▸ hperm).eq_nil
      obtain rfl : m = m' := (h.median hne).unique (h'.median hne') (hperm.map _)
      exact ⟨h.left.unique h'.left (hperm.filter _), h.right.unique h'.right (hperm.filter _)⟩
  obtain ⟨left, right⟩ := ports
  obtain ⟨left', right'⟩ := ports'
  rw [ConnectionPorts.mk.injEq]
  exact hsides

/-- The left column is never the shorter one. -/
theorem length_right_le [IsStrictOrderedRing K] (h : ports.SplitsAt nodes m) :
    ports.right.length ≤ ports.left.length := by
  rw [h.left.length_eq, h.right.length_eq]
  by_cases hne : nodes = []
  · rw [hne]
    rfl
  · have hhalf := (h.median hne).length_le
    have hsplit : nodes.length =
        (nodes.filter (·.x ≤ m)).length + (nodes.filter (m < ·.x)).length := by
      rw [← List.countP_eq_length_filter, ← List.countP_eq_length_filter,
        List.length_eq_countP_add_countP (fun n => decide (n.x ≤ m))]
      simp
    rw [List.length_map, List.countP_map, List.countP_eq_length_filter] at hhalf
    have hhalf' : nodes.length ≤ 2 * (nodes.filter (·.x ≤ m)).length := hhalf
    omega

end ConnectionPorts.SplitsAt

end Split

namespace Diagram

variable [Field K] [LinearOrder K] [Scalar K] {d : Diagram K} {ports : ConnectionPorts}

/-- Connection ports that can be read are split at a median. -/
theorem exists_splitsAt (hK : Scalar.IsOrdered K) (h : d.connectionPorts = .ok ports) :
    ∃ m, ports.SplitsAt d.shown m := by
  rw [eq_columns_of_connectionPorts h]
  by_cases hne : d.shown = []
  · have hnone : median? ([] : List K) = none := by simp [median?, middle?]
    rw [hne, List.map_nil, hnone]
    -- any number splits nothing
    exact ⟨0, fun h => absurd rfl h, ⟨[], .refl _, .nil, rfl⟩, ⟨[], .refl _, .nil, rfl⟩⟩
  · obtain ⟨m, hm, hmedian⟩ := exists_isMedian hK (mt List.map_eq_nil_iff.1 hne)
    rw [hm]
    exact ⟨m, fun _ => hmedian, ExposedNode.isColumn_left hK _ m, ExposedNode.isColumn_right hK _ m⟩

omit [Field K] [LinearOrder K] in
theorem portIds_unplaced (d : Diagram K) : d.unplaced.portIds = d.portIds := by
  rw [portIds, unplaced, List.filterMap_map]
  rfl

omit [LinearOrder K] in
/-- Where kinds are known and nodes are placed, the connection ports can be read. -/
theorem IsPlaced.exists_connectionPorts (h : d.IsPlaced)
    (hkinds : ∀ n ∈ d.nodes, ∃ kind, n.kind = .ok kind) :
    ∃ ports, d.connectionPorts = .ok ports := by
  refine h.reads_iff.2 (List.forall_mem_map.2 fun n hn => ?_)
  obtain ⟨kind, hkind⟩ := hkinds n hn
  exact ⟨_, congrArg (Except.map _) hkind⟩

variable [IsStrictOrderedRing K]

/-- Where kinds are known and nodes stand at pairs of finite numbers, each connection port shows up
    once, on the left if it is at most at the median and else on the right, ordered by height and
    then by id.  The left column is never the shorter one.  Any other such diagram with the same
    connection ports, in whatever order and among whatever other nodes, has the same columns, even
    if ids are not distinct. -/
theorem connectionPorts_splitsAt (hK : Scalar.IsOrdered K)
    (hkinds : ∀ n ∈ d.nodes, ∃ kind, n.kind = .ok kind) (hplaced : d.IsPlaced) :
    ∃ ports, d.connectionPorts = .ok ports ∧ ports.all.Perm d.portIds ∧
      (∃ m, ports.SplitsAt d.shown m) ∧ ports.right.length ≤ ports.left.length ∧
      ∀ d' : Diagram K, (∀ n ∈ d'.nodes, ∃ kind, n.kind = .ok kind) → d'.IsPlaced →
        d'.shown.Perm d.shown → d'.connectionPorts = .ok ports := by
  obtain ⟨ports, hports⟩ := hplaced.exists_connectionPorts hkinds
  obtain ⟨m, hsplits⟩ := exists_splitsAt hK hports
  refine ⟨ports, hports, ?_, ⟨m, hsplits⟩, hsplits.length_right_le, ?_⟩
  · have hperm := hplaced.perm_exposedIds hK.compares hports
    rw [exposedIds, hports, portIds_unplaced] at hperm
    exact hperm
  · intro d' hkinds' hplaced' hshown
    obtain ⟨ports', hports'⟩ := hplaced'.exists_connectionPorts hkinds'
    obtain ⟨m', hsplits'⟩ := exists_splitsAt hK hports'
    rw [hports', hsplits'.unique hsplits hshown]

/-- Five connection ports, of which the middle one stands at the median, and a node that is none. -/
def fiveWays : Diagram ℚ :=
  scattered ⟨"five", "five", [.source "low_left" true, .source "high_left" true,
      .source "mid" true, .source "right_top" true, .source "right_bottom" true,
      .source "hidden" false], []⟩ fun
    | "low_left" => (0, 50)
    | "high_left" => (10, 0)
    | "mid" => (20, 30)
    | "right_top" => (90, 5)
    | "right_bottom" => (80, 70)
    | _ => (200, 0)

/-- The ports of `fiveWays` the other way round, without the node that is none. -/
def fiveWaysBack : Diagram ℚ := ⟨"back", "back", fiveWays.nodes.reverse.tail, []⟩

/-- The node at the median goes to the left, and the columns are those of the ports alone. -/
theorem connectionPorts_splitsAt_fiveWays :
    fiveWays.connectionPorts =
      .ok ⟨["high_left", "mid", "low_left"], ["right_top", "right_bottom"]⟩ ∧
    (∃ m, ConnectionPorts.SplitsAt ⟨["high_left", "mid", "low_left"],
      ["right_top", "right_bottom"]⟩ fiveWays.shown m) ∧
    fiveWaysBack.connectionPorts = fiveWays.connectionPorts := by
  have hports : fiveWays.connectionPorts =
      .ok ⟨["high_left", "mid", "low_left"], ["right_top", "right_bottom"]⟩ := by
    cbv
  have hkinds : ∀ n ∈ fiveWays.nodes, ∃ kind, n.kind = .ok kind := by
    intro n hn
    obtain ⟨m, hm, rfl⟩ := List.mem_map.1 hn
    simp only [List.mem_cons, List.not_mem_nil, or_false] at hm
    rcases hm with rfl | rfl | rfl | rfl | rfl | rfl <;> exact ⟨.source, rfl⟩
  have hback : ∀ n ∈ fiveWaysBack.nodes, n ∈ fiveWays.nodes := fun n hn =>
    List.mem_reverse.1 (List.mem_of_mem_tail hn)
  have hplaced : fiveWays.IsPlaced := isPlaced_scattered _ _
  have hshown : fiveWaysBack.shown = fiveWays.shown.reverse := rfl
  obtain ⟨ports, hports', -, hsplits, -, hsame⟩ :=
    connectionPorts_splitsAt Scalar.isOrdered_rat hkinds hplaced
  obtain rfl := Except.ok.inj (hports.symm.trans hports')
  exact ⟨hports, hsplits, (hsame fiveWaysBack (fun n hn => hkinds n (hback n hn))
    (fun n hn => hplaced n (hback n hn)) (hshown ▸ List.reverse_perm _)).trans hports.symm⟩

end Diagram

end NetBalance
