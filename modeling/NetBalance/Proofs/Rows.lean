import NetBalance.Proofs.Assembling

/-! # The rows of a system

    A system has a row for each equation of each node, in order.  It can be
    assembled exactly when all payloads can be read and each net that an
    equation mentions has a column in the rows and an entry in the vector. -/

namespace NetBalance

variable {K : Type}

/-- The values of the nets that a vector gives; zero beyond its end. -/
def valuesIn [Zero K] (x : Array K) (i : Nat) : K := x[i]?.getD 0

theorem Row.get_zero [Zero K] {n : Nat} (k : Fin n) : (zero : Row K n).get k = 0 := by
  show (Vector.replicate n (0 : K))[k.val] = 0
  rw [Vector.getElem_replicate]

/-! ### One equation -/

namespace Equation

/-- Each net of the equation is one of the first `n` and has an entry in the vector. -/
def Fits (n : Nat) (x : Array K) (e : Equation K) : Prop := ∀ i ∈ e.nets, i < n ∧ i < x.size

variable [Add K] [Sub K] [Mul K] [Neg K] [Zero K] [One K] {n : Nat} {x : Array K}
  {e : Equation K} {es : List (Equation K)}

/-- The equation at given values of the nets. -/
def linearised (n : Nat) (x : Nat → K) (e : Equation K) : Linearised K n :=
  ⟨e.row n x, e.residual x⟩

theorem linearise?_eq_some {l : Linearised K n} :
    e.linearise? n x = some l ↔ e.Fits n x ∧ e.linearised n (valuesIn x) = l := by
  have hfits : (e.nets.all fun i => i < n && i < x.size) = true ↔ e.Fits n x := by
    simp [Fits, List.all_eq_true]
  by_cases h : e.Fits n x
  · rw [linearise?, if_pos (hfits.2 h), Option.some.injEq]
    exact ⟨fun hl => ⟨h, hl⟩, fun hl => hl.2⟩
  · rw [linearise?, if_neg (mt hfits.1 h)]
    refine ⟨fun hl => ?_, fun hl => absurd hl.1 h⟩
    cases hl

theorem lineariseAll_eq_ok {ls : List (Linearised K n)} :
    lineariseAll n x es = .ok ls ↔
      (∀ e ∈ es, e.Fits n x) ∧ es.map (linearised n (valuesIn x)) = ls := by
  have hone : ∀ (e : Equation K) (l : Linearised K n),
      ((e.linearise? n x).elim (.error .vectorTooShort) .ok : Except AssemblyError _) = .ok l ↔
        e.Fits n x ∧ e.linearised n (valuesIn x) = l := by
    intro e l
    rw [← linearise?_eq_some]
    cases e.linearise? n x <;> simp
  induction es generalizing ls with
  | nil => simp [lineariseAll, pure, Except.pure, eq_comm]
  | cons e es ih =>
    rw [lineariseAll, List.mapM_cons, bind_eq_ok, List.forall_mem_cons, List.map_cons]
    constructor
    · intro h
      obtain ⟨l, hl, h⟩ := h
      obtain ⟨rest, hrest, h⟩ := bind_eq_ok.1 h
      obtain rfl := Except.ok.inj h
      obtain ⟨hfits, rfl⟩ := (hone e l).1 hl
      obtain ⟨hrestFits, rfl⟩ := ih.1 hrest
      exact ⟨⟨hfits, hrestFits⟩, rfl⟩
    · intro h
      obtain ⟨⟨hfits, hrestFits⟩, rfl⟩ := h
      refine ⟨_, (hone e _).2 ⟨hfits, rfl⟩, ?_⟩
      exact bind_eq_ok.2 ⟨_, ih.2 ⟨hrestFits, rfl⟩, rfl⟩

end Equation

/-! ### The equations of a node -/

namespace Kind

variable [Zero K] [One K] [Scalar K] {kind : Kind} {p : Payload K}
  {net? : PortName → Option Nat} {i : Nat}

theorem mem_terminalNets :
    i ∈ terminalNets net? ↔ ∃ t ∈ sourceTerminals, net? (some t) = some i := by
  rw [terminalNets, List.mem_eraseDups, List.mem_filterMap]

omit [Zero K] [One K] [Scalar K] in
theorem exists_of_mem_rowNets {key : String} {is : List Nat} (h : rowNets net? p key = .ok is)
    (hi : i ∈ is) : ∃ name, net? name = some i := by
  obtain ⟨listed, -, h⟩ := bind_eq_ok.1 h
  obtain ⟨names, -, h⟩ := bind_eq_ok.1 h
  obtain rfl := Except.ok.inj h
  obtain ⟨name, -, hname⟩ := List.mem_filterMap.1 hi
  obtain ⟨name, -, hname⟩ := Option.bind_eq_some_iff.1 hname
  exact ⟨name, hname⟩

/-- A node contributes equations of four forms. -/
theorem equation_cases {es : List (Equation K)} (hes : kind.equations p net? = .ok es)
    {e : Equation K} (he : e ∈ es) :
    (∃ i ∈ terminalNets net?, ∃ v, e = .pin i v) ∨
    (∃ first second, terminalNets net? = [first, second] ∧ e = .equate first second) ∨
    ∃ top bottom, rowNets net? p "top_ports" = .ok top ∧ rowNets net? p "bottom_ports" = .ok bottom ∧
      (e = .equalSums top bottom ∨ e = .equalProducts top bottom) := by
  cases kind with
  | source =>
    rw [equations] at hes
    split at hes
    · obtain ⟨v, -, hes⟩ := bind_eq_ok.1 hes
      obtain rfl := Except.ok.inj hes
      obtain ⟨i, hi, rfl⟩ := List.mem_map.1 he
      exact Or.inl ⟨i, hi, v, rfl⟩
    · split at hes
      · next first second hnets =>
        obtain rfl := Except.ok.inj hes
        exact Or.inr (Or.inl ⟨first, second, hnets, List.mem_singleton.1 he⟩)
      · obtain rfl := Except.ok.inj hes
        cases he
  | sum =>
    obtain ⟨top, htop, hes⟩ := bind_eq_ok.1 hes
    obtain ⟨bottom, hbottom, hes⟩ := bind_eq_ok.1 hes
    obtain rfl := Except.ok.inj hes
    split at he
    · cases he
    · exact Or.inr (Or.inr ⟨top, bottom, htop, hbottom, Or.inl (List.mem_singleton.1 he)⟩)
  | product =>
    obtain ⟨top, htop, hes⟩ := bind_eq_ok.1 hes
    obtain ⟨bottom, hbottom, hes⟩ := bind_eq_ok.1 hes
    obtain rfl := Except.ok.inj hes
    split at he
    · cases he
    · exact Or.inr (Or.inr ⟨top, bottom, htop, hbottom, Or.inr (List.mem_singleton.1 he)⟩)
  | reference =>
    obtain rfl := Except.ok.inj hes
    cases he

/-- An equation of a node is about nets of its ports. -/
theorem exists_port_of_mem_nets {es : List (Equation K)} (hes : kind.equations p net? = .ok es)
    {e : Equation K} (he : e ∈ es) (hi : i ∈ e.nets) : ∃ name, net? name = some i := by
  have hterminal : i ∈ terminalNets net? → ∃ name, net? name = some i := by
    intro hi
    obtain ⟨t, -, ht⟩ := mem_terminalNets.1 hi
    exact ⟨some t, ht⟩
  rcases equation_cases hes he with ⟨j, hj, v, rfl⟩ | ⟨first, second, hnets, rfl⟩ |
    ⟨top, bottom, htop, hbottom, he⟩
  · rw [List.mem_singleton.1 hi] at hterminal ⊢
    exact hterminal hj
  · exact hterminal (hnets ▸ hi)
  · have hi : i ∈ top ++ bottom := by
      rcases he with rfl | rfl
      · exact hi
      · exact hi
    rcases List.mem_append.1 hi with hi | hi
    · exact exists_of_mem_rowNets htop hi
    · exact exists_of_mem_rowNets hbottom hi

end Kind

variable [Add K] [Sub K] [Mul K] [Neg K] [Zero K] [One K] [Scalar K]

/-! ### All equations in order -/

/-- The equations of nodes in order, each with the id of its node. -/
def equationsOf : List (FlatNode K) → Except ValueError (List (String × Equation K))
  | [] => .ok []
  | m :: rest => do
    let es ← m.equations
    let others ← equationsOf rest
    return es.map (m.id, ·) ++ others

/-- The row of an equation, which a node contributes, at given values of the nets. -/
def SystemRow.ofEquation (n : Nat) (x : Nat → K) (e : String × Equation K) : SystemRow K n :=
  { e.2.linearised n x with source := e.1 }

section Equations

variable {nodes : List (FlatNode K)} {es : List (String × Equation K)} {n : Nat} {x : Array K}

omit [Add K] [Sub K] [Mul K] [Neg K] in
theorem equationsOf_cons_eq_ok {m : FlatNode K} : equationsOf (m :: nodes) = .ok es ↔
    ∃ own others, m.equations = .ok own ∧ equationsOf nodes = .ok others ∧
      es = own.map (m.id, ·) ++ others := by
  rw [equationsOf, bind_eq_ok]
  constructor
  · intro h
    obtain ⟨own, hown, h⟩ := h
    obtain ⟨others, hothers, h⟩ := bind_eq_ok.1 h
    exact ⟨own, others, hown, hothers, (Except.ok.inj h).symm⟩
  · intro h
    obtain ⟨own, others, hown, hothers, rfl⟩ := h
    exact ⟨own, hown, bind_eq_ok.2 ⟨others, hothers, rfl⟩⟩

omit [Add K] [Sub K] [Mul K] [Neg K] in
theorem exists_equationsOf_iff :
    (∃ es, equationsOf nodes = .ok es) ↔ ∀ m ∈ nodes, ∃ es, m.equations = .ok es := by
  induction nodes with
  | nil => simp [equationsOf]
  | cons m nodes ih =>
    simp only [equationsOf_cons_eq_ok, List.forall_mem_cons, ← ih]
    constructor
    · intro h
      obtain ⟨-, own, others, hown, hothers, -⟩ := h
      exact ⟨⟨own, hown⟩, ⟨others, hothers⟩⟩
    · intro h
      obtain ⟨⟨own, hown⟩, ⟨others, hothers⟩⟩ := h
      exact ⟨_, own, others, hown, hothers, rfl⟩

omit [Add K] [Sub K] [Mul K] [Neg K] in
theorem mem_equationsOf (h : equationsOf nodes = .ok es) {e : String × Equation K} :
    e ∈ es ↔ ∃ m ∈ nodes, ∃ own, m.equations = .ok own ∧ ∃ e' ∈ own, (m.id, e') = e := by
  induction nodes generalizing es with
  | nil =>
    obtain rfl := Except.ok.inj h
    simp
  | cons m nodes ih =>
    obtain ⟨own, others, hown, hothers, rfl⟩ := equationsOf_cons_eq_ok.1 h
    rw [List.mem_append, List.mem_map, ih hothers, List.exists_mem_cons_iff]
    simp only [hown, Except.ok.injEq, exists_eq_left']

theorem systemRows_eq_ok {m : FlatNode K} {rows : List (SystemRow K n)} :
    m.systemRows n x = .ok rows ↔ ∃ es, m.equations = .ok es ∧ (∀ e ∈ es, e.Fits n x) ∧
      (es.map (m.id, ·)).map (.ofEquation n (valuesIn x)) = rows := by
  simp only [FlatNode.systemRows, bind_eq_ok, mapError_eq_ok, Equation.lineariseAll_eq_ok]
  constructor
  · intro h
    obtain ⟨es, hes, ls, ⟨hfits, rfl⟩, h⟩ := h
    refine ⟨es, hes, hfits, ?_⟩
    rw [← Except.ok.inj h, List.map_map, List.map_map]
    rfl
  · intro h
    obtain ⟨es, hes, hfits, rfl⟩ := h
    refine ⟨es, hes, _, ⟨hfits, rfl⟩, ?_⟩
    rw [List.map_map, List.map_map]
    rfl

theorem rowsOf_eq_ok {rows : List (SystemRow K n)} :
    (rowsOf n x nodes).map List.flatten = .ok rows ↔
      ∃ es, equationsOf nodes = .ok es ∧ (∀ e ∈ es, e.2.Fits n x) ∧
        es.map (.ofEquation n (valuesIn x)) = rows := by
  -- node by node: its own rows, and those of the rest
  induction nodes generalizing rows with
  | nil => simp [rowsOf, equationsOf, pure, Except.pure, Except.map]
  | cons m nodes ih =>
    rw [map_eq_ok, rowsOf, List.mapM_cons]
    constructor
    · intro h
      obtain ⟨rowss, h, rfl⟩ := h
      obtain ⟨own, hown, h⟩ := bind_eq_ok.1 h
      obtain ⟨others, hothers, h⟩ := bind_eq_ok.1 h
      obtain rfl := Except.ok.inj h
      obtain ⟨es, hes, hfits, rfl⟩ := systemRows_eq_ok.1 hown
      obtain ⟨es', hes', hfits', hrows⟩ := ih.1 (map_eq_ok.2 ⟨others, hothers, rfl⟩)
      refine ⟨_, equationsOf_cons_eq_ok.2 ⟨es, es', hes, hes', rfl⟩, ?_, ?_⟩
      · rw [List.forall_mem_append, List.forall_mem_map]
        exact ⟨hfits, hfits'⟩
      · rw [List.map_append, hrows, List.flatten_cons]
    · intro h
      obtain ⟨es, hes, hfits, rfl⟩ := h
      obtain ⟨own, others, hown, hothers, rfl⟩ := equationsOf_cons_eq_ok.1 hes
      rw [List.forall_mem_append, List.forall_mem_map] at hfits
      obtain ⟨rowss, hrowss, hflat⟩ := map_eq_ok.1 (ih.2 ⟨others, hothers, hfits.2, rfl⟩)
      refine ⟨_, bind_eq_ok.2 ⟨_, systemRows_eq_ok.2 ⟨own, hown, hfits.1, rfl⟩,
        bind_eq_ok.2 ⟨rowss, hrowss, rfl⟩⟩, ?_⟩
      rw [List.flatten_cons, hflat, List.map_append]

end Equations

/-! ### Systems -/

namespace Network

variable {net : Network K} {x : Array K} {s : EquationSystem K net.size}

/-- A system holds the equations of the nodes at the vector. -/
theorem assemble_eq_ok : net.assemble x = .ok s ↔
    ∃ es, equationsOf net.nodes = .ok es ∧ (∀ e ∈ es, e.2.Fits net.size x) ∧
      es.map (.ofEquation net.size (valuesIn x)) = s.rows := by
  rw [← rowsOf_eq_ok, map_eq_ok, assemble, bind_eq_ok]
  constructor
  · intro h
    obtain ⟨rows, hrows, h⟩ := h
    exact ⟨rows, hrows, congrArg EquationSystem.rows (Except.ok.inj h)⟩
  · intro h
    obtain ⟨rows, hrows, h⟩ := h
    refine ⟨rows, hrows, ?_⟩
    rw [h]
    rfl

theorem exists_system_iff : (∃ s, net.assemble x = .ok s) ↔
    ∀ m ∈ net.nodes, ∃ es, m.equations = .ok es ∧ ∀ e ∈ es, e.Fits net.size x := by
  simp only [assemble_eq_ok]
  constructor
  · intro h m hm
    obtain ⟨s, es, hes, hfits, -⟩ := h
    obtain ⟨own, hown⟩ := exists_equationsOf_iff.1 ⟨es, hes⟩ m hm
    refine ⟨own, hown, fun e he => ?_⟩
    exact hfits _ ((mem_equationsOf hes).2 ⟨m, hm, own, hown, e, he, rfl⟩)
  · intro h
    obtain ⟨es, hes⟩ := exists_equationsOf_iff.2 fun m hm => (h m hm).imp fun _ h => h.1
    refine ⟨⟨_⟩, es, hes, fun e he => ?_, rfl⟩
    obtain ⟨m, hm, own, hown, e', he', rfl⟩ := (mem_equationsOf hes).1 he
    obtain ⟨own', hown', hfits⟩ := h m hm
    obtain rfl := Except.ok.inj (hown.symm.trans hown')
    exact hfits e' he'

end Network

end NetBalance
