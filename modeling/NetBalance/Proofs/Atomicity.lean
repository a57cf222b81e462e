import NetBalance.Proofs.Assembling
import NetBalance.Proofs.Rational
import NetBalance.Proofs.Resting
import NetBalance.Proofs.WriteBack
import NetBalance.Solver.InPlace

/-! # Solves that change nothing but solved values

    A solve in place writes behind everything that can fail, so a call that
    fails leaves the network as it was.  A call that returns has written the
    values of the nets and of the unlocked sources at them, and no equation
    reads either.  So the problem stays the same through any row of calls. -/

namespace NetBalance

/-! ### Computations in place -/

namespace InPlace

variable {σ K ε α β : Type} {m : InPlace σ K ε α} {f : α → InPlace σ K ε β} {s s' : σ}
  {es : List (Event K)}

theorem run_lift (m : Logged K ε α) : (lift m : InPlace σ K ε α).run s = (s, m) := rfl

theorem run_read_bind (f : σ → InPlace σ K ε α) : (read >>= f).run s = (f s).run s := rfl

/-- Where the first step fails, the state that it leaves is the last one. -/
theorem run_bind_error {e : ε} (h : m.run s = (s', ⟨es, .error e⟩)) :
    (m >>= f).run s = (s', ⟨es, .error e⟩) := by
  show (InPlace.bind m f).run s = _
  simp [InPlace.bind, h]

theorem run_bind_ok {a : α} (h : m.run s = (s', ⟨es, .ok a⟩)) :
    (m >>= f).run s =
      (((f a).run s').1, ⟨es ++ ((f a).run s').2.events, ((f a).run s').2.result⟩) := by
  show (InPlace.bind m f).run s = _
  simp [InPlace.bind, h]

end InPlace

variable {K : Type}

/-! ### What a solve writes -/

namespace FlatNode

variable [Scalar K] {m m' m'' : FlatNode K}

/-- An unlocked source with a connected terminal. -/
def IsFree (m : FlatNode K) : Prop :=
  m.kind = .source ∧ Kind.isLocked m.payload = false ∧
    ∃ t ∈ Kind.sourceTerminals, (m.net? (some t)).isSome

/-- The node itself, but that a free source may have another value. -/
structure Revalues (m m' : FlatNode K) : Prop where
  rest : m' = { m with payload := m'.payload }
  payload : m'.payload = m.payload ∨
    m.IsFree ∧ ∃ x, m'.payload = m.payload.put "value" (.real x)

theorem Revalues.refl (m : FlatNode K) : m.Revalues m := ⟨rfl, Or.inl rfl⟩

theorem Revalues.kind_eq (h : m.Revalues m') : m'.kind = m.kind := by rw [h.rest]

theorem Revalues.net?_eq (h : m.Revalues m') : m'.net? = m.net? := by
  rw [h.rest]
  rfl

theorem Revalues.isLocked_eq (h : m.Revalues m') :
    Kind.isLocked m'.payload = Kind.isLocked m.payload := by
  rcases h.payload with h | ⟨-, x, h⟩
  · rw [h]
  · rw [h, Kind.isLocked_put]

/-- Whether a source is free does not depend on its value. -/
theorem Revalues.isFree_iff (h : m.Revalues m') : m'.IsFree ↔ m.IsFree := by
  rw [IsFree, IsFree, h.kind_eq, h.isLocked_eq, h.net?_eq]

theorem Revalues.trans (h : m.Revalues m') (h' : m'.Revalues m'') : m.Revalues m'' := by
  refine ⟨?_, ?_⟩
  · rw [h'.rest, h.rest]
  · rcases h'.payload with heq | ⟨hfree, x, heq⟩
    · rw [heq]
      exact h.payload
    · -- the later value takes the place of an earlier one
      refine Or.inr ⟨h.isFree_iff.1 hfree, x, ?_⟩
      rcases h.payload with h | ⟨-, y, h⟩
      · rw [heq, h]
      · rw [heq, h, Payload.put_put]

/-- No equation reads what a solve may change. -/
theorem Revalues.equations_eq [Zero K] [One K] (h : m.Revalues m') :
    m'.equations = m.equations := by
  rw [FlatNode.equations, FlatNode.equations, h.kind_eq, h.net?_eq]
  rcases h.payload with h | ⟨⟨hkind, hlocked, -⟩, x, h⟩
  · rw [h]
  · rw [h, hkind, Kind.equations_put hlocked]

end FlatNode

namespace Network

/-- The network itself, but that nets and free sources may have other values. -/
structure Revalues [Scalar K] (net net' : Network K) : Prop where
  nodes : List.Forall₂ FlatNode.Revalues net.nodes net'.nodes
  members : net'.nets.map (·.members) = net.nets.map (·.members)

section Revalues

variable [Scalar K] {net net' net'' : Network K}

theorem Revalues.refl (net : Network K) : net.Revalues net :=
  ⟨List.forall₂_same.2 fun m _ => FlatNode.Revalues.refl m, rfl⟩

theorem Revalues.trans (h : net.Revalues net') (h' : net'.Revalues net'') :
    net.Revalues net'' := by
  have hnodes : ∀ {ms ms' ms'' : List (FlatNode K)}, List.Forall₂ FlatNode.Revalues ms ms' →
      List.Forall₂ FlatNode.Revalues ms' ms'' → List.Forall₂ FlatNode.Revalues ms ms'' := by
    intro ms ms' ms'' hms
    induction hms generalizing ms'' with
    | nil => exact id
    | cons hm _ ih =>
      rintro (_ | ⟨hm', hms'⟩)
      exact .cons (hm.trans hm') (ih hms')
  exact ⟨hnodes h.nodes h'.nodes, h'.members.trans h.members⟩

theorem Revalues.size_eq (h : net.Revalues net') : net'.size = net.size := by
  have hlength := congrArg List.length h.members
  simpa [size] using hlength

theorem Revalues.ids_eq (h : net.Revalues net') :
    net'.nodes.map (·.id) = net.nodes.map (·.id) := by
  have hids : List.Forall₂ (fun m m' => m'.id = m.id) net.nodes net'.nodes := by
    refine h.nodes.imp fun m m' hm => ?_
    rw [hm.rest]
  rw [← List.forall₂_eq_eq_eq, List.forall₂_map_left_iff, List.forall₂_map_right_iff]
  exact hids.flip

theorem revalues_finishNode (net : Network K) (m : FlatNode K) :
    m.Revalues (net.finishNode m) := by
  refine ⟨rfl, ?_⟩
  rw [payload_finishNode]
  rcases Kind.finish_cases m.kind m.payload fun p =>
    (m.net? p).bind fun i => net.nets[i]?.map (·.value) with h | ⟨x, hkind, hlocked, hvalue, h⟩
  · exact Or.inl h
  · -- the value was found at a terminal, which therefore has a net
    obtain ⟨t, ht, hvalue⟩ := List.exists_of_findSome?_eq_some hvalue
    obtain ⟨i, hi, -⟩ := Option.bind_eq_some_iff.1 hvalue
    exact Or.inr ⟨⟨hkind, hlocked, t, ht, by rw [hi, Option.isSome_some]⟩, x, h⟩

/-- A solve writes values only. -/
theorem revalues_finish (net : Network K) (xs : List K) :
    net.Revalues (net.withValues xs).finish := by
  refine ⟨?_, members_withValues net xs⟩
  show List.Forall₂ FlatNode.Revalues net.nodes (net.nodes.map (net.withValues xs).finishNode)
  exact List.forall₂_map_right_iff.2 (List.forall₂_same.2 fun m _ => revalues_finishNode _ m)

end Revalues

variable [Add K] [Sub K] [Mul K] [Div K] [Neg K] [Zero K] [One K] [Scalar K]
  {net net' solved : Network K} {cfg : SolverConfig K} {solution : Solution K}

omit [Div K] in
/-- The system of a network does not depend on what a solve may change. -/
theorem Revalues.table_assemble (h : net.Revalues net') (x : Array K) :
    (net'.assemble x).map EquationSystem.table = (net.assemble x).map EquationSystem.table := by
  have hrows : rowsOf net.size x net'.nodes = rowsOf net.size x net.nodes := by
    refine rowsOf_congr (h.nodes.flip.imp fun m' m hm => ?_)
    have hid : m'.id = m.id := by rw [hm.rest]
    rw [FlatNode.systemRows, FlatNode.systemRows, hm.equations_eq, hid]
  rw [Network.table_assemble h.size_eq, Network.table_assemble rfl, hrows]

/-- Solving in place tells and returns what a solve does, and leaves the solved network behind, or
    the network as it was. -/
theorem run_solveInPlace (net : Network K) (cfg : SolverConfig K) :
    (solveInPlace cfg).run net = match (net.solve cfg).result with
      | .ok (solution, solved) => (solved, ⟨(net.solve cfg).events, .ok solution⟩)
      | .error e => (net, ⟨(net.solve cfg).events, .error e⟩) := by
  rw [solveInPlace, InPlace.run_read_bind, solve, solveWith]
  obtain ⟨es, (e | ⟨status, final⟩)⟩ := net.iterateFrom cfg cfg.newtonStep net.start
  · rw [InPlace.run_bind_error (InPlace.run_lift _), Logged.bind_error rfl]
  · rw [InPlace.run_bind_ok (InPlace.run_lift _), Logged.bind_ok rfl]
    by_cases hfinite : final.x.toList.all Scalar.isFinite
    · simp only [hfinite, Bool.not_true, Bool.false_eq_true, if_false]
      rfl
    · simp only [hfinite, Bool.not_false, if_true]
      rfl

/-- A call that fails has written nothing. -/
theorem run_solveInPlace_of_error {e : Error K}
    (h : ((solveInPlace cfg).run net).2.result = .error e) : ((solveInPlace cfg).run net).1 = net := by
  rw [run_solveInPlace] at h ⊢
  cases hsolve : (net.solve cfg).result with
  | error e => rfl
  | ok s =>
    rw [hsolve] at h
    cases h

/-- A call that returns has written finite values. -/
theorem run_solveInPlace_of_ok (h : ((solveInPlace cfg).run net).2.result = .ok solution) :
    net.Revalues ((solveInPlace cfg).run net).1 ∧
      ∀ n ∈ ((solveInPlace cfg).run net).1.nets, Scalar.isFinite n.value := by
  rw [run_solveInPlace] at h ⊢
  cases hsolve : (net.solve cfg).result with
  | error e =>
    rw [hsolve] at h
    cases h
  | ok s =>
    obtain ⟨solution, solved⟩ := s
    obtain ⟨xs, -, hfinite, rfl, hvalues, -⟩ := exists_values_of_solve hsolve
    refine ⟨revalues_finish net xs, fun n hn => ?_⟩
    have hmem : n.value ∈ xs := hvalues ▸ List.mem_map_of_mem hn
    exact List.all_eq_true.1 hfinite _ hmem

/-- Whether a call returns or fails, nothing but values has changed behind it. -/
theorem revalues_solveInPlace (net : Network K) (cfg : SolverConfig K) :
    net.Revalues ((solveInPlace cfg).run net).1 := by
  cases h : ((solveInPlace cfg).run net).2.result with
  | error e =>
    rw [run_solveInPlace_of_error h]
    exact Revalues.refl net
  | ok solution => exact (run_solveInPlace_of_ok h).1

theorem revalues_afterSolves (net : Network K) (cfgs : List (SolverConfig K)) :
    net.Revalues (net.afterSolves cfgs) := by
  induction cfgs generalizing net with
  | nil => exact Revalues.refl net
  | cons cfg cfgs ih => exact (revalues_solveInPlace net cfg).trans (ih _)

/-- Take a network through any calls of the solver.  The next call, if it fails, leaves it as it is;
    if it returns, it has changed the values of nets, which are all finite now, and of unlocked
    sources at them.  So all calls together have changed nothing else, and at every vector the
    network has the system that it had before the first of them. -/
theorem solves_revalue (net : Network K) (cfgs : List (SolverConfig K)) :
    (∀ cfg after run, (solveInPlace cfg).run (net.afterSolves cfgs) = (after, run) →
      (∀ e, run.result = .error e → after = net.afterSolves cfgs) ∧
      (∀ solution, run.result = .ok solution →
        (net.afterSolves cfgs).Revalues after ∧ ∀ n ∈ after.nets, Scalar.isFinite n.value)) ∧
    net.Revalues (net.afterSolves cfgs) ∧
    ∀ x, ((net.afterSolves cfgs).assemble x).map EquationSystem.table =
      (net.assemble x).map EquationSystem.table := by
  have hrun := revalues_afterSolves net cfgs
  refine ⟨?_, hrun, hrun.table_assemble⟩
  intro cfg after run hcall
  have hafter : ((solveInPlace cfg).run (net.afterSolves cfgs)).1 = after := by rw [hcall]
  have hresult : ((solveInPlace cfg).run (net.afterSolves cfgs)).2 = run := by rw [hcall]
  subst hafter hresult
  exact ⟨fun e => run_solveInPlace_of_error, fun solution => run_solveInPlace_of_ok⟩

end Network

/-- A locked source that is joined to a free one. -/
def Diagram.lockedPair : Diagram ℚ :=
  ⟨"pair", "pair", [.valued "t" 3 true, .valued "u" 0 false], [⟨"t", "a", "u", "a"⟩]⟩

/-- Settings that no matrix satisfies. -/
def SolverConfig.unsolvable : SolverConfig ℚ := { standard with singularTolerance := 2 }

/-- A call that fails on the net leaves it halfway between its sources; the next one returns, and
    gives it the value of the locked source. -/
theorem Network.solves_revalue_lockedPair :
    ∃ net : Network ℚ, (Diagram.lockedPair.build .empty true 1).result = .ok net ∧
      (∃ e, ((solveInPlace .unsolvable).run net).2.result = .error e ∧
        ((solveInPlace .unsolvable).run net).1 = net) ∧
      (net.afterSolves [.unsolvable]).values = [3 / 2] ∧
      (net.afterSolves [.unsolvable, .standard]).values = [3] ∧
      (net.afterSolves [.unsolvable]).Revalues (net.afterSolves [.unsolvable, .standard]) := by
  have hruns : (Diagram.lockedPair.build .empty true 1).result.toOption.map (fun net =>
      (((solveInPlace .unsolvable).run net).2.result.toOption.isNone,
        (net.afterSolves [.unsolvable]).values,
        ((solveInPlace .standard).run (net.afterSolves [.unsolvable])).2.result.toOption.isSome,
        (net.afterSolves [.unsolvable, .standard]).values)) =
          some (true, [3 / 2], true, [3]) := by
    decide +kernel
  obtain ⟨net, hbuild, hruns⟩ := Option.map_eq_some_iff.1 hruns
  simp only [Prod.mk.injEq] at hruns
  obtain ⟨hfails, hhalf, hreturns, hfull⟩ := hruns
  refine ⟨net, toOption_eq_some.1 hbuild, ?_, hhalf, hfull, ?_⟩
  · cases hrun : ((solveInPlace .unsolvable).run net).2.result with
    | error e => exact ⟨e, rfl, ((solves_revalue net []).1 _ _ _ rfl).1 e hrun⟩
    | ok solution =>
      rw [hrun] at hfails
      cases hfails
  · cases hrun : ((solveInPlace .standard).run (net.afterSolves [.unsolvable])).2.result with
    | error e =>
      rw [hrun] at hreturns
      cases hreturns
    | ok solution => exact (((solves_revalue net [.unsolvable]).1 _ _ _ rfl).2 solution hrun).1

end NetBalance
