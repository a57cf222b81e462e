import NetBalance.Proofs.Occurrences

/-! # Clashing ids

    Where all nodes are well formed, nothing but a taken id can end a
    flattening that leaves out closed cycles.  So it ends well exactly when no
    two occurrences of nodes have one id, and it then lists the flattened
    nodes of all occurrences. -/

namespace NetBalance

variable {K : Type} [Add K] [Div K] [One K] [Scalar K]

/-! ### Well-formed nodes -/

/-- A node can be read wherever it stands: its kind is known, its payload lists ports and names what
    it refers to by an atom, and it has both coordinates if it is a connection port. -/
structure PlacedNode.IsWellFormed (n : PlacedNode K) : Prop where
  payload : ∃ kind ports, n.kind = .ok kind ∧ kind.declaredPorts n.payload = .ok ports ∧
    (kind.referencedDiagram n.payload).isAtom
  position : n.isConnectionPort = .ok true → 2 ≤ n.position.length

def Diagram.IsWellFormed (d : Diagram K) : Prop := ∀ n ∈ d.nodes, n.IsWellFormed

/-- All diagrams of a project are well formed. -/
def Project.IsWellFormed (project : Project K) : Prop := ∀ d ∈ project.diagrams, d.IsWellFormed

omit [Add K] [Div K] [One K] [Scalar K] in
/-- An atom either leads to a diagram to enter or is left out. -/
theorem Project.resolves_of_isAtom {project : Project K} {stack : List String} {v : Value K}
    (h : v.isAtom) : project.Resolves false stack v := by
  cases v with
  | null => trivial
  | bool b => trivial
  | int n => trivial
  | real x => trivial
  | text name =>
    intro hstrict
    cases hstrict
  | list entries => cases h
  | object fields => cases h

theorem Diagram.IsWellFormed.exists_connectionPorts {d : Diagram K} (h : d.IsWellFormed) :
    ∃ ports, d.connectionPorts = .ok ports := by
  rw [exists_connectionPorts_iff, exists_exposedNodes_iff]
  intro n hn
  obtain ⟨⟨kind, -, hkind, -, -⟩, hposition⟩ := h n hn
  have hport : n.isConnectionPort = .ok (kind.isConnectionPort n.payload) := by
    rw [PlacedNode.isConnectionPort, hkind]
    rfl
  refine ⟨_, hport, ?_⟩
  intro hflag
  -- two coordinates are enough
  have hlength := hposition (hport.trans (congrArg _ hflag))
  obtain ⟨x, y, rest, hpair⟩ : ∃ x y rest, n.position = x :: y :: rest := by
    cases hfirst : n.position with
    | nil =>
      rw [hfirst] at hlength
      exact absurd hlength (by simp)
    | cons x rest =>
      cases rest with
      | nil =>
        rw [hfirst] at hlength
        exact absurd hlength (by simp)
      | cons y rest => exact ⟨x, y, rest, rfl⟩
  rw [PlacedNode.exposed, hpair]
  exact ⟨⟨n.id, x, y⟩, rfl⟩

namespace Copy

variable {project : Project K} {c c' : Copy K} {n : PlacedNode K}

omit [Add K] [Div K] [One K] [Scalar K] in
/-- What stands behind a node is a diagram of the project. -/
theorem mem_diagrams_of_behind? (h : c.behind? project n = some c') :
    c'.diagram ∈ project.diagrams := by
  obtain ⟨t, -, rfl⟩ := Option.map_eq_some_iff.1 h
  exact t.property.1

theorem isSound_of_isWellFormed (hc : c.diagram.IsWellFormed) (hproject : project.IsWellFormed) :
    ∀ d ∈ c.descendants project, d.IsSound project false := by
  induction c using Copy.induction project with
  | step c ih =>
    rw [forall_descendants]
    refine ⟨?_, ?_⟩
    · intro n hn
      obtain ⟨⟨kind, ports, hkind, hports, hatom⟩, -⟩ := hc n (keepFirst_subset _ hn)
      refine ⟨⟨kind, ports, hkind, hports, Project.resolves_of_isAtom hatom⟩, ?_⟩
      intro c' hb
      exact (hproject _ (mem_diagrams_of_behind? hb)).exists_connectionPorts
    · intro n _ d hd
      obtain ⟨c', hb, hd⟩ := mem_below.1 hd
      exact ih n c' hb (hproject _ (mem_diagrams_of_behind? hb)) d hd

end Copy

/-! ### Taken ids are all that goes wrong -/

/-- Two nodes flatten to one id. -/
def NetworkError.IsIdTaken (e : NetworkError) : Prop := ∃ l d i, e = .idTaken l d i

omit [Add K] [Div K] [One K] [Scalar K] in
theorem inlineAll_error
    {step : List String → PlacedNode K → Except NetworkError (Flat K × Slot)}
    {ns : List (PlacedNode K)} {cause : NetworkError → Prop}
    (h : ∀ n ∈ ns, ∀ taken e, step taken n = .error e → cause e)
    (taken : List String) (e : NetworkError) (he : inlineAll step taken ns = .error e) : cause e := by
  induction ns generalizing taken with
  | nil => cases he
  | cons n rest ih =>
    rw [inlineAll, bind_eq_error] at he
    rcases he with he | ⟨⟨own, slot⟩, -, he⟩
    · exact h n List.mem_cons_self taken e he
    rcases bind_eq_error.1 he with he | ⟨⟨others, slots⟩, -, he⟩
    · exact ih (fun m hm => h m (List.mem_cons_of_mem n hm)) _ he
    · cases he

namespace Copy

variable {project : Project K} {strict : Bool} {c : Copy K}

/-- Flattening a node that can be read fails only where its id is taken, or where the copy behind it
    fails. -/
theorem step_error {n : PlacedNode K} {taken : List String} {e : NetworkError}
    (hreads : c.Reads project strict n) (h : c.step project strict taken n = .error e) :
    e = .idTaken n.id c.diagram.id (c.scope ++ n.id) ∨
      ∃ c', c.behind? project n = some c' ∧
        c'.flattenAt project strict ((c.scope ++ n.id) :: taken) = .error e := by
  rw [← map_eq_error (f := fun own : Flat K × Slot => own.1.nodes), nodes_step] at h
  split at h
  · exact Or.inl (Except.error.inj h).symm
  -- nothing else can go wrong at the node itself
  obtain ⟨⟨kind, ports, hkind, hports, hres⟩, hexposed⟩ := hreads
  have hfound : (resolve project strict c.stack (c.scope ++ n.id)
      (kind.referencedDiagram n.payload)).result = .ok (n.target? project c.stack) := by
    rw [resolve_result, PlacedNode.target?, hkind]
    exact ⟨hres, rfl⟩
  rw [hkind, ok_bind, hports] at h
  simp only [ok_mapError, ok_bind, hfound] at h
  cases ht : n.target? project c.stack with
  | none =>
    rw [ht] at h
    cases h
  | some target =>
    have hb : c.behind? project n = some (c.inner n target.val) := by
      rw [behind?, ht, Option.map_some]
    obtain ⟨exposed, hexposed⟩ := hexposed _ hb
    refine Or.inr ⟨_, hb, ?_⟩
    have hexposed : target.val.connectionPorts = .ok exposed := hexposed
    simp only [ht, hexposed, bind_eq_error] at h
    rcases h with h | ⟨copy, -, h⟩
    · exact h
    · rcases h with h | ⟨_, -, h⟩ <;> cases h

/-- Copies that can all be read fail to flatten only for ids that are taken. -/
theorem flattenAt_error (hsound : ∀ d ∈ c.descendants project, d.IsSound project strict)
    {taken : List String} {e : NetworkError} (h : c.flattenAt project strict taken = .error e) :
    e.IsIdTaken := by
  induction c using Copy.induction project generalizing taken e with
  | step c ih =>
    obtain ⟨hown, hbelow⟩ := forall_descendants.1 hsound
    rw [flattenAt_eq, map_eq_error] at h
    refine inlineAll_error (fun n hn taken e he => ?_) taken e h
    rcases step_error (hown n hn) he with rfl | ⟨c', hb, he⟩
    · exact ⟨_, _, _, rfl⟩
    · exact ih n c' hb (fun d hd => hbelow n hn d (mem_below.2 ⟨c', hb, hd⟩)) he

end Copy

/-! ### Occurrences of a diagram -/

namespace Diagram

variable {project : Project K} {d : Diagram K}

/-- Two occurrences of nodes have one id. -/
def Clashes (project : Project K) (d : Diagram K) : Prop :=
  ∃ o o' : Occurrence K, o.IsIn project d ∧ o'.IsIn project d ∧ o ≠ o' ∧ o.id = o'.id

omit [Add K] [Div K] [One K] [Scalar K] in
theorem nodup_ids_root_iff :
    ((d.root.nodes project).map (·.id)).Nodup ↔ ¬ d.Clashes project := by
  have hids : (d.root.nodes project).map (·.id) =
      (d.root.occurrences project).map Occurrence.id := by
    rw [nodes_root, List.map_map]
    rfl
  rw [hids, List.nodup_map_iff_inj_on nodup_occurrences_root]
  constructor
  · intro h hclash
    obtain ⟨o, o', ho, ho', hne, hid⟩ := hclash
    exact hne (h o (mem_occurrences_root.2 ho) o' (mem_occurrences_root.2 ho') hid)
  · intro h o ho o' ho' hid
    by_contra hne
    exact h ⟨o, o', mem_occurrences_root.1 ho, mem_occurrences_root.1 ho', hne, hid⟩

end Diagram

/-! ### Flattening -/

variable {project : Project K} {d : Diagram K}

/-- Where all nodes are well formed, a diagram can be flattened exactly when the ids of its
    occurrences do not clash, and what goes wrong otherwise is a taken id.  The flattened nodes are
    those of all occurrences, each once and under its own id, in the order in which a walk down the
    references meets them; those of the root alone have no scope, and none stands deeper than there
    are diagrams in the project. -/
theorem flatten_occurrences (hd : d.IsWellFormed) (hproject : project.IsWellFormed) :
    ((∃ flat, (d.flatten project false).result = .ok flat) ↔ ¬ d.Clashes project) ∧
    ((∃ e, (d.flatten project false).result = .error e ∧ e.IsIdTaken) ↔ d.Clashes project) ∧
    ∀ flat, (d.flatten project false).result = .ok flat →
      flat.ids.Nodup ∧ ∃ os : List (Occurrence K), flat.nodes = os.map Occurrence.flat ∧ os.Nodup ∧
        (∀ o, o ∈ os ↔ o.IsIn project d) ∧ os.Pairwise (Occurrence.Precedes d) ∧
        ∀ o ∈ os, (o.scope = "" ↔ o.way = []) ∧ o.way.length ≤ project.size := by
  have hsound : ∀ c ∈ d.root.descendants project, c.IsSound project false :=
    Copy.isSound_of_isWellFormed hd hproject
  have hok : (∃ flat, (d.flatten project false).result = .ok flat) ↔ ¬ d.Clashes project := by
    rw [← Diagram.nodup_ids_root_iff]
    simp only [Diagram.flatten_eq_ok]
    constructor
    · intro h
      obtain ⟨-, -, -, hnodup⟩ := h
      exact hnodup
    · intro h
      exact ⟨_, rfl, hsound, h⟩
  refine ⟨hok, ?_, ?_⟩
  · constructor
    · intro h
      obtain ⟨e, he, -⟩ := h
      by_contra hclash
      obtain ⟨flat, hflat⟩ := hok.2 hclash
      cases he.symm.trans hflat
    · intro h
      cases hresult : (d.flatten project false).result with
      | ok flat => exact absurd h (hok.1 ⟨flat, hresult⟩)
      | error e => exact ⟨e, rfl, Copy.flattenAt_error hsound hresult⟩
  · intro flat hflat
    obtain ⟨rfl, -, hnodup⟩ := Diagram.flatten_eq_ok.1 hflat
    refine ⟨hnodup, d.root.occurrences project, Diagram.nodes_root, Diagram.nodup_occurrences_root,
      fun o => Diagram.mem_occurrences_root, Copy.pairwise_precedes d.root, ?_⟩
    intro o ho
    exact ⟨Occurrence.scope_eq_empty, Occurrence.length_way_le (Diagram.mem_occurrences_root.1 ho)⟩

theorem PlacedNode.isWellFormed_source (id : String) (input : Bool) :
    (PlacedNode.source id input : PlacedNode ℚ).IsWellFormed :=
  ⟨⟨.source, ["a", "b"], by rfl, by rfl, by rfl⟩, fun _ => le_refl 2⟩

theorem PlacedNode.isWellFormed_reference (id target : String) :
    (PlacedNode.reference id target : PlacedNode ℚ).IsWellFormed :=
  ⟨⟨.reference, [], by rfl, by rfl, by rfl⟩, fun h => by cases h⟩

/-- No two of the three occurrences around the cell have one id. -/
theorem flatten_occurrences_aroundCell :
    ¬ (Diagram.aroundCell []).Clashes .ofCell ∧
      ∃ flat : Flat ℚ, ((Diagram.aroundCell []).flatten .ofCell false).result = .ok flat ∧
        flat.ids = ["s", "r", "r.p"] ∧
        ∃ os : List (Occurrence ℚ), flat.nodes = os.map Occurrence.flat ∧
          ∀ o, o ∈ os ↔ o.IsIn .ofCell (Diagram.aroundCell []) := by
  have hd : (Diagram.aroundCell []).IsWellFormed := by
    intro n hn
    simp only [Diagram.aroundCell, List.mem_cons, List.not_mem_nil, or_false] at hn
    rcases hn with rfl | rfl
    · exact PlacedNode.isWellFormed_source "s" false
    · exact PlacedNode.isWellFormed_reference "r" "cell"
  have hproject : Project.ofCell.IsWellFormed := by
    intro t ht n hn
    obtain rfl : t = Diagram.cell := List.mem_singleton.1 ht
    obtain rfl : n = PlacedNode.source "p" true := List.mem_singleton.1 hn
    exact PlacedNode.isWellFormed_source "p" true
  have hids : ((Diagram.aroundCell []).flatten .ofCell false).result.map Flat.ids =
      .ok ["s", "r", "r.p"] := by
    decide +kernel
  obtain ⟨flat, hflat, hthree⟩ := map_eq_ok.1 hids
  obtain ⟨hok, -, hnodes⟩ := flatten_occurrences hd hproject
  obtain ⟨-, os, hos, -, hmem, -⟩ := hnodes flat hflat
  exact ⟨hok.1 ⟨flat, hflat⟩, flat, hflat, hthree, os, hos, hmem⟩

end NetBalance
