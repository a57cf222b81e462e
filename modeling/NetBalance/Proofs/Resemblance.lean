import NetBalance.Proofs.Places
import Mathlib.Data.Sym.Sym2

/-! # Diagrams that resemble each other

    Two projects are flattened side by side.  Where the diagrams under each name
    list the same nodes and edges, in any order and with nodes in any place, and
    show the same ports, the copies on the way down do so, too.  One of the two
    can be flattened exactly when the other can, and they give the same nodes
    and links, but for the order and for the direction of links. -/

namespace NetBalance

variable {K : Type}

/-! ### Nodes without a place, edges without a direction -/

/-- The node without its position. -/
def PlacedNode.unplaced (n : PlacedNode K) : PlacedNode K := { n with position := [] }

@[simp] theorem PlacedNode.id_unplaced (n : PlacedNode K) : n.unplaced.id = n.id := rfl

theorem flatMap_unplaced {β : Type} {f : PlacedNode K → List β} (hf : ∀ n, f n.unplaced = f n)
    (ns : List (PlacedNode K)) : (ns.map PlacedNode.unplaced).flatMap f = ns.flatMap f := by
  rw [List.flatMap_map]
  simp only [hf]

/-- The two ends of an edge, in no order. -/
def Edge.undirected (e : Edge) : Sym2 (String × String) :=
  s((e.source, e.sourcePort), (e.target, e.targetPort))

/-- The two ports of a link, in no order, and where the link comes from. -/
def Link.undirected (l : Link) : Sym2 Port × LinkKind := (s(l.first, l.second), l.kind)

theorem Edge.mem_undirected {e : Edge} {stop : String × String} :
    stop ∈ e.undirected ↔ stop ∈ e.ends := by
  simp [undirected, ends]

/-- The link of an edge, without a direction, is that of the edge without one. -/
theorem Edge.undirected_link (scope : String) (e : Edge) :
    (e.link scope).undirected =
      (e.undirected.map fun stop => ⟨scope ++ stop.1, some stop.2⟩, .edge) := rfl

/-! ### Related copies -/

/-- Related options hold related values, or none. -/
theorem rel_cases {α β : Type} {r : α → β → Prop} {a : Option α} {b : Option β}
    (h : Option.Rel r a b) : a = none ∧ b = none ∨ ∃ x y, a = some x ∧ b = some y ∧ r x y := by
  cases h with
  | some h => exact Or.inr ⟨_, _, rfl, rfl, h⟩
  | none => exact Or.inl ⟨rfl, rfl⟩

theorem rel_imp {α β : Type} {r s : α → β → Prop} {a : Option α} {b : Option β}
    (h : Option.Rel r a b) (hrs : ∀ x y, r x y → s x y) : Option.Rel s a b := by
  cases h with
  | some h => exact .some (hrs _ _ h)
  | none => exact .none

/-- What is made of related options is related, whether they hold values or none. -/
theorem elim_of_rel {α β γ δ : Type} {r : α → β → Prop} {s : γ → δ → Prop} {a : Option α}
    {b : Option β} {x : γ} {y : δ} {f : α → γ} {g : β → δ} (h : Option.Rel r a b) (hnone : s x y)
    (hsome : ∀ a b, r a b → s (f a) (g b)) : s (a.elim x f) (b.elim y g) := by
  cases h with
  | some h => exact hsome _ _ h
  | none => exact hnone

section Related

variable {R : Diagram K → Diagram K → Prop} {p p' : Project K} {c c' c₁ : Copy K}
  {n : PlacedNode K}

/-- Under each name both projects have related diagrams, or none. -/
def Project.Related (R : Diagram K → Diagram K → Prop) (p p' : Project K) : Prop :=
  ∀ id, Option.Rel R (p.get? id) (p'.get? id)

/-- Copies of related diagrams at the same place. -/
structure Copy.Related (R : Diagram K → Diagram K → Prop) (c c' : Copy K) : Prop where
  diagram : R c.diagram c'.diagram
  scope : c.scope = c'.scope
  stack : c.stack = c'.stack

/-- A copy stands behind a node whose payload names its diagram, unless that one is on the way down
    already. -/
theorem Copy.behind?_eq_some_iff :
    c.behind? p n = some c₁ ↔ ∃ kind name target, n.kind = .ok kind ∧
      kind.referencedDiagram n.payload = .text name ∧ p.get? name = some target ∧
      target.id ∉ c.stack ∧ c₁ = c.inner n target := by
  rw [behind?, Option.map_eq_some_iff]
  constructor
  · intro h
    obtain ⟨target, htarget, rfl⟩ := h
    rw [PlacedNode.target?] at htarget
    cases hkind : n.kind with
    | error e => simp [hkind] at htarget
    | ok kind =>
      rw [hkind] at htarget
      cases hvalue : kind.referencedDiagram n.payload with
      | text name =>
        simp only [hvalue] at htarget
        exact ⟨kind, name, target.val, rfl, hvalue, Project.enterable?_text.1 htarget,
          target.property.2, rfl⟩
      | null => simp [hvalue, Project.enterable?] at htarget
      | bool b => simp [hvalue, Project.enterable?] at htarget
      | int k => simp [hvalue, Project.enterable?] at htarget
      | real x => simp [hvalue, Project.enterable?] at htarget
      | list entries => simp [hvalue, Project.enterable?] at htarget
      | object fields => simp [hvalue, Project.enterable?] at htarget
  · intro h
    obtain ⟨kind, name, target, hkind, hvalue, hget, hout, rfl⟩ := h
    refine ⟨⟨target, List.mem_of_find?_eq_some hget, hout⟩, ?_, rfl⟩
    rw [PlacedNode.target?, hkind]
    simp only [hvalue]
    exact Project.enterable?_text.2 hget

theorem Project.Related.swap (hp : p.Related R p') : p'.Related (flip R) p := by
  intro id
  rcases rel_cases (hp id) with ⟨hd, hd'⟩ | ⟨d, d', hd, hd', h⟩
  · rw [hd, hd']
    exact .none
  · rw [hd, hd']
    exact .some h

theorem Copy.Related.swap (hc : c.Related R c') : c'.Related (flip R) c :=
  ⟨hc.diagram, hc.scope.symm, hc.stack.symm⟩

theorem Project.Related.imp {S : Diagram K → Diagram K → Prop} (h : ∀ d d', R d d' → S d d')
    (hp : p.Related R p') : p.Related S p' :=
  fun id => rel_imp (hp id) h

theorem Copy.Related.imp {S : Diagram K → Diagram K → Prop} (h : ∀ d d', R d d' → S d d')
    (hc : c.Related R c') : c.Related S c' :=
  ⟨h _ _ hc.diagram, hc.scope, hc.stack⟩

theorem Diagram.related_root {d d' : Diagram K} (hR : ∀ d d', R d d' → d.id = d'.id)
    (hd : R d d') : d.root.Related R d'.root :=
  ⟨hd, rfl, by rw [root, root, hR d d' hd]⟩

/-- In lists of related diagrams related ones are found under each name. -/
theorem rel_find?_of_forall₂ (hR : ∀ d d', R d d' → d.id = d'.id) {ds ds' : List (Diagram K)}
    (h : List.Forall₂ R ds ds') (id : String) :
    Option.Rel R (ds.find? (·.id = id)) (ds'.find? (·.id = id)) := by
  induction h with
  | nil => exact .none
  | @cons d d' ds ds' hd _ ih =>
    rw [List.find?_cons, List.find?_cons, ← hR d d' hd]
    by_cases hid : d.id = id
    · simp only [hid, decide_true]
      exact .some hd
    · simp only [hid, decide_false]
      exact ih

theorem Project.Related.exists_get? {d : Diagram K} {id : String} (hp : p.Related R p')
    (h : p.get? id = some d) : ∃ d', p'.get? id = some d' ∧ R d d' := by
  rcases rel_cases (hp id) with ⟨hnone, -⟩ | ⟨e, d', he, hd', hrel⟩
  · exact absurd (h.symm.trans hnone) (by simp)
  · exact ⟨d', hd', Option.some.inj (he.symm.trans h) ▸ hrel⟩

/-- What stands behind a node in one of two related copies has its like in the other. -/
theorem Copy.Related.exists_behind? (hR : ∀ d d', R d d' → d.id = d'.id) (hp : p.Related R p')
    (hc : c.Related R c') (h : c.behind? p n = some c₁) :
    ∃ c₁', c'.behind? p' n = some c₁' ∧ c₁.Related R c₁' := by
  obtain ⟨kind, name, target, hkind, hvalue, hget, hout, rfl⟩ := behind?_eq_some_iff.1 h
  obtain ⟨target', hget', hrel⟩ := hp.exists_get? hget
  have hid : target.id = target'.id := hR _ _ hrel
  have hout' : target'.id ∉ c'.stack := by
    rw [← hid, ← hc.stack]
    exact hout
  refine ⟨c'.inner n target', behind?_eq_some_iff.2
    ⟨kind, name, target', hkind, hvalue, hget', hout', rfl⟩, hrel, ?_, ?_⟩
  · rw [inner, inner, hc.scope]
  · rw [inner, inner, hid, hc.stack]

theorem Copy.Related.behind? (hR : ∀ d d', R d d' → d.id = d'.id) (hp : p.Related R p')
    (hc : c.Related R c') (n : PlacedNode K) :
    Option.Rel (Copy.Related R) (c.behind? p n) (c'.behind? p' n) := by
  cases hb : c.behind? p n with
  | some c₁ =>
    obtain ⟨c₁', hb', hrel⟩ := hc.exists_behind? hR hp hb
    rw [hb']
    exact .some hrel
  | none =>
    cases hb' : c'.behind? p' n with
    | none => exact .none
    | some c₁' =>
      have hflip : ∀ d d', flip R d d' → d.id = d'.id := fun d d' h => (hR d' d h).symm
      obtain ⟨c₁, h, -⟩ := hc.swap.exists_behind? hflip hp.swap hb'
      exact absurd (hb.symm.trans h) (by simp)

/-- Induction along the way down both projects at once. -/
theorem Copy.Related.induction {motive : Copy K → Copy K → Prop}
    (hR : ∀ d d', R d d' → d.id = d'.id) (hp : p.Related R p')
    (step : ∀ c c', c.Related R c' →
      (∀ n, Option.Rel motive (c.behind? p n) (c'.behind? p' n)) → motive c c')
    (hc : c.Related R c') : motive c c' := by
  induction c using Copy.induction p generalizing c' with
  | step c ih =>
    refine step c c' hc fun n => ?_
    rcases rel_cases (hc.behind? hR hp n) with ⟨hb, hb'⟩ | ⟨c₁, c₁', hb, hb', hrel⟩
    · rw [hb, hb']
      exact .none
    · rw [hb, hb']
      exact .some (ih n c₁ hb hrel)

end Related

/-! ### Diagrams that resemble each other -/

variable [Add K] [Div K] [One K] [Scalar K]

/-- The nodes that count are the same, but for their order and their positions, and so are the
    edges, but for their order and their directions; and the same ports show up. -/
structure Diagram.Resembles (d d' : Diagram K) : Prop where
  id : d.id = d'.id
  nodes : (d.firsts.map PlacedNode.unplaced).Perm (d'.firsts.map PlacedNode.unplaced)
  edges : (d.edges.map Edge.undirected).Perm (d'.edges.map Edge.undirected)
  reads : (∃ ports, d.connectionPorts = .ok ports) ↔ ∃ ports, d'.connectionPorts = .ok ports
  exposed : d.exposedIds.Perm d'.exposedIds

namespace Diagram.Resembles

variable {d d' : Diagram K}

theorem symm (h : d.Resembles d') : d'.Resembles d :=
  ⟨h.id.symm, h.nodes.symm, h.edges.symm, h.reads.symm, h.exposed.symm⟩

theorem root (h : d.Resembles d') : d.root.Related Resembles d'.root :=
  related_root (fun _ _ h => h.id) h

/-- What is listed node by node is the same, as long as positions do not count for it. -/
theorem perm_flatMap {β : Type} {f f' : PlacedNode K → List β} (h : d.Resembles d')
    (hf : ∀ n, f n.unplaced = f n) (hf' : ∀ n, f' n.unplaced = f' n)
    (hff' : ∀ n, (f n).Perm (f' n)) : (d.firsts.flatMap f).Perm (d'.firsts.flatMap f') := by
  rw [← flatMap_unplaced hf, ← flatMap_unplaced hf']
  exact h.nodes.flatMap fun n _ => hff' n

theorem exists_mem_firsts {P : PlacedNode K → Prop} (h : d.Resembles d')
    (hP : ∀ n, P n.unplaced ↔ P n) : (∃ n ∈ d.firsts, P n) ↔ ∃ n ∈ d'.firsts, P n := by
  have hunplaced : ∀ ns : List (PlacedNode K),
      (∃ n ∈ ns, P n) ↔ ∃ n ∈ ns.map PlacedNode.unplaced, P n := by
    intro ns
    simp only [List.mem_map, exists_exists_and_eq_and, hP]
  rw [hunplaced d.firsts, hunplaced d'.firsts]
  exact exists_congr fun n => and_congr_left fun _ => h.nodes.mem_iff

theorem map_node? (h : d.Resembles d') (id : String) :
    (d.node? id).map PlacedNode.unplaced = (d'.node? id).map PlacedNode.unplaced := by
  have hfind : ∀ d : Diagram K, (d.node? id).map PlacedNode.unplaced =
      (d.firsts.map PlacedNode.unplaced).find? (·.id = id) := by
    intro d
    rw [List.find?_map, ← find?_firsts]
    rfl
  have hnodup : ((d.firsts.map PlacedNode.unplaced).map (·.id)).Nodup := by
    rw [List.map_map]
    exact d.nodup_firsts
  rw [hfind, hfind]
  exact find?_key_perm hnodup h.nodes

theorem terminal (h : d.Resembles d') (id : String) : d.terminal id = d'.terminal id := by
  have hterminal : ∀ d : Diagram K, d.terminal id =
      ((d.node? id).map PlacedNode.unplaced).elim none fun n =>
        (n.kind.toOption.map Kind.connectionTerminal).getD none := by
    intro d
    rw [Diagram.terminal]
    cases d.node? id <;> rfl
  rw [hterminal, hterminal, h.map_node?]

end Diagram.Resembles

/-! ### Copies that resemble each other -/

namespace Copy

variable {p p' : Project K} {c c' c₁ c₁' : Copy K} {strict : Bool} {n : PlacedNode K}

section Resembling

variable (hp : p.Related Diagram.Resembles p') (hc : c.Related Diagram.Resembles c')

include hc

/-- A port has its like under the same name. -/
theorem port_of_related (id : String) : c.port id = c'.port id := by
  rw [port, port, hc.scope, hc.diagram.terminal]

include hp

theorem rel_behind? (n : PlacedNode K) :
    Option.Rel (Related Diagram.Resembles) (c.behind? p n) (c'.behind? p' n) :=
  hc.behind? (fun _ _ h => h.id) hp n

/-- The nodes of both copies are the same, but for their order. -/
theorem perm_nodes_of_related : (c.nodes p).Perm (c'.nodes p') := by
  refine Related.induction (motive := fun c c' => (c.nodes p).Perm (c'.nodes p'))
    (fun _ _ h => h.id) hp ?_ hc
  intro c c' hc ih
  rw [nodes_eq, nodes_eq]
  refine hc.diagram.perm_flatMap (fun _ => rfl) (fun _ => rfl) fun n => ?_
  rw [branch, branch, hc.scope]
  exact .cons _ (elim_of_rel (ih n) (.refl _) fun _ _ hnodes => hnodes)

/-- A node offers the same ports in both copies. -/
theorem perm_portsOf (n : PlacedNode K) : (c.portsOf p n).Perm (c'.portsOf p' n) :=
  elim_of_rel (rel_behind? hp hc n) (.refl _) fun _ _ hrel => hrel.diagram.exposed

omit hp hc in
theorem declares_iff {stop : String × String} : c.Declares p stop ↔
    ∃ n ∈ c.diagram.firsts, n.id = stop.1 ∧ stop.2 ∈ c.portsOf p n := by
  simp only [Declares, ← Diagram.find?_firsts, find?_key_eq_some_iff c.diagram.nodup_firsts,
    and_assoc]

theorem declares_congr (stop : String × String) : c.Declares p stop ↔ c'.Declares p' stop := by
  rw [declares_iff, declares_iff,
    hc.diagram.exists_mem_firsts (P := fun n => n.id = stop.1 ∧ stop.2 ∈ c.portsOf p n)
      fun _ => Iff.rfl]
  have hports : ∀ n, stop.2 ∈ c.portsOf p n ↔ stop.2 ∈ c'.portsOf p' n := fun n =>
    (perm_portsOf hp hc n).mem_iff
  simp only [hports]

/-- The same edges are accepted, but for their order and their directions. -/
theorem perm_accepted :
    ((c.accepted p).map Edge.undirected).Perm ((c'.accepted p').map Edge.undirected) := by
  classical
  -- an edge is accepted for its ends, whichever comes first
  have hends : ∀ (p : Project K) (c : Copy K), (c.accepted p).map Edge.undirected =
      (c.diagram.edges.map Edge.undirected).filter fun e => ∀ stop ∈ e, c.Declares p stop := by
    intro p c
    rw [List.filter_map, accepted]
    congr 1
    refine List.filter_congr fun e _ => ?_
    rw [Bool.eq_iff_iff, isUsable_iff, Function.comp_apply, decide_eq_true_iff, Edge.undirected,
      Sym2.ball]
  rw [hends, hends]
  simp only [declares_congr hp hc]
  exact hc.diagram.edges.filter _

/-- The same ports of a reference are wired, but for their order. -/
theorem perm_wired (n : PlacedNode K) : (c.wired p n).Perm (c'.wired p' n) := by
  have htouched : ∀ (p : Project K) (c : Copy K) (stop : String × String),
      stop ∈ (c.accepted p).flatMap Edge.ends ↔
        ∃ e ∈ (c.accepted p).map Edge.undirected, stop ∈ e := by
    intro p c stop
    simp only [List.mem_flatMap, List.mem_map, exists_exists_and_eq_and, Edge.mem_undirected]
  have hends : ∀ id, ((c.accepted p).flatMap Edge.ends).contains (n.id, id) =
      ((c'.accepted p').flatMap Edge.ends).contains (n.id, id) := by
    intro id
    rw [Bool.eq_iff_iff, List.contains_iff_mem, List.contains_iff_mem, htouched, htouched]
    exact exists_congr fun e => and_congr_left fun _ => (perm_accepted hp hc).mem_iff
  have hexposed : ((c.behind? p n).elim [] (·.diagram.exposedIds)).Perm
      ((c'.behind? p' n).elim [] (·.diagram.exposedIds)) :=
    elim_of_rel (rel_behind? hp hc n) (.refl _) fun _ _ hrel => hrel.diagram.exposed
  rw [wired, wired]
  simp only [hends]
  exact hexposed.filter _

theorem perm_boundary (n : PlacedNode K) : (c.boundary p n).Perm (c'.boundary p' n) := by
  rw [boundary, boundary, hc.scope]
  refine elim_of_rel (rel_behind? hp hc n) (.refl _) fun c₁ c₁' hrel => ?_
  simp only [port_of_related hrel]
  exact (perm_wired hp hc n).map _

/-- The same links are added, but for their order and their directions. -/
theorem perm_links :
    ((c.links p).map Link.undirected).Perm ((c'.links p').map Link.undirected) := by
  have hedges : ∀ es : List Edge, (es.map (Edge.link c'.scope)).map Link.undirected =
      (es.map Edge.undirected).map fun e =>
        (e.map fun stop => ⟨c'.scope ++ stop.1, some stop.2⟩, .edge) := by
    intro es
    rw [List.map_map, List.map_map]
    exact List.map_congr_left fun e _ => Edge.undirected_link c'.scope e
  rw [links_eq, links_eq, List.map_append, List.map_append, hc.scope, hedges, hedges]
  refine .append ?_ ?_
  · exact (perm_accepted hp hc).map _
  · refine (hc.diagram.perm_flatMap (fun _ => rfl) (fun _ => rfl) fun n => ?_).map _
    exact perm_boundary hp hc n

/-- The links of both unfoldings are the same, but for their order and their directions. -/
theorem perm_unfold_links :
    ((c.unfold p).links.map Link.undirected).Perm ((c'.unfold p').links.map Link.undirected) := by
  refine Related.induction (motive := fun c c' => ((c.unfold p).links.map Link.undirected).Perm
    ((c'.unfold p').links.map Link.undirected)) (fun _ _ h => h.id) hp ?_ hc
  intro c c' hc ih
  rw [unfold_eq, unfold_eq, List.map_append, List.map_append, List.map_flatMap, List.map_flatMap]
  refine .append ?_ (perm_links hp hc)
  refine hc.diagram.perm_flatMap (fun _ => rfl) (fun _ => rfl) fun n => ?_
  rw [below, below]
  rcases rel_cases (ih n) with ⟨hb, hb'⟩ | ⟨c₁, c₁', hb, hb', hlinks⟩
  · rw [hb, hb']
    exact .refl _
  · rw [hb, hb']
    exact hlinks

/-- Whether a node can be flattened is the same in both copies. -/
theorem reads_of_related (h : c.Reads p strict n) : c'.Reads p' strict n := by
  obtain ⟨⟨kind, ports, hkind, hports, hres⟩, hexposed⟩ := h
  refine ⟨⟨kind, ports, hkind, hports, ?_⟩, ?_⟩
  · cases hvalue : kind.referencedDiagram n.payload with
    | text name =>
      rw [hvalue] at hres
      intro hstrict target' hget'
      obtain ⟨target, hget, hrel⟩ := hp.swap.exists_get? hget'
      have hid : target.id = target'.id := Diagram.Resembles.id hrel
      rw [← hid, ← hc.stack]
      exact hres hstrict target hget
    | null => trivial
    | bool b => trivial
    | int k => trivial
    | real x => trivial
    | list entries =>
      rw [hvalue] at hres
      exact hres
    | object fields =>
      rw [hvalue] at hres
      exact hres
  · intro c₁' hb'
    rcases rel_cases (rel_behind? hp hc n) with ⟨-, hnone⟩ | ⟨c₁, c₂', hb, hb₂, hrel⟩
    · exact absurd (hb'.symm.trans hnone) (by simp)
    · obtain rfl : c₁' = c₂' := Option.some.inj (hb'.symm.trans hb₂)
      exact hrel.diagram.reads.1 (hexposed c₁ hb)

theorem isSound_of_related (h : c.IsSound p strict) : c'.IsSound p' strict := by
  intro n hn
  by_contra hno
  -- a node that cannot be flattened has its like in the other copy
  obtain ⟨m, hm, hm'⟩ := (hc.diagram.exists_mem_firsts (P := fun n => ¬ c'.Reads p' strict n)
    fun n => not_congr ⟨fun h => ⟨h.kind, h.exposed⟩, fun h => ⟨h.kind, h.exposed⟩⟩).2
    ⟨n, hn, hno⟩
  exact hm' (reads_of_related hp hc (h m hm))

theorem forall_isSound_of_related (h : ∀ d ∈ c.descendants p, d.IsSound p strict) :
    ∀ d ∈ c'.descendants p', d.IsSound p' strict := by
  revert h
  refine Related.induction (motive := fun c c' => (∀ d ∈ c.descendants p, d.IsSound p strict) →
    ∀ d ∈ c'.descendants p', d.IsSound p' strict) (fun _ _ h => h.id) hp ?_ hc
  intro c c' hc ih h
  rw [forall_descendants] at h ⊢
  obtain ⟨hown, hbelow⟩ := h
  refine ⟨isSound_of_related hp hc hown, ?_⟩
  intro n hn d hd
  obtain ⟨c₁', hb', hd⟩ := mem_below.1 hd
  -- a node of the other copy leads to its like
  obtain ⟨m, hm, hm'⟩ := (hc.diagram.exists_mem_firsts (P := fun n => c'.behind? p' n = some c₁')
    fun _ => Iff.rfl).2 ⟨n, hn, hb'⟩
  rcases rel_cases (ih m) with ⟨-, hnone⟩ | ⟨c₁, c₂', hb, hb₂, hsound⟩
  · exact absurd (hm'.symm.trans hnone) (by simp)
  · obtain rfl : c₁' = c₂' := Option.some.inj (hm'.symm.trans hb₂)
    exact hsound (fun d hd => hbelow m hm d (mem_below.2 ⟨c₁, hb, hd⟩)) d hd

end Resembling

end Copy

/-! ### Flattening side by side -/

namespace Diagram

variable {p p' : Project K} {d d' : Diagram K} {strict : Bool}

theorem Related.symm (hp : p.Related Resembles p') : p'.Related Resembles p :=
  hp.swap.imp fun _ _ h => h.symm

/-- One of two diagrams that resemble each other can be flattened if the other can. -/
theorem flatten_of_related (hp : p.Related Resembles p') (hd : d.Resembles d')
    (h : (d.flatten p strict).result = .ok (d.root.unfold p)) :
    (d'.flatten p' strict).result = .ok (d'.root.unfold p') := by
  obtain ⟨-, hsound, hnodup⟩ := flatten_eq_ok.1 h
  have hnodes := (Copy.perm_nodes_of_related hp hd.root).map (·.id)
  exact flatten_eq_ok.2 ⟨rfl, Copy.forall_isSound_of_related hp hd.root hsound,
    hnodes.nodup_iff.1 hnodup⟩

end Diagram

end NetBalance
