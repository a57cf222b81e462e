import NetBalance.Proofs.Components

/-! # Contracting links

    A graph contracts to a smaller one along a function that takes ports to
    ports of the smaller graph.  Each link becomes a link or shrinks to a port,
    and what is adjacent in the smaller graph was joined before.  Components
    are then neither merged nor lost, and as long as the classes come up in
    one order in both graphs they keep their numbers. -/

namespace NetBalance.PortGraph

/-- The graph contracts to another along a function on ports. -/
structure Contracts (g h : PortGraph) (φ : Port → Port) : Prop where
  /-- A link shrinks to a port or becomes a link. -/
  step : ∀ {p q}, g.Adjacent p q → φ p = φ q ∨ h.Adjacent (φ p) (φ q)
  mem_ports : ∀ {p}, p ∈ g.ports → φ p ∈ h.ports
  /-- A port is joined to what it becomes. -/
  home : ∀ {p}, p ∈ g.ports → g.Joined p (φ p)
  /-- A link of the smaller graph stands for a chain. -/
  lift : ∀ {p q}, h.Adjacent p q → p ∈ g.ports ∧ g.Joined p q
  fixed : ∀ {p}, p ∈ h.ports → φ p = p

namespace Contracts

variable {g h : PortGraph} {φ : Port → Port} (hc : g.Contracts h φ) {p q : Port}
include hc

theorem joined (hpq : g.Joined p q) : h.Joined (φ p) (φ q) := by
  -- link by link, each of which shrinks or stays a link
  induction hpq with
  | refl p => exact .refl _
  | step hadj _ ih =>
    rcases hc.step hadj with heq | hadj'
    · exact heq ▸ ih
    · exact .step hadj' ih

theorem joined_of_joined (hpq : h.Joined p q) : g.Joined p q := by
  induction hpq with
  | refl p => exact .refl p
  | step hadj _ ih => exact (hc.lift hadj).2.trans ih

/-- Contracting neither merges nor separates the ports that stay. -/
theorem joined_iff (hp : p ∈ h.ports) (hq : q ∈ h.ports) : h.Joined p q ↔ g.Joined p q := by
  refine ⟨hc.joined_of_joined, fun hpq => ?_⟩
  rw [← hc.fixed hp, ← hc.fixed hq]
  exact hc.joined hpq

/-- The ports that stay are those that the function leaves alone. -/
theorem mem_ports_iff : p ∈ h.ports ↔ p ∈ g.ports ∧ φ p = p := by
  constructor
  · intro hp
    obtain ⟨q, hq⟩ := mem_ports_iff_adjacent.1 hp
    exact ⟨(hc.lift hq).1, hc.fixed hp⟩
  · intro h
    obtain ⟨hp, hfix⟩ := h
    exact hfix ▸ hc.mem_ports hp

/-- When the classes come up in one order in both graphs, components with one number hold the same
    of the ports that stay. -/
theorem components_correspond
    (horder : distinct (h.ports.map g.classOf) = distinct (g.ports.map g.classOf)) :
    h.components.length = g.components.length ∧
      ∀ (i : Nat) (ms ms' : List Port), g.components[i]? = some ms → h.components[i]? = some ms' →
        ∀ p, p ∈ ms' ↔ p ∈ ms ∧ φ p = p := by
  -- the classes of the larger graph number the components of both
  have hg : ∀ p ∈ g.ports, ∀ q ∈ g.ports, g.classOf p = g.classOf q ↔ g.Joined p q :=
    fun p hp q _ => classOf_eq_iff hp
  have hh : ∀ p ∈ h.ports, ∀ q ∈ h.ports, g.classOf p = g.classOf q ↔ h.Joined p q :=
    fun p hp q hq => by rw [hc.joined_iff hp hq, classOf_eq_iff (hc.mem_ports_iff.1 hp).1]
  refine ⟨by rw [length_components hh, length_components hg, horder], ?_⟩
  intro i ms ms' hms hms' p
  -- both sides say that the class of the port is the one with this number
  have hplace : p ∈ h.ports → (p ∈ ms' ↔ p ∈ ms) := by
    intro hp
    have hh' := mem_component_iff_place hh hp (i := i)
    have hg' := mem_component_iff_place hg (hc.mem_ports_iff.1 hp).1 (i := i)
    rw [horder, ← hg'] at hh'
    simpa [hms, hms'] using hh'
  constructor
  · intro hp
    have hports := mem_ports_of_mem_component (List.mem_of_getElem? hms') hp
    exact ⟨(hplace hports).1 hp, hc.fixed hports⟩
  · intro h
    obtain ⟨hp, hfix⟩ := h
    have hports := mem_ports_of_mem_component (List.mem_of_getElem? hms) hp
    exact (hplace (hc.mem_ports_iff.2 ⟨hports, hfix⟩)).2 hp

end Contracts

end NetBalance.PortGraph
