import Mathlib.Data.List.Nodup
import Mathlib.Data.List.Perm.Basic

/-! # Lists under distinct keys

    Nodes, diagrams and tables are lists that are searched for the first entry
    with a key.  Where no key occurs twice, it is the only one, and the order
    of the entries does not count. -/

namespace NetBalance

/-! ### Entries that hold their keys -/

section Keys

variable {α β : Type} [DecidableEq β] {key : α → β} {xs ys : List α} {k : β} {x : α}

theorem key_of_find? (h : xs.find? (key · = k) = some x) : key x = k := by
  simpa using List.find?_some h

theorem find?_key_eq_some_iff (h : (xs.map key).Nodup) :
    xs.find? (key · = k) = some x ↔ x ∈ xs ∧ key x = k := by
  constructor
  · intro hx
    exact ⟨List.mem_of_find?_eq_some hx, key_of_find? hx⟩
  · intro hx
    obtain ⟨hx, rfl⟩ := hx
    have hsome : (xs.find? (key · = key x)).isSome := List.find?_isSome.2 ⟨x, hx, by simp⟩
    obtain ⟨y, hy⟩ := Option.isSome_iff_exists.1 hsome
    rw [hy, List.inj_on_of_nodup_map h (List.mem_of_find?_eq_some hy) hx (key_of_find? hy)]

/-- With distinct keys the order does not count for what is found. -/
theorem find?_key_perm (h : (xs.map key).Nodup) (hperm : xs.Perm ys) :
    xs.find? (key · = k) = ys.find? (key · = k) := by
  have h' : (ys.map key).Nodup := (hperm.map key).nodup_iff.1 h
  refine Option.ext fun x => ?_
  rw [find?_key_eq_some_iff h, find?_key_eq_some_iff h', hperm.mem_iff]

end Keys

/-! ### Tables -/

section Tables

variable {α β : Type} [BEq α] [LawfulBEq α] {table : List (α × β)} {a : α} {b : β}

theorem mem_of_lookup (h : table.lookup a = some b) : (a, b) ∈ table := by
  obtain ⟨_, _, rfl, -⟩ := List.lookup_eq_some_iff.1 h
  simp

/-- With every key listed once, looking a key up finds its only entry. -/
theorem lookup_eq_some_iff (hc : (table.map (·.1)).Nodup) :
    table.lookup a = some b ↔ (a, b) ∈ table := by
  refine ⟨mem_of_lookup, fun h => ?_⟩
  induction table with
  | nil => exact absurd h List.not_mem_nil
  | cons e table ih =>
    rw [List.map_cons, List.nodup_cons] at hc
    rw [List.lookup_cons]
    rcases List.mem_cons.1 h with rfl | h
    · simp
    -- the key stands further on, so the first entry is that of another
    · have hne : (a == e.1) = false :=
        beq_eq_false_iff_ne.2 fun ha => hc.1 (ha ▸ List.mem_map_of_mem h)
      rw [hne]
      exact ih hc.2 h

end Tables

end NetBalance
