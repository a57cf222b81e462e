import NetBalance.Network.PortGraph
import NetBalance.Proofs.Keys
import Mathlib.Data.List.Induction

/-! # Components of a port graph

    The search starts with every port in a class of its own and merges the
    classes at the two ends of each link.  Two invariants carry it: ports of
    one class are joined by a chain of links, and the ends of every link that
    was read are in one class.  Together they make the classes the components. -/

namespace NetBalance

/-! ### Lists without repetitions -/

section Distinct

variable {α β γ : Type} [DecidableEq α] [DecidableEq β] [DecidableEq γ]

@[simp] theorem distinct_nil : distinct ([] : List α) = [] := rfl

/-- An entry at the end stays only if it is new. -/
theorem distinct_concat (xs : List α) (x : α) :
    distinct (xs ++ [x]) = if x ∈ distinct xs then distinct xs else distinct xs ++ [x] := by
  rw [distinct, List.foldl_append]
  rfl

@[simp] theorem mem_distinct {xs : List α} {x : α} : x ∈ distinct xs ↔ x ∈ xs := by
  induction xs using List.reverseRecOn generalizing x with
  | nil => rfl
  | append_singleton xs y ih =>
    rw [distinct_concat]
    by_cases hy : y ∈ xs
    · rw [if_pos (ih.2 hy), ih, List.mem_append, List.mem_singleton]
      exact ⟨Or.inl, fun h => h.elim id fun e => e ▸ hy⟩
    · rw [if_neg (mt ih.1 hy), List.mem_append, List.mem_append, ih]

theorem nodup_distinct (xs : List α) : (distinct xs).Nodup := by
  induction xs using List.reverseRecOn with
  | nil => exact List.nodup_nil
  | append_singleton xs x ih =>
    rw [distinct_concat]
    split
    · exact ih
    · next h =>
      refine List.Nodup.append ih (List.nodup_singleton x) ?_
      intro y hy hyx
      exact h (List.mem_singleton.1 hyx ▸ hy)

/-- Entries that stand earlier already add nothing. -/
theorem distinct_append_of_subset {xs ys : List α} (h : ys ⊆ xs) :
    distinct (xs ++ ys) = distinct xs := by
  induction ys using List.reverseRecOn with
  | nil => rw [List.append_nil]
  | append_singleton ys y ih =>
    have hys : ys ⊆ xs := fun z hz => h (List.mem_append_left _ hz)
    have hy : y ∈ xs := h (by simp)
    rw [← List.append_assoc, distinct_concat, ih hys, if_pos (mem_distinct.2 hy)]

/-- What follows is cut the same way behind two beginnings that are cut to the same. -/
theorem distinct_append_congr {xs ys : List α} (h : distinct xs = distinct ys) (zs : List α) :
    distinct (xs ++ zs) = distinct (ys ++ zs) := by
  induction zs using List.reverseRecOn with
  | nil => simpa using h
  | append_singleton zs z ih =>
    rw [← List.append_assoc, ← List.append_assoc, distinct_concat, distinct_concat, ih]

omit [DecidableEq β] [DecidableEq γ] in
/-- What each part repeats of its own beginning can be left out. -/
theorem distinct_flatMap_append {ι : Type} {f g : ι → List α} {parts : List ι}
    (h : ∀ c ∈ parts, g c ⊆ f c) :
    distinct (parts.flatMap fun c => f c ++ g c) = distinct (parts.flatMap f) := by
  induction parts using List.reverseRecOn with
  | nil => rfl
  | append_singleton parts c ih =>
    have hc : g c ⊆ parts.flatMap (fun c => f c ++ g c) ++ f c := fun x hx =>
      List.mem_append_right _ (h c (by simp) hx)
    rw [List.flatMap_append, List.flatMap_append, List.flatMap_singleton, List.flatMap_singleton,
      ← List.append_assoc, distinct_append_of_subset hc]
    exact distinct_append_congr (ih fun d hd => h d (List.mem_append_left _ hd)) _

/-- Only the first of the entries with one key counts for the order of the keys. -/
theorem distinct_map_distinct (xs : List α) (f : α → β) :
    distinct ((distinct xs).map f) = distinct (xs.map f) := by
  induction xs using List.reverseRecOn with
  | nil => rfl
  | append_singleton xs x ih =>
    rw [List.map_append, distinct_concat]
    split
    · next h =>
      have hx : [f x] ⊆ xs.map f := by
        simpa using List.mem_map_of_mem (mem_distinct.1 h)
      rw [List.map_singleton, distinct_append_of_subset hx, ih]
    · rw [List.map_append]
      exact distinct_append_congr ih _

theorem distinct_distinct (xs : List α) : distinct (distinct xs) = distinct xs := by
  simpa using distinct_map_distinct xs id

omit [DecidableEq α] in
/-- The place of an entry's key among the distinct keys depends only on which entries share a
    key, not on the keys themselves. -/
theorem getElem?_distinct_map {xs : List α} {f : α → β} {g : α → γ}
    (h : ∀ x ∈ xs, ∀ y ∈ xs, f x = f y ↔ g x = g y) :
    (distinct (xs.map f)).length = (distinct (xs.map g)).length ∧
      ∀ x ∈ xs, ∀ i : Nat, (distinct (xs.map f))[i]? = some (f x) ↔
        (distinct (xs.map g))[i]? = some (g x) := by
  induction xs using List.reverseRecOn with
  | nil => exact ⟨rfl, fun x hx => absurd hx List.not_mem_nil⟩
  | append_singleton xs a ih =>
    obtain ⟨hlen, hplace⟩ := ih fun x hx y hy =>
      h x (List.mem_append_left _ hx) y (List.mem_append_left _ hy)
    have hlast : a ∈ xs ++ [a] := by simp
    simp only [List.map_append, List.map_cons, List.map_nil, distinct_concat, mem_distinct]
    by_cases ha : f a ∈ xs.map f
    · -- the key of `a` is that of an earlier entry, for both kinds of keys
      obtain ⟨b, hb, hfb⟩ := List.mem_map.1 ha
      have hgb : g b = g a := (h b (List.mem_append_left _ hb) a hlast).1 hfb
      rw [if_pos ha, if_pos (hgb ▸ List.mem_map_of_mem hb)]
      refine ⟨hlen, fun x hx i => ?_⟩
      rcases List.mem_append.1 hx with hx | hx
      · exact hplace x hx i
      · rw [List.mem_singleton.1 hx, ← hfb, ← hgb]
        exact hplace b hb i
    -- the key of `a` is new, for both kinds of keys, and comes last
    · have ha' : g a ∉ xs.map g := by
        intro hg
        obtain ⟨b, hb, hgb⟩ := List.mem_map.1 hg
        exact ha ((h b (List.mem_append_left _ hb) a hlast).2 hgb ▸ List.mem_map_of_mem hb)
      rw [if_neg ha, if_neg ha']
      refine ⟨by simp [hlen], fun x hx i => ?_⟩
      rcases Nat.lt_trichotomy i (distinct (xs.map f)).length with hi | hi | hi
      · rw [List.getElem?_append_left hi, List.getElem?_append_left (hlen ▸ hi)]
        rcases List.mem_append.1 hx with hx | hx
        · exact hplace x hx i
        · -- a new key does not stand among the old ones
          rw [List.mem_singleton.1 hx]
          constructor
          · intro e
            exact absurd (mem_distinct.1 (List.mem_of_getElem? e)) ha
          · intro e
            exact absurd (mem_distinct.1 (List.mem_of_getElem? e)) ha'
      · subst hi
        rw [List.getElem?_concat_length, hlen, List.getElem?_concat_length]
        simp only [Option.some.injEq]
        exact h a hlast x hx
      · rw [List.getElem?_eq_none (by simp; omega), List.getElem?_eq_none (by simp; omega)]
        simp

end Distinct

/-! ### Links and chains -/

theorem Link.joins_iff {l : Link} {p q : Port} :
    l.joins p q ↔ l.first = p ∧ l.second = q ∨ l.first = q ∧ l.second = p := by
  simp [Link.joins]

/-- A link leads from a port to itself exactly when it joins a port to itself. -/
theorem Link.first_eq_second_iff {l : Link} {p q : Port} (h : l.joins p q) :
    l.first = l.second ↔ p = q := by
  rcases Link.joins_iff.1 h with ⟨rfl, rfl⟩ | ⟨rfl, rfl⟩
  · rfl
  · exact eq_comm

theorem Link.touches_iff {l : Link} {p : Port} : l.touches p ↔ l.first = p ∨ l.second = p := by
  simp [Link.touches]

namespace PortGraph

variable {g : PortGraph} {p q r : Port}

theorem Adjacent.symm (h : g.Adjacent p q) : g.Adjacent q p := by
  obtain ⟨l, hl, hj⟩ := h
  exact ⟨l, hl, Link.joins_iff.2 (Link.joins_iff.1 hj).symm⟩

/-- The ends of a link of the graph are joined. -/
theorem adjacent_of_mem {l : Link} (h : l ∈ g.links) : g.Adjacent l.first l.second :=
  ⟨l, h, Link.joins_iff.2 (Or.inl ⟨rfl, rfl⟩)⟩

theorem Adjacent.joined (h : g.Adjacent p q) : g.Joined p q := .step h (.refl q)

theorem Joined.trans (hpq : g.Joined p q) (hqr : g.Joined q r) : g.Joined p r := by
  induction hpq with
  | refl => exact hqr
  | step h _ ih => exact .step h (ih hqr)

theorem Joined.symm (h : g.Joined p q) : g.Joined q p := by
  induction h with
  | refl p => exact .refl p
  | step h _ ih => exact ih.trans h.symm.joined

/-- The ports of a graph are those that a link touches. -/
theorem mem_ports : p ∈ g.ports ↔ ∃ l ∈ g.links, l.first = p ∨ l.second = p := by
  simp only [ports, mem_distinct, List.mem_flatMap, Link.ports, List.mem_cons, List.not_mem_nil,
    or_false, eq_comm]

theorem isConnected_iff : g.isConnected p ↔ p ∈ g.ports := by
  simp only [isConnected, List.any_eq_true, mem_ports, Link.touches_iff]

theorem nodup_ports (g : PortGraph) : g.ports.Nodup := nodup_distinct _

theorem Adjacent.mem_ports (h : g.Adjacent p q) : p ∈ g.ports := by
  obtain ⟨l, hl, hj⟩ := h
  refine PortGraph.mem_ports.2 ⟨l, hl, ?_⟩
  exact (Link.joins_iff.1 hj).imp And.left And.right

/-- A port has a neighbour exactly when a link touches it. -/
theorem mem_ports_iff_adjacent : p ∈ g.ports ↔ ∃ q, g.Adjacent p q := by
  constructor
  · intro h
    obtain ⟨l, hl, h | h⟩ := PortGraph.mem_ports.1 h
    · exact ⟨l.second, h ▸ adjacent_of_mem hl⟩
    · exact ⟨l.first, h ▸ (adjacent_of_mem hl).symm⟩
  · intro h
    obtain ⟨q, h⟩ := h
    exact h.mem_ports

theorem Joined.mem_ports (h : g.Joined p q) (hp : p ∈ g.ports) : q ∈ g.ports := by
  induction h with
  | refl => exact hp
  | step h _ ih => exact ih h.symm.mem_ports

/-! ### Classes -/

namespace Classes

variable {c : Classes} {l : Link}

/-- Two ports are in one class. -/
def Same (c : Classes) (p q : Port) : Prop := ∃ n, c.lookup p = some n ∧ c.lookup q = some n

theorem Same.symm (h : c.Same p q) : c.Same q p := by
  obtain ⟨n, hp, hq⟩ := h
  exact ⟨n, hq, hp⟩

theorem Same.trans (h : c.Same p q) (h' : c.Same q r) : c.Same p r := by
  obtain ⟨n, hp, hq⟩ := h
  obtain ⟨m, hq', hr⟩ := h'
  rw [hq] at hq'
  exact ⟨n, hp, (Option.some.inj hq') ▸ hr⟩

theorem exists_lookup (hp : p ∈ c.map (·.1)) : ∃ n, c.lookup p = some n := by
  rw [← Option.isSome_iff_exists, List.lookup_isSome_iff]
  obtain ⟨e, he, rfl⟩ := List.mem_map.1 hp
  exact ⟨e, he, by simp⟩

theorem lookup_merge (c : Classes) (first second : Nat) (p : Port) :
    (c.merge first second).lookup p =
      (c.lookup p).map fun n => if n = second then first else n := by
  induction c with
  | nil => rfl
  | cons e c ih =>
    obtain ⟨q, n⟩ := e
    simp only [merge, List.map_cons, List.lookup_cons]
    split
    · rfl
    · exact ih

theorem map_fst_joinLink (c : Classes) (l : Link) : (c.joinLink l).map (·.1) = c.map (·.1) := by
  unfold joinLink merge
  split
  · split
    · rfl
    · rw [List.map_map]
      rfl
  · rfl

/-- Reading a link never parts ports that are in one class. -/
theorem Same.joinLink (h : c.Same p q) (l : Link) : (c.joinLink l).Same p q := by
  obtain ⟨n, hp, hq⟩ := h
  unfold Classes.joinLink
  split
  · next first second _ _ =>
    split
    · exact ⟨n, hp, hq⟩
    · refine ⟨if n = second then first else n, ?_, ?_⟩
      · rw [lookup_merge, hp, Option.map_some]
      · rw [lookup_merge, hq, Option.map_some]
  · exact ⟨n, hp, hq⟩

/-- Reading a link puts its ends into one class. -/
theorem same_ends_joinLink (hf : l.first ∈ c.map (·.1)) (hs : l.second ∈ c.map (·.1)) :
    (c.joinLink l).Same l.first l.second := by
  obtain ⟨m, hm⟩ := exists_lookup hf
  obtain ⟨n, hn⟩ := exists_lookup hs
  unfold joinLink
  rw [hm, hn]
  by_cases hmn : m = n
  · simp only [hmn, if_true]
    exact ⟨n, hmn ▸ hm, hn⟩
  · simp only [hmn, if_false]
    refine ⟨m, ?_, ?_⟩
    · rw [lookup_merge, hm, Option.map_some, if_neg hmn]
    · rw [lookup_merge, hn, Option.map_some, if_pos rfl]

/-- Ports that are in one class after a link is read were so before, or the link has one end in
    the class of each. -/
theorem Same.of_joinLink (h : (c.joinLink l).Same p q) :
    c.Same p q ∨ c.Same p l.first ∧ c.Same l.second q ∨ c.Same p l.second ∧ c.Same l.first q := by
  unfold Classes.joinLink at h
  split at h
  · next first second hf hs =>
    split at h
    · exact Or.inl h
    · obtain ⟨n, hp, hq⟩ := h
      rw [lookup_merge] at hp hq
      obtain ⟨a, ha, han⟩ := Option.map_eq_some_iff.1 hp
      obtain ⟨b, hb, hbn⟩ := Option.map_eq_some_iff.1 hq
      -- a port has changed its class only if it was in that of the second end
      by_cases ha' : a = second <;> by_cases hb' : b = second
      · exact Or.inl ⟨second, ha' ▸ ha, hb' ▸ hb⟩
      · rw [if_pos ha'] at han
        rw [if_neg hb'] at hbn
        exact Or.inr (Or.inr ⟨⟨second, ha' ▸ ha, hs⟩, ⟨first, hf, by rw [hb, hbn, han]⟩⟩)
      · rw [if_neg ha'] at han
        rw [if_pos hb'] at hbn
        exact Or.inr (Or.inl ⟨⟨first, by rw [ha, han, hbn], hf⟩, ⟨second, hs, hb' ▸ hb⟩⟩)
      · rw [if_neg ha'] at han
        rw [if_neg hb'] at hbn
        exact Or.inl ⟨n, han ▸ ha, hbn ▸ hb⟩
  · exact Or.inl h

theorem map_fst_foldl_joinLink (ls : List Link) (c : Classes) :
    (ls.foldl Classes.joinLink c).map (·.1) = c.map (·.1) := by
  induction ls generalizing c with
  | nil => rfl
  | cons l ls ih => rw [List.foldl_cons, ih, map_fst_joinLink]

theorem Same.foldl_joinLink (h : c.Same p q) (ls : List Link) :
    (ls.foldl Classes.joinLink c).Same p q := by
  induction ls generalizing c with
  | nil => exact h
  | cons l ls ih => exact ih (h.joinLink l)

end Classes

/-- Soundness of the search: only ports that a chain of links joins come into one class. -/
theorem joined_of_same_foldl {ls : List Link} (hls : ∀ l ∈ ls, l ∈ g.links) {c : Classes}
    (hc : ∀ p q, c.Same p q → g.Joined p q) (h : (ls.foldl Classes.joinLink c).Same p q) :
    g.Joined p q := by
  induction ls generalizing c with
  | nil => exact hc p q h
  | cons l ls ih =>
    refine ih (fun l' hl' => hls l' (List.mem_cons_of_mem l hl')) ?_ h
    intro a b hab
    have hl : g.Joined l.first l.second := (adjacent_of_mem (hls l List.mem_cons_self)).joined
    rcases hab.of_joinLink with hab | ⟨ha, hb⟩ | ⟨ha, hb⟩
    · exact hc a b hab
    · exact (hc _ _ ha).trans (hl.trans (hc _ _ hb))
    · exact (hc _ _ ha).trans (hl.symm.trans (hc _ _ hb))

/-- Completeness of one pass: the ends of every link that is read are in one class after it. -/
theorem same_foldl_of_mem {ls : List Link} {c : Classes} {l : Link} (hl : l ∈ ls)
    (hf : l.first ∈ c.map (·.1)) (hs : l.second ∈ c.map (·.1)) :
    (ls.foldl Classes.joinLink c).Same l.first l.second := by
  induction ls generalizing c with
  | nil => exact absurd hl List.not_mem_nil
  | cons l' ls ih =>
    rcases List.mem_cons.1 hl with rfl | hl
    · exact (Classes.same_ends_joinLink hf hs).foldl_joinLink ls
    · rw [← Classes.map_fst_joinLink c l'] at hf hs
      exact ih hl hf hs

theorem map_fst_classes (g : PortGraph) : g.classes.map (·.1) = g.ports := by
  rw [classes, Classes.map_fst_foldl_joinLink, Classes.singletons, List.zipIdx_map_fst]

/-- At first no two ports are in one class. -/
theorem eq_of_same_singletons {ports : List Port} (h : (Classes.singletons ports).Same p q) :
    p = q := by
  obtain ⟨n, hp, hq⟩ := h
  have hp' := List.mem_zipIdx_iff_getElem?.1 (mem_of_lookup hp)
  have hq' := List.mem_zipIdx_iff_getElem?.1 (mem_of_lookup hq)
  exact Option.some.inj (hp'.symm.trans hq')

/-- The classes at the end of the search are the components of the graph. -/
theorem same_classes_iff : g.classes.Same p q ↔ p ∈ g.ports ∧ g.Joined p q := by
  constructor
  · intro h
    refine ⟨?_, joined_of_same_foldl (fun l hl => hl) ?_ h⟩
    · obtain ⟨n, hp, -⟩ := h
      rw [← map_fst_classes]
      exact List.mem_map_of_mem (mem_of_lookup hp)
    -- at the start each port is alone in its class
    · intro a b hab
      exact eq_of_same_singletons hab ▸ .refl a
  · intro h
    obtain ⟨hp, h⟩ := h
    induction h with
    | refl p =>
      rw [← map_fst_classes] at hp
      obtain ⟨n, hn⟩ := Classes.exists_lookup hp
      exact ⟨n, hn, hn⟩
    -- each link of the chain was read, which put its ends into one class
    | step h _ ih =>
      refine Classes.Same.trans ?_ (ih h.symm.mem_ports)
      obtain ⟨l, hl, hj⟩ := h
      have hports : (Classes.singletons g.ports).map (·.1) = g.ports := List.zipIdx_map_fst 0 _
      have hends : g.classes.Same l.first l.second := by
        refine same_foldl_of_mem hl ?_ ?_ <;> rw [hports]
        · exact mem_ports.2 ⟨l, hl, Or.inl rfl⟩
        · exact mem_ports.2 ⟨l, hl, Or.inr rfl⟩
      rcases Link.joins_iff.1 hj with ⟨rfl, rfl⟩ | ⟨rfl, rfl⟩
      · exact hends
      · exact hends.symm

/-! ### Components -/

/-- The class of a port at the end of the search. -/
def classOf (g : PortGraph) (p : Port) : Option Nat := g.classes.lookup p

theorem nodup_map_fst_classes (g : PortGraph) : (g.classes.map (·.1)).Nodup :=
  map_fst_classes g ▸ nodup_ports g

theorem classOf_eq_some_iff {n : Nat} : g.classOf p = some n ↔ (p, n) ∈ g.classes :=
  lookup_eq_some_iff (nodup_map_fst_classes g)

/-- Two ports of the graph have one class exactly when a chain of links joins them. -/
theorem classOf_eq_iff (hp : p ∈ g.ports) : g.classOf p = g.classOf q ↔ g.Joined p q := by
  have hex : ∃ n, g.classOf p = some n := Classes.exists_lookup (map_fst_classes g ▸ hp)
  obtain ⟨n, hn⟩ := hex
  constructor
  · intro h
    exact (same_classes_iff.1 ⟨n, hn, h.symm.trans hn⟩).2
  · intro h
    obtain ⟨m, hm, hm'⟩ := same_classes_iff.2 ⟨hp, h⟩
    exact hm.trans hm'.symm

/-- The component with an index holds the ports whose class is the one with that index. -/
theorem getElem?_components {i : Nat} :
    g.components[i]? = ((distinct (g.classes.map (·.2)))[i]?).map fun n =>
      (g.classes.filter (·.2 = n)).map (·.1) := by
  rw [components, List.getElem?_map]

theorem mem_component_iff {i : Nat} {ms : List Port} (h : g.components[i]? = some ms) :
    p ∈ ms ↔ ∃ n, (distinct (g.classes.map (·.2)))[i]? = some n ∧ g.classOf p = some n := by
  rw [getElem?_components] at h
  obtain ⟨n, hn, rfl⟩ := Option.map_eq_some_iff.1 h
  simp only [hn, Option.some.injEq, exists_eq_left', classOf_eq_some_iff, List.mem_map,
    List.mem_filter, decide_eq_true_eq]
  constructor
  · intro h
    obtain ⟨⟨p, m⟩, ⟨hm, rfl⟩, rfl⟩ := h
    exact hm
  · intro h
    exact ⟨(p, n), ⟨h, rfl⟩, rfl⟩

theorem mem_ports_of_mem_component {ms : List Port} (h : ms ∈ g.components) (hp : p ∈ ms) :
    p ∈ g.ports := by
  obtain ⟨i, hi⟩ := List.getElem?_of_mem h
  obtain ⟨n, -, hn⟩ := (mem_component_iff hi).1 hp
  rw [← map_fst_classes]
  exact List.mem_map_of_mem (classOf_eq_some_iff.1 hn)

/-- A component holds whatever a chain of links joins to one of its ports, and nothing else. -/
theorem mem_component_iff_joined {ms : List Port} (h : ms ∈ g.components) (hp : p ∈ ms) :
    q ∈ ms ↔ g.Joined p q := by
  obtain ⟨i, hi⟩ := List.getElem?_of_mem h
  rw [← classOf_eq_iff (mem_ports_of_mem_component h hp), mem_component_iff hi]
  obtain ⟨n, hn, hpn⟩ := (mem_component_iff hi).1 hp
  simp only [hn, hpn, Option.some.injEq, exists_eq_left', eq_comm]

theorem exists_component (hp : p ∈ g.ports) : ∃ ms ∈ g.components, p ∈ ms := by
  obtain ⟨n, hn⟩ : ∃ n, g.classOf p = some n := Classes.exists_lookup (map_fst_classes g ▸ hp)
  have hmem : n ∈ distinct (g.classes.map (·.2)) :=
    mem_distinct.2 (List.mem_map_of_mem (classOf_eq_some_iff.1 hn))
  obtain ⟨i, hi⟩ := List.getElem?_of_mem hmem
  have hc := getElem?_components (g := g) (i := i)
  rw [hi, Option.map_some] at hc
  exact ⟨_, List.mem_of_getElem? hc, (mem_component_iff hc).2 ⟨n, hi, hn⟩⟩

/-- No port stands twice in the components. -/
theorem nodup_flatten_components (g : PortGraph) : g.components.flatten.Nodup := by
  rw [List.nodup_flatten]
  constructor
  · intro ms hms
    obtain ⟨n, -, rfl⟩ := List.mem_map.1 hms
    exact (nodup_map_fst_classes g).sublist (List.filter_sublist.map _)
  -- a port in two components would have two classes
  · refine List.pairwise_map.2 ((nodup_distinct _).imp ?_)
    intro m n hmn p hpm hpn
    obtain ⟨⟨_, a⟩, ha, rfl⟩ := List.mem_map.1 hpm
    obtain ⟨⟨_, b⟩, hb, hab⟩ := List.mem_map.1 hpn
    simp only [List.mem_filter, decide_eq_true_eq] at ha hb hab
    obtain ⟨ha, rfl⟩ := ha
    obtain ⟨hb, rfl⟩ := hb
    subst hab
    have hsame := (classOf_eq_some_iff.2 ha).symm.trans (classOf_eq_some_iff.2 hb)
    exact hmn (Option.some.inj hsame)

/-! ### The order of components -/

/-- The members of a component stand in the order of the ports. -/
theorem sublist_of_mem_components {ms : List Port} (h : ms ∈ g.components) :
    ms.Sublist g.ports := by
  obtain ⟨number, -, rfl⟩ := List.mem_map.1 h
  rw [← map_fst_classes]
  exact List.filter_sublist.map _

theorem ne_nil_of_mem_components {ms : List Port} (h : ms ∈ g.components) : ms ≠ [] := by
  obtain ⟨number, hnumber, rfl⟩ := List.mem_map.1 h
  obtain ⟨entry, hentry, rfl⟩ := List.mem_map.1 (mem_distinct.1 hnumber)
  have hmem : entry.1 ∈ (g.classes.filter (·.2 = entry.2)).map (·.1) :=
    List.mem_map_of_mem (List.mem_filter.2 ⟨hentry, by simp⟩)
  exact List.ne_nil_of_mem hmem

/-- The first entries of the groups under one key, group by group, stand in the order of the
    entries. -/
theorem sublist_heads {α β : Type} [DecidableEq β] (entries : List (α × β)) :
    ((distinct (entries.map (·.2))).filterMap fun key =>
      ((entries.filter (·.2 = key)).map (·.1)).head?).Sublist (entries.map (·.1)) := by
  induction entries using List.reverseRecOn with
  | nil => exact List.Sublist.refl _
  | append_singleton entries e ih =>
    -- a group that was there before keeps its first entry
    have hold : ∀ key ∈ distinct (entries.map (·.2)),
        (((entries ++ [e]).filter (·.2 = key)).map (·.1)).head? =
          ((entries.filter (·.2 = key)).map (·.1)).head? := by
      intro key hkey
      obtain ⟨entry, hentry, rfl⟩ := List.mem_map.1 (mem_distinct.1 hkey)
      have hmem : entry ∈ entries.filter (·.2 = entry.2) :=
        List.mem_filter.2 ⟨hentry, by simp⟩
      have hne : (entries.filter (·.2 = entry.2)).map (·.1) ≠ [] :=
        List.ne_nil_of_mem (List.mem_map_of_mem hmem)
      rw [List.filter_append, List.map_append, List.head?_append_of_ne_nil _ hne]
    rw [List.map_append, List.map_append, List.map_singleton, distinct_concat]
    by_cases hkey : e.2 ∈ distinct (entries.map (·.2))
    · rw [if_pos hkey, List.filterMap_congr hold]
      exact ih.trans (List.sublist_append_left _ _)
    · -- the new group holds the new entry alone
      have hnone : entries.filter (·.2 = e.2) = [] := by
        refine List.filter_eq_nil_iff.2 fun entry hentry heq => hkey ?_
        exact mem_distinct.2 (List.mem_map.2 ⟨entry, hentry, by simpa using heq⟩)
      have hnew : ((entries ++ [e]).filter (·.2 = e.2)).map (·.1) = [e.1] := by
        rw [List.filter_append, hnone]
        simp
      rw [if_neg hkey, List.filterMap_append, List.filterMap_congr hold]
      refine ih.append ?_
      simp only [List.filterMap_cons, List.filterMap_nil, hnew, List.head?_cons, List.map_cons,
        List.map_nil, List.Sublist.refl]

theorem sublist_heads_components (g : PortGraph) :
    (g.components.filterMap List.head?).Sublist g.ports := by
  rw [components, List.filterMap_map, ← map_fst_classes]
  exact sublist_heads g.classes

theorem perm_flatten_components (g : PortGraph) : g.components.flatten.Perm g.ports := by
  rw [List.perm_ext_iff_of_nodup g.nodup_flatten_components g.nodup_ports]
  intro p
  rw [List.mem_flatten]
  constructor
  · intro h
    obtain ⟨ms, hms, hp⟩ := h
    exact mem_ports_of_mem_component hms hp
  · exact exists_component

/-! ### Numbers of components

    A key is any function on ports that ports of the graph share exactly when a chain of links
    joins them; the components stand in the order in which the keys first appear. -/

section Keys

variable {β : Type} [DecidableEq β] {key : Port → β}

theorem place_classes (hkey : ∀ p ∈ g.ports, ∀ q ∈ g.ports, key p = key q ↔ g.Joined p q) :
    (distinct (g.classes.map (·.2))).length = (distinct (g.ports.map key)).length ∧
      ∀ e ∈ g.classes, ∀ i : Nat, (distinct (g.classes.map (·.2)))[i]? = some e.2 ↔
        (distinct (g.ports.map key))[i]? = some (key e.1) := by
  have hports : g.ports.map key = g.classes.map fun e => key e.1 := by
    rw [← map_fst_classes, List.map_map]
    rfl
  rw [hports]
  -- classes and keys are shared by the same ports, those that are joined
  refine getElem?_distinct_map fun a ha b hb => ?_
  have hpa : a.1 ∈ g.ports := map_fst_classes g ▸ List.mem_map_of_mem ha
  have hpb : b.1 ∈ g.ports := map_fst_classes g ▸ List.mem_map_of_mem hb
  rw [hkey a.1 hpa b.1 hpb, ← classOf_eq_iff hpa, classOf_eq_some_iff.2 ha,
    classOf_eq_some_iff.2 hb, Option.some.injEq]

theorem length_components (hkey : ∀ p ∈ g.ports, ∀ q ∈ g.ports, key p = key q ↔ g.Joined p q) :
    g.components.length = (distinct (g.ports.map key)).length := by
  rw [components, List.length_map, (place_classes hkey).1]

theorem mem_component_iff_place
    (hkey : ∀ p ∈ g.ports, ∀ q ∈ g.ports, key p = key q ↔ g.Joined p q) (hp : p ∈ g.ports)
    {i : Nat} :
    (∃ ms, g.components[i]? = some ms ∧ p ∈ ms) ↔
      (distinct (g.ports.map key))[i]? = some (key p) := by
  obtain ⟨n, hn⟩ : ∃ n, g.classOf p = some n := Classes.exists_lookup (map_fst_classes g ▸ hp)
  rw [← (place_classes hkey).2 (p, n) (classOf_eq_some_iff.1 hn)]
  constructor
  · intro h
    obtain ⟨ms, hms, hpm⟩ := h
    obtain ⟨m, hm, hpm⟩ := (mem_component_iff hms).1 hpm
    rw [hm, ← hpm, hn]
  · intro h
    -- the component with the index is that of the class
    have hc := getElem?_components (g := g) (i := i)
    rw [h, Option.map_some] at hc
    exact ⟨_, hc, (mem_component_iff hc).2 ⟨n, h, hn⟩⟩

end Keys

end PortGraph

end NetBalance
