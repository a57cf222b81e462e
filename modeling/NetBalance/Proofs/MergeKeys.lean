import NetBalance.Proofs.Nesting
import NetBalance.Yaml.Document
import Mathlib

/-! # What merging does to a graph

    Merging changes the graph while it is read, and a mapping can be merged
    into itself on the way.  But merge keys and value keys only become fewer,
    and what is merged has none of them.  So merging fails only at something
    that is no mapping, or where mappings are merged into each other in a
    chain as long as there is room: each of its steps takes a merge key out of
    the graph for good. -/

namespace NetBalance.Yaml

/-- A path of `n` steps starts at a node. -/
def HasPath (step : Nat → Nat → Prop) : (n : Nat) → Nat → Prop
  | 0, _ => True
  | n + 1, i => ∃ j, step i j ∧ HasPath step n j

theorem HasPath.imp {step step' : Nat → Nat → Prop} (h : ∀ i j, step i j → step' i j) {n i : Nat}
    (hpath : HasPath step n i) : HasPath step' n i := by
  induction n generalizing i with
  | zero => trivial
  | succ n ih =>
    obtain ⟨j, hstep, hpath⟩ := hpath
    exact ⟨j, h i j hstep, ih hpath⟩

/-- A content without the pairs of a mapping, which is what changes. -/
def Content.frame : Content → Content := mapEntries fun _ => []

theorem Content.frame_mapEntries (f : List (Nat × Nat) → List (Nat × Nat)) (c : Content) :
    (c.mapEntries f).frame = c.frame := by
  cases c <;> rfl

namespace Graph

variable {g g' g'' : Graph}

/-! ## Single changes -/

theorem node_modify {f : Node → Node} (hf : f .nothing = .nothing) (i j : Nat) :
    (g.modify i f).node j = if i = j then f (g.node j) else g.node j := by
  simp only [node, modify, Array.getElem?_modify]
  split
  · cases g.nodes[j]? with
    | none => exact hf.symm
    | some n => rfl
  · rfl

theorem node_of_size_le {i : Nat} (h : g.size ≤ i) : g.node i = .nothing := by
  unfold node
  rw [Array.getElem?_eq_none h]
  rfl

theorem size_modify (f : Node → Node) (i : Nat) : (g.modify i f).size = g.size :=
  Array.size_modify

theorem tag_retag (key i : Nat) :
    (g.retag key).tag i = if key = i ∧ g.tag i = .value then .str else g.tag i := by
  unfold retag tag
  rw [node_modify rfl]
  by_cases hi : key = i
  · by_cases hvalue : (g.node i).tag = .value <;> simp [hi, hvalue]
  · simp [hi]

theorem content_retag (key i : Nat) : (g.retag key).content i = g.content i := by
  unfold retag content
  rw [node_modify rfl]
  split
  · split <;> rfl
  · rfl

variable {i : Nat} {f : List (Nat × Nat) → List (Nat × Nat)}

theorem tag_modifyEntries (j : Nat) : (g.modifyEntries i f).tag j = g.tag j := by
  unfold modifyEntries tag
  rw [node_modify rfl]
  split <;> rfl

theorem content_modifyEntries (j : Nat) :
    (g.modifyEntries i f).content j = if i = j then (g.content j).mapEntries f else g.content j := by
  unfold modifyEntries content
  rw [node_modify rfl]
  split <;> rfl

theorem entries_modifyEntries_of_ne {j : Nat} (h : i ≠ j) :
    (g.modifyEntries i f).entries j = g.entries j := by
  unfold entries
  rw [content_modifyEntries, if_neg h]

/-- Where there are no pairs there may be no mapping to change. -/
theorem entries_modifyEntries_self : (g.modifyEntries i f).entries i = f (g.entries i) ∨
    g.entries i = [] ∧ (g.modifyEntries i f).entries i = [] := by
  have hchanged := content_modifyEntries (g := g) (i := i) (f := f) i
  rw [if_pos rfl] at hchanged
  unfold entries
  rw [hchanged]
  cases g.content i with
  | mapping entries => exact .inl rfl
  | scalar _ | sequence _ => exact .inr ⟨rfl, rfl⟩

/-! ## Fewer special keys -/

/-- The tags of keys that do not stay as they are. -/
def specialTags : List Tag := [.merge, .value]

/-- None of the pairs has a special key. -/
def ArePlain (g : Graph) (entries : List (Nat × Nat)) : Prop :=
  ∀ entry ∈ entries, g.tag entry.1 ∉ specialTags

/-- From `g` to `g'`, value keys have become ordinary texts, merge keys are gone, and pairs without
    special keys have come. -/
structure Reduces (g g' : Graph) : Prop where
  size : g'.size = g.size
  frame : ∀ i, (g'.content i).frame = (g.content i).frame
  tag : ∀ i, g'.tag i = g.tag i ∨ g.tag i = .value ∧ g'.tag i = .str
  marked : ∀ i, ∀ t ∈ specialTags, (g'.marked t i).Sublist (g.marked t i)

namespace Reduces

theorem refl (g : Graph) : Reduces g g :=
  ⟨rfl, fun _ => rfl, fun _ => .inl rfl, fun _ _ _ => List.Sublist.refl _⟩

theorem trans (h : Reduces g g') (h' : Reduces g' g'') : Reduces g g'' where
  size := h'.size.trans h.size
  frame i := (h'.frame i).trans (h.frame i)
  tag i := by
    obtain htag | ⟨hvalue, hstr⟩ := h.tag i
    · rw [← htag]
      exact h'.tag i
    · obtain htag | ⟨hvalue', -⟩ := h'.tag i
      · exact .inr ⟨hvalue, htag.trans hstr⟩
      · rw [hstr] at hvalue'
        cases hvalue'
  marked i t ht := (h'.marked i t ht).trans (h.marked i t ht)

theorem scalar (h : Reduces g g') {text : String} (ht : g'.content i = .scalar text) :
    g.content i = .scalar text := by
  have hframe := h.frame i
  rw [ht] at hframe
  cases hc : g.content i <;> rw [hc] at hframe <;> cases hframe
  rfl

theorem items (h : Reduces g g') (i : Nat) : g'.items i = g.items i := by
  have hframe := h.frame i
  unfold Graph.items
  cases hc : g.content i <;> cases hc' : g'.content i <;> rw [hc, hc'] at hframe <;> cases hframe
  all_goals rfl

/-- A tag that is special is so from the start. -/
theorem tag_of_special (h : Reduces g g') {t : Tag} (ht : t ∈ specialTags) (htag : g'.tag i = t) :
    g.tag i = t := by
  obtain hsame | ⟨-, hstr⟩ := h.tag i
  · exact hsame ▸ htag
  · rw [← htag, hstr] at ht
    exact absurd ht (by decide)

theorem arePlain (h : Reduces g g') {entries : List (Nat × Nat)} (hplain : g.ArePlain entries) :
    g'.ArePlain entries := by
  intro entry hentry hspecial
  have htag := h.tag_of_special hspecial rfl
  rw [← htag] at hspecial
  exact hplain entry hentry hspecial

theorem retag (g : Graph) (key : Nat) : Reduces g (g.retag key) := by
  have htag (i : Nat) : (g.retag key).tag i = g.tag i ∨
      g.tag i = .value ∧ (g.retag key).tag i = .str := by
    rw [tag_retag]
    split
    · rename_i h
      exact .inr ⟨h.2, rfl⟩
    · exact .inl rfl
  refine ⟨size_modify _ _, fun i => by rw [content_retag], htag, fun i t ht => ?_⟩
  have hentries : (g.retag key).entries i = g.entries i := by
    unfold entries
    rw [content_retag]
  unfold Graph.marked
  rw [hentries]
  refine List.monotone_filter_right _ fun entry hentry => ?_
  simp only [decide_eq_true_eq] at hentry ⊢
  obtain hsame | ⟨-, hstr⟩ := htag entry.1
  · exact hsame ▸ hentry
  · rw [← hentry, hstr] at ht
    exact absurd ht (by decide)

/-- A change of pairs that adds none with a special key. -/
theorem modifyEntries (hf : ∀ t ∈ specialTags,
      ((f (g.entries i)).filter fun entry => g.tag entry.1 = t).Sublist (g.marked t i)) :
    Reduces g (g.modifyEntries i f) := by
  refine ⟨size_modify _ _, fun j => ?_, fun j => .inl (tag_modifyEntries j), fun j t ht => ?_⟩
  · rw [content_modifyEntries]
    split
    · exact Content.frame_mapEntries _ _
    · rfl
  · unfold Graph.marked
    simp only [tag_modifyEntries]
    by_cases hj : i = j
    · subst hj
      obtain h | ⟨-, h⟩ := entries_modifyEntries_self (g := g) (i := i) (f := f)
      · rw [h]
        exact hf t ht
      · rw [h]
        exact List.nil_sublist _
    · rw [entries_modifyEntries_of_ne hj]

theorem dropMerge (g : Graph) (i : Nat) : Reduces g (g.dropMerge i) :=
  modifyEntries fun _ _ => (List.eraseP_sublist).filter _

theorem prepend {merged : List (Nat × Nat)} (h : g.ArePlain merged) (i : Nat) :
    Reduces g (g.modifyEntries i (merged ++ ·)) := by
  refine modifyEntries fun t ht => ?_
  have hnone : (merged.filter fun entry => g.tag entry.1 = t) = [] := by
    rw [List.filter_eq_nil_iff]
    intro entry hentry htag
    refine h entry hentry ?_
    simp only [decide_eq_true_eq] at htag
    rw [htag]
    exact ht
  rw [List.filter_append, hnone]
  exact List.Sublist.refl _

/-- The keys of pairs become ordinary ones. -/
theorem retags (g : Graph) (entries : List (Nat × Nat)) :
    Reduces g (entries.foldl (fun g entry => g.retag entry.1) g) := by
  induction entries generalizing g with
  | nil => exact refl g
  | cons entry rest ih => exact (retag g entry.1).trans (ih _)

end Reduces

theorem entries_retags (entries : List (Nat × Nat)) :
    (entries.foldl (fun g entry => g.retag entry.1) g).entries i = g.entries i := by
  induction entries generalizing g with
  | nil => rfl
  | cons entry rest ih =>
    refine ih.trans ?_
    unfold Graph.entries
    rw [content_retag]

/-- A mapping whose keys have become ordinary ones has no value key. -/
theorem marked_value_retags (g : Graph) (i : Nat) :
    ((g.entries i).foldl (fun g entry => g.retag entry.1) g).marked .value i = [] := by
  have hkeys (entries : List (Nat × Nat)) (g : Graph) : ∀ entry ∈ entries,
      (entries.foldl (fun g entry => g.retag entry.1) g).tag entry.1 ≠ .value := by
    induction entries generalizing g with
    | nil => nofun
    | cons first rest ih =>
      refine List.forall_mem_cons.2 ⟨fun hvalue => ?_, ih _⟩
      have hfirst := (Reduces.retags (g.retag first.1) rest).tag_of_special (by decide) hvalue
      rw [tag_retag] at hfirst
      split at hfirst
      · cases hfirst
      · rename_i hother
        exact hother ⟨rfl, hfirst⟩
  unfold marked
  rw [entries_retags, List.filter_eq_nil_iff]
  intro entry hentry
  simpa using hkeys _ g entry hentry

/-! ## Chains of merges -/

/-- A mapping has a merge key that names another one, or names several and this is among them. -/
def Merges (g : Graph) (i j : Nat) : Prop :=
  ∃ entry ∈ g.marked .merge i, j = entry.2 ∨ j ∈ g.items entry.2

/-- How many merge keys there are. -/
def mergeCount (g : Graph) : Nat := ∑ i ∈ Finset.range g.size, (g.marked .merge i).length

/-- Mappings are merged into each other in a chain from a node on, which is as long as there is
    room, and there are merge keys for all of its steps. -/
def MergesDeep (g : Graph) (room i : Nat) : Prop :=
  room ≤ g.mergeCount ∧ HasPath g.Merges room i

namespace Reduces

theorem merges (h : Reduces g g') {i j : Nat} (hmerges : g'.Merges i j) : g.Merges i j := by
  obtain ⟨entry, hentry, hj⟩ := hmerges
  rw [h.items] at hj
  exact ⟨entry, (h.marked i .merge (by decide)).subset hentry, hj⟩

theorem mergeCount_le (h : Reduces g g') : g'.mergeCount ≤ g.mergeCount := by
  unfold mergeCount
  rw [h.size]
  exact Finset.sum_le_sum fun i _ => (h.marked i .merge (by decide)).length_le

theorem mergesDeep (h : Reduces g g') {room i : Nat} (hdeep : g'.MergesDeep room i) :
    g.MergesDeep room i :=
  ⟨hdeep.1.trans h.mergeCount_le, hdeep.2.imp fun _ _ => h.merges⟩

end Reduces

/-- A merge key that is taken out is gone. -/
theorem length_marked_dropMerge (h : g.marked .merge i ≠ []) :
    ((g.dropMerge i).marked .merge i).length + 1 = (g.marked .merge i).length := by
  have hentries : (g.dropMerge i).entries i =
      (g.entries i).eraseP fun entry => g.tag entry.1 = .merge := by
    obtain h' | ⟨hnone, -⟩ := entries_modifyEntries_self (g := g) (i := i)
      (f := fun entries => entries.eraseP fun entry => g.tag entry.1 = .merge)
    · exact h'
    · unfold marked at h
      rw [hnone] at h
      exact absurd rfl h
  have hmarked : (g.dropMerge i).marked .merge i =
      (g.marked .merge i).eraseP fun entry => g.tag entry.1 = .merge := by
    unfold marked
    rw [hentries, List.eraseP_filter]
    simp [dropMerge, tag_modifyEntries]
  obtain ⟨entry, hentry⟩ := List.exists_mem_of_ne_nil _ h
  have hany : (g.marked .merge i).any (fun entry => g.tag entry.1 = .merge) :=
    List.any_eq_true.2 ⟨entry, hentry, (List.mem_filter.1 hentry).2⟩
  have hpos := List.length_pos_of_mem hentry
  rw [hmarked, List.length_eraseP, if_pos hany]
  omega

theorem lt_size_of_entries (h : g.entries i ≠ []) : i < g.size := by
  by_contra hsize
  refine h ?_
  unfold entries content
  rw [node_of_size_le (Nat.not_lt.1 hsize)]
  rfl

theorem mergeCount_dropMerge (h : g.marked .merge i ≠ []) :
    (g.dropMerge i).mergeCount < g.mergeCount := by
  have hdrop := Reduces.dropMerge g i
  have hentries : g.entries i ≠ [] := fun hnone => h (by rw [marked, hnone]; rfl)
  unfold mergeCount
  rw [hdrop.size]
  refine Finset.sum_lt_sum (fun j _ => (hdrop.marked j .merge (by decide)).length_le)
    ⟨i, Finset.mem_range.2 (lt_size_of_entries hentries), ?_⟩
  have hone := length_marked_dropMerge h
  omega

end Graph

/-! ## Merging -/

namespace Merging

open NetBalance.Yaml.Graph

variable {room : Nat} {merge : Nat → Merging Unit}

/-- An error of merging: something is no mapping, or mappings are merged into each other in a chain
    from one of some nodes. -/
def Blames (g : Graph) (room : Nat) (starts : Nat → Prop) (e : Error) : Prop :=
  e.IsMalformed ∨ e = .tooDeep ∧ ∃ i, starts i ∧ g.MergesDeep room i

/-- A way to flatten a mapping leaves no special keys in it. -/
def Flattens (room : Nat) (merge : Nat → Merging Unit) : Prop :=
  ∀ i g, Ends (merge i) g (fun _ g' => Reduces g g' ∧ g'.ArePlain (g'.entries i))
    (Blames g room (· = i))

/-- What is merged has no special keys. -/
def Gives (g : Graph) (entries : List (Nat × Nat)) (g' : Graph) : Prop :=
  Reduces g g' ∧ g'.ArePlain entries

theorem Blames.imp {g g' : Graph} {starts starts' : Nat → Prop} {e : Error}
    (h : Blames g' room starts e) (hg : Reduces g g') (hstarts : ∀ i, starts i → starts' i) :
    Blames g room starts' e :=
  h.imp_right fun ⟨he, i, hi, hdeep⟩ => ⟨he, i, hstarts i hi, hg.mergesDeep hdeep⟩

theorem ends_ofMapping (h : Flattens room merge) (i : Nat) (g : Graph) :
    Ends (ofMapping merge i) g (Gives g) (Blames g room (· = i)) := by
  refine .bind (.get ?_)
  split
  · exact .bind ((h i g).imp (fun _ g' hg' => .bind (.get (.pure hg'))) fun _ => id)
  · exact .throw (.inl trivial)
  · exact .throw (.inl trivial)

theorem ends_ofMappings (h : Flattens room merge) (items : List Nat) (g : Graph) :
    Ends (items.mapM (ofMapping merge)) g
      (fun pieces g' => Reduces g g' ∧ ∀ piece ∈ pieces, g'.ArePlain piece)
      (Blames g room (· ∈ items)) := by
  induction items generalizing g with
  | nil => exact .pure ⟨.refl g, nofun⟩
  | cons item rest ih =>
    rw [List.mapM_cons]
    refine .bind ((ends_ofMapping h item g).imp (fun piece g' hg' => ?_) fun e he => ?_)
    · refine .bind ((ih g').imp (fun pieces g'' hg'' => ?_) fun e he => ?_)
      · exact .pure ⟨hg'.1.trans hg''.1,
          List.forall_mem_cons.2 ⟨hg''.1.arePlain hg'.2, hg''.2⟩⟩
      · exact he.imp hg'.1 fun _ => List.mem_cons_of_mem _
    · refine he.imp (.refl g) ?_
      rintro i rfl
      exact List.mem_cons_self

theorem ends_ofNode (h : Flattens room merge) (i : Nat) (g : Graph) :
    Ends (ofNode merge i) g (Gives g) (Blames g room fun j => j = i ∨ j ∈ g.items i) := by
  refine .bind (.get ?_)
  split
  · rename_i items hcontent
    have hitems : g.items i = items := by
      unfold Graph.items
      rw [hcontent]
    refine .bind ((ends_ofMappings h items g).imp (fun pieces g' hg' => .pure ⟨hg'.1, ?_⟩) ?_)
    · intro entry hentry
      obtain ⟨piece, hpiece, hentry⟩ := List.mem_flatten.1 hentry
      exact hg'.2 piece (List.mem_reverse.1 hpiece) entry hentry
    · exact fun e he => he.imp (.refl g) fun j hj => .inr (hitems ▸ hj)
  all_goals exact (ends_ofMapping h i g).imp (fun _ _ => id) fun e he => he.imp (.refl g) fun _ => .inl

/-- Each merge key that is worked off is gone, and so a chain behind it has one less to go. -/
theorem ends_ofKeys (h : Flattens room merge) (i count : Nat) (g : Graph) :
    Ends (ofKeys merge i count) g
      (fun entries g' => Gives g entries g' ∧
        ((g.marked .merge i).length ≤ count → g'.marked .merge i = []))
      (Blames g (room + 1) (· = i)) := by
  induction count generalizing g with
  | zero =>
    refine .pure ⟨⟨.refl g, nofun⟩, fun hcount => ?_⟩
    exact List.length_eq_zero_iff.1 (Nat.le_zero.1 hcount)
  | succ count ih =>
    refine .bind (.get ?_)
    split
    · rename_i hnone
      exact .pure ⟨⟨.refl g, nofun⟩, fun _ => hnone⟩
    · rename_i key value rest hmarked
      have hsome : g.marked .merge i ≠ [] := by
        rw [hmarked]
        nofun
      have hdrop := Reduces.dropMerge g i
      refine .bind (.modify (.bind ((ends_ofNode h value _).imp (fun piece g' hg' => ?_) ?_)))
      · refine .bind ((ih g').imp (fun pieces g'' hg'' => ?_) fun e he => ?_)
        · refine .pure ⟨⟨(hdrop.trans hg'.1).trans hg''.1.1, ?_⟩, fun hcount => hg''.2 ?_⟩
          · exact List.forall_mem_append.2 ⟨hg''.1.1.arePlain hg'.2, hg''.1.2⟩
          · have hfewer := (hg'.1.marked i .merge (by decide)).length_le
            have hone := length_marked_dropMerge hsome
            omega
        · exact he.imp (hdrop.trans hg'.1) fun _ => id
      · refine fun e he => he.imp_right ?_
        rintro ⟨rfl, j, hj, hcount, hpath⟩
        refine ⟨rfl, i, rfl, ?_, j, ⟨(key, value), ?_, ?_⟩, hpath.imp fun _ _ => hdrop.merges⟩
        · have hless := mergeCount_dropMerge hsome
          omega
        · rw [hmarked]
          exact List.mem_cons_self
        · rw [hdrop.items] at hj
          exact hj

theorem flattens (room : Nat) : Flattens room (flatten room) := by
  induction room with
  | zero => exact fun i g => .throw (.inr ⟨rfl, i, rfl, Nat.zero_le _, trivial⟩)
  | succ room ih =>
    intro i g
    have hretags := Reduces.retags g (g.entries i)
    unfold flatten
    refine .bind (.modify (.bind (.get ?_)))
    refine .bind ((ends_ofKeys ih i _ _).imp ?_ ?_)
    · rintro merged g' ⟨hg', hnone⟩
      have hplain : g'.ArePlain (g'.entries i) := by
        intro entry hentry hspecial
        have hmarked : entry ∈ g'.marked (g'.tag entry.1) i :=
          List.mem_filter.2 ⟨hentry, decide_eq_true rfl⟩
        obtain hmerge | hvalue : g'.tag entry.1 = .merge ∨ g'.tag entry.1 = .value := by
          simpa [specialTags] using hspecial
        · rw [hmerge, hnone le_rfl] at hmarked
          cases hmarked
        · rw [hvalue] at hmarked
          have hgone := (hg'.1.marked i .value (by decide)).subset hmarked
          rw [marked_value_retags] at hgone
          cases hgone
      have hprepend := Reduces.prepend hg'.2 i
      refine .modify ⟨(hretags.trans hg'.1).trans hprepend, ?_⟩
      obtain h | ⟨-, h⟩ := entries_modifyEntries_self (g := g') (i := i) (f := (merged ++ ·))
      · rw [h]
        exact hprepend.arePlain (List.forall_mem_append.2 ⟨hg'.2, hplain⟩)
      · rw [h]
        nofun
    · exact fun e he => he.imp hretags fun _ => id

end Merging

end NetBalance.Yaml
