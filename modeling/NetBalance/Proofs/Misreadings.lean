import NetBalance.Proofs.MergeKeys

/-! # Where YAML texts fail

    A fault of a text is malformed YAML, unless a token could not be read or a
    text does not denote what its tag promises.  The reader of documents adds
    no other fault, except where it has no room left: for a chain of mappings
    that stand for the values of their value keys, or for one of mappings that
    are merged into each other.  All this is said of the nodes as they were
    written, though merging has changed them by the time they are read. -/

namespace NetBalance.Yaml

/-! ## Texts -/

namespace Graph

variable {g g' : Graph} {room i : Nat}

/-- A mapping stands for the value of a value key. -/
def StandsFor (g : Graph) (i j : Nat) : Prop := ∃ entry ∈ g.marked .value i, entry.2 = j

/-- The text of a node, or of what it stands for in the end. -/
inductive Tells (g : Graph) : Nat → String → Prop where
  | scalar {i : Nat} {text : String} (h : g.content i = .scalar text) : g.Tells i text
  | value {i j : Nat} {text : String} (h : g.StandsFor i j) (htext : g.Tells j text) :
    g.Tells i text

theorem Reduces.standsFor (h : Reduces g g') {i j : Nat} (hij : g'.StandsFor i j) :
    g.StandsFor i j := by
  obtain ⟨entry, hentry, hj⟩ := hij
  exact ⟨entry, (h.marked i .value (by decide)).subset hentry, hj⟩

theorem standsFor_of_marked {key value : Nat} {rest : List (Nat × Nat)}
    (h : g.marked .value i = (key, value) :: rest) : g.StandsFor i value := by
  refine ⟨(key, value), ?_, rfl⟩
  rw [h]
  exact List.mem_cons_self

theorem tells_of_text (h : Reduces g g') {text : String} (htext : g'.text room i = .ok text) :
    g.Tells i text := by
  induction room generalizing i with
  | zero => cases htext
  | succ room ih =>
    unfold Graph.text at htext
    split at htext
    · rename_i hcontent
      cases htext
      exact .scalar (h.scalar hcontent)
    · split at htext
      · rename_i key value rest hmarked
        exact .value (h.standsFor (standsFor_of_marked hmarked)) (ih htext)
      · cases htext
    · cases htext

/-- A mapping with a text has a value key. -/
theorem standsFor_of_text (h : Reduces g g') {text : String} (htext : g'.text room i = .ok text)
    {entries : List (Nat × Nat)} (hcontent : g'.content i = .mapping entries) :
    ∃ j, g.StandsFor i j := by
  cases tells_of_text (Reduces.refl g') htext with
  | scalar hscalar =>
    rw [hcontent] at hscalar
    cases hscalar
  | value hj => exact ⟨_, h.standsFor hj⟩

/-- Without a text there is no end of what a node stands for, or something else at the end. -/
theorem text_eq_error (h : Reduces g g') {e : Error} (htext : g'.text room i = .error e) :
    e.IsMalformed ∨ e = .tooDeep ∧ HasPath g.StandsFor room i := by
  induction room generalizing i with
  | zero =>
    cases htext
    exact .inr ⟨rfl, trivial⟩
  | succ room ih =>
    unfold Graph.text at htext
    split at htext
    · cases htext
    · split at htext
      · rename_i key value rest hmarked
        obtain hmalformed | ⟨he, hpath⟩ := ih htext
        · exact .inl hmalformed
        · exact .inr ⟨he, value, h.standsFor (standsFor_of_marked hmarked), hpath⟩
      · cases htext
        exact .inl trivial
    · cases htext
      exact .inl trivial

end Graph

/-! ## Scalars -/

section Documents

variable (K : Type) [Add K] [Mul K] [Neg K] [Zero K] [Scalar K]

/-- A text does not denote the truth value, the number or the date that a tag promises. -/
def Tag.Misreads (tag : Tag) (text : String) : Prop :=
  tag ∈ [Tag.bool, .int, .float, .timestamp] ∧
    ∀ d : Document K, scalarValue tag text ≠ .ok d

/-- A node has a text that does not denote what its tag promises.  A mapping is no date, whatever
    its text. -/
def Graph.Misread (g : Graph) (i : Nat) : Prop :=
  ∃ text, g.Tells i text ∧
    ((g.tag i).Misreads K text ∨ g.tag i = .timestamp ∧ ∃ j, g.StandsFor i j)

/-- A node that is no collection has a longer way to its text than there is room for. -/
def Graph.StandsDeep (g : Graph) (room i : Nat) : Prop :=
  ¬ (g.tag i).isCollection ∧ HasPath g.StandsFor room i

/-- What reading the documents of a graph may fail for. -/
def Graph.Excuses (g : Graph) (room : Room) (e : Error) : Prop :=
  e.IsMalformed ∨ (∃ i, g.Misread K i) ∨
    e = .tooDeep ∧ ∃ i, g.StandsDeep room.values i ∨ g.MergesDeep room.merges i

variable {K}

/-- A text is always a text. -/
theorem not_misreads_str (text : String) : ¬ Tag.str.Misreads K text :=
  fun h => absurd h.1 (by decide)

/-- Texts under all other tags are read, or malformed. -/
theorem misreads_of_scalarValue {tag : Tag} {text : String} {e : Error}
    (h : (scalarValue tag text : Except Error (Document K)) = .error e) (he : ¬ e.IsMalformed) :
    tag.Misreads K text := by
  have hpromise : tag ∈ [Tag.bool, .int, .float, .timestamp] := by
    cases tag with
    | bool | int | float | timestamp => decide
    | null | str => cases h
    | binary =>
      unfold scalarValue at h
      dsimp only at h
      split at h
      all_goals
        cases h
      exact absurd trivial he
    | seq | map | set | omap | pairs | merge | value | unknown =>
      cases h
      exact absurd trivial he
  refine ⟨hpromise, fun d hd => ?_⟩
  rw [h] at hd
  cases hd

theorem misreads_of_reduces {g g' : Graph} (h : g.Reduces g') {i : Nat} {text : String}
    (hmisreads : (g'.tag i).Misreads K text) : (g.tag i).Misreads K text := by
  obtain hsame | ⟨-, hstr⟩ := h.tag i
  · exact hsame ▸ hmisreads
  · rw [hstr] at hmisreads
    exact absurd hmisreads (not_misreads_str text)

theorem Graph.scalarDocument_eq_error {g g' : Graph} (h : g.Reduces g') {room : Room} {i : Nat}
    (hscalar : ¬ (g'.tag i).isCollection) {e : Error}
    (hread : (g'.scalarDocument room.values i : Except Error (Document K)) = .error e) :
    g.Excuses K room e := by
  unfold scalarDocument at hread
  by_cases hunknown : [Tag.merge, .value, .unknown].contains (g'.tag i)
  · rw [if_pos hunknown] at hread
    cases hread
    exact .inl trivial
  · rw [if_neg hunknown] at hread
    obtain htext | ⟨text, htext, hread⟩ := bind_eq_error.1 hread
    · refine (text_eq_error h htext).imp_right fun ⟨he, hpath⟩ => .inr ⟨he, i, .inl ⟨?_, hpath⟩⟩
      obtain hsame | ⟨hvalue, -⟩ := h.tag i
      · exact hsame ▸ hscalar
      · rw [hvalue]
        decide
    · have htells := tells_of_text h htext
      split at hread
      · rename_i htag hcontent
        refine .inr (.inl ⟨i, text, htells, .inr ⟨?_, standsFor_of_text h htext hcontent⟩⟩)
        obtain hsame | ⟨-, hstr⟩ := h.tag i
        · exact hsame ▸ htag
        · rw [htag] at hstr
          cases hstr
      · by_cases hmalformed : e.IsMalformed
        · exact .inl hmalformed
        · exact .inr (.inl ⟨i, text, htells,
            .inl (misreads_of_reduces h (misreads_of_scalarValue hread hmalformed))⟩)

/-! ## Documents -/

namespace DocumentReader

/-- The nodes of `g` are read so far: they are changed only as merging does, and the collections
    among them are met once each. -/
structure Follows (g : Graph) (r : Reading K) : Prop where
  reduces : g.Reduces r.graph
  nodup : r.collections.Nodup
  inside : ∀ i ∈ r.collections, i < g.size

/-- A reading of nodes goes on from where it is, and fails only with an excuse. -/
def Keeps (g : Graph) (room : Room) {α : Type} (m : DocumentReader K α) : Prop :=
  ∀ r, Follows g r → Ends m r (fun _ => Follows g) (g.Excuses K room)

variable {g : Graph} {room : Room} {α β : Type}

theorem Keeps.bind {m : DocumentReader K α} {f : α → DocumentReader K β} (hm : Keeps g room m)
    (hf : ∀ a, Keeps g room (f a)) : Keeps g room (m >>= f) :=
  fun r hr => .bind ((hm r hr).imp (fun a r' hr' => hf a r' hr') fun _ => id)

theorem keeps_pure (a : α) : Keeps g room (pure a : DocumentReader K α) := fun _ hr => .pure hr

theorem keeps_malformed (e : SyntaxError) :
    Keeps g room (throw (.malformed e) : DocumentReader K α) :=
  fun _ _ => .throw (.inl trivial)

theorem keeps_get : Keeps g room (get : DocumentReader K (Reading K)) := fun _ hr => .get hr

theorem keeps_forM {f : α → DocumentReader K PUnit} (xs : List α)
    (h : ∀ x ∈ xs, Keeps g room (f x)) : Keeps g room (xs.forM f) := by
  induction xs with
  | nil => exact keeps_pure _
  | cons x rest ih =>
    obtain ⟨hx, hrest⟩ := List.forall_mem_cons.1 h
    exact hx.bind fun _ => ih hrest

omit [Add K] [Mul K] [Neg K] [Zero K] [Scalar K] in
theorem lt_size_of_isCollection {r : Reading K} (h : Follows g r) {i : Nat}
    (htag : (r.graph.tag i).isCollection) : i < g.size := by
  rw [← h.reduces.size]
  by_contra hsize
  unfold Graph.tag at htag
  rw [Graph.node_of_size_le (Nat.not_lt.1 hsize)] at htag
  exact absurd htag (by decide)

theorem keeps_meet (i : Nat) : Keeps g room (meet room i : DocumentReader K Unit) := by
  intro r hr
  refine .bind (.get ?_)
  split
  · rename_i hnew
    split
    case isTrue htag =>
      have hfresh : ∀ j ∈ r.collections, j ≠ i := by
        rintro j hj rfl
        simp [hj] at hnew
      refine .set ⟨hr.reduces, ?_, ?_⟩
      · exact List.nodup_append.2 ⟨hr.nodup, List.nodup_singleton i,
          fun j hj => List.forall_mem_singleton.2 (hfresh j hj)⟩
      · exact List.forall_mem_append.2 ⟨hr.inside,
          List.forall_mem_singleton.2 (lt_size_of_isCollection hr htag)⟩
    case isFalse htag =>
      exact .bind (.lift (fun _ _ => .set ⟨hr.reduces, hr.nodup, hr.inside⟩) fun _ he =>
        Graph.scalarDocument_eq_error hr.reduces htag he)
  · exact .pure hr

theorem keeps_meetEntry (entry : Nat × Nat) :
    Keeps g room (meetEntry room entry : DocumentReader K Unit) := by
  unfold meetEntry
  refine (keeps_meet _).bind fun _ => keeps_get.bind fun s => ?_
  split
  · exact (keeps_malformed _).bind fun _ => keeps_meet _
  · exact keeps_meet _

theorem keeps_meetSingle (item : Nat) :
    Keeps g room (meetSingle room item : DocumentReader K Unit) := by
  unfold meetSingle
  refine keeps_get.bind fun s => ?_
  split
  · exact (keeps_meet _).bind fun _ => keeps_meet _
  · exact keeps_malformed _

theorem keeps_flatten (i : Nat) : Keeps g room (flatten room i : DocumentReader K Unit) := by
  intro r hr
  have hflattens := Merging.flattens room.merges i r.graph
  refine .bind (.get (.bind (.lift (fun a ha => ?_) fun e he => ?_)))
  · exact .set ⟨hr.reduces.trans (hflattens.of_ok ha).1, hr.nodup, hr.inside⟩
  · obtain hmalformed | ⟨htoo, j, -, hdeep⟩ := hflattens.of_error he
    · exact .inl hmalformed
    · exact .inr (.inr ⟨htoo, j, .inr (hr.reduces.mergesDeep hdeep)⟩)

theorem keeps_enter (i : Nat) : Keeps g room (enter room i : DocumentReader K Unit) := by
  unfold enter
  refine keeps_get.bind fun s => ?_
  have hentries : Keeps g room (do
      flatten room i
      ((← get).graph.entries i).forM (meetEntry room) : DocumentReader K Unit) :=
    (keeps_flatten i).bind fun _ => keeps_get.bind fun _ =>
      keeps_forM _ fun entry _ => keeps_meetEntry entry
  dsimp only
  split
  · exact keeps_forM _ fun item _ => keeps_meet item
  · exact hentries
  · exact hentries
  · exact keeps_forM _ fun item _ => keeps_meetSingle item
  · exact keeps_forM _ fun item _ => keeps_meetSingle item
  · exact keeps_malformed _

theorem keeps_all : Keeps g room (all room : DocumentReader K Unit) := by
  unfold all enterAll
  refine keeps_get.bind fun _ => (keeps_meet _).bind fun _ => keeps_get.bind fun _ => ?_
  refine keeps_forM _ fun n _ => keeps_get.bind fun s => ?_
  split
  · exact keeps_enter _
  · exact keeps_pure _

/-- All nodes of a text are read, or one of them is an excuse. -/
theorem ends_all (room : Room) (c : Composition) :
    Ends (all room : DocumentReader K Unit) ⟨c.graph, c.root, [], []⟩
      (fun _ => Follows c.graph) (c.graph.Excuses K room) :=
  keeps_all _ ⟨.refl c.graph, List.nodup_nil, nofun⟩

end DocumentReader

namespace Reading

open DocumentReader

variable {room : Room} {text : String}

/-- A text without a document has no nodes, or holds a text that does not denote what its tag
    promises, or a chain that there is no room for. -/
theorem ofText_eq_error {e : Error}
    (h : (ofText room text : Except Error (Reading K)) = .error e) :
    Composition.ofText room.nesting text = .error e ∨
      ∃ c, Composition.ofText room.nesting text = .ok c ∧ c.graph.Excuses K room e := by
  unfold ofText at h
  obtain hc | ⟨c, hc, h⟩ := bind_eq_error.1 h
  · exact .inl hc
  · obtain hread | ⟨_, _, h⟩ := bind_eq_error.1 h
    · exact .inr ⟨c, hc, (ends_all room c).of_error hread⟩
    · cases h

/-- There are no more collections than nodes.  So none is left out when the collections of all
    numbers below that of the nodes are entered. -/
theorem length_collections_le {r : Reading K} (h : ofText room text = .ok r) :
    r.collections.length ≤ r.graph.size := by
  unfold ofText at h
  obtain ⟨c, -, h⟩ := bind_eq_ok.1 h
  obtain ⟨⟨_, r'⟩, hread, h⟩ := bind_eq_ok.1 h
  cases h
  have hfollows := (ends_all room c).of_ok hread
  have hbelow : r.collections ⊆ List.range r.graph.size :=
    fun i hi => List.mem_range.2 (hfollows.reduces.size ▸ hfollows.inside i hi)
  simpa using (List.subperm_of_subset hfollows.nodup hbelow).length_le

end Reading

end Documents

/-! ## Copies -/

namespace Reading

variable {K : Type} [Scalar K] {r : Reading K} {room i : Nat}
  {copied copied' : List Nat}

/-- A chain of nodes, each a part of the one before, in which no node comes twice. -/
def IsDescent (r : Reading K) (chain : List Nat) : Prop :=
  chain.Nodup ∧ chain.IsChain fun i j => j ∈ r.parts i

theorem subset_of_foldlM {f : List Nat → Nat → Except Error (List Nat)} {parts : List Nat}
    (hf : ∀ copied i copied', f copied i = .ok copied' → copied ⊆ copied')
    (h : parts.foldlM f copied = .ok copied') : copied ⊆ copied' := by
  induction parts generalizing copied with
  | nil =>
    cases h
    exact List.Subset.refl _
  | cons part rest ih =>
    rw [List.foldlM_cons] at h
    obtain ⟨next, hnext, h⟩ := bind_eq_ok.1 h
    exact List.Subset.trans (hf _ _ _ hnext) (ih h)

/-- What is copied stays so. -/
theorem subset_copy (h : r.copy room copied i = .ok copied') : copied ⊆ copied' := by
  induction room generalizing copied i copied' with
  | zero => cases h
  | succ room ih =>
    unfold copy at h
    split at h
    · cases h
      exact List.Subset.refl _
    · exact List.Subset.trans (List.subset_cons_self i copied)
        (subset_of_foldlM (fun _ _ _ => ih) h)

/-- A list of nodes fails to be copied at one of them. -/
theorem exists_of_foldlM_eq_error {f : List Nat → Nat → Except Error (List Nat)}
    {parts : List Nat} {e : Error}
    (hf : ∀ copied i copied', f copied i = .ok copied' → copied ⊆ copied')
    (h : parts.foldlM f copied = .error e) :
    ∃ part ∈ parts, ∃ copied', copied ⊆ copied' ∧ f copied' part = .error e := by
  induction parts generalizing copied with
  | nil => cases h
  | cons part rest ih =>
    rw [List.foldlM_cons] at h
    obtain h | ⟨next, hnext, h⟩ := bind_eq_error.1 h
    · exact ⟨part, List.mem_cons_self, copied, List.Subset.refl _, h⟩
    · obtain ⟨later, hlater, copied', hsubset, h⟩ := ih h
      exact ⟨later, List.mem_cons_of_mem _ hlater, copied',
        List.Subset.trans (hf _ _ _ hnext) hsubset, h⟩

/-- A copy fails for a chain of nodes that were not copied before, as long as there is room. -/
theorem copy_eq_error {e : Error} (h : r.copy room copied i = .error e) :
    e = .tooDeep ∧ ∃ chain : List Nat, chain.length = room ∧ r.IsDescent chain ∧
      (∀ j ∈ chain.head?, j = i) ∧ ∀ j ∈ chain, j ∉ copied := by
  induction room generalizing copied i with
  | zero =>
    cases h
    exact ⟨rfl, [], rfl, ⟨List.nodup_nil, .nil⟩, nofun, nofun⟩
  | succ room ih =>
    unfold copy at h
    split at h
    · cases h
    · rename_i hnew
      obtain ⟨part, hpart, later, hsubset, h⟩ :=
        exists_of_foldlM_eq_error (fun _ _ _ => subset_copy) h
      obtain ⟨he, chain, hlength, ⟨hnodup, hchain⟩, hhead, hfresh⟩ := ih h
      have hi : i ∉ chain := fun hi => hfresh i hi (hsubset List.mem_cons_self)
      refine ⟨he, i :: chain, by rw [List.length_cons, hlength],
        ⟨List.nodup_cons.2 ⟨hi, hnodup⟩, List.isChain_cons.2 ⟨?_, hchain⟩⟩, ?_, ?_⟩
      · intro j hj
        rw [hhead j hj]
        exact hpart
      · rintro j ⟨⟩
        rfl
      · refine List.forall_mem_cons.2 ⟨by simpa using hnew, fun j hj hcopied => ?_⟩
        exact hfresh j hj (hsubset (List.mem_cons_of_mem _ hcopied))

theorem copyValues_eq_error {room : Room} {e : Error} (h : r.copyValues room = .error e) :
    e = .tooDeep ∧ ∃ chain : List Nat, chain.length = room.copies ∧ r.IsDescent chain := by
  have hcopy (parts : List Nat) (h : (parts.forM fun i => do
      let _ ← r.copy room.copies [] i) = Except.error e) :
      ∃ i, r.copy room.copies [] i = .error e := by
    induction parts with
    | nil => cases h
    | cons part rest ih =>
      rw [List.forM_eq_forM, List.forM_cons] at h
      obtain h | ⟨_, -, h⟩ := bind_eq_error.1 h
      · obtain h | ⟨_, -, h⟩ := bind_eq_error.1 h
        · exact ⟨part, h⟩
        · cases h
      · exact ih h
  obtain ⟨i, hi⟩ := hcopy _ h
  obtain ⟨he, chain, hlength, hdescent, -, -⟩ := copy_eq_error hi
  exact ⟨he, chain, hlength, hdescent⟩

end Reading

end NetBalance.Yaml
