import NetBalance.Proofs.BrokenTokens
import NetBalance.Yaml.Node.Reader
import Mathlib

/-! # Where the reader of nodes fails

    The reader of nodes adds no fault of its own to malformed text and to
    tokens that cannot be read, except where collections are too deep inside
    of each other.  Then there is not enough room for those that the tokens
    so far have opened and not closed.  Not every collection has a token that
    opens it, but one without has one around it that does. -/

namespace NetBalance

/-! ## How computations on a state end -/

section Ends

variable {σ ε α β : Type}

/-- A computation from a state ends in a value and a state as `post` tells, or in an error as
    `blame` tells. -/
def Ends (m : StateT σ (Except ε) α) (s : σ) (post : α → σ → Prop) (blame : ε → Prop) : Prop :=
  match m.run s with
  | .ok (a, s') => post a s'
  | .error e => blame e

variable {m : StateT σ (Except ε) α} {s : σ} {post : α → σ → Prop} {blame : ε → Prop}

namespace Ends

theorem of_ok {a : α} {s' : σ} (h : Ends m s post blame) (hm : m.run s = .ok (a, s')) :
    post a s' := by
  unfold Ends at h
  rwa [hm] at h

theorem of_error {e : ε} (h : Ends m s post blame) (hm : m.run s = .error e) : blame e := by
  unfold Ends at h
  rwa [hm] at h

theorem pure {a : α} (h : post a s) : Ends (Pure.pure a) s post blame := h

theorem throw {e : ε} (h : blame e) : Ends (MonadExcept.throw e) s post blame := h

theorem bind {f : α → StateT σ (Except ε) β} {post' : β → σ → Prop}
    (h : Ends m s (fun a s' => Ends (f a) s' post' blame) blame) :
    Ends (m >>= f) s post' blame := by
  unfold Ends
  rw [StateT.run_bind]
  cases hm : m.run s with
  | error e => exact h.of_error hm
  | ok r => exact h.of_ok hm

theorem get {post : σ → σ → Prop} (h : post s s) : Ends MonadState.get s post blame := h

theorem set {s' : σ} {post : PUnit → σ → Prop} (h : post ⟨⟩ s') :
    Ends (MonadStateOf.set s') s post blame := h

theorem modify {f : σ → σ} {post : PUnit → σ → Prop} (h : post ⟨⟩ (f s)) :
    Ends (modify f) s post blame := h

/-- A computation that does not know of the state. -/
theorem lift {m : Except ε α} (h : ∀ a, m = .ok a → post a s) (h' : ∀ e, m = .error e → blame e) :
    Ends (liftM m) s post blame := by
  cases hm : m with
  | ok a => exact h a hm
  | error e => exact h' e hm

theorem imp {post' : α → σ → Prop} {blame' : ε → Prop} (h : Ends m s post blame)
    (hpost : ∀ a s', post a s' → post' a s') (hblame : ∀ e, blame e → blame' e) :
    Ends m s post' blame' := by
  unfold Ends
  cases hm : m.run s with
  | error e => exact hblame e (h.of_error hm)
  | ok r => exact hpost r.1 r.2 (h.of_ok hm)

end Ends

end Ends

namespace Yaml

/-! ## Open collections -/

namespace Token

/-- The token opens a collection. -/
def isStart : Token → Bool
  | .blockSequenceStart | .blockMappingStart | .flowSequenceStart | .flowMappingStart => true
  | _ => false

/-- The token closes a collection. -/
def isEnd : Token → Bool
  | .blockEnd | .flowSequenceEnd | .flowMappingEnd => true
  | _ => false

/-- Some first tokens open so many collections, and close so few, that there is no room for those
    that are open.  Each of them may be two: an item of a flow sequence can be a mapping, and a
    value of a block mapping a sequence, without a token for it. -/
def NestBeyond (room : Nat) (tokens : List Token) : Prop :=
  ∃ first, first <+: tokens ∧ room + 2 * first.countP isEnd < 2 * first.countP isStart

end Token

namespace NodeReader

open Token

variable {α β : Type} {d k : Nat}

/-- What is read from `c` to `c'` opens at least as many collections as it closes, up to `d`. -/
def Balances (d : Nat) (c c' : ReaderState) : Prop :=
  c'.room = c.room ∧ ∃ first, c.tokens = first ++ c'.tokens ∧
    first.countP isEnd ≤ first.countP isStart + d

/-- What a reading from `c` may fail for, if `k` of the open collections have no token of their
    own. -/
def Excuses (k : Nat) (c : ReaderState) (e : Error) : Prop :=
  e.IsMalformed ∨ .broken e ∈ c.tokens ∨ e = .tooDeep ∧ ∃ first, first <+: c.tokens ∧
    c.room + 2 * first.countP isEnd < 2 * first.countP isStart + k

theorem Balances.refl (c : ReaderState) : Balances d c c := ⟨rfl, [], rfl, Nat.zero_le _⟩

theorem Balances.trans {c c' c'' : ReaderState} (h : Balances 0 c c') (h' : Balances d c' c'') :
    Balances d c c'' := by
  obtain ⟨hroom, first, htokens, hcount⟩ := h
  obtain ⟨hroom', next, htokens', hcount'⟩ := h'
  refine ⟨hroom'.trans hroom, first ++ next, by simp [htokens, htokens'], ?_⟩
  rw [List.countP_append, List.countP_append]
  omega

theorem Excuses.of_balances {c c' : ReaderState} {e : Error} (h : Balances 0 c c')
    (he : Excuses k c' e) : Excuses k c e := by
  obtain ⟨hroom, first, htokens, hcount⟩ := h
  obtain he | he | ⟨rfl, next, hnext, hdeep⟩ := he
  · exact .inl he
  · refine .inr (.inl ?_)
    rw [htokens]
    exact List.mem_append_right _ he
  · refine .inr (.inr ⟨rfl, first ++ next, ?_, ?_⟩)
    · rw [htokens]
      exact (List.prefix_append_right_inj first).2 hnext
    · rw [List.countP_append, List.countP_append]
      omega

/-- A reading takes tokens away and adds none, and closes no more than `d` of the collections that
    are open before it.  It fails only with an excuse. -/
def Honest (d k : Nat) (m : NodeReader α) : Prop :=
  ∀ c, Ends m c (fun _ c' => Balances d c c') (Excuses k c)

theorem honest_pure (a : α) : Honest d k (pure a) := fun c => .pure (.refl c)

theorem honest_fail (e : SyntaxError) : Honest d k (fail e : NodeReader α) :=
  fun _ => .throw (.inl trivial)

theorem Honest.bind {m : NodeReader α} {f : α → NodeReader β} (hm : Honest 0 k m)
    (hf : ∀ a, Honest d k (f a)) : Honest d k (m >>= f) :=
  fun c => .bind ((hm c).imp (fun a c' h => (hf a c').imp (fun _ _ => h.trans)
    fun _ => .of_balances h) fun _ => id)

theorem Honest.mono {d' k' : Nat} {m : NodeReader α} (h : Honest d k m) (hd : d ≤ d')
    (hk : k ≤ k') : Honest d' k' m := by
  intro c
  refine (h c).imp ?_ ?_
  · rintro _ c' ⟨hroom, first, htokens, hcount⟩
    exact ⟨hroom, first, htokens, by omega⟩
  · rintro e (he | he | ⟨rfl, first, hfirst, hdeep⟩)
    · exact .inl he
    · exact .inr (.inl he)
    · exact .inr (.inr ⟨rfl, first, hfirst, by omega⟩)

/-- What is honest without anything to allow for is honest. -/
theorem Honest.weaken {m : NodeReader α} (h : Honest 0 0 m) : Honest d k m :=
  h.mono (Nat.zero_le _) (Nat.zero_le _)

theorem Honest.ite {c : Prop} [Decidable c] {m m' : NodeReader α} (h : Honest d k m)
    (h' : Honest d k m') : Honest d k (if c then m else m') := by
  split
  · exact h
  · exact h'

/-- A check in front of what comes next. -/
theorem Honest.check {c : Prop} [Decidable c] {next : Unit → NodeReader α} {e : SyntaxError}
    (h : ∀ u, Honest d k (next u)) :
    Honest d k (if c then fail e >>= next else next ()) :=
  ((honest_fail e).bind h).ite (h ())

theorem honest_get : Honest d k get := fun c => .get (.refl c)

theorem honest_modify {f : ReaderState → ReaderState}
    (h : ∀ c, (f c).room = c.room ∧ (f c).tokens = c.tokens) : Honest d k (modify f) :=
  fun c => .modify ⟨(h c).1, [], (h c).2.symm, Nat.zero_le _⟩

/-- What is made of the value of a reading in the end. -/
theorem Honest.result {m : NodeReader α} {f : α → β} (h : Honest d k m) :
    Honest d k (do return f (← m)) :=
  fun c => .bind ((h c).imp (fun _ _ hc => .pure hc) fun _ => id)

theorem Honest.map {m : NodeReader α} {f : α → β} (h : Honest d k m) : Honest d k (f <$> m) := by
  rw [map_eq_pure_bind]
  exact h.result

/-! ### Taking tokens -/

theorem ends_peek {c : ReaderState} {post : Option Token → ReaderState → Prop} {blame : Error → Prop}
    (h : ∀ e, .broken e ∈ c.tokens → blame e) (h' : post c.tokens.head? c) :
    Ends peek c post blame := by
  obtain ⟨_ | ⟨t, rest⟩, graph, anchors, handles, room⟩ := c
  · exact h'
  · cases t with
    | broken e => exact h e List.mem_cons_self
    | _ => exact h'

theorem honest_peek : Honest d k peek :=
  fun c => ends_peek (fun _ he => .inr (.inl he)) (.refl c)

theorem honest_nextIs (tokens : List Token) : Honest d k (nextIs tokens) :=
  honest_peek.bind fun _ => honest_pure _

/-- Taking a token of a kind that closes nothing. -/
theorem honest_takeAs {f : Token → Option α}
    (hf : f .blockEnd = none ∧ f .flowSequenceEnd = none ∧ f .flowMappingEnd = none) :
    Honest d k (takeAs f) := by
  intro c
  refine .bind (ends_peek (fun _ he => .inr (.inl he)) ?_)
  split
  · rename_i a ha
    obtain ⟨t, ht, hfa⟩ := Option.bind_eq_some_iff.1 ha
    obtain ⟨rest, hrest⟩ := List.head?_eq_some_iff.1 ht
    have hend : t.isEnd = false := by
      obtain ⟨hblock, hsequence, hmapping⟩ := hf
      cases t <;> first | rfl | simp_all
    refine .bind (.modify (.pure ⟨rfl, [t], by simp [hrest], ?_⟩))
    simp [hend]
  · exact .pure (.refl c)

theorem ends_take {c : ReaderState} {t : Token} {post : Bool → ReaderState → Prop}
    {blame : Error → Prop} (h : ∀ e, .broken e ∈ c.tokens → blame e) (hfalse : post false c)
    (htrue : ∀ rest, c.tokens = t :: rest → post true { c with tokens := rest }) :
    Ends (take t) c post blame := by
  refine .bind (.bind (ends_peek h (.pure ?_)))
  split
  · rename_i hnext
    obtain ⟨rest, hrest⟩ : ∃ rest, c.tokens = t :: rest := by
      cases hc : c.tokens with
      | nil => simp [hc] at hnext
      | cons t' rest =>
        have ht : t' = t := by simpa [hc] using hnext
        exact ⟨rest, by rw [ht]⟩
    refine .bind (.modify (.pure ?_))
    rw [hrest]
    exact htrue rest hrest
  · exact .pure hfalse

/-- Taking a token that neither opens nor closes, or nothing. -/
theorem honest_take {t : Token} (ht : ¬ t.isEnd) : Honest d k (take t) := by
  refine fun c => ends_take (fun _ he => .inr (.inl he)) (.refl c) fun rest hrest => ?_
  refine ⟨rfl, [t], hrest, ?_⟩
  have hend : t.isEnd = false := by simpa using ht
  simp [hend]

/-- The end of a collection, or what else there is. -/
theorem Honest.ended (t : Token) {a : α} {m : NodeReader α} (h : Honest 1 k m) :
    Honest 1 k (do if ← take t then return a else m) := by
  refine fun c => .bind (ends_take (fun _ he => .inr (.inl he)) (h c) fun rest hrest => ?_)
  refine .pure ⟨rfl, [t], hrest, ?_⟩
  have hlength := List.countP_le_length (p := isEnd) (l := [t])
  have hone : [t].length = 1 := rfl
  omega

/-- A collection behind the token that opens it, or what else there is.  The token makes up for
    the end of the collection, and for two levels. -/
theorem Honest.opened {t : Token} (ht : t.isStart) {m m' : NodeReader α} (h : Honest 1 2 m)
    (h' : Honest d k m') : Honest d k (do if ← take t then m else m') := by
  refine fun c => .bind (ends_take (fun _ he => .inr (.inl he)) (h' c) fun rest hrest => ?_)
  have hend : t.isEnd = false := by
    cases t <;> first | rfl | cases ht
  refine (h { c with tokens := rest }).imp ?_ ?_
  · rintro _ c' ⟨hroom, first, htokens, hcount⟩
    refine ⟨hroom, t :: first, by rw [hrest, List.cons_append, ← htokens], ?_⟩
    simp only [List.countP_cons, ht, hend, if_true, Bool.false_eq_true, if_false]
    omega
  · rintro e (he | he | ⟨rfl, first, hfirst, hdeep⟩)
    · exact .inl he
    · refine .inr (.inl ?_)
      rw [hrest]
      exact List.mem_cons_of_mem _ he
    · refine .inr (.inr ⟨rfl, t :: first, ?_, ?_⟩)
      · rw [hrest]
        exact List.cons_prefix_cons.2 ⟨rfl, hfirst⟩
      · simp only [List.countP_cons, ht, hend, if_true, Bool.false_eq_true, if_false]
        dsimp only at hdeep
        omega

/-! ### Properties and names -/

theorem honest_properties : Honest d k properties := by
  unfold properties
  refine (honest_takeAs ⟨rfl, rfl, rfl⟩).bind fun anchor => ?_
  cases anchor with
  | some name => exact (honest_takeAs ⟨rfl, rfl, rfl⟩).bind fun _ => honest_pure _
  | none =>
    refine (honest_takeAs ⟨rfl, rfl, rfl⟩).bind fun t => ?_
    cases t with
    | some t => exact (honest_takeAs ⟨rfl, rfl, rfl⟩).bind fun _ => honest_pure _
    | none => exact honest_pure _

theorem honest_fullName (t : WrittenTag) : Honest d k (fullName t) := by
  unfold fullName
  split
  · exact honest_pure _
  · refine honest_get.bind fun c => ?_
    split
    · exact honest_pure _
    · exact honest_fail _

theorem honest_checkNew (anchor : Option String) : Honest d k (checkNew anchor) := by
  unfold checkNew
  split
  · exact honest_pure _
  · refine honest_get.bind fun c => ?_
    split
    · exact honest_fail _
    · exact honest_pure _

theorem honest_add (n : Node) : Honest d k (add n) :=
  fun _ => .bind (.get (.bind (.set (.pure ⟨rfl, [], rfl, Nat.zero_le _⟩))))

theorem honest_nothing : Honest d k nothing := honest_add _

theorem honest_record (anchor : Option String) (i : Nat) : Honest d k (record anchor i) := by
  unfold record
  split
  · exact honest_pure _
  · exact honest_modify fun c => ⟨rfl, rfl⟩

theorem honest_resolve (name : String) : Honest d k (resolve name) := by
  unfold resolve
  refine honest_get.bind fun c => ?_
  split
  · exact honest_pure _
  · exact honest_fail _

theorem honest_named (anchor : Option String) (n : Node) : Honest d k (named anchor n) :=
  (honest_add _).bind fun _ => (honest_record _ _).bind fun _ => honest_pure _

/-- One level deeper there is less room, so one more open collection is left without a token. -/
theorem honest_nested {m : NodeReader α} (h : Honest d k m) : Honest d (k + 1) (nested m) := by
  refine fun c => .bind (.get ?_)
  split
  · rename_i hroom
    exact .throw (.inr (.inr ⟨rfl, [], List.nil_prefix, by simp [hroom]⟩))
  · rename_i room hroom
    refine .bind (.modify (.bind ((h { c with room }).imp ?_ ?_)))
    · rintro a c' ⟨-, first, htokens, hcount⟩
      exact .bind (.modify (.pure ⟨hroom.symm, first, htokens, hcount⟩))
    · rintro e (he | he | ⟨rfl, first, hfirst, hdeep⟩)
      · exact .inl he
      · exact .inr (.inl he)
      · exact .inr (.inr ⟨rfl, first, hfirst, by dsimp only at hdeep; omega⟩)

theorem honest_collection (anchor : Option String) (tag : Tag) {content : NodeReader Content}
    (h : Honest d k content) : Honest d (k + 1) (collection anchor tag content) := by
  intro c
  have hnamed := honest_named (d := 0) (k := k + 1) anchor ⟨tag, .sequence []⟩ c
  refine .bind (hnamed.imp (fun i c' hc => ?_) fun _ => id)
  refine .bind ((honest_nested h c').imp (fun content c'' hc' => ?_) fun _ => .of_balances hc)
  exact .bind (.modify (.pure (hc.trans hc')))

/-! ### Nodes

    All readings of nodes call each other with less fuel, so the induction on it is about all of
    them at once. -/

/-- All readings of nodes are honest with some fuel.  Only a sequence without an indentation of
    its own, and a pair in a flow sequence, are open without a token. -/
structure HonestAt (fuel : Nat) : Prop where
  node : ∀ block indentless, Honest 0 indentless.toNat (node fuel block indentless)
  nodeUnless : ∀ ends block indentless,
    Honest 0 indentless.toNat (nodeUnless fuel ends block indentless)
  blockItems : Honest 1 0 (blockItems fuel)
  indentlessItems : Honest 0 0 (indentlessItems fuel)
  blockPairs : Honest 1 1 (blockPairs fuel)
  flowItems : ∀ first, Honest 1 1 (flowItems fuel first)
  flowPairs : ∀ first, Honest 1 0 (flowPairs fuel first)

variable {fuel : Nat}

namespace HonestAt

theorem nodeUnless_succ (h : HonestAt fuel) (ends : List Token) (block indentless : Bool) :
    Honest 0 indentless.toNat (NodeReader.nodeUnless (fuel + 1) ends block indentless) := by
  unfold NodeReader.nodeUnless
  exact (honest_nextIs _).bind fun _ => honest_nothing.ite (h.node _ _)

/-- The value of a pair, or nothing, and what follows. -/
theorem value (h : HonestAt fuel) (ends : List Token) (block indentless : Bool)
    (hk : indentless.toNat ≤ k) {next : Nat → NodeReader α} (hnext : ∀ i, Honest d k (next i)) :
    Honest d k (do
      if ← take .value then NodeReader.nodeUnless fuel ends block indentless >>= next
      else nothing >>= next) := by
  refine (honest_take (by decide)).bind fun _ => .ite ?_ (honest_nothing.bind hnext)
  exact ((h.nodeUnless _ _ _).mono le_rfl hk).bind hnext

theorem blockItems_succ (h : HonestAt fuel) : Honest 1 0 (NodeReader.blockItems (fuel + 1)) := by
  unfold NodeReader.blockItems
  refine (honest_take (by decide)).bind fun _ => .ite ?_ (.ended _ (honest_fail _))
  exact (h.nodeUnless _ _ false).bind fun _ => h.blockItems.result

theorem indentlessItems_succ (h : HonestAt fuel) :
    Honest 0 0 (NodeReader.indentlessItems (fuel + 1)) := by
  unfold NodeReader.indentlessItems
  refine (honest_take (by decide)).bind fun _ => .ite ?_ (honest_pure _)
  exact (h.nodeUnless _ _ false).bind fun _ => h.indentlessItems.result

theorem blockPairs_succ (h : HonestAt fuel) : Honest 1 1 (NodeReader.blockPairs (fuel + 1)) := by
  unfold NodeReader.blockPairs
  refine (honest_take (by decide)).bind fun _ => .ite ?_ (.ended _ (honest_fail _))
  refine (h.nodeUnless _ _ true).bind fun _ => h.value _ _ true le_rfl fun _ => ?_
  exact h.blockPairs.result

theorem flowItems_succ (h : HonestAt fuel) (first : Bool) :
    Honest 1 1 (NodeReader.flowItems (fuel + 1) first) := by
  unfold NodeReader.flowItems
  refine .ended _ ?_
  extract_lets item
  have hitem (u : Unit) : Honest 1 1 (item u) := by
    refine (honest_take (by decide)).bind fun _ => .ite ?_ (.ended _ ?_)
    · refine (honest_collection (k := 0) _ _ ?_).bind fun _ =>
        (h.flowItems false).result
      exact (h.nodeUnless _ _ false).bind fun _ => h.value _ _ false le_rfl fun _ => honest_pure _
    · exact ((h.node _ false).weaken).bind fun _ => (h.flowItems false).result
  exact .ite ((honest_take (by decide)).bind fun _ => .check hitem) (hitem ())

theorem flowPairs_succ (h : HonestAt fuel) (first : Bool) :
    Honest 1 0 (NodeReader.flowPairs (fuel + 1) first) := by
  unfold NodeReader.flowPairs
  refine .ended _ ?_
  extract_lets pair
  have hpair (u : Unit) : Honest 1 0 (pair u) := by
    refine (honest_take (by decide)).bind fun _ => .ite ?_ (.ended _ ?_)
    · refine (h.nodeUnless _ _ false).bind fun _ => h.value _ _ false le_rfl fun _ => ?_
      exact (h.flowPairs false).result
    · exact (h.node _ false).bind fun _ => honest_nothing.bind fun _ =>
        (h.flowPairs false).result
  exact .ite ((honest_take (by decide)).bind fun _ => .check hpair) (hpair ())

/-- A block behind the token that opens it, if blocks may stand here. -/
theorem openedBlock {t : Token} (ht : t.isStart) (block : Bool) {m m' : NodeReader α}
    (h : Honest 1 2 m) (h' : Honest d k m') :
    Honest d k (do if ← pure block <&&> take t then m else m') := by
  cases block
  · exact h'
  · exact .opened ht h h'

theorem node_succ (h : HonestAt fuel) (block indentless : Bool) :
    Honest 0 indentless.toNat (NodeReader.node (fuel + 1) block indentless) := by
  unfold NodeReader.node
  refine (honest_takeAs ⟨rfl, rfl, rfl⟩).bind fun name => ?_
  split
  · exact honest_resolve _
  · refine honest_properties.bind fun p => ?_
    obtain ⟨anchor, written⟩ := p
    have htag : Honest 0 indentless.toNat (written.mapM fullName) := by
      cases written with
      | none => exact honest_pure _
      | some t => exact (honest_fullName t).result
    refine htag.bind fun tag => honest_peek.bind fun next => (honest_checkNew _).bind fun _ => ?_
    refine (honest_takeAs ⟨rfl, rfl, rfl⟩).bind fun scalar => ?_
    split
    · exact honest_named _ _
    · have hitems {content : NodeReader Content} (hcontent : Honest 1 1 content) (tag : Tag) :
          Honest 1 2 (collection anchor tag content) := honest_collection _ _ hcontent
      refine .opened rfl (hitems (h.flowItems true).map _) ?_
      refine .opened rfl (hitems ((h.flowPairs true).mono le_rfl (Nat.zero_le _)).map _) ?_
      refine openedBlock rfl _ (hitems (h.blockItems.mono le_rfl (Nat.zero_le _)).map _) ?_
      refine openedBlock rfl _ (hitems h.blockPairs.map _) ?_
      split
      · rename_i hindentless
        have hone : indentless.toNat = 1 := by
          simp only [Bool.and_eq_true] at hindentless
          rw [hindentless.1]
          rfl
        rw [hone]
        exact honest_collection _ _ h.indentlessItems.map
      · exact .ite (honest_named _ _) (honest_fail _)

end HonestAt

theorem honestAt (fuel : Nat) : HonestAt fuel := by
  induction fuel with
  | zero =>
    exact ⟨fun _ _ => honest_fail _, fun _ _ _ => honest_fail _, honest_fail _, honest_fail _,
      honest_fail _, fun _ => honest_fail _, fun _ => honest_fail _⟩
  | succ fuel h =>
    exact ⟨h.node_succ, h.nodeUnless_succ, h.blockItems_succ, h.indentlessItems_succ,
      h.blockPairs_succ, h.flowItems_succ, h.flowPairs_succ⟩

/-! ### Texts -/

theorem honest_directives (fuel : Nat) :
    ∀ versionSeen declared, Honest d k (directives fuel versionSeen declared) := by
  induction fuel with
  | zero => exact fun _ _ => honest_fail _
  | succ fuel ih =>
    intro versionSeen declared
    unfold directives
    refine (honest_takeAs ⟨rfl, rfl, rfl⟩).bind fun t => ?_
    split
    · exact .check fun _ => ih _ _
    · exact .check fun _ => ih _ _
    · exact ih _ _
    · exact honest_modify fun _ => ⟨rfl, rfl⟩

theorem honest_depthBound : Honest d k depthBound := honest_get.bind fun _ => honest_pure _

theorem honest_documentHead : Honest d k documentHead := by
  unfold documentHead
  refine honest_depthBound.bind fun _ => (honest_directives _ _ _).bind fun _ => ?_
  refine (honest_take (by decide)).bind fun _ => ?_
  exact .ite (honest_fail _) (honest_pure _)

theorem honest_documentBody : Honest 0 0 documentBody := by
  unfold documentBody
  refine honest_peek.bind fun t => ?_
  split
  iterate 4 exact honest_nothing
  exact honest_depthBound.bind fun fuel => (honestAt fuel).node _ false

theorem honest_streamEnd : Honest d k streamEnd := by
  unfold streamEnd
  refine .bind ?_ fun _ => honest_peek.bind fun t => ?_
  · refine fun c => .modify ⟨rfl, c.tokens.takeWhile (· = .documentEnd), by simp, ?_⟩
    rw [List.countP_eq_zero.2]
    · exact Nat.zero_le _
    · intro t ht
      have hmark : t = .documentEnd := by simpa using List.mem_takeWhile_imp ht
      rw [hmark]
      decide
  · split
    · exact honest_pure _
    · exact honest_documentHead.bind fun _ => honest_fail _

theorem honest_document : Honest 0 0 document := by
  unfold document
  refine honest_peek.bind fun t => ?_
  have hheaded : Honest 0 0 (do
      documentHead
      let i ← documentBody
      streamEnd
      return i) :=
    honest_documentHead.bind fun _ => honest_documentBody.bind fun _ =>
      honest_streamEnd.bind fun _ => honest_pure _
  split
  · exact honest_nothing
  · exact hheaded
  · exact hheaded
  · exact honest_depthBound.bind fun fuel => ((honestAt fuel).node _ false).bind fun _ =>
      honest_streamEnd.bind fun _ => honest_pure _

end NodeReader

/-- A text without nodes is malformed, or one of its tokens is broken, or its collections are too
    deep inside of each other. -/
theorem Composition.ofText_eq_error {nesting : Nat} {text : String} {e : Error}
    (h : Composition.ofText nesting text = .error e) :
    e.IsMalformed ∨ ∃ spots, Spots.ofText text = .ok spots ∧ (.broken e ∈ Token.scan spots ∨
      e = .tooDeep ∧ Token.NestBeyond nesting (Token.scan spots)) := by
  unfold Composition.ofText at h
  obtain hspots | ⟨spots, hspots, h⟩ := bind_eq_error.1 h
  · unfold Spots.ofText at hspots
    split at hspots
    · cases hspots
    · cases hspots
      exact .inl trivial
  · obtain hread | ⟨_, _, h⟩ := bind_eq_error.1 h
    · have hhonest := NodeReader.honest_document
        ⟨Token.scan spots, .empty, [], NodeReader.standardHandles, nesting⟩
      exact (hhonest.of_error hread).imp_right fun he => ⟨spots, hspots, he⟩
    · cases h

end Yaml

end NetBalance
