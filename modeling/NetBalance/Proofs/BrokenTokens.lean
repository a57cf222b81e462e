import NetBalance.Proofs.Scanning

/-! # Tokens that cannot be read

    Every step of the lexer takes characters away and adds tokens that are
    not broken.  A token is broken only where a step fails, so it is one of
    malformed text or of a text with an overflow. -/

namespace NetBalance.Yaml

namespace Lexer

open Spots

/-- A later state of the lexer has less text in front of it, and no new broken tokens. -/
structure Follows (s s' : Lexer) : Prop where
  rest : s'.rest <:+ s.rest
  broken : ∀ e, .broken e ∈ s'.tokens → .broken e ∈ s.tokens

namespace Follows

variable {s s' s'' : Lexer}

theorem refl (s : Lexer) : s.Follows s := ⟨List.suffix_rfl, fun _ he => he⟩

theorem trans (h : s.Follows s') (h' : s'.Follows s'') : s.Follows s'' :=
  ⟨h'.rest.trans h.rest, fun e he => h.broken e (h'.broken e he)⟩

theorem moveTo (h : s.Follows s') {rest : Spots} (hrest : rest <:+ s'.rest) :
    s.Follows (s'.moveTo rest) := ⟨hrest.trans h.rest, h.broken⟩

theorem allowKey (h : s.Follows s') (allowed : Bool) : s.Follows (s'.allowKey allowed) :=
  ⟨h.rest, h.broken⟩

theorem push (h : s.Follows s') {t : Token} (ht : ∀ e, t ≠ .broken e) : s.Follows (s'.push t) where
  rest := h.rest
  broken e he := by
    obtain he | he := Array.mem_push.1 he
    · exact h.broken e he
    · exact absurd he.symm (ht e)

theorem insertAt (h : s.Follows s') (place : Nat) {t : Token} (ht : ∀ e, t ≠ .broken e) :
    s.Follows (s'.insertAt place t) where
  rest := h.rest
  broken e he := by
    unfold Lexer.insertAt Array.insertIdxIfInBounds at he
    dsimp only at he
    split at he
    · obtain he | he := Array.mem_insertIdx.1 he
      · exact absurd he.symm (ht e)
      · exact h.broken e he
    · exact h.broken e he

theorem closeBlocks (h : s.Follows s') (column : Int) : s.Follows (s'.closeBlocks column) := by
  unfold Lexer.closeBlocks
  split
  · exact h
  · refine ⟨h.rest, fun e he => ?_⟩
    obtain he | he := Array.mem_append.1 he
    · exact h.broken e he
    · cases (Array.mem_replicate.1 he).2

theorem enter (h : s.Follows s') (column place : Nat) {t : Token} (ht : ∀ e, t ≠ .broken e) :
    s.Follows (s'.enter column place t) := by
  unfold Lexer.enter
  split
  · have hinsert := h.insertAt place ht
    exact ⟨hinsert.rest, hinsert.broken⟩
  · exact h

end Follows

/-- A step leads to a later state. -/
abbrev Steps (s : Lexer) (r : Except Error Lexer) : Prop := Scans s.rest s.Follows r

theorem Follows.steps {s s' : Lexer} (h : s.Follows s') {r : Except Error Lexer}
    (hr : Steps s' r) : Steps s r :=
  (hr.imp fun _ hnext => h.trans hnext).of_suffix h.rest

variable (s : Lexer)

theorem dropOutOfReach_scans (key : Option OpenKey) (rest : Spots) :
    Scans rest (fun _ => True) (s.dropOutOfReach key) := by
  unfold dropOutOfReach
  split
  · trivial
  · exact .ite trivial (.ite (.malformed _) trivial)

theorem mapM_dropOutOfReach_scans (keys : List (Option OpenKey)) (rest : Spots) :
    Scans rest (fun _ => True) (keys.mapM s.dropOutOfReach) := by
  induction keys with
  | nil => trivial
  | cons key keys ih =>
    rw [List.mapM_cons]
    exact (s.dropOutOfReach_scans key rest).bind fun _ _ => ih.bind fun _ _ => trivial

theorem dropKey_steps : Steps s s.dropKey := by
  have hdrop (key : Option OpenKey) : s.Follows { s with openKey := key } :=
    ⟨List.suffix_rfl, fun _ he => he⟩
  unfold dropKey
  split
  · exact .ite (.malformed _) (hdrop none)
  · exact .refl s

theorem saveKey_steps : Steps s s.saveKey := by
  unfold saveKey
  exact .ite (s.dropKey_steps.bind fun _ hs => ⟨hs.rest, hs.broken⟩) (.refl s)

theorem settle_steps : Steps s s.settle := by
  have hmark : (if s.rest.index = 0 && s.rest.peek = byteOrderMark then s.rest.drop 1
      else s.rest) <:+ s.rest := by
    split
    · exact List.drop_suffix 1 _
    · exact List.suffix_rfl
  have hrest := (skipToToken_suffix _).trans hmark
  unfold settle
  refine (dropOutOfReach_scans _ _ _).bind fun openKey _ => ?_
  refine (mapM_dropOutOfReach_scans _ _ _).bind fun outerKeys _ => ?_
  refine Follows.closeBlocks ?_ _
  exact ⟨hrest, fun _ he => he⟩

theorem finish_steps : Steps s s.finish := by
  unfold finish
  refine (((Follows.refl s).closeBlocks (-1)).steps (dropKey_steps _)).bind fun _ hs => ?_
  exact hs.allowKey false

theorem directive_steps : Steps s s.directive := by
  unfold directive
  refine s.finish_steps.bind fun s' hs => hs.steps ?_
  refine (Word.directive_leaves s'.rest).bind fun (d, rest) hrest => ?_
  exact ((Follows.refl s').push (by nofun)).moveTo hrest

theorem marker_steps {t : Token} (ht : ∀ e, t ≠ .broken e) : Steps s (s.marker t) := by
  unfold marker
  refine s.finish_steps.bind fun s' hs => ?_
  exact (hs.push ht).moveTo (List.drop_suffix 3 _)

theorem openFlow_steps {t : Token} (ht : ∀ e, t ≠ .broken e) : Steps s (s.openFlow t) := by
  unfold openFlow
  refine s.saveKey_steps.bind fun s' hs => ?_
  exact ⟨(List.drop_suffix 1 _).trans hs.rest, (hs.push ht).broken⟩

theorem closeFlow_steps {t : Token} (ht : ∀ e, t ≠ .broken e) : Steps s (s.closeFlow t) := by
  unfold closeFlow
  refine s.dropKey_steps.bind fun s' hs => ?_
  split
  · exact .malformed _
  · exact ⟨(List.drop_suffix 1 _).trans hs.rest, (hs.push ht).broken⟩

/-- Behind a token of a single character. -/
theorem Follows.single {s s' : Lexer} (h : s.Follows s') {t : Token} (ht : ∀ e, t ≠ .broken e)
    (allowed : Bool) : s.Follows (((s'.push t).moveTo (s'.rest.drop 1)).allowKey allowed) :=
  ((h.push ht).moveTo (List.drop_suffix 1 s'.rest)).allowKey allowed

theorem comma_steps : Steps s s.comma := by
  unfold comma
  exact s.dropKey_steps.bind fun _ hs => hs.single (by nofun) true

/-- A block that starts here does not start inside of flow collections. -/
theorem Follows.enterBlock {s s' : Lexer} (h : s.Follows s') (column place : Nat) {t : Token}
    (ht : ∀ e, t ≠ .broken e) :
    s.Follows (if s'.inFlow then s' else s'.enter column place t) := by
  split
  · exact h
  · exact h.enter column place ht

theorem entry_steps : Steps s s.entry := by
  unfold entry
  refine .check fun _ => ?_
  have henter := (Follows.refl s).enterBlock s.rest.column s.tokens.size
    (t := .blockSequenceStart) (by nofun)
  exact (henter.steps (dropKey_steps _)).bind fun _ hs => hs.single (by nofun) true

theorem key_steps : Steps s s.key := by
  unfold key
  refine .check fun _ => ?_
  have henter := (Follows.refl s).enterBlock s.rest.column s.tokens.size
    (t := .blockMappingStart) (by nofun)
  exact (henter.steps (dropKey_steps _)).bind fun _ hs => hs.single (by nofun) _

theorem value_steps : Steps s s.value := by
  unfold value
  split
  case h_1 k hk =>
    have hinsert := (Follows.refl s).insertAt k.token (t := .key) (by nofun)
    have hkey : s.Follows { s.insertAt k.token .key with openKey := none } :=
      ⟨hinsert.rest, hinsert.broken⟩
    exact (hkey.enterBlock _ _ (by nofun)).single (by nofun) false
  · refine .check fun _ => ?_
    exact ((Follows.refl s).enterBlock _ _ (by nofun)).single (by nofun) _

/-- A reading of a token that is not broken. -/
abbrev ReadsToken (s : Spots) (r : Except Error (Token × Spots)) : Prop :=
  Scans s (fun next => next.2 <:+ s ∧ ∀ e, next.1 ≠ .broken e) r

theorem word_steps {read : Spots → Except Error (Token × Spots)}
    (hread : ∀ rest, ReadsToken rest (read rest)) : Steps s (s.word read) := by
  unfold word
  refine s.saveKey_steps.bind fun s' hs => hs.steps ?_
  refine (hread s'.rest).bind fun (t, rest) ⟨hrest, ht⟩ => ?_
  exact (((Follows.refl s').push ht).moveTo hrest).allowKey false

theorem block_steps (folded : Bool) : Steps s (s.block folded) := by
  unfold block
  refine s.dropKey_steps.bind fun s' hs => hs.steps ?_
  refine ((Scalar.block_leaves folded s'.indent _).of_suffix (List.drop_suffix 1 _)).bind ?_
  intro (text, rest) hrest
  exact (((Follows.refl s').push (by nofun)).moveTo hrest).allowKey true

theorem plain_steps : Steps s s.plain := by
  unfold plain
  refine s.saveKey_steps.bind fun s' hs => hs.steps ?_
  have hplain := Scalar.plain_suffix s'.inFlow (s'.indent + 1) s'.rest []
  exact (((Follows.refl s').push (by nofun)).moveTo hplain).allowKey _

theorem readsToken_readAnchor {make : String → Token} (hmake : ∀ name e, make name ≠ .broken e)
    (s : Spots) : ReadsToken s (readAnchor make s) := by
  unfold readAnchor
  exact (Word.anchorName_leaves s).bind fun (name, rest) hrest => ⟨hrest, hmake name⟩

theorem readsToken_readTag (s : Spots) : ReadsToken s (readTag s) := by
  unfold readTag
  exact (Word.tag_leaves s).bind fun (t, rest) hrest => ⟨hrest, nofun⟩

theorem readsToken_readQuoted (s : Spots) : ReadsToken s (readQuoted s) := by
  unfold readQuoted
  refine ((Scalar.quoted_leaves _ _ _).of_suffix (List.drop_suffix 1 s)).bind ?_
  exact fun (text, rest) hrest => ⟨hrest, nofun⟩

theorem step_steps : Steps s s.step := by
  have hmarker (e : Error) :
      (if s.rest.peek = '-' then .documentStart else .documentEnd) ≠ Token.broken e := by
    split
    all_goals nofun
  -- the cases stand in the order in which the next characters are asked for
  unfold step
  dsimp only
  refine .ite s.directive_steps (.ite (s.marker_steps hmarker) ?_)
  refine .ite (s.openFlow_steps (by nofun)) (.ite (s.openFlow_steps (by nofun)) ?_)
  refine .ite (s.closeFlow_steps (by nofun)) (.ite (s.closeFlow_steps (by nofun)) ?_)
  refine .ite s.comma_steps (.ite s.entry_steps (.ite s.key_steps (.ite s.value_steps ?_)))
  refine .ite (s.word_steps (readsToken_readAnchor nofun)) ?_
  refine .ite (s.word_steps (readsToken_readAnchor nofun)) ?_
  refine .ite (s.word_steps readsToken_readTag) (.ite (s.block_steps _) ?_)
  exact .ite (s.word_steps readsToken_readQuoted) (.ite s.plain_steps (.malformed _))

/-- What stands in front of an open key is not broken by a fault behind it. -/
theorem of_broken_mem_brokenBy {e e' : Error} (h : .broken e ∈ s.brokenBy e')
    (he' : e'.IsMalformed ∨ HasOverflow s.rest) :
    .broken e ∈ s.tokens ∨ e.IsMalformed ∨ HasOverflow s.rest := by
  obtain h | h := Array.mem_push.1 h
  · obtain ⟨k, hk, hget⟩ := Array.mem_extract_iff_getElem.1 h
    exact .inl (hget ▸ Array.getElem_mem _)
  · cases h
    exact .inr he'

/-- A token is broken by malformed text or by an overflow. -/
theorem of_broken_mem_run (s : Lexer) {e : Error} (h : .broken e ∈ s.run) :
    .broken e ∈ s.tokens ∨ e.IsMalformed ∨ HasOverflow s.rest := by
  have hsettle := s.settle_steps
  unfold run at h
  split at h
  case h_1 e' he' =>
    rw [he'] at hsettle
    exact s.of_broken_mem_brokenBy h hsettle
  case h_2 settled hsettled =>
    rw [hsettled] at hsettle
    split at h
    · have hfinish := hsettle.steps settled.finish_steps
      split at h
      case h_1 last hlast =>
        rw [hlast] at hfinish
        exact .inl (hfinish.broken e h)
      case h_2 e' he' =>
        rw [he'] at hfinish
        exact s.of_broken_mem_brokenBy h hfinish
    · have hstep := hsettle.steps settled.step_steps
      split at h
      case h_1 e' he' =>
        rw [he'] at hstep
        exact s.of_broken_mem_brokenBy h hstep
      case h_2 next hnext =>
        rw [hnext] at hstep
        split at h
        case isTrue hlength =>
          -- an overflow of the shorter text is one of this text, too
          obtain h | h := next.of_broken_mem_run h
          · exact .inl (hstep.broken e h)
          · exact .inr (h.imp_right (·.of_suffix hstep.rest))
        · exact .inl (hstep.broken e h)
termination_by s.rest.length
decreasing_by assumption

end Lexer

/-- A token that cannot be read is one of malformed text, or of a text with an overflow. -/
theorem Token.of_broken_mem_scan {text : Spots} {e : Error} (h : .broken e ∈ Token.scan text) :
    e.IsMalformed ∨ HasOverflow text := by
  obtain h | h := (Lexer.start text).of_broken_mem_run (Array.mem_toList_iff.1 h)
  · exact absurd h (Array.not_mem_empty _)
  · exact h

end NetBalance.Yaml
