import NetBalance.Log.Logged
import NetBalance.Yaml.Token.Lexer

/-! # Where scanning ends

    Readers of characters only go forward: what they leave is an end of what
    they were given.  They fail where the text is malformed, or where a number
    is too big: the code of an escape, or a row of digits. -/

namespace NetBalance.Yaml

/-- The fault is one of the text as YAML. -/
def Error.IsMalformed : Error → Prop
  | .malformed _ => True
  | .noCodePoint | .hugeCodePoint | .badNumeral | .emptyNumeral | .hugeNumeral | .badTruth
  | .badDate | .mappedDate | .noSuchDate | .tooDeep => False

/-! ## What is left -/

namespace Spots

theorem span_suffix (s : Spots) (p : Char → Bool) : (s.span p).2 <:+ s := List.dropWhile_suffix _

theorem skip_suffix (s : Spots) (p : Char → Bool) : s.skip p <:+ s := List.dropWhile_suffix _

theorem lineBreak_suffix (s : Spots) : (lineBreak s).2 <:+ s := by
  unfold lineBreak
  split
  · split
    · exact List.suffix_cons _ _
    · split
      · exact List.suffix_cons _ _
      · exact List.suffix_rfl
  · exact List.suffix_rfl

theorem skipComment_suffix (s : Spots) : s.skipComment <:+ s := by
  unfold skipComment
  dsimp only
  split
  · exact (skip_suffix _ _).trans (skip_suffix _ _)
  · exact skip_suffix _ _

theorem skipToToken_suffix (s : Spots) : (skipToToken s).2 <:+ s := by
  have hcomment := s.skipComment_suffix
  unfold skipToToken
  split
  case h_1 c rest hlength h _ =>
    rw [h] at hcomment
    split
    · exact (skipToToken_suffix rest).trans ((List.suffix_cons c rest).trans hcomment)
    · exact hcomment
  case h_2 => exact List.nil_suffix
termination_by s.length
decreasing_by assumption

theorem peek_drop (s : Spots) (k : Nat) : peek (s.drop k) = s.peekAt k := by
  simp [peek, peekAt]

end Spots

namespace Scalar

open Spots

theorem plainWord_suffix (inFlow : Bool) (s : Spots) : (plainWord inFlow s).2 <:+ s := by
  induction s with
  | nil => exact List.suffix_rfl
  | cons c rest ih =>
    unfold plainWord
    split
    · exact List.suffix_rfl
    · exact ih.trans (List.suffix_cons _ _)

theorem plainBreaks_suffix (s : Spots) : (plainBreaks s).2 <:+ s := by
  induction s with
  | nil => exact List.suffix_rfl
  | cons c rest ih =>
    have hrest := ih.trans (List.suffix_cons c rest)
    unfold plainBreaks
    split
    · exact hrest
    · split
      · dsimp only
        split
        · exact lineBreak_suffix _
        · exact hrest
      · exact List.suffix_rfl

theorem plainGap_suffix (s : Spots) : (plainGap s).2.2 <:+ s := by
  have hspaces := span_suffix s (· = ' ')
  have hline := (lineBreak_suffix _).trans hspaces
  have hbreaks := (plainBreaks_suffix _).trans hline
  unfold plainGap
  dsimp only
  split
  · split
    · exact hline
    · split
      all_goals
        rename_i h
        rw [h] at hbreaks
        exact hbreaks
  · exact hspaces

theorem plain_suffix (inFlow : Bool) (indent : Int) (s : Spots) (acc : List Char) :
    (plain inFlow indent s acc).2.2 <:+ s := by
  have hgap := (plainGap_suffix _).trans (plainWord_suffix inFlow s)
  unfold plain
  dsimp only
  split
  · exact List.suffix_rfl
  · split
    · exact hgap
    · split
      · exact hgap
      · split
        case isTrue hlength => exact (plain_suffix _ _ _ _).trans hgap
        · exact hgap
termination_by s.length
decreasing_by assumption

theorem indentTo_suffix (indent : Nat) (s : Spots) : indentTo indent s <:+ s := by
  induction s with
  | nil => exact List.suffix_rfl
  | cons c rest ih =>
    unfold indentTo
    split
    · exact ih.trans (List.suffix_cons _ _)
    · exact List.suffix_rfl

theorem blockBreaks_suffix (indent : Nat) (s : Spots) : (blockBreaks indent s).2 <:+ s := by
  have hstart := indentTo_suffix indent s
  unfold blockBreaks
  dsimp only
  split
  case isTrue h =>
    exact (blockBreaks_suffix _ _).trans ((lineBreak_suffix _).trans hstart)
  · exact hstart
termination_by s.length
decreasing_by exact And.right (by assumption)

theorem detectIndent_suffix (s : Spots) : (detectIndent s).2.2 <:+ s := by
  induction s with
  | nil => exact List.suffix_rfl
  | cons c rest ih =>
    have hrest := ih.trans (List.suffix_cons c rest)
    unfold detectIndent
    split
    · exact hrest
    · split
      · exact hrest
      · exact List.suffix_rfl

theorem blockLines_suffix (folded : Bool) (indent : Nat) (s : Spots) (breaks acc : List Char) :
    (blockLines folded indent s breaks acc).2.2.2 <:+ s := by
  have hline := (lineBreak_suffix _).trans (span_suffix s (!isBreakOrEnd ·))
  have hblank := (blockBreaks_suffix indent _).trans hline
  unfold blockLines
  dsimp only
  split
  · split
    · split
      case isTrue hlength => exact (blockLines_suffix _ _ _ _ _).trans hblank
      · exact hblank
    · exact hblank
  · exact List.suffix_rfl
termination_by s.length
decreasing_by assumption

end Scalar

/-! ## How reading goes -/

/-- Here starts more than readers of numbers take: an escape with a code beyond the last code
    point, or a row of too many digits. -/
inductive Overflows (s : Spots) : Prop where
  | escape (hmark : s.peek = '\\') {width code : Nat}
      (hwidth : Scalar.escapeWidth (s.peekAt 1) = some width)
      (hcode : Scalar.hexNumber? (s.drop 2) width = some code) (h : 0x110000 ≤ code)
  | digits (h : Decimal.maxWholeDigits < (s.span Char.isDigit).1.length)

/-- Somewhere in the text a number is too big for its readers. -/
def HasOverflow (s : Spots) : Prop := ∃ rest, rest <:+ s ∧ Overflows rest

theorem HasOverflow.of_suffix {s rest : Spots} (h : HasOverflow rest) (hrest : rest <:+ s) :
    HasOverflow s := by
  obtain ⟨here, hhere, h⟩ := h
  exact ⟨here, hhere.trans hrest, h⟩

/-- A reading has a result with a property, or the text is malformed or has an overflow. -/
def Scans {α : Type} (s : Spots) (p : α → Prop) : Except Error α → Prop
  | .ok a => p a
  | .error e => e.IsMalformed ∨ HasOverflow s

namespace Scans

variable {α β : Type} {s : Spots} {p : α → Prop} {q : β → Prop}

theorem malformed (e : SyntaxError) : Scans s p (.error (.malformed e)) := .inl trivial

theorem imp {p' : α → Prop} {r : Except Error α} (h : Scans s p r) (hp : ∀ a, p a → p' a) :
    Scans s p' r := by
  cases r with
  | ok a => exact hp a h
  | error _ => exact h

theorem of_suffix {rest : Spots} {r : Except Error α} (h : Scans rest p r) (hrest : rest <:+ s) :
    Scans s p r := by
  cases r with
  | ok _ => exact h
  | error _ => exact h.imp_right (·.of_suffix hrest)

theorem bind {r : Except Error α} {f : α → Except Error β} (hr : Scans s p r)
    (hf : ∀ a, p a → Scans s q (f a)) : Scans s q (r >>= f) := by
  cases r with
  | ok a => exact hf a hr
  | error _ => exact hr

theorem ite {c : Prop} [Decidable c] {r r' : Except Error α} (h : Scans s p r)
    (h' : Scans s p r') : Scans s p (if c then r else r') := by
  split
  · exact h
  · exact h'

/-- A check in front of what comes next. -/
theorem check {c : Prop} [Decidable c] {next : Unit → Except Error β} {e : SyntaxError}
    (h : ∀ u, Scans s q (next u)) :
    Scans s q (if c then throw (.malformed e) >>= next else next ()) :=
  .ite (malformed e) (h ())

end Scans

/-- A reading of something leaves an end of the text. -/
abbrev Leaves {α : Type} (s : Spots) (r : Except Error (α × Spots)) : Prop :=
  Scans s (fun next => next.2 <:+ s) r

/-- It leaves an end of a longer text as well. -/
theorem Leaves.of_suffix {α : Type} {s rest : Spots} {r : Except Error (α × Spots)}
    (h : Leaves rest r) (hrest : rest <:+ s) : Leaves s r :=
  (h.imp fun _ hnext => hnext.trans hrest).of_suffix hrest

namespace Scalar

open Spots

theorem quotedBreaks_leaves (s : Spots) : Leaves s (quotedBreaks s) := by
  have hblanks := skip_suffix s isSpaceOrTab
  unfold quotedBreaks
  dsimp only
  split
  · exact .malformed _
  · split
    case isTrue h =>
      have hrest := (lineBreak_suffix _).trans hblanks
      exact ((quotedBreaks_leaves _).of_suffix hrest).bind fun _ hlast => hlast
    · exact hblanks
termination_by s.length
decreasing_by exact And.right (by assumption)

theorem quotedGap_leaves (s : Spots) : Leaves s (quotedGap s) := by
  have hblanks := span_suffix s isSpaceOrTab
  have hline := (lineBreak_suffix _).trans hblanks
  unfold quotedGap
  refine .ite (.malformed _) (.ite ?_ hblanks)
  exact ((quotedBreaks_leaves _).of_suffix hline).bind fun _ hrest => hrest

/-- A code without a character is beyond the last code point. -/
theorem le_of_charOfCode {code : Nat} {e : Error} (h : charOfCode code = .error e) :
    0x110000 ≤ code := by
  unfold charOfCode at h
  split at h
  · cases h
  · omega

theorem escape_leaves {s : Spots} (hs : s.peek = '\\') : Leaves s (escape (s.drop 1)) := by
  have hdrop (k : Nat) : (s.drop 1).drop k <:+ s :=
    (List.drop_suffix _ _).trans (List.drop_suffix _ _)
  unfold escape
  dsimp only
  split
  · exact hdrop 1
  · split
    case h_1 width hwidth =>
      split
      case h_1 code hcode =>
        rw [peek_drop] at hwidth
        rw [List.drop_drop] at hcode
        cases h : charOfCode code with
        | ok c => exact hdrop _
        | error e =>
          have hover : Overflows s := .escape hs hwidth hcode (le_of_charOfCode h)
          exact .inr ⟨s, List.suffix_rfl, hover⟩
      · exact .malformed _
    · have hline := (lineBreak_suffix _).trans (List.drop_suffix 1 s)
      exact .ite ((quotedBreaks_leaves _).of_suffix hline) (.malformed _)

/-- A piece of a quoted scalar is read as everything else; at the closing quote nothing is read. -/
theorem quotedPiece_scans (quote : Char) (s : Spots) :
    Scans s (fun piece => ∀ next ∈ piece, next.2 <:+ s) (quotedPiece quote s) := by
  have map_some {r : Except Error (List Char × Spots)} (h : Leaves s r) :
      Scans s (fun piece => ∀ next ∈ piece, next.2 <:+ s) (r.map some) := by
    cases r with
    | ok _ =>
      rintro _ ⟨⟩
      exact h
    | error _ => exact h
  have hdrop (text : List Char) (k : Nat) : Leaves s (.ok (text, s.drop k)) :=
    List.drop_suffix k s
  unfold quotedPiece
  dsimp only
  split
  · exact .ite (map_some (hdrop _ 2)) nofun
  · split
    case isTrue h =>
      simp only [Bool.and_eq_true, decide_eq_true_eq] at h
      exact map_some (escape_leaves h.1)
    · exact .ite (map_some (quotedGap_leaves s)) (map_some (hdrop _ 1))

theorem quoted_leaves (quote : Char) (s : Spots) (acc : List Char) :
    Leaves s (quoted quote s acc) := by
  have hpiece := quotedPiece_scans quote s
  unfold quoted
  split
  case h_1 e he =>
    rw [he] at hpiece
    exact hpiece
  · exact List.drop_suffix 1 s
  case h_3 piece rest hread =>
    rw [hread] at hpiece
    have hrest : rest <:+ s := hpiece _ rfl
    split
    · exact (quoted_leaves quote rest _).of_suffix hrest
    · exact .malformed _
termination_by s.length
decreasing_by assumption

theorem blockHeader_scans (s : Spots) :
    Scans s (fun header => header.2.2 <:+ s) (blockHeader s) := by
  unfold blockHeader
  split
  rename_i chomping increment rest hhead
  have hrest : rest <:+ s := by
    have hdrop (k : Nat) : s.drop k <:+ s := List.drop_suffix k s
    split at hhead
    · split at hhead
      all_goals
        cases hhead
        exact hdrop _
    · split at hhead
      · split at hhead
        all_goals
          cases hhead
          exact hdrop _
      · cases hhead
        exact List.suffix_rfl
  have hend := (lineBreak_suffix _).trans ((skipComment_suffix rest).trans hrest)
  exact .check fun _ => .check fun _ => hend

theorem block_leaves (folded : Bool) (parent : Int) (s : Spots) :
    Leaves s (block folded parent s) := by
  unfold block
  refine (blockHeader_scans s).bind ?_
  rintro ⟨chomping, increment, body⟩ hbody
  have hlines {start : Spots} (hstart : start <:+ body) (indent : Nat) (breaks : List Char) :
      (blockLines folded indent start breaks []).2.2.2 <:+ s :=
    (blockLines_suffix _ _ _ _ _).trans (hstart.trans hbody)
  cases increment with
  | none => cases chomping <;> exact hlines (detectIndent_suffix body) _ _
  | some k => cases chomping <;> exact hlines (blockBreaks_suffix _ body) _ _

end Scalar

namespace Word

open Spots

theorem anchorName_leaves (s : Spots) : Leaves s (anchorName s) := by
  unfold anchorName
  exact .ite (.malformed _) ((span_suffix _ _).trans (List.drop_suffix 1 s))

/-! ### Tags -/

theorem escapedBytes_suffix {s : Spots} {bytes : List UInt8} {rest : Spots}
    (h : escapedBytes s = some (bytes, rest)) : rest <:+ s := by
  fun_induction escapedBytes s generalizing bytes rest with
  | case1 percent high low after _ ih =>
    simp only [Option.bind_eq_bind, Option.bind_eq_some_iff] at h
    obtain ⟨_, -, _, -, next, hnext, h⟩ := h
    cases h
    exact (ih hnext).trans (List.suffix_append [percent, high, low] after)
  | case2 =>
    cases h
    exact List.suffix_rfl
  | case3 => cases h
  | case4 =>
    cases h
    exact List.suffix_rfl

theorem escapedText_leaves (s : Spots) : Leaves s (escapedText s) := by
  unfold escapedText
  split
  · exact .malformed _
  case h_2 h =>
    split
    · exact escapedBytes_suffix h
    · exact .malformed _

theorem uriChars_leaves (s : Spots) : Leaves s (uriChars s) := by
  have hplain := span_suffix s isUriChar
  unfold uriChars
  dsimp only
  split
  · have htext := (escapedText_leaves _).of_suffix hplain
    split
    case h_1 he =>
      rw [he] at htext
      exact htext
    case h_2 text rest hread =>
      rw [hread] at htext
      split
      · exact ((uriChars_leaves rest).of_suffix htext).bind fun _ hlast => hlast
      · exact htext
  · exact hplain
termination_by s.length
decreasing_by assumption

theorem uri_leaves (s : Spots) : Leaves s (uri s) := by
  unfold uri
  refine (uriChars_leaves s).bind fun _ hrest => ?_
  exact .check fun _ => hrest

theorem handle_leaves (s : Spots) : Leaves s (handle s) := by
  have hrest := (span_suffix (s.drop 1) isNameChar).trans (List.drop_suffix 1 s)
  unfold handle
  refine .ite (.malformed _) (.ite (List.drop_suffix 1 s) (.ite ?_ (.malformed _)))
  exact (List.drop_suffix 1 _).trans hrest

theorem tag_leaves (s : Spots) : Leaves s (tag s) := by
  have hdrop := List.drop_suffix 1 s
  -- all forms of a tag end in one check, and two of them go through a handle
  unfold tag
  extract_lets finish closesHandle behindHandle
  have hfinish (t : WrittenTag) {rest : Spots} (hrest : rest <:+ s) : Leaves s (finish (t, rest)) :=
    .ite hrest (.malformed _)
  have hbehind (h : String) {rest : Spots} (hrest : rest <:+ s) :
      Leaves s (behindHandle (h, rest)) :=
    ((uri_leaves _).of_suffix hrest).bind fun _ hsuffix => hfinish _ hsuffix
  refine .ite ?_ (.ite (hfinish _ hdrop) ?_)
  · refine ((uri_leaves _).of_suffix (List.drop_suffix 2 s)).bind fun name hname => ?_
    refine .check fun _ => ?_
    exact hfinish _ ((List.drop_suffix 1 _).trans hname)
  · exact .ite ((handle_leaves s).bind fun next hnext => hbehind _ hnext) (hbehind _ hdrop)

/-! ### Directives -/

theorem digits_leaves (s : Spots) : Leaves s (digits s) := by
  unfold digits
  dsimp only
  split
  · exact .malformed _
  · split
    case isTrue h => exact .inr ⟨s, List.suffix_rfl, .digits h⟩
    · exact span_suffix _ _

theorem version_leaves (s : Spots) : Leaves s (version s) := by
  unfold version
  refine ((digits_leaves _).of_suffix (skip_suffix s _)).bind fun major hmajor => .check fun _ => ?_
  have hpoint := (List.drop_suffix 1 _).trans hmajor
  refine ((digits_leaves _).of_suffix hpoint).bind fun minor hminor => .check fun _ => ?_
  exact hminor

theorem declaration_leaves (s : Spots) : Leaves s (declaration s) := by
  unfold declaration
  refine ((handle_leaves _).of_suffix (skip_suffix s _)).bind fun h hrest => .check fun _ => ?_
  refine ((uri_leaves _).of_suffix ((skip_suffix _ _).trans hrest)).bind fun meaning hlast => ?_
  exact .check fun _ => hlast

theorem directive_leaves (s : Spots) : Leaves s (directive s) := by
  have hname := (span_suffix (s.drop 1) isNameChar).trans (List.drop_suffix 1 s)
  unfold directive
  dsimp -zeta only
  refine .check fun _ => ?_
  extract_lets finish
  have hfinish (d : Directive) {rest : Spots} (hrest : rest <:+ s) : Leaves s (finish (d, rest)) :=
    .check fun _ => (lineBreak_suffix _).trans ((skipComment_suffix _).trans hrest)
  split
  · exact ((version_leaves _).of_suffix hname).bind fun _ hnext => hfinish _ hnext
  · exact ((declaration_leaves _).of_suffix hname).bind fun _ hnext => hfinish _ hnext
  · exact hfinish _ ((skip_suffix _ _).trans hname)

end Word

end NetBalance.Yaml
