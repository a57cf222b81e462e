import NetBalance.Proofs.Depth
import NetBalance.Proofs.Misreadings
import Mathlib

/-! # Errors of configuration files

    Whoever loads a configuration file is told to expect a configuration or
    an error of a configuration.  A file that is missing and a text that is
    malformed are such errors, and so is whatever a document gets wrong.  An
    error of another kind escapes for bytes that are no text, and for the few
    faults of YAML that are not malformed text. -/

namespace NetBalance

open Yaml

namespace Config

variable {K α β : Type}

/-! ## The keys that errors name -/

/-- The keys that a problem of a section names inside of it. -/
def SectionProblem.keys : SectionProblem K → List (Document K)
  | .inside problems => problems.map (·.key)
  | .unknownField | .nullValue | .notAMapping => []

def ConfigError.keys : ConfigError K → List (Document K)
  | .notAMapping => []
  | .refused problems => problems.flatMap fun (key, problem) => key :: problem.keys

/-- All keys of a mapping are texts. -/
def AreNamed (entries : Document.Entries K) : Prop := ∀ entry ∈ entries, entry.1.name?.isSome

/-- All keys of a document are texts, as far as a configuration reaches: its own ones and those of
    its sections. -/
def IsNamed : Document K → Prop
  | .mapping entries => AreNamed entries ∧
      ∀ entry ∈ entries, ∀ settings, entry.2 = .mapping settings → AreNamed settings
  | _ => True

theorem AreNamed.unknownKeys {entries : Document.Entries K} (h : AreNamed entries)
    {names : List String} {key : Document K} (hkey : key ∈ unknownKeys entries names) :
    key.name?.isSome := by
  obtain ⟨entry, hentry, rfl⟩ := List.mem_map.1 (List.mem_filter.1 hkey).1
  exact h entry hentry

/-- The problems of a section are all about settings with names. -/
def NamesProblems (c : Checked (SettingProblem K) α) : Prop :=
  ∀ problem ∈ c.problems, problem.key.name?.isSome

namespace NamesProblems

theorem pure (a : α) : NamesProblems (Pure.pure a : Checked (SettingProblem K) α) := nofun

theorem bind {c : Checked (SettingProblem K) α} {f : α → Checked (SettingProblem K) β}
    (hc : NamesProblems c) (hf : ∀ a, NamesProblems (f a)) : NamesProblems (c >>= f) :=
  List.forall_mem_append.2 ⟨hc, hf c.value⟩

theorem setting (entries : Document.Entries K) (name : String) (rule : Rule K α) (otherwise : α) :
    NamesProblems (Config.setting entries name rule otherwise) := by
  unfold Config.setting
  split
  · exact pure _
  · split
    · exact pure _
    · exact List.forall_mem_singleton.2 rfl

theorem noOthers {entries : Document.Entries K} (h : AreNamed entries) (names : List String) :
    NamesProblems (Config.noOthers entries names) := by
  intro problem hproblem
  obtain ⟨key, hkey, rfl⟩ := List.mem_map.1 hproblem
  exact h.unknownKeys hkey

end NamesProblems

section Sections

variable [Zero K] [One K] [Scalar K]

theorem namesProblems_readSolver {entries : Document.Entries K} (h : AreNamed entries) :
    NamesProblems (readSolver entries) := by
  unfold readSolver
  refine (NamesProblems.noOthers h _).bind fun _ => ?_
  iterate 7 refine (NamesProblems.setting _ _ _ _).bind fun _ => ?_
  exact .pure _

theorem namesProblems_readBuilder {entries : Document.Entries K} (h : AreNamed entries) :
    NamesProblems (readBuilder entries) := by
  unfold readBuilder
  refine (NamesProblems.noOthers h _).bind fun _ => ?_
  iterate 2 refine (NamesProblems.setting _ _ _ _).bind fun _ => ?_
  exact .pure _

omit [Zero K] [One K] [Scalar K] in
theorem namesProblems_readLogging {entries : Document.Entries K} (h : AreNamed entries) :
    NamesProblems (readLogging entries) := by
  unfold readLogging
  refine (NamesProblems.noOthers h _).bind fun _ => ?_
  iterate 2 refine (NamesProblems.setting _ _ _ _).bind fun _ => ?_
  exact .pure _

/-- A problem names nothing but texts. -/
def IsNamedProblem (p : Document K × SectionProblem K) : Prop :=
  ∀ key ∈ p.1 :: p.2.keys, key.name?.isSome

omit [Zero K] [One K] [Scalar K] in
theorem isNamedProblem_readSection {entries : Document.Entries K}
    (h : IsNamed (.mapping entries)) {home : String}
    {read : Document.Entries K → Checked (SettingProblem K) α} {otherwise : α}
    (hread : ∀ settings, AreNamed settings → NamesProblems (read settings)) :
    ∀ p ∈ (readSection entries home read otherwise).problems, IsNamedProblem p := by
  unfold readSection
  split
  · nofun
  case h_2 settings hsettings =>
    split
    · nofun
    case h_2 problems hproblems =>
      obtain ⟨entry, hentry, hs⟩ := Option.map_eq_some_iff.1 hsettings
      have hsection := h.2 entry (List.mem_of_find?_eq_some hentry) settings hs
      have hinside := Checked.problems_of_toExcept hproblems
      refine List.forall_mem_singleton.2 (List.forall_mem_cons.2 ⟨rfl, ?_⟩)
      intro key hkey
      obtain ⟨problem, hproblem, rfl⟩ := List.mem_map.1 hkey
      exact hread settings hsection problem (hinside ▸ hproblem)
  · exact List.forall_mem_singleton.2 (List.forall_mem_singleton.2 rfl)
  · exact List.forall_mem_singleton.2 (List.forall_mem_singleton.2 rfl)

/-- An error names no keys but those of the document and those that it is to have. -/
theorem name?_isSome_of_ofDocument {d : Document K} (hd : IsNamed d) {e : ConfigError K}
    (h : EngineConfig.ofDocument d = .error e) : ∀ key ∈ e.keys, key.name?.isSome := by
  cases d with
  | mapping entries =>
    obtain ⟨problems, hproblems, rfl⟩ := mapError_eq_error.1 h
    have hall : ∀ p ∈ (readSections entries).problems, IsNamedProblem p := by
      unfold readSections
      simp only [Checked.problems_bind, Checked.problems_pure, List.forall_mem_append]
      refine ⟨?_, isNamedProblem_readSection hd fun _ => namesProblems_readSolver,
        isNamedProblem_readSection hd fun _ => namesProblems_readBuilder,
        isNamedProblem_readSection hd fun _ => namesProblems_readLogging, nofun⟩
      intro p hp
      obtain ⟨key, hkey, rfl⟩ := List.mem_map.1 hp
      exact List.forall_mem_singleton.2 (hd.1.unknownKeys hkey)
    intro key hkey
    obtain ⟨p, hp, hkey⟩ := List.mem_flatMap.1 hkey
    rw [← Checked.problems_of_toExcept hproblems] at hp
    exact hall p hp key hkey
  | null => cases h
  | _ =>
    cases h
    nofun

end Sections

/-! ## What is told of a file -/

/-- The error is told as one of a configuration.  Keys that are no texts need not have an order, so
    nothing is said of errors that name one. -/
def LoadError.IsTold : LoadError K → Prop
  | .noFile => True
  | .notText => False
  | .yaml cause => cause.IsMalformed
  | .config cause => ∀ key ∈ cause.keys, key.name?.isSome

/-- There is a configuration, or an error that is told as one of a configuration. -/
def IsAnswered (r : Except (LoadError K) (EngineConfig K)) : Prop :=
  ∀ e, r = .error e → e.IsTold

variable (K) [Add K] [Mul K] [Neg K] [Zero K] [One K] [Scalar K]

/-- What it takes for an error of another kind to escape from a text. -/
inductive Leaks (room : Room) (text : String) : Prop where
  /-- An escape or a row of digits that is too big, as a token that cannot be read. -/
  | token {spots : Spots} (hspots : Spots.ofText text = .ok spots) (h : HasOverflow spots)
      {e : Yaml.Error} (he : .broken e ∈ Token.scan spots) (hmalformed : ¬ e.IsMalformed)
  /-- Collections that are too deep inside of each other. -/
  | nesting {spots : Spots} (hspots : Spots.ofText text = .ok spots)
      (h : Token.NestBeyond room.nesting (Token.scan spots))
  /-- A text that does not denote what its tag promises. -/
  | scalar {c : Composition} (hc : Composition.ofText room.nesting text = .ok c) {i : Nat}
      (h : c.graph.Misread K i)
  /-- A chain of mappings that stand for the values of their value keys, be it without an end. -/
  | values {c : Composition} (hc : Composition.ofText room.nesting text = .ok c) {i : Nat}
      (h : c.graph.StandsDeep room.values i)
  /-- A chain of mappings that are merged into each other. -/
  | merges {c : Composition} (hc : Composition.ofText room.nesting text = .ok c) {i : Nat}
      (h : c.graph.MergesDeep room.merges i)
  /-- A document that is refused, and too deep to be copied. -/
  | copies {r : Reading K} (hr : Reading.ofText room text = .ok r)
      {problems : List (Document K × SectionProblem K)}
      (hrefused : EngineConfig.ofDocument (r.document depth r.root) = .error (.refused problems))
      {chain : List Nat} (hlength : chain.length = room.copies) (h : r.IsDescent chain)
  /-- A key that is no text. -/
  | key {r : Reading K} (hr : Reading.ofText room text = .ok r)
      (h : ¬ IsNamed (r.document depth r.root))

variable {K} {room : Room}

/-- An error of reading a text is one of malformed text, or the text has a leak. -/
theorem isMalformed_or_leaks {text : String} {e : Yaml.Error}
    (h : (Reading.ofText room text : Except Yaml.Error (Reading K)) = .error e) :
    e.IsMalformed ∨ Leaks K room text := by
  by_cases hmalformed : e.IsMalformed
  · exact .inl hmalformed
  · refine .inr ?_
    obtain hcomposition | ⟨c, hc, hexcuse⟩ := Reading.ofText_eq_error h
    · obtain hm | ⟨spots, hspots, hbroken | ⟨-, hnest⟩⟩ := Composition.ofText_eq_error hcomposition
      · exact absurd hm hmalformed
      · have hoverflow := (Token.of_broken_mem_scan hbroken).resolve_left hmalformed
        exact .token hspots hoverflow hbroken hmalformed
      · exact .nesting hspots hnest
    · obtain hm | ⟨i, hmisread⟩ | ⟨-, i, hvalues | hmerges⟩ := hexcuse
      · exact absurd hm hmalformed
      · exact .scalar hc hmisread
      · exact .values hc hvalues
      · exact .merges hc hmerges

theorem isAnswered_of_not_leaks {file : File} {text : String}
    (htext : (file.text : Except (LoadError K) String) = .ok text) (h : ¬ Leaks K room text) :
    IsAnswered (EngineConfig.ofFile room file : Except (LoadError K) (EngineConfig K)) := by
  intro e he
  rw [EngineConfig.ofFile, htext, ok_bind] at he
  obtain hyaml | ⟨r, hr, he⟩ := bind_eq_error.1 he
  · obtain ⟨cause, hcause, rfl⟩ := mapError_eq_error.1 hyaml
    exact (isMalformed_or_leaks hcause).resolve_right h
  · have hread := mapError_eq_ok.1 hr
    split at he
    · cases he
    · cases he
      nofun
    · rename_i problems hrefused
      obtain hcopy | ⟨_, -, he⟩ := bind_eq_error.1 he
      · obtain ⟨cause, hcause, rfl⟩ := mapError_eq_error.1 hcopy
        obtain ⟨-, chain, hlength, hdescent⟩ := Reading.copyValues_eq_error hcause
        exact absurd (.copies hread hrefused hlength hdescent) h
      · cases he
        by_cases hnamed : IsNamed (r.document depth r.root)
        · exact name?_isSome_of_ofDocument hnamed hrefused
        · exact absurd (.key hread hnamed) h

end Config

open Config

variable {K : Type} [Add K] [Mul K] [Neg K] [Zero K] [One K] [Scalar K]

/-- A file that is missing, or a directory, is told as an error of a configuration.  Bytes that are
    no text never are.  A text is answered unless it has a leak.  What is read of it is all of it:
    every collection is entered, and a document is cut off only where it makes no difference. -/
theorem EngineConfig.ofFile_isAnswered (room : Room) (file : File) :
    (file = .missing ∨ file = .directory →
        IsAnswered (ofFile room file : Except (LoadError K) (EngineConfig K))) ∧
      (∀ bytes, file = .content bytes → String.fromUTF8? bytes = none →
        ¬ IsAnswered (ofFile room file : Except (LoadError K) (EngineConfig K))) ∧
      (∀ text, (file.text : Except (LoadError K) String) = .ok text → ¬ Leaks K room text →
        IsAnswered (ofFile room file : Except (LoadError K) (EngineConfig K))) ∧
      ∀ text (r : Reading K), Reading.ofText room text = .ok r →
        r.collections.length ≤ r.graph.size ∧
          ∀ deeper ≥ depth, EngineConfig.ofDocument (r.document deeper r.root) =
            EngineConfig.ofDocument (r.document depth r.root) := by
  refine ⟨?_, ?_, fun text => isAnswered_of_not_leaks, fun text r hr =>
    ⟨Reading.length_collections_le hr, fun _ hdeeper => r.ofDocument_document hdeeper r.root⟩⟩
  · rintro (rfl | rfl) e he
    all_goals
      cases he
      trivial
  · rintro bytes rfl hbytes h
    have hread : (ofFile room (.content bytes) : Except (LoadError K) (EngineConfig K)) =
        .error .notText := by
      rw [ofFile, File.text, hbytes]
      rfl
    exact h _ hread

/-! ## Two configurations that ask for least squares by a word -/

/-- The tokens of a configuration that asks for least squares by a word. -/
def askingTokens (word : String) : List Token :=
  [.blockMappingStart, .key, .scalar false "solver", .value, .blockMappingStart, .key,
    .scalar false "least_squares", .value, .tag ⟨some "!!", "bool"⟩, .scalar false word,
    .blockEnd, .blockEnd]

def asking (word : String) : Composition where
  graph := ⟨#[⟨.map, .mapping [(1, 2)]⟩, ⟨.str, .scalar "solver"⟩, ⟨.map, .mapping [(3, 4)]⟩,
    ⟨.str, .scalar "least_squares"⟩, ⟨.bool, .scalar word⟩]⟩
  root := 0

theorem ofText_asking {text word : String} {nesting : Nat} (hnesting : 2 ≤ nesting)
    (h : (Spots.ofText text).map Token.scan = .ok (askingTokens word)) :
    Composition.ofText nesting text = .ok (asking word) := by
  obtain ⟨spots, hspots, hscan⟩ := map_eq_ok.1 h
  obtain ⟨room, rfl⟩ := Nat.exists_eq_add_of_le' hnesting
  rw [Composition.ofText, hspots, ok_bind, hscan]
  rfl

/-- None of the keys is a special one. -/
theorem marked_asking {t : Tag} (ht : t ∈ Graph.specialTags) (word : String) (i : Nat) :
    (asking word).graph.marked t i = [] := by
  obtain rfl | rfl : t = .merge ∨ t = .value := by
    simpa [Graph.specialTags] using ht
  all_goals
    obtain _ | _ | _ | _ | _ | i := i
    all_goals rfl

theorem not_standsFor_asking (word : String) (i j : Nat) :
    ¬ (asking word).graph.StandsFor i j := by
  rintro ⟨entry, hentry, -⟩
  rw [marked_asking (by decide)] at hentry
  cases hentry

/-- The word is all that can be misread. -/
theorem misreads_of_misread_asking {word : String} {i : Nat}
    (h : (asking word).graph.Misread Float i) : Tag.bool.Misreads Float word := by
  obtain ⟨text, htells, h⟩ := h
  cases htells with
  | value hj => exact absurd hj (not_standsFor_asking word i _)
  | scalar htext =>
    obtain hmisreads | ⟨-, j, hj⟩ := h
    · obtain _ | _ | _ | _ | _ | i := i
      case succ.succ.succ.succ.zero =>
        cases htext
        exact hmisreads
      all_goals exact absurd hmisreads.1 (by simp [Graph.tag, Graph.node, asking, Node.nothing])
    · exact absurd hj (not_standsFor_asking word i j)

/-- A stack of a thousand frames, of which some are taken before a file is read. -/
def stack : Room := ⟨480, 960, 960, 480⟩

/-- The word is a truth value. -/
def sureText : String := "\"solver\":\n  \"least_squares\": !!bool \"yes\"\n"

def sureReading : Reading Float where
  graph := (asking "yes").graph
  root := 0
  scalars := [(4, .bool true), (3, .text "least_squares"), (1, .text "solver")]
  collections := [0, 2]

theorem scan_sureText : (Spots.ofText sureText).map Token.scan = .ok (askingTokens "yes") := by
  cbv

theorem ofText_sureText : Reading.ofText stack sureText = .ok sureReading := by
  have hread : (DocumentReader.all (K := Float) stack).run ⟨(asking "yes").graph, 0, [], []⟩ =
      .ok ((), sureReading) := by
    cbv
  rw [Reading.ofText, ofText_asking (by decide) scan_sureText, ok_bind]
  exact congrArg (· >>= fun p => pure p.2) hread

theorem document_sureText : sureReading.document depth sureReading.root = .mapping [(.text "solver",
    .mapping [(.text "least_squares", .bool true)])] := by
  cbv

theorem not_leaks_sureText : ¬ Leaks Float stack sureText := by
  have hscan {spots : Spots} (hspots : Spots.ofText sureText = .ok spots) :
      Token.scan spots = askingTokens "yes" := by
    have h := scan_sureText
    rw [hspots] at h
    exact Except.ok.inj h
  have hcomposition {c : Composition} (hc : Composition.ofText stack.nesting sureText = .ok c) :
      c = asking "yes" :=
    Except.ok.inj (hc.symm.trans (ofText_asking (by decide) scan_sureText))
  have hreading {r : Reading Float} (hr : Reading.ofText stack sureText = .ok r) :
      r = sureReading := Except.ok.inj (hr.symm.trans ofText_sureText)
  rintro (⟨hspots, -, he, -⟩ | ⟨hspots, first, hfirst, hdeep⟩ | ⟨hc, h⟩ | ⟨hc, -, h⟩ | ⟨hc, -, h⟩ |
    ⟨hr, hrefused, -, -⟩ | ⟨hr, h⟩)
  · rw [hscan hspots] at he
    simp [askingTokens] at he
  · rw [hscan hspots] at hfirst
    have htwo : first.countP Token.isStart ≤ 2 := hfirst.sublist.countP_le
    have hroom : stack.nesting = 480 := rfl
    omega
  · rw [hcomposition hc] at h
    have hyes : scalarValue .bool "yes" = .ok (.bool true : Document Float) := by
      cbv
    exact (misreads_of_misread_asking h).2 _ hyes
  · rw [hcomposition hc] at h
    obtain ⟨j, hj, -⟩ := h
    exact not_standsFor_asking _ _ _ hj
  · rw [hcomposition hc] at h
    obtain ⟨j, ⟨entry, hentry, -⟩, -⟩ := h
    rw [marked_asking (by decide)] at hentry
    cases hentry
  · rw [hreading hr, document_sureText] at hrefused
    cases hrefused
  · rw [hreading hr, document_sureText] at h
    simp [IsNamed, AreNamed, Document.name?] at h

/-- It is answered, as it has no leak. -/
theorem EngineConfig.ofFile_isAnswered_sureText :
    IsAnswered (ofFile stack (.content sureText.toUTF8) :
      Except (LoadError Float) (EngineConfig Float)) := by
  obtain ⟨-, -, hanswered, -⟩ := ofFile_isAnswered (K := Float) stack (.content sureText.toUTF8)
  have htext : File.text (K := Float) (.content sureText.toUTF8) = .ok sureText := by
    cbv
  exact hanswered sureText htext not_leaks_sureText

/-- The word is no truth value. -/
def unsureText : String := "\"solver\":\n  \"least_squares\": !!bool \"maybe\"\n"

theorem scan_unsureText :
    (Spots.ofText unsureText).map Token.scan = .ok (askingTokens "maybe") := by
  cbv

/-! ## A text that stands for itself -/

/-- A mapping that is to be a text, and is the value of its own value key. -/
def endlessText : String := "!!str &x {=: *x}"

def endless : Composition where
  graph := ⟨#[⟨.str, .mapping [(1, 0)]⟩, ⟨.value, .scalar "="⟩]⟩
  root := 0

/-- However much room there is, the text has no end. -/
theorem text_endless (room : Nat) : endless.graph.text room 0 = .error .tooDeep := by
  induction room with
  | zero => rfl
  | succ room ih => exact ih

/-- An equals sign alone is a value key. -/
theorem ofPlain_equals : Tag.ofPlain "=" = .value := by
  have hbody : (if "=".toList.getLast? = some '\n' then "=".toList.dropLast else "=".toList) =
      ['='] := by
    decide +kernel
  have hint : Tag.isInt ['='] = false := by
    cbv
  unfold Tag.ofPlain
  dsimp only
  rw [hbody, hint]
  decide +kernel

/-- The text is composed, unless there is no room even for that. -/
theorem composition_endlessText (nesting : Nat) :
    Composition.ofText nesting endlessText = .error .tooDeep ∨
      Composition.ofText nesting endlessText = .ok endless := by
  have hscan : (Spots.ofText endlessText).map Token.scan = .ok [.tag ⟨some "!!", "str"⟩,
      .anchor "x", .flowMappingStart, .key, .scalar true "=", .value, .alias "x",
      .flowMappingEnd] := by
    cbv
  obtain ⟨spots, hspots, hscan⟩ := map_eq_ok.1 hscan
  rw [Composition.ofText, hspots, ok_bind, hscan, endless, ← ofPlain_equals]
  cases nesting with
  | zero => exact .inl rfl
  | succ nesting => exact .inr rfl

theorem ofText_endlessText (room : Room) :
    (Reading.ofText room endlessText : Except Yaml.Error (Reading Float)) = .error .tooDeep := by
  have hscalar : (endless.graph.scalarDocument room.values 0 :
      Except Yaml.Error (Document Float)) = .error .tooDeep := by
    show (endless.graph.text room.values 0 >>= scalarValue .str) = _
    rw [text_endless]
    rfl
  let start : Reading Float := ⟨endless.graph, 0, [], []⟩
  have hmeet : (DocumentReader.meet room 0).run start = .error .tooDeep := by
    show (((endless.graph.scalarDocument room.values 0 : Except Yaml.Error (Document Float)) >>=
      fun d => pure (d, start)) >>= fun p => .ok ((), { start with scalars := [(0, p.1)] })) = _
    rw [hscalar]
    rfl
  obtain h | h := composition_endlessText room.nesting
  · rw [Reading.ofText, h]
    rfl
  · rw [Reading.ofText, h, ok_bind]
    show (((DocumentReader.meet room 0).run start >>= fun p =>
      (DocumentReader.enterAll room).run p.2) >>= fun p => pure p.2) = _
    rw [hmeet]
    rfl

/-- Bytes that are no text, and a word that is no truth value, are not told as errors of a
    configuration.  However much room there is, neither is a text that stands for itself. -/
theorem EngineConfig.ofFile_not_isAnswered :
    ¬ IsAnswered (ofFile stack (.content ⟨#[0xff]⟩) :
        Except (LoadError Float) (EngineConfig Float)) ∧
      ¬ IsAnswered (ofFile stack (.content unsureText.toUTF8) :
        Except (LoadError Float) (EngineConfig Float)) ∧
      ∀ room, ¬ IsAnswered (ofFile room (.content endlessText.toUTF8) :
        Except (LoadError Float) (EngineConfig Float)) := by
  refine ⟨?_, ?_, fun room => ?_⟩
  · have hread : (ofFile stack (.content ⟨#[0xff]⟩) :
        Except (LoadError Float) (EngineConfig Float)) = .error .notText := rfl
    exact fun h => h _ hread
  · have htext : File.text (K := Float) (.content unsureText.toUTF8) = .ok unsureText := by
      cbv
    have hdocument : (DocumentReader.all (K := Float) stack).run
        ⟨(asking "maybe").graph, (asking "maybe").root, [], []⟩ = .error .badTruth := by
      cbv
    have hread : (ofFile stack (.content unsureText.toUTF8) :
        Except (LoadError Float) (EngineConfig Float)) = .error (.yaml .badTruth) := by
      rw [ofFile, htext, ok_bind, Reading.ofText, ofText_asking (by decide) scan_unsureText,
        ok_bind]
      dsimp only
      rw [hdocument]
      rfl
    exact fun h => h _ hread
  · have htext : File.text (K := Float) (.content endlessText.toUTF8) = .ok endlessText := by
      cbv
    have hread : (ofFile room (.content endlessText.toUTF8) :
        Except (LoadError Float) (EngineConfig Float)) = .error (.yaml .tooDeep) := by
      rw [ofFile, htext, ok_bind, ofText_endlessText]
      rfl
    exact fun h => h _ hread

end NetBalance
