import NetBalance.Config.File
import Mathlib

/-! # How deep a configuration is looked at

    A document that holds itself has no end, but a configuration asks only
    for sections and for their settings, and of a setting only whether it is
    a scalar.  So it does not matter where below that a document is cut off. -/

namespace NetBalance

open Config

variable {K : Type}

namespace Document

/-- Two documents are equal, or both are lists, or both are mappings with related entries. -/
def Alike (related : Entries K → Entries K → Prop) (d d' : Document K) : Prop :=
  d = d' ∨ (∃ items items', d = .list items ∧ d' = .list items') ∨
    ∃ entries entries', d = .mapping entries ∧ d' = .mapping entries' ∧ related entries entries'

/-- Two documents agree as far as mappings inside of mappings are opened, `depth` of them below the
    first one. -/
def AgreeTo : (depth : Nat) → Document K → Document K → Prop
  | 0 => Alike fun _ _ => True
  | depth + 1 => Alike (List.Forall₂ fun entry entry' =>
      entry.1 = entry'.1 ∧ AgreeTo depth entry.2 entry'.2)

/-- Two lists of entries have the same keys, and values that agree. -/
abbrev EntriesAgree (depth : Nat) : Entries K → Entries K → Prop :=
  List.Forall₂ fun entry entry' => entry.1 = entry'.1 ∧ AgreeTo depth entry.2 entry'.2

variable {depth : Nat} {d d' : Document K} {entries entries' : Entries K}

theorem AgreeTo.refl (depth : Nat) (d : Document K) : AgreeTo depth d d := by
  cases depth <;> exact .inl rfl

theorem AgreeTo.list (depth : Nat) (items items' : List (Document K)) :
    AgreeTo depth (.list items) (.list items') := by
  cases depth <;> exact .inr (.inl ⟨items, items', rfl, rfl⟩)

/-- The values that two lists of entries have for a name agree, or neither has one. -/
theorem EntriesAgree.get?_cases (h : EntriesAgree depth entries entries') (name : String) :
    (Entries.get? entries name = none ∧ Entries.get? entries' name = none) ∨
      ∃ d d', Entries.get? entries name = some d ∧ Entries.get? entries' name = some d' ∧
        AgreeTo depth d d' := by
  induction h with
  | nil => exact .inl ⟨rfl, rfl⟩
  | @cons entry entry' rest rest' hentry hrest ih =>
    unfold Entries.get? at ih ⊢
    rw [List.find?_cons, List.find?_cons, hentry.1]
    split
    · exact .inr ⟨entry.2, entry'.2, rfl, rfl, hentry.2⟩
    · exact ih

theorem EntriesAgree.keys (h : EntriesAgree depth entries entries') :
    entries.map (·.1) = entries'.map (·.1) := by
  induction h with
  | nil => rfl
  | cons hentry _ ih => rw [List.map_cons, List.map_cons, hentry.1, ih]

end Document

namespace Config

open Document

variable {α : Type} {depth : Nat} {entries entries' : Entries K}

/-! ## Configurations -/

/-- A rule does not look into lists and mappings. -/
def Rule.IsShallow (rule : Rule K α) : Prop := ∀ d d', AgreeTo 0 d d' → rule d = rule d'

theorem Rule.IsShallow.of {rule : Rule K α} (hlist : ∀ items, rule (.list items) = rule (.list []))
    (hmapping : ∀ entries, rule (.mapping entries) = rule (.mapping [])) : rule.IsShallow := by
  rintro d d' (rfl | ⟨items, items', rfl, rfl⟩ | ⟨entries, entries', rfl, rfl, -⟩)
  · rfl
  · exact (hlist items).trans (hlist items').symm
  · exact (hmapping entries).trans (hmapping entries').symm

theorem setting_congr (h : EntriesAgree 0 entries entries') {rule : Rule K α}
    (hrule : rule.IsShallow) (name : String) (otherwise : α) :
    setting entries name rule otherwise = setting entries' name rule otherwise := by
  unfold setting
  obtain ⟨hnone, hnone'⟩ | ⟨d, d', hd, hd', hvalue⟩ := h.get?_cases name
  · rw [hnone, hnone']
  · rw [hd, hd']
    dsimp only
    rw [hrule d d' hvalue]

theorem unknownKeys_congr (h : EntriesAgree depth entries entries') (names : List String) :
    unknownKeys entries names = unknownKeys entries' names := by
  unfold unknownKeys
  rw [h.keys]

theorem noOthers_congr (h : EntriesAgree depth entries entries') (names : List String) :
    noOthers entries names = noOthers entries' names := by
  unfold noOthers
  rw [unknownKeys_congr h]

theorem readSection_congr (h : EntriesAgree 1 entries entries') (name : String)
    {read : Entries K → Checked (SettingProblem K) α}
    (hread : ∀ settings settings', EntriesAgree 0 settings settings' →
      read settings = read settings') (otherwise : α) :
    readSection entries name read otherwise = readSection entries' name read otherwise := by
  unfold readSection
  obtain ⟨hnone, hnone'⟩ | ⟨d, d', hd, hd', hvalue⟩ := h.get?_cases name
  · rw [hnone, hnone']
  · rw [hd, hd']
    obtain rfl | ⟨items, items', rfl, rfl⟩ | ⟨settings, settings', rfl, rfl, hsettings⟩ := hvalue
    · rfl
    · rfl
    · dsimp only
      rw [hread settings settings' hsettings]

section Sections

variable [Zero K] [One K] [Scalar K]

theorem readSolver_congr (h : EntriesAgree 0 entries entries') :
    readSolver entries = readSolver entries' := by
  have hnumber (range : Range) : Rule.IsShallow (number (K := K) range) :=
    .of (fun _ => rfl) fun _ => rfl
  have hcount : Rule.IsShallow (count (K := K)) := .of (fun _ => rfl) fun _ => rfl
  have htruth : Rule.IsShallow (truth (K := K)) := .of (fun _ => rfl) fun _ => rfl
  unfold readSolver
  simp only [noOthers_congr h, setting_congr h (hnumber _), setting_congr h hcount,
    setting_congr h htruth]

theorem readBuilder_congr (h : EntriesAgree 0 entries entries') :
    readBuilder entries = readBuilder entries' := by
  have hnumber : Rule.IsShallow (number (K := K) .any) := .of (fun _ => rfl) fun _ => rfl
  have htruth : Rule.IsShallow (truth (K := K)) := .of (fun _ => rfl) fun _ => rfl
  unfold readBuilder
  simp only [noOthers_congr h, setting_congr h hnumber, setting_congr h htruth]

omit [Zero K] [One K] [Scalar K] in
theorem readLogging_congr (h : EntriesAgree 0 entries entries') :
    readLogging entries = readLogging entries' := by
  have hlevel : Rule.IsShallow (K := K) fun d => some <$> choice levelNames d :=
    .of (fun _ => rfl) fun _ => rfl
  have hfile : Rule.IsShallow (K := K) fun d => some <$> text d :=
    .of (fun _ => rfl) fun _ => rfl
  unfold readLogging
  simp only [noOthers_congr h, setting_congr h hlevel, setting_congr h hfile]

theorem readSections_congr (h : EntriesAgree 1 entries entries') :
    readSections entries = readSections entries' := by
  unfold readSections
  simp only [unknownKeys_congr h,
    readSection_congr h _ fun _ _ hsettings => readSolver_congr hsettings,
    readSection_congr h _ fun _ _ hsettings => readBuilder_congr hsettings,
    readSection_congr h _ fun _ _ hsettings => readLogging_congr hsettings]

end Sections

end Config

section Configurations

variable [Zero K] [One K] [Scalar K]

/-- A configuration depends on a document as far as its settings. -/
theorem EngineConfig.ofDocument_congr {d d' : Document K} (h : Document.AgreeTo Config.depth d d') :
    ofDocument d = ofDocument d' := by
  obtain rfl | ⟨items, items', rfl, rfl⟩ | ⟨entries, entries', rfl, rfl, hentries⟩ := h
  · rfl
  · rfl
  · unfold ofDocument
    dsimp only
    rw [readSections_congr hentries]

end Configurations

/-! ## Documents that are cut off -/

namespace Yaml.Reading

open Document

variable [Scalar K] (r : Reading K) {i : Nat}

theorem document_of_map (h : r.graph.tag i = .map) (depth : Nat) :
    ∃ entries, r.document depth i = .mapping entries := by
  cases depth <;> simp [document, h]

theorem document_succ_of_map (h : r.graph.tag i = .map) (depth : Nat) :
    r.document (depth + 1) i =
      .mapping ((r.pairs i).map fun pair => (pair.1, r.document depth pair.2)) := by
  simp [document, h]

/-- A node that is no mapping is a scalar or a list, and the lists are all alike. -/
theorem document_of_ne_map (h : r.graph.tag i ≠ .map) (n depth depth' : Nat) :
    AgreeTo n (r.document depth i) (r.document depth' i) := by
  cases htag : r.graph.tag i with
  | map => exact absurd htag h
  | seq | set | omap | pairs =>
    cases depth <;> cases depth' <;> simp only [document, htag] <;> exact .list n _ _
  | _ =>
    cases depth <;> cases depth' <;> simp only [document, htag] <;> exact .refl n _

/-- Where a document is cut off does not matter above. -/
theorem agreeTo_document {n depth depth' : Nat} (h : n ≤ depth) (h' : n ≤ depth') (i : Nat) :
    AgreeTo n (r.document depth i) (r.document depth' i) := by
  induction n generalizing depth depth' i with
  | zero =>
    by_cases hmap : r.graph.tag i = .map
    · obtain ⟨entries, hentries⟩ := r.document_of_map hmap depth
      obtain ⟨entries', hentries'⟩ := r.document_of_map hmap depth'
      exact .inr (.inr ⟨entries, entries', hentries, hentries', trivial⟩)
    · exact r.document_of_ne_map hmap 0 depth depth'
  | succ n ih =>
    by_cases hmap : r.graph.tag i = .map
    · obtain ⟨depth, rfl⟩ := Nat.exists_eq_add_of_le' (Nat.one_le_of_lt h)
      obtain ⟨depth', rfl⟩ := Nat.exists_eq_add_of_le' (Nat.one_le_of_lt h')
      rw [r.document_succ_of_map hmap, r.document_succ_of_map hmap]
      refine .inr (.inr ⟨_, _, rfl, rfl, ?_⟩)
      rw [List.forall₂_map_left_iff, List.forall₂_map_right_iff, List.forall₂_same]
      intro pair _
      exact ⟨rfl, ih (Nat.le_of_succ_le_succ h) (Nat.le_of_succ_le_succ h') pair.2⟩
    · exact r.document_of_ne_map hmap (n + 1) depth depth'

/-- A configuration sees no more of a document that is cut off deeper down. -/
theorem ofDocument_document [Zero K] [One K] {depth : Nat} (h : Config.depth ≤ depth) (i : Nat) :
    EngineConfig.ofDocument (r.document depth i) =
      EngineConfig.ofDocument (r.document Config.depth i) :=
  EngineConfig.ofDocument_congr (r.agreeTo_document h le_rfl i)

end Yaml.Reading

end NetBalance
