import NetBalance.Config.Engine
import NetBalance.Proofs.Rational

/-! # The documents that describe configurations

    A configuration has eleven settings in three sections.  Each setting says
    what it expects: a number of a range, a count, a truth value, a level or a
    text.  A document describes a configuration if it holds nothing but
    sections and settings, and if what it sets them to is what they expect.
    Then each setting has the value that the document gives to it, or its
    standard value, and no other setting has a say in that. -/

namespace NetBalance

variable {K : Type}

namespace Config

/-- The settings of a configuration. -/
inductive Field where
  | tolerance
  | maxIterations
  | minDamping
  | dampingBackoff
  | stallRatio
  | singularTolerance
  | leastSquares
  | defaultNetValue
  | strictReferences
  | level
  | file
deriving DecidableEq

namespace Field

def all : List Field :=
  [.tolerance, .maxIterations, .minDamping, .dampingBackoff, .stallRatio, .singularTolerance,
    .leastSquares, .defaultNetValue, .strictReferences, .level, .file]

/-- The section that a setting belongs to. -/
def home : Field → String
  | .tolerance | .maxIterations | .minDamping | .dampingBackoff | .stallRatio
  | .singularTolerance | .leastSquares => "solver"
  | .defaultNetValue | .strictReferences => "builder"
  | .level | .file => "logging"

/-- The key of a setting in its section. -/
def name : Field → String
  | .tolerance => "tolerance"
  | .maxIterations => "max_iterations"
  | .minDamping => "min_damping"
  | .dampingBackoff => "damping_backoff"
  | .stallRatio => "stall_ratio"
  | .singularTolerance => "singular_tolerance"
  | .leastSquares => "least_squares"
  | .defaultNetValue => "default_net_value"
  | .strictReferences => "strict_references"
  | .level => "level"
  | .file => "file"

/-- The settings of a section. -/
def fieldsIn (home : String) : List Field := all.filter (·.home = home)

/-- The keys of a section. -/
def namesIn (home : String) : List String := (fieldsIn home).map name

theorem mem_all (f : Field) : f ∈ all := by
  cases f <;> decide

theorem forall_home_iff {home : String} {p : Field → Prop} :
    (∀ f : Field, f.home = home → p f) ↔ ∀ f ∈ fieldsIn home, p f := by
  simp [fieldsIn, mem_all]

theorem fieldsIn_solver : fieldsIn "solver" = [.tolerance, .maxIterations, .minDamping,
    .dampingBackoff, .stallRatio, .singularTolerance, .leastSquares] := rfl

theorem fieldsIn_builder : fieldsIn "builder" = [.defaultNetValue, .strictReferences] := rfl

theorem fieldsIn_logging : fieldsIn "logging" = [.level, .file] := rfl

end Field

/-- The sections of a configuration. -/
def sectionNames : List String := ["solver", "builder", "logging"]

/-- What a setting is set to. -/
inductive Entry (K : Type) where
  | nothing
  | number (x : K)
  | count (n : Int)
  | truth (b : Bool)
  | text (s : String)

/-- A text, or nothing. -/
def Entry.ofText? : Option String → Entry K
  | none => .nothing
  | some s => .text s

/-- What a setting expects. -/
inductive Expected where
  | number (range : Range)
  | count
  | truth
  | level
  | text

def Field.expected : Field → Expected
  | .tolerance | .stallRatio | .singularTolerance => .number .nonNegative
  | .minDamping | .dampingBackoff => .number .unit
  | .defaultNetValue => .number .any
  | .maxIterations => .count
  | .leastSquares | .strictReferences => .truth
  | .level => .level
  | .file => .text

variable [Zero K] [One K] [Scalar K]

/-- A number is neither below the range nor above it. -/
def Range.Admits : Range → K → Prop
  | .any, _ => True
  | .nonNegative, x => ¬ Scalar.lt x 0
  | .unit, x => ¬ Scalar.lt x 0 ∧ ¬ Scalar.lt 1 x

/-- A document is what is expected, and stands for a value. -/
def Expected.Takes : Expected → Document K → Entry K → Prop
  | .number range, d, v => ∃ x, d.toScalar? = some x ∧ range.Admits x ∧ v = .number x
  | .count, d, v => ∃ n, d.toWhole? = some n ∧ 1 ≤ n ∧ v = .count n
  | .truth, d, v => ∃ b, d = .bool b ∧ v = .truth b
  | .level, d, v => ∃ s, d = .text s ∧
      Text.upper s ∈ ["DEBUG", "INFO", "WARNING", "ERROR", "CRITICAL"] ∧ v = .text (Text.upper s)
  | .text, d, v => ∃ s, d = .text s ∧ v = .text s

/-- A document stands for one value at most. -/
theorem Expected.Takes.unique {e : Expected} {d : Document K} {v w : Entry K} (hv : e.Takes d v)
    (hw : e.Takes d w) : v = w := by
  cases e with
  | number range =>
    obtain ⟨x, hx, -, rfl⟩ := hv
    obtain ⟨y, hy, -, rfl⟩ := hw
    rw [Option.some.inj (hx.symm.trans hy)]
  | count =>
    obtain ⟨m, hm, -, rfl⟩ := hv
    obtain ⟨n, hn, -, rfl⟩ := hw
    rw [Option.some.inj (hm.symm.trans hn)]
  | truth =>
    obtain ⟨b, rfl, rfl⟩ := hv
    obtain ⟨c, hc, rfl⟩ := hw
    cases hc
    rfl
  | level =>
    obtain ⟨s, rfl, -, rfl⟩ := hv
    obtain ⟨t, ht, -, rfl⟩ := hw
    cases ht
    rfl
  | text =>
    obtain ⟨s, rfl, rfl⟩ := hv
    obtain ⟨t, ht, rfl⟩ := hw
    cases ht
    rfl

/-! ## Rules take what is expected -/

theorem number_eq_ok_iff {range : Range} {d : Document K} {x : K} :
    number range d = .ok x ↔ d.toScalar? = some x ∧ range.Admits x := by
  have hrange (y : K) :
      range.complaints (Scalar.lt y 0) (Scalar.lt 1 y) = [] ↔ range.Admits y := by
    rw [Range.complaints_eq_nil_iff]
    cases range <;> simp [Range.Admits]
  unfold number
  split
  case h_1 y hy =>
    rw [accept_eq_ok_iff, hrange, hy, Option.some.injEq, and_comm]
    exact and_congr_right fun h => by rw [h]
  all_goals simp_all

omit [Zero K] [One K] in
theorem count_eq_ok_iff {d : Document K} {n : Int} :
    count d = .ok n ↔ d.toWhole? = some n ∧ 1 ≤ n := by
  unfold count
  split
  case h_1 m hm =>
    rw [accept_eq_ok_iff, hm, Option.some.injEq, and_comm]
    refine and_congr_right fun h => ?_
    subst h
    split <;> simp <;> omega
  all_goals simp_all

omit [Zero K] [One K] [Scalar K] in
theorem truth_eq_ok_iff {d : Document K} {b : Bool} : truth d = .ok b ↔ d = .bool b := by
  cases d <;> simp [truth]

omit [Zero K] [One K] [Scalar K] in
theorem text_eq_ok_iff {d : Document K} {s : String} : text d = .ok s ↔ d = .text s := by
  cases d <;> simp [text]

omit [Zero K] [One K] [Scalar K] in
theorem choice_eq_ok_iff {choices : List String} {d : Document K} {chosen : String} :
    choice choices d = .ok chosen ↔
      ∃ s, d = .text s ∧ Text.upper s ∈ choices ∧ Text.upper s = chosen := by
  cases d <;> simp [choice, accept_eq_ok_iff]

/-- A rule takes the documents that are expected, and reads them as they are expected. -/
def Follows {α : Type} (rule : Rule K α) (e : Expected) (entry : α → Entry K) : Prop :=
  ∀ d v, e.Takes d v ↔ ∃ a, rule d = .ok a ∧ v = entry a

theorem number_follows (range : Range) :
    Follows (number range : Rule K K) (.number range) .number := by
  intro d v
  simp only [Expected.Takes, number_eq_ok_iff, and_assoc]

theorem count_follows : Follows (K := K) count .count .count := by
  intro d v
  simp only [Expected.Takes, count_eq_ok_iff, and_assoc]

theorem truth_follows : Follows (K := K) truth .truth .truth := by
  intro d v
  simp only [Expected.Takes, truth_eq_ok_iff]

theorem text_follows :
    Follows (K := K) (fun d => some <$> text d) .text .ofText? := by
  intro d v
  constructor
  · rintro ⟨s, rfl, rfl⟩
    exact ⟨some s, rfl, rfl⟩
  · rintro ⟨a, ha, rfl⟩
    obtain ⟨s, hs, rfl⟩ := map_eq_ok.1 ha
    exact ⟨s, text_eq_ok_iff.1 hs, rfl⟩

theorem level_follows :
    Follows (K := K) (fun d => some <$> choice levelNames d) .level .ofText? := by
  intro d v
  constructor
  · rintro ⟨s, hd, hs, rfl⟩
    exact ⟨some (Text.upper s),
      map_eq_ok.2 ⟨Text.upper s, choice_eq_ok_iff.2 ⟨s, hd, hs, rfl⟩, rfl⟩, rfl⟩
  · rintro ⟨a, ha, rfl⟩
    obtain ⟨chosen, hchosen, rfl⟩ := map_eq_ok.1 ha
    obtain ⟨s, hd, hs, rfl⟩ := choice_eq_ok_iff.1 hchosen
    exact ⟨s, hd, hs, rfl⟩

end Config

open Config

/-- The setting of each field. -/
def EngineConfig.entry (cfg : EngineConfig K) : Field → Entry K
  | .tolerance => .number cfg.solver.tolerance
  | .maxIterations => .count cfg.solver.maxIterations
  | .minDamping => .number cfg.solver.minDamping
  | .dampingBackoff => .number cfg.solver.dampingBackoff
  | .stallRatio => .number cfg.solver.stallRatio
  | .singularTolerance => .number cfg.solver.singularTolerance
  | .leastSquares => .truth cfg.solver.leastSquares
  | .defaultNetValue => .number cfg.defaultNetValue
  | .strictReferences => .truth cfg.strictReferences
  | .level => .ofText? cfg.logLevel
  | .file => .ofText? cfg.logFile

section

variable [Zero K] [One K] [Scalar K]

/-- What a field may be set to. -/
def Config.Field.Fits (f : Field) (v : Document K) : Prop := ∃ entry, f.expected.Takes v entry

/-- The entry of a field that is set to something, or to nothing. -/
def Config.Field.Takes (f : Field) (v? : Option (Document K)) (entry : Entry K) : Prop :=
  match v? with
  | none => entry = EngineConfig.standard.entry f
  | some v => f.expected.Takes v entry

end

namespace Document

/-- The document under a key; only a mapping has any. -/
def get? (name : String) : Document K → Option (Document K)
  | .mapping entries => Entries.get? entries name
  | _ => none

/-- What a document sets a field to. -/
def setting? (d : Document K) (f : Field) : Option (Document K) :=
  (d.get? f.home).bind (get? f.name)

/-- A mapping with no other keys than some names. -/
def IsMappingOf (names : List String) : Document K → Prop
  | .mapping entries => ∀ entry ∈ entries, ∃ name ∈ names, entry.1 = .text name
  | _ => False

/-- A mapping of sections, each of which is a mapping of settings, each of which is set to what it
    expects. -/
structure IsConfiguration [Zero K] [One K] [Scalar K] (d : Document K) : Prop where
  sections : d.IsMappingOf sectionNames
  settings : ∀ home ∈ sectionNames, ∀ s, d.get? home = some s → s.IsMappingOf (Field.namesIn home)
  values : ∀ f v, d.setting? f = some v → f.Fits v

end Document

/-! ## One section -/

namespace Config

variable {α : Type} [Zero K] [One K] [Scalar K]

omit [Zero K] [One K] [Scalar K] in
theorem unknownKeys_eq_nil_iff {entries : Document.Entries K} {names : List String} :
    unknownKeys entries names = [] ↔ (Document.mapping entries).IsMappingOf names := by
  rw [unknownKeys, List.filter_eq_nil_iff]
  constructor
  · intro h entry hentry
    have := h _ (List.mem_map_of_mem (f := (·.1)) hentry)
    cases hkey : entry.1 <;> simp_all [Document.name?]
  · rintro h _ hkey
    obtain ⟨entry, hentry, rfl⟩ := List.mem_map.1 hkey
    obtain ⟨name, hname, heq⟩ := h entry hentry
    simp [heq, Document.name?, hname]

/-- A document can be the section `home`. -/
def IsSection (home : String) (s : Document K) : Prop :=
  s.IsMappingOf (Field.namesIn home) ∧
    ∀ f : Field, f.home = home → ∀ v, s.get? f.name = some v → f.Fits v

/-- A section is read without problems if it can be that section, and then stands for a part of a
    configuration; `part` puts the standard values around it. -/
def ReadsSettings (home : String)
    (read : Document.Entries K → Checked (SettingProblem K) α) (part : α → EngineConfig K) :
    Prop :=
  ∀ settings, ((read settings).problems = [] ↔ IsSection home (.mapping settings)) ∧
    ((read settings).problems = [] → ∀ f : Field, f.home = home →
      f.Takes (Document.Entries.get? settings f.name) ((part (read settings).value).entry f))

/-- A setting has no problems if it fits. -/
theorem problems_setting_of_follows (f : Field) {rule : Rule K α} {entry : α → Entry K}
    (h : Follows rule f.expected entry) {settings : Document.Entries K} {otherwise : α} :
    (setting settings f.name rule otherwise).problems = [] ↔
      ∀ v, settings.get? f.name = some v → f.Fits v := by
  rw [problems_setting_eq_nil_iff]
  refine forall₂_congr fun d _ => ⟨?_, ?_⟩
  · rintro ⟨a, ha⟩
    exact ⟨entry a, (h d _).2 ⟨a, ha, rfl⟩⟩
  · rintro ⟨v, hv⟩
    obtain ⟨a, ha, -⟩ := (h d v).1 hv
    exact ⟨a, ha⟩

/-- The value of a setting without problems is what was set, or the standard one. -/
theorem value_setting_of_follows (f : Field) {rule : Rule K α} {entry : α → Entry K}
    (h : Follows rule f.expected entry) {settings : Document.Entries K} {otherwise : α}
    (hstandard : entry otherwise = EngineConfig.standard.entry f)
    (hproblems : (setting settings f.name rule otherwise).problems = []) :
    f.Takes (settings.get? f.name) (entry (setting settings f.name rule otherwise).value) := by
  cases hd : settings.get? f.name with
  | none =>
    show entry _ = _
    rw [value_setting_of_missing hd, hstandard]
  | some d =>
    obtain ⟨a, ha⟩ := problems_setting_eq_nil_iff.1 hproblems d hd
    show f.expected.Takes d (entry _)
    rw [value_setting_of_get? hd ha]
    exact (h d _).2 ⟨a, ha, rfl⟩

theorem readsSettings_solver :
    ReadsSettings (K := K) "solver" readSolver fun solver =>
      { EngineConfig.standard with solver } := by
  intro settings
  simp only [IsSection, Field.forall_home_iff, Field.fieldsIn_solver, List.forall_mem_cons,
    List.not_mem_nil, false_imp_iff, implies_true, readSolver, noOthers, Checked.problems_bind,
    Checked.problems_pure, List.append_eq_nil_iff, List.map_eq_nil_iff, unknownKeys_eq_nil_iff,
    and_true]
  constructor
  -- the keys, and then each setting by the rule that reads it
  · exact and_congr Iff.rfl (and_congr (problems_setting_of_follows .tolerance (number_follows _))
      (and_congr (problems_setting_of_follows .maxIterations count_follows)
      (and_congr (problems_setting_of_follows .minDamping (number_follows _))
      (and_congr (problems_setting_of_follows .dampingBackoff (number_follows _))
      (and_congr (problems_setting_of_follows .stallRatio (number_follows _))
      (and_congr (problems_setting_of_follows .singularTolerance (number_follows _))
        (problems_setting_of_follows .leastSquares truth_follows)))))))
  · rintro ⟨-, h1, h2, h3, h4, h5, h6, h7⟩
    exact ⟨value_setting_of_follows .tolerance (number_follows _) rfl h1,
      value_setting_of_follows .maxIterations count_follows rfl h2,
      value_setting_of_follows .minDamping (number_follows _) rfl h3,
      value_setting_of_follows .dampingBackoff (number_follows _) rfl h4,
      value_setting_of_follows .stallRatio (number_follows _) rfl h5,
      value_setting_of_follows .singularTolerance (number_follows _) rfl h6,
      value_setting_of_follows .leastSquares truth_follows rfl h7⟩

theorem readsSettings_builder :
    ReadsSettings (K := K) "builder" readBuilder fun builder =>
      { EngineConfig.standard with
          defaultNetValue := builder.1
          strictReferences := builder.2 } := by
  intro settings
  simp only [IsSection, Field.forall_home_iff, Field.fieldsIn_builder, List.forall_mem_cons,
    List.not_mem_nil, false_imp_iff, implies_true, readBuilder, noOthers, Checked.problems_bind,
    Checked.problems_pure, List.append_eq_nil_iff, List.map_eq_nil_iff, unknownKeys_eq_nil_iff,
    and_true]
  constructor
  · exact and_congr Iff.rfl
      (and_congr (problems_setting_of_follows .defaultNetValue (number_follows _))
        (problems_setting_of_follows .strictReferences truth_follows))
  · rintro ⟨-, h1, h2⟩
    exact ⟨value_setting_of_follows .defaultNetValue (number_follows _) rfl h1,
      value_setting_of_follows .strictReferences truth_follows rfl h2⟩

theorem readsSettings_logging :
    ReadsSettings (K := K) "logging" readLogging fun logging =>
      { EngineConfig.standard with logLevel := logging.1, logFile := logging.2 } := by
  intro settings
  simp only [IsSection, Field.forall_home_iff, Field.fieldsIn_logging, List.forall_mem_cons,
    List.not_mem_nil, false_imp_iff, implies_true, readLogging, noOthers, Checked.problems_bind,
    Checked.problems_pure, List.append_eq_nil_iff, List.map_eq_nil_iff, unknownKeys_eq_nil_iff,
    and_true]
  constructor
  · exact and_congr Iff.rfl (and_congr (problems_setting_of_follows .level level_follows)
      (problems_setting_of_follows .file text_follows))
  · rintro ⟨-, h1, h2⟩
    exact ⟨value_setting_of_follows .level level_follows rfl h1,
      value_setting_of_follows .file text_follows rfl h2⟩

/-! ## All sections -/

omit [Zero K] [One K] [Scalar K] in
/-- A section without problems is missing, or a mapping whose settings have none. -/
theorem problems_readSection_eq_nil_iff {home : String}
    {read : Document.Entries K → Checked (SettingProblem K) α} {otherwise : α}
    {entries : Document.Entries K} :
    (readSection entries home read otherwise).problems = [] ↔
      ∀ s, entries.get? home = some s →
        ∃ settings, s = .mapping settings ∧ (read settings).problems = [] := by
  unfold readSection
  cases entries.get? home with
  | none => simp
  | some s =>
    cases s with
    | mapping settings =>
      cases hr : (read settings).toExcept with
      | ok a => simp [hr, (Checked.toExcept_eq_ok_iff.1 hr).1]
      | error problems =>
        have : (read settings).problems ≠ [] := fun h => by
          rw [Checked.toExcept_eq_ok_iff.2 ⟨h, rfl⟩] at hr
          cases hr
        simp [hr, this]
    | _ => simp

omit [Zero K] [One K] [Scalar K] in
theorem value_readSection_of_mapping {home : String}
    {read : Document.Entries K → Checked (SettingProblem K) α} {otherwise : α}
    {entries settings : Document.Entries K} (hs : entries.get? home = some (.mapping settings))
    (h : (read settings).problems = []) :
    (readSection entries home read otherwise).value = (read settings).value := by
  simp [readSection, hs, Checked.toExcept_eq_ok_iff.2 ⟨h, rfl⟩]

variable {home : String} {read : Document.Entries K → Checked (SettingProblem K) α}
  {part : α → EngineConfig K} {entries : Document.Entries K} {otherwise : α}

theorem problems_readSection_iff_isSection (h : ReadsSettings home read part) :
    (readSection entries home read otherwise).problems = [] ↔
      ∀ s, entries.get? home = some s → IsSection home s := by
  rw [problems_readSection_eq_nil_iff]
  refine forall₂_congr fun s _ => ⟨?_, fun hs => ?_⟩
  · rintro ⟨settings, rfl, hproblems⟩
    exact (h settings).1.1 hproblems
  · cases s with
    | mapping settings => exact ⟨settings, rfl, (h settings).1.2 hs⟩
    | _ => exact hs.1.elim

theorem takes_readSection (h : ReadsSettings home read part)
    (hstandard : part otherwise = EngineConfig.standard)
    (hproblems : (readSection entries home read otherwise).problems = []) {f : Field}
    (hf : f.home = home) :
    f.Takes ((Document.mapping entries).setting? f)
      ((part (readSection entries home read otherwise).value).entry f) := by
  subst hf
  rw [Document.setting?, Document.get?]
  cases hs : entries.get? f.home with
  | none =>
    have : (readSection entries f.home read otherwise).value = otherwise := by
      simp [readSection, hs]
    rw [this, hstandard]
    exact rfl
  | some s =>
    obtain ⟨settings, rfl, hread⟩ := problems_readSection_eq_nil_iff.1 hproblems s hs
    rw [value_readSection_of_mapping hs hread]
    exact (h settings).2 hread f rfl

end Config

variable [Zero K] [One K] [Scalar K]

omit [Zero K] [One K] [Scalar K] in
theorem forall_sectionNames {p : String → Prop} :
    (∀ home ∈ sectionNames, p home) ↔ p "solver" ∧ p "builder" ∧ p "logging" := by
  simp [sectionNames]

/-- A mapping is a configuration if its keys are sections, and what they hold can be them. -/
theorem Document.isConfiguration_mapping_iff {entries : Document.Entries K} :
    (Document.mapping entries).IsConfiguration ↔
      (Document.mapping entries).IsMappingOf sectionNames ∧
        ∀ home ∈ sectionNames, ∀ s, entries.get? home = some s → IsSection home s := by
  constructor
  · intro h
    refine ⟨h.sections, fun home hhome s hs => ⟨h.settings home hhome s hs, ?_⟩⟩
    rintro f rfl v hv
    refine h.values f v ?_
    rw [setting?, get?, hs]
    exact hv
  · rintro ⟨hkeys, hsections⟩
    refine ⟨hkeys, fun home hhome s hs => (hsections home hhome s hs).1, fun f v hv => ?_⟩
    obtain ⟨s, hs, hv⟩ := Option.bind_eq_some_iff.1 hv
    exact (hsections f.home (by cases f <;> decide) s hs).2 f rfl v hv

theorem problems_readSections_eq_nil_iff {entries : Document.Entries K} :
    (readSections entries).problems = [] ↔ (Document.mapping entries).IsConfiguration := by
  rw [Document.isConfiguration_mapping_iff]
  simp only [readSections, Checked.problems_bind, Checked.problems_pure, List.append_eq_nil_iff,
    List.map_eq_nil_iff, unknownKeys_eq_nil_iff, and_true, forall_sectionNames]
  exact and_congr Iff.rfl (and_congr (problems_readSection_iff_isSection readsSettings_solver)
    (and_congr (problems_readSection_iff_isSection readsSettings_builder)
      (problems_readSection_iff_isSection readsSettings_logging)))

/-- Each field of a configuration is in the one section that it belongs to. -/
theorem takes_readSections {entries : Document.Entries K}
    (h : (readSections entries).problems = []) (f : Field) :
    f.Takes ((Document.mapping entries).setting? f) ((readSections entries).value.entry f) := by
  simp only [readSections, Checked.problems_bind, Checked.problems_pure,
    List.append_eq_nil_iff] at h
  obtain ⟨-, hsolver, hbuilder, hlogging, -⟩ := h
  have solver := fun f => takes_readSection (f := f) readsSettings_solver rfl hsolver
  have builder := fun f => takes_readSection (f := f) readsSettings_builder rfl hbuilder
  have logging := fun f => takes_readSection (f := f) readsSettings_logging rfl hlogging
  -- a field of one section has its entry in the part that this section stands for
  cases f <;> first | exact solver _ rfl | exact builder _ rfl | exact logging _ rfl

omit [Zero K] [One K] [Scalar K] in
theorem Config.Entry.ofText?_injective : Function.Injective (Entry.ofText? (K := K)) := by
  rintro (_ | s) (_ | t) h <;> cases h <;> rfl

omit [Zero K] [One K] [Scalar K] in
/-- A configuration is nothing but its entries. -/
theorem EngineConfig.eq_of_entry {cfg cfg' : EngineConfig K} (h : ∀ f, cfg.entry f = cfg'.entry f) :
    cfg = cfg' := by
  obtain ⟨⟨a1, a2, a3, a4, a5, a6, a7⟩, a8, a9, a10, a11⟩ := cfg
  obtain ⟨⟨b1, b2, b3, b4, b5, b6, b7⟩, b8, b9, b10, b11⟩ := cfg'
  cases h .tolerance
  cases h .maxIterations
  cases h .minDamping
  cases h .dampingBackoff
  cases h .stallRatio
  cases h .singularTolerance
  cases h .leastSquares
  cases h .defaultNetValue
  cases h .strictReferences
  cases Entry.ofText?_injective (h .level)
  cases Entry.ofText?_injective (h .file)
  rfl

/-- A field reads what it is set to in one way. -/
theorem Config.Field.Takes.unique {f : Field} {v? : Option (Document K)} {a b : Entry K}
    (ha : f.Takes v? a) (hb : f.Takes v? b) : a = b := by
  cases v? with
  | none => exact ha.trans hb.symm
  | some v => exact Expected.Takes.unique ha hb

/-- The configurations of documents, and what they set their fields to. -/
theorem EngineConfig.ofDocument_eq_ok_iff {d : Document K} {cfg : EngineConfig K} :
    ofDocument d = .ok cfg ↔
      (d = .null ∨ d.IsConfiguration) ∧ ∀ f : Field, f.Takes (d.setting? f) (cfg.entry f) := by
  cases d with
  | null =>
    constructor
    · rintro ⟨⟩
      exact ⟨.inl rfl, fun f => rfl⟩
    · rintro ⟨-, h⟩
      exact congrArg Except.ok (eq_of_entry h).symm
  | mapping entries =>
    rw [ofDocument, mapError_eq_ok, Checked.toExcept_eq_ok_iff, problems_readSections_eq_nil_iff]
    constructor
    · rintro ⟨h, rfl⟩
      exact ⟨.inr h, takes_readSections (problems_readSections_eq_nil_iff.2 h)⟩
    · rintro ⟨hd, htakes⟩
      have h := hd.resolve_left nofun
      have hread := takes_readSections (problems_readSections_eq_nil_iff.2 h)
      exact ⟨h, eq_of_entry fun f => (hread f).unique (htakes f)⟩
  | _ =>
    refine ⟨nofun, ?_⟩
    rintro ⟨h | h, -⟩
    · cases h
    · exact h.sections.elim

theorem EngineConfig.exists_ofDocument_iff {d : Document K} :
    (∃ cfg, ofDocument d = .ok cfg) ↔ d = .null ∨ d.IsConfiguration := by
  constructor
  · rintro ⟨cfg, h⟩
    exact (ofDocument_eq_ok_iff.1 h).1
  · rintro (rfl | h)
    · exact ⟨.standard, rfl⟩
    · cases d with
      | mapping entries =>
        have hread := Checked.toExcept_eq_ok_iff.2 ⟨problems_readSections_eq_nil_iff.2 h, rfl⟩
        exact ⟨_, mapError_eq_ok.2 hread⟩
      | _ => exact h.sections.elim

/-- Exactly the documents that describe a configuration are taken; all others are refused.  Each
    field has the entry that its own key asks for, or its standard entry, and depends on no other
    key. -/
theorem EngineConfig.ofDocument_takes_configurations (d : Document K) :
    ((∃ cfg, ofDocument d = .ok cfg) ↔ d = .null ∨ d.IsConfiguration) ∧
      ((∃ e : ConfigError K, ofDocument d = .error e) ↔ ¬ (d = .null ∨ d.IsConfiguration)) ∧
      (∀ cfg, ofDocument d = .ok cfg → ∀ f : Field, f.Takes (d.setting? f) (cfg.entry f)) ∧
      ∀ d' cfg cfg', ofDocument d = .ok cfg → ofDocument d' = .ok cfg' →
        ∀ f, d.setting? f = d'.setting? f → cfg.entry f = cfg'.entry f := by
  refine ⟨exists_ofDocument_iff, ?_, fun cfg h => (ofDocument_eq_ok_iff.1 h).2, ?_⟩
  · rw [← exists_ofDocument_iff]
    cases ofDocument d <;> simp
  · intro d' cfg cfg' h h' f hf
    have htakes := (ofDocument_eq_ok_iff.1 h).2 f
    rw [hf] at htakes
    exact htakes.unique ((ofDocument_eq_ok_iff.1 h').2 f)

/-- A document that sets one field, by a numeral. -/
def sevenSteps : Document ℚ :=
  .mapping [(.text "solver", .mapping [(.text "max_iterations", .text " 7 ")])]

theorem EngineConfig.ofDocument_takes_configurations_sevenSteps :
    sevenSteps.IsConfiguration ∧ ∃ cfg, ofDocument sevenSteps = .ok cfg ∧
      cfg.entry .maxIterations = .count 7 ∧
      ∀ f, f ≠ .maxIterations → cfg.entry f = standard.entry f := by
  obtain ⟨htaken, -, hreads, -⟩ := ofDocument_takes_configurations sevenSteps
  have hok : ofDocument sevenSteps =
      .ok { standard with solver := { SolverConfig.standard with maxIterations := 7 } } := rfl
  refine ⟨(htaken.1 ⟨_, hok⟩).resolve_left nofun, _, hok, rfl, fun f hf => ?_⟩
  have hread := hreads _ hok f
  cases f <;> first | exact absurd rfl hf | exact hread

end NetBalance
