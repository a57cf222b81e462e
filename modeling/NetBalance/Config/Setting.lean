import NetBalance.Config.Document
import NetBalance.Text.Character

/-! # Single settings

    Each kind of setting says which documents it takes and what they mean.
    A refused document is told all that is wrong with it.

    A reading always has a value, so that it can go on past a problem and
    report all of them at once.  The value counts only if there is none. -/

namespace NetBalance.Config

/-! ### Readings that collect problems -/

/-- A value, and the problems that were met on the way to it. -/
structure Checked (P α : Type) where
  value : α
  problems : List P

namespace Checked

variable {P α β : Type}

instance : Monad (Checked P) where
  pure a := ⟨a, []⟩
  bind c f := ⟨(f c.value).value, c.problems ++ (f c.value).problems⟩

/-- The value of a reading without problems. -/
def toExcept (c : Checked P α) : Except (List P) α :=
  if c.problems.isEmpty then .ok c.value else .error c.problems

@[simp] theorem value_pure (a : α) : (pure a : Checked P α).value = a := rfl

@[simp] theorem problems_pure (a : α) : (pure a : Checked P α).problems = [] := rfl

@[simp] theorem value_bind (c : Checked P α) (f : α → Checked P β) :
    (c >>= f).value = (f c.value).value := rfl

@[simp] theorem problems_bind (c : Checked P α) (f : α → Checked P β) :
    (c >>= f).problems = c.problems ++ (f c.value).problems := rfl

theorem toExcept_eq_ok_iff {c : Checked P α} {a : α} :
    c.toExcept = .ok a ↔ c.problems = [] ∧ c.value = a := by
  unfold toExcept
  split <;> simp_all

theorem problems_of_toExcept {c : Checked P α} {problems : List P}
    (h : c.toExcept = .error problems) : c.problems = problems := by
  unfold toExcept at h
  split at h
  · cases h
  · exact Except.error.inj h

end Checked

/-! ### Rules -/

/-- The type that a setting has to be of. -/
inductive SettingType where
  | number
  | whole
  | truth
  | text
deriving DecidableEq

def SettingType.name : SettingType → String
  | .number => "float"
  | .whole => "integer"
  | .truth => "boolean"
  | .text => "string"

/-- What is wrong with one setting. -/
inductive Complaint where
  | unknownField
  | nullValue
  | wrongType (expected : SettingType)
  | belowZero
  /-- A count below one. -/
  | belowOne
  | aboveOne
  /-- Not one of the values to choose from. -/
  | unallowed (value : String)
  /-- No value of the type can be made of it. -/
  | notCoerced
deriving DecidableEq

/-- The wording of a complaint about the setting `field`. -/
def Complaint.message (field : String) : Complaint → String
  | .unknownField => "unknown field"
  | .nullValue => "null value not allowed"
  | .wrongType expected => "must be of " ++ expected.name ++ " type"
  | .belowZero => "min value is 0.0"
  | .belowOne => "min value is 1"
  | .aboveOne => "max value is 1.0"
  | .unallowed value => "unallowed value " ++ value
  | .notCoerced => "field '" ++ field ++ "' cannot be coerced"

/-- Which documents a setting takes, and what they mean. -/
abbrev Rule (K α : Type) := Document K → Except (List Complaint) α

/-- The numbers that a setting takes. -/
inductive Range where
  | any
  | nonNegative
  /-- From zero to one. -/
  | unit
deriving DecidableEq

/-- The complaints about a number of which is known on which side of the range it lies. -/
def Range.complaints (range : Range) (negative aboveOne : Bool) : List Complaint :=
  match range with
  | .any => []
  | .nonNegative => if negative then [.belowZero] else []
  | .unit => if negative then [.belowZero] else if aboveOne then [.aboveOne] else []

/-- A value about which there are no complaints. -/
def accept {α : Type} (complaints : List Complaint) (a : α) : Except (List Complaint) α :=
  if complaints.isEmpty then .ok a else .error complaints

theorem accept_eq_ok_iff {α : Type} {complaints : List Complaint} {a b : α} :
    accept complaints a = .ok b ↔ complaints = [] ∧ a = b := by
  unfold accept
  split <;> simp_all

/-- A number has no complaints where it lies in the range. -/
theorem Range.complaints_eq_nil_iff {range : Range} {negative aboveOne : Bool} :
    range.complaints negative aboveOne = [] ↔
      (range ≠ .any → negative = false) ∧ (range = .unit → aboveOne = false) := by
  cases range <;> cases negative <;> cases aboveOne <;> decide

section Rules

variable {K : Type} [Zero K] [One K] [Scalar K]

/-- A number of a range.  Comparisons refuse, so what is not a number passes. -/
def number (range : Range) : Rule K K := fun d =>
  match d.toScalar?, d with
  | some x, _ => accept (range.complaints (Scalar.lt x 0) (Scalar.lt 1 x)) x
  -- beyond the number type, but still on one side of the range
  | none, .int n => .error (range.complaints (n < 0) (1 < n) ++ [.notCoerced])
  | none, .null => .error [.nullValue, .notCoerced]
  | none, _ => .error [.wrongType .number, .notCoerced]

/-- A whole number from one on. -/
def count : Rule K Int := fun d =>
  match d.toWhole?, d with
  | some n, _ => accept (if n < 1 then [.belowOne] else []) n
  | none, .null => .error [.nullValue, .notCoerced]
  | none, _ => .error [.wrongType .whole, .notCoerced]

/-- A truth value; nothing else counts as one. -/
def truth : Rule K Bool
  | .bool b => .ok b
  | .null => .error [.nullValue]
  | _ => .error [.wrongType .truth]

/-- A text. -/
def text : Rule K String
  | .text s => .ok s
  | .null => .error [.nullValue]
  | _ => .error [.wrongType .text]

/-- One of the texts `choices`, in lower or upper case. -/
def choice (choices : List String) : Rule K String
  | .text s =>
    let chosen := Text.upper s
    accept (if choices.contains chosen then [] else [.unallowed chosen]) chosen
  | .null => .error [.nullValue, .notCoerced]
  | _ => .error [.wrongType .text, .notCoerced]

end Rules

/-! ## Settings of a section -/

/-- The complaints about one key of a section. -/
structure SettingProblem (K : Type) where
  key : Document K
  complaints : List Complaint

variable {K α : Type}

/-- The setting `name` of a section, or what holds where the section does not say. -/
def setting (entries : Document.Entries K) (name : String) (rule : Rule K α) (otherwise : α) :
    Checked (SettingProblem K) α :=
  match entries.get? name with
  | none => pure otherwise
  | some d =>
    match rule d with
    | .ok a => pure a
    | .error complaints => ⟨otherwise, [⟨.text name, complaints⟩]⟩

theorem problems_setting_eq_nil_iff {entries : Document.Entries K} {name : String}
    {rule : Rule K α} {otherwise : α} :
    (setting entries name rule otherwise).problems = [] ↔
      ∀ d, entries.get? name = some d → ∃ a, rule d = .ok a := by
  unfold setting
  cases entries.get? name with
  | none => simp
  | some d => cases h : rule d <;> simp [h]

/-- A setting that the section holds has the value that its rule gives. -/
theorem value_setting_of_get? {entries : Document.Entries K} {name : String} {rule : Rule K α}
    {otherwise a : α} {d : Document K} (hd : entries.get? name = some d) (ha : rule d = .ok a) :
    (setting entries name rule otherwise).value = a := by
  simp [setting, hd, ha]

theorem value_setting_of_missing {entries : Document.Entries K} {name : String}
    {rule : Rule K α} {otherwise : α} (h : entries.get? name = none) :
    (setting entries name rule otherwise).value = otherwise := by
  simp [setting, h]

/-- The keys that are none of `names`. -/
def unknownKeys (entries : Document.Entries K) (names : List String) : List (Document K) :=
  (entries.map (·.1)).filter fun key => !(key.name?.map (names.contains ·)).getD false

/-- A section has no settings other than `names`. -/
def noOthers (entries : Document.Entries K) (names : List String) :
    Checked (SettingProblem K) Unit :=
  ⟨(), (unknownKeys entries names).map (⟨·, [.unknownField]⟩)⟩

end NetBalance.Config
