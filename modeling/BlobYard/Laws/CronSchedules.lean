/-
The schedules of jobs.

A schedule is five fields with single spaces between them; a field is a comma list of stars,
values and ranges, each with a step if wanted.  The code takes the texts apart at their
separators and leaves the numbers to the integer parser of its standard library, which also takes
a plus sign.

* `Schedule` — the schedules, for any way to write numbers;
* `valid_iff` — what the code accepts: numbers may have a plus sign;
* `schedule_digits_iff` — without plus signs these are the schedules with plain numbers;
* `cron_law` — the code accepts exactly the latter, up to the plus signs.
-/
import Mathlib.Tactic.IntervalCases
import BlobYard.Core.ApplicationManifest

namespace BlobYard

namespace Manifest

namespace Cron

/-! ### The schedules -/

section Grammar

variable (Numeral : List Char → ℕ → Prop)

/-- A number within the bounds of the field, or one of its names. -/
def ValueText (field : Field) (text : List Char) (value : ℕ) : Prop :=
  (Numeral text value ∧ field.minimum ≤ value ∧ value ≤ field.maximum) ∨
    ∃ index name, field.names[index]? = some name ∧ equalIgnoringCase text name = true ∧
      value = index + field.minimum

/-- A value, or a range of two values that are in order. -/
def RangeText (field : Field) (base : List Char) : Prop :=
  (∃ value, ValueText Numeral field base value) ∨
    ∃ start stop first last, base = start ++ '-' :: stop ∧ ValueText Numeral field start first ∧
      ValueText Numeral field stop last ∧ first ≤ last

def BaseText (field : Field) (base : List Char) : Prop := base = ['*'] ∨ RangeText Numeral field base

def StepText (step : List Char) : Prop := ∃ number, Numeral step number ∧ 0 < number ∧ number ≤ 65535

/-- A base, or a base with a step. -/
def ItemText (field : Field) (item : List Char) : Prop :=
  BaseText Numeral field item ∨
    ∃ base step, item = base ++ '/' :: step ∧ BaseText Numeral field base ∧ StepText Numeral step

/-- A list of items with commas between them. -/
def FieldText (field : Field) : Prop :=
  ∃ first rest, field.source = joined ',' first rest ∧
    ∀ item ∈ first :: rest, ItemText Numeral field item

/-- Five fields with single spaces between them. -/
def Schedule (value : List Char) : Prop :=
  ∃ minute hour day month weekday, value = joined ' ' minute [hour, day, month, weekday] ∧
    FieldText Numeral ⟨minute, 0, 59, []⟩ ∧ FieldText Numeral ⟨hour, 0, 23, []⟩ ∧
    FieldText Numeral ⟨day, 1, 31, []⟩ ∧ FieldText Numeral ⟨month, 1, 12, months⟩ ∧
    FieldText Numeral ⟨weekday, 0, 7, weekdays⟩

end Grammar

/-! ### Numbers and names -/

section Texts

variable {field : Field} {text : List Char} {value : ℕ}

theorem validStep_iff : validStep text = true ↔ StepText Signed text := by
  rw [validStep, Option.any_eq_true]
  constructor
  · rintro ⟨number, hparse, hpos⟩
    obtain ⟨hnumber, hle⟩ := parseUnsigned_iff.mp hparse
    exact ⟨number, hnumber, of_decide_eq_true hpos, hle⟩
  · rintro ⟨number, hnumber, hpos, hle⟩
    exact ⟨number, parseUnsigned_iff.mpr ⟨hnumber, hle⟩, decide_eq_true hpos⟩

/-- The names consist of letters and differ in more than their case, and the numbers of the field
are bytes. -/
structure Proper (field : Field) : Prop where
  letters : ∀ name ∈ field.names, ((name.map Char.toLower).all Char.isLower) = true
  nonempty : ∀ name ∈ field.names, name ≠ []
  distinct : (field.names.map fun name => name.map Char.toLower).Nodup
  maximum_le : field.maximum ≤ 255
  names_le : field.names.length + field.minimum ≤ 255

theorem equalIgnoringCase_iff {a b : List Char} :
    equalIgnoringCase a b = true ↔ a.map Char.toLower = b.map Char.toLower := by
  rw [equalIgnoringCase, beq_iff_eq]

/-- An ASCII letter. -/
def IsLetter (c : Char) : Prop := c.toLower.isLower = true

instance (c : Char) : Decidable (IsLetter c) := inferInstanceAs (Decidable (_ = true))

theorem not_letter_of_digit {c : Char} (h : c.isDigit = true) : ¬IsLetter c := by
  obtain ⟨hlow, hhigh⟩ := Char.isDigit_iff_toNat.mp h
  have hlow' : 48 ≤ c.toNat := hlow
  have hhigh' : c.toNat ≤ 57 := hhigh
  rw [← Char.ofNat_toNat c]
  generalize c.toNat = n at hlow' hhigh'
  interval_cases n <;> decide

/-- A text that is a name consists of letters. -/
theorem letters_of_name {name : List Char}
    (hname : ((name.map Char.toLower).all Char.isLower) = true)
    (h : equalIgnoringCase text name = true) : ∀ c ∈ text, IsLetter c := by
  intro c hc
  have hmem : c.toLower ∈ name.map Char.toLower := by
    rw [← equalIgnoringCase_iff.mp h]
    exact List.mem_map_of_mem hc
  exact List.all_eq_true.mp hname _ hmem

/-- A number has a digit. -/
theorem exists_digit_of_signed (h : Signed text value) : ∃ c ∈ text, c.isDigit = true := by
  have hdigit : ∀ digits, Digits digits value → ∃ c ∈ digits, c.isDigit = true := by
    rintro digits ⟨⟨hne, hall⟩, -⟩
    obtain ⟨c, hc⟩ := List.exists_mem_of_ne_nil digits hne
    exact ⟨c, hc, hall c hc⟩
  rcases h with h | ⟨digits, rfl, h⟩
  · exact hdigit text h
  · obtain ⟨c, hc, hc'⟩ := hdigit digits h
    exact ⟨c, List.mem_cons_of_mem _ hc, hc'⟩

/-- No text is a number and a name. -/
theorem Proper.not_signed (h : Proper field) {name : List Char} (hname : name ∈ field.names)
    (hsame : equalIgnoringCase text name = true) : ¬Signed text value := by
  intro hsigned
  obtain ⟨c, hc, hdigit⟩ := exists_digit_of_signed hsigned
  exact not_letter_of_digit hdigit (letters_of_name (h.letters name hname) hsame c hc)

/-- The first name that the text is, is the only one. -/
theorem Proper.findIdx? (h : Proper field) {index : ℕ} :
    field.names.findIdx? (equalIgnoringCase text) = some index ↔
      ∃ name, field.names[index]? = some name ∧ equalIgnoringCase text name = true := by
  rw [List.findIdx?_eq_some_iff_getElem]
  constructor
  · rintro ⟨hlt, hsame, -⟩
    exact ⟨field.names[index], List.getElem?_eq_getElem hlt, hsame⟩
  · rintro ⟨name, hname, hsame⟩
    obtain ⟨hlt, rfl⟩ := List.getElem?_eq_some_iff.mp hname
    refine ⟨hlt, hsame, fun j hj hother => ?_⟩
    have heq : field.names[j].map Char.toLower = field.names[index].map Char.toLower :=
      (equalIgnoringCase_iff.mp hother).symm.trans (equalIgnoringCase_iff.mp hsame)
    have hpair := List.pairwise_iff_getElem.mp (List.pairwise_map.mp h.distinct) j index
      (hj.trans hlt) hlt hj
    exact hpair heq

/-- What the code reads as a value. -/
theorem Proper.value_iff (h : Proper field) :
    field.value text = some value ↔ ValueText Signed field text value := by
  have hnumber : (parseUnsigned 255 text).filter (fun number =>
        field.minimum ≤ number && number ≤ field.maximum) = some value ↔
      Signed text value ∧ field.minimum ≤ value ∧ value ≤ field.maximum := by
    rw [Option.filter_eq_some_iff, parseUnsigned_iff, Bool.and_eq_true, decide_eq_true_eq,
      decide_eq_true_eq]
    constructor
    · rintro ⟨⟨hsigned, -⟩, hbounds⟩
      exact ⟨hsigned, hbounds⟩
    · rintro ⟨hsigned, hmin, hmax⟩
      exact ⟨⟨hsigned, hmax.trans h.maximum_le⟩, hmin, hmax⟩
  have hname : ((field.names.findIdx? (equalIgnoringCase text)).map (· + field.minimum)).filter
        (fun index => decide (index ≤ 255)) = some value ↔
      ∃ index name, field.names[index]? = some name ∧ equalIgnoringCase text name = true ∧
        value = index + field.minimum := by
    rw [Option.filter_eq_some_iff, Option.map_eq_some_iff, decide_eq_true_eq]
    constructor
    · rintro ⟨⟨index, hindex, rfl⟩, -⟩
      obtain ⟨name, hname, hsame⟩ := h.findIdx?.mp hindex
      exact ⟨index, name, hname, hsame, rfl⟩
    · rintro ⟨index, name, hname, hsame, rfl⟩
      obtain ⟨hlt, -⟩ := List.getElem?_eq_some_iff.mp hname
      have hle := h.names_le
      exact ⟨⟨index, h.findIdx?.mpr ⟨name, hname, hsame⟩, rfl⟩, by omega⟩
  rw [Field.value, Option.or_eq_some_iff, hnumber, hname, ValueText]
  refine or_congr_right ⟨And.right, fun hnamed => ⟨?_, hnamed⟩⟩
  -- a name is no number
  obtain ⟨index, name, hname, hsame, -⟩ := hnamed
  rw [Option.filter_eq_none_iff]
  intro number hparse
  exact absurd (parseUnsigned_iff.mp hparse).1
    (h.not_signed (List.mem_of_getElem? hname) hsame)

end Texts

/-! ### The characters of a schedule -/

section Characters

variable {Numeral Numeral' : List Char → ℕ → Prop} {field : Field} {text : List Char}
  {allowed : List Char} {value : ℕ}

/-- Letters, digits, and what else is allowed. -/
def Written (allowed text : List Char) : Prop :=
  ∀ c ∈ text, IsLetter c ∨ c.isDigit = true ∨ c ∈ allowed

theorem Written.mono {allowed' : List Char} (h : Written allowed text)
    (hsub : allowed ⊆ allowed') : Written allowed' text :=
  fun c hc => (h c hc).imp_right (Or.imp_right fun hmem => hsub hmem)

theorem Written.append_cons {left right : List Char} {separator : Char} (hl : Written allowed left)
    (hr : Written allowed right) (hseparator : separator ∈ allowed) :
    Written allowed (left ++ separator :: right) := by
  intro c hc
  rcases List.mem_append.mp hc with hc | hc
  · exact hl c hc
  · rcases List.mem_cons.mp hc with rfl | hc
    · exact Or.inr (Or.inr hseparator)
    · exact hr c hc

theorem Written.joined {first : List Char} {rest : List (List Char)} {separator : Char}
    (h : ∀ part ∈ first :: rest, Written allowed part) (hseparator : separator ∈ allowed) :
    Written allowed (joined separator first rest) := by
  induction rest generalizing first with
  | nil =>
    rw [BlobYard.joined, List.flatMap_nil, List.append_nil]
    exact h first List.mem_cons_self
  | cons part rest ih =>
    rw [joined_cons]
    exact (h first List.mem_cons_self).append_cons
      (ih fun other hother => h other (List.mem_cons_of_mem first hother)) hseparator

/-- A character that is none of these is not there. -/
theorem Written.not_mem {c : Char} (h : Written allowed text) (hletter : ¬IsLetter c)
    (hdigit : c.isDigit = false) (hallowed : c ∉ allowed) : c ∉ text := by
  intro hc
  rcases h c hc with hc | hc | hc
  · exact hletter hc
  · rw [hdigit] at hc
    cases hc
  · exact hallowed hc

theorem written_of_digits (h : Digits text value) : Written [] text :=
  fun c hc => Or.inr (Or.inl (h.1.2 c hc))

theorem written_of_signed (h : Signed text value) : Written ['+'] text := by
  rcases h with h | ⟨digits, rfl, h⟩
  · exact (written_of_digits h).mono (List.nil_subset _)
  · intro c hc
    rcases List.mem_cons.mp hc with rfl | hc
    · exact Or.inr (Or.inr List.mem_cons_self)
    · exact Or.inr (Or.inl (h.1.2 c hc))

variable (hnumeral : ∀ text value, Numeral text value → Written allowed text)

include hnumeral

theorem ValueText.written (h : Proper field) (hvalue : ValueText Numeral field text value) :
    Written allowed text := by
  rcases hvalue with ⟨hvalue, -⟩ | ⟨index, name, hname, hsame, -⟩
  · exact hnumeral text value hvalue
  · exact fun c hc =>
      Or.inl (letters_of_name (h.letters name (List.mem_of_getElem? hname)) hsame c hc)

theorem BaseText.written (h : Proper field) (hbase : BaseText Numeral field text) :
    Written ('-' :: '*' :: allowed) text := by
  have hsub : allowed ⊆ '-' :: '*' :: allowed :=
    fun c hc => List.mem_cons_of_mem _ (List.mem_cons_of_mem _ hc)
  rcases hbase with rfl | ⟨value, hvalue⟩ | ⟨start, stop, first, last, rfl, hstart, hstop, -⟩
  · intro c hc
    rw [List.mem_singleton.mp hc]
    exact Or.inr (Or.inr (List.mem_cons_of_mem _ List.mem_cons_self))
  · exact (hvalue.written hnumeral h).mono hsub
  · exact ((hstart.written hnumeral h).mono hsub).append_cons
      ((hstop.written hnumeral h).mono hsub) List.mem_cons_self

theorem ItemText.written (h : Proper field) (hitem : ItemText Numeral field text) :
    Written ('/' :: '-' :: '*' :: allowed) text := by
  rcases hitem with hbase | ⟨base, step, rfl, hbase, number, hstep, -⟩
  · exact (hbase.written hnumeral h).mono (List.subset_cons_self _ _)
  · refine Written.append_cons ((hbase.written hnumeral h).mono (List.subset_cons_self _ _))
      ((hnumeral step number hstep).mono ?_) List.mem_cons_self
    exact fun c hc => List.mem_cons_of_mem _ (List.mem_cons_of_mem _ (List.mem_cons_of_mem _ hc))

theorem FieldText.written (h : Proper field) (hfield : FieldText Numeral field) :
    Written (',' :: '/' :: '-' :: '*' :: allowed) field.source := by
  obtain ⟨first, rest, hsource, hitems⟩ := hfield
  rw [hsource]
  exact Written.joined (fun item hitem =>
    ((hitems item hitem).written hnumeral h).mono (List.subset_cons_self _ _)) List.mem_cons_self

end Characters

/-! ### Another way to write numbers -/

section Numerals

variable {Numeral Numeral' : List Char → ℕ → Prop} {field : Field} {text whole : List Char}
  (himp : ∀ text value, text ⊆ whole → Numeral text value → Numeral' text value)

include himp

theorem ValueText.imp {value : ℕ} (hsub : text ⊆ whole) (h : ValueText Numeral field text value) :
    ValueText Numeral' field text value :=
  h.imp_left fun ⟨hvalue, hbounds⟩ => ⟨himp text value hsub hvalue, hbounds⟩

theorem BaseText.imp (hsub : text ⊆ whole) (h : BaseText Numeral field text) :
    BaseText Numeral' field text := by
  rcases h with rfl | ⟨value, hvalue⟩ | ⟨start, stop, first, last, rfl, hstart, hstop, hle⟩
  · exact Or.inl rfl
  · exact Or.inr (Or.inl ⟨value, hvalue.imp himp hsub⟩)
  · rw [List.append_subset, List.cons_subset] at hsub
    exact Or.inr (Or.inr ⟨start, stop, first, last, rfl, hstart.imp himp hsub.1,
      hstop.imp himp hsub.2.2, hle⟩)

theorem ItemText.imp (hsub : text ⊆ whole) (h : ItemText Numeral field text) :
    ItemText Numeral' field text := by
  rcases h with hbase | ⟨base, step, rfl, hbase, number, hstep, hbounds⟩
  · exact Or.inl (hbase.imp himp hsub)
  · rw [List.append_subset, List.cons_subset] at hsub
    exact Or.inr ⟨base, step, rfl, hbase.imp himp hsub.1, number,
      himp step number hsub.2.2 hstep, hbounds⟩

theorem FieldText.imp (hsub : field.source ⊆ whole) (h : FieldText Numeral field) :
    FieldText Numeral' field := by
  obtain ⟨first, rest, hsource, hitems⟩ := h
  refine ⟨first, rest, hsource, fun item hitem => (hitems item hitem).imp himp ?_⟩
  refine List.Subset.trans ?_ hsub
  rw [hsource]
  exact subset_joined hitem

theorem Schedule.imp (h : Schedule Numeral whole) : Schedule Numeral' whole := by
  obtain ⟨minute, hour, day, month, weekday, hwhole, h₁, h₂, h₃, h₄, h₅⟩ := h
  have hsub : ∀ part ∈ [minute, hour, day, month, weekday], part ⊆ whole := by
    intro part hpart
    rw [hwhole]
    exact subset_joined hpart
  exact ⟨minute, hour, day, month, weekday, hwhole, h₁.imp himp (hsub minute (by simp)),
    h₂.imp himp (hsub hour (by simp)), h₃.imp himp (hsub day (by simp)),
    h₄.imp himp (hsub month (by simp)), h₅.imp himp (hsub weekday (by simp))⟩

end Numerals

/-! ### The five fields -/

theorem proper_unnamed (source : List Char) {minimum maximum : ℕ} (hmin : minimum ≤ 255)
    (hmax : maximum ≤ 255) : Proper ⟨source, minimum, maximum, []⟩ where
  letters := by
    intro name hname
    cases hname
  nonempty := by
    intro name hname
    cases hname
  distinct := List.nodup_nil
  maximum_le := hmax
  names_le := by
    rw [List.length_nil, Nat.zero_add]
    exact hmin

theorem proper_month (source : List Char) : Proper ⟨source, 1, 12, months⟩ where
  letters := by
    show ∀ name ∈ months, ((name.map Char.toLower).all Char.isLower) = true
    decide
  nonempty := by
    show ∀ name ∈ months, name ≠ []
    decide
  distinct := by
    show (months.map fun name => name.map Char.toLower).Nodup
    decide
  maximum_le := by
    show 12 ≤ 255
    decide
  names_le := by
    show months.length + 1 ≤ 255
    decide

theorem proper_weekday (source : List Char) : Proper ⟨source, 0, 7, weekdays⟩ where
  letters := by
    show ∀ name ∈ weekdays, ((name.map Char.toLower).all Char.isLower) = true
    decide
  nonempty := by
    show ∀ name ∈ weekdays, name ≠ []
    decide
  distinct := by
    show (weekdays.map fun name => name.map Char.toLower).Nodup
    decide
  maximum_le := by
    show 7 ≤ 255
    decide
  names_le := by
    show weekdays.length + 0 ≤ 255
    decide

/-- The characters of a schedule besides letters and digits. -/
theorem Schedule.written {Numeral : List Char → ℕ → Prop} {allowed whole : List Char}
    (hnumeral : ∀ text value, Numeral text value → Written allowed text)
    (h : Schedule Numeral whole) :
    Written (' ' :: ',' :: '/' :: '-' :: '*' :: allowed) whole := by
  obtain ⟨minute, hour, day, month, weekday, rfl, h₁, h₂, h₃, h₄, h₅⟩ := h
  refine Written.joined (fun part hpart => ?_) List.mem_cons_self
  simp only [List.mem_cons, List.not_mem_nil, or_false] at hpart
  rcases hpart with rfl | rfl | rfl | rfl | rfl
  · exact (h₁.written hnumeral (proper_unnamed _ (by decide) (by decide))).mono
      (List.subset_cons_self _ _)
  · exact (h₂.written hnumeral (proper_unnamed _ (by decide) (by decide))).mono
      (List.subset_cons_self _ _)
  · exact (h₃.written hnumeral (proper_unnamed _ (by decide) (by decide))).mono
      (List.subset_cons_self _ _)
  · exact (h₄.written hnumeral (proper_month _)).mono (List.subset_cons_self _ _)
  · exact (h₅.written hnumeral (proper_weekday _)).mono (List.subset_cons_self _ _)

/-- Without plus signs the schedules are those with plain numbers. -/
theorem schedule_digits_iff {value : List Char} :
    Schedule Digits value ↔ Schedule Signed value ∧ '+' ∉ value := by
  constructor
  · intro h
    refine ⟨h.imp fun text number _ hdigits => hdigits.signed, ?_⟩
    exact (h.written fun _ _ => written_of_digits).not_mem (by decide) (by decide)
      (by decide)
  · rintro ⟨h, hplus⟩
    exact h.imp fun text number hsub hsigned => hsigned.digits fun hmem => hplus (hsub hmem)

/-! ### What the code accepts -/

section Accepted

variable {field : Field} {text : List Char}

theorem validRange_iff (h : Proper field) :
    field.validRange text = true ↔ RangeText Signed field text := by
  -- a value has no hyphen in it, so the split is at the one between the values
  have hplain : ∀ {value part}, ValueText Signed field part value → '-' ∉ part := fun hvalue =>
    (hvalue.written (fun _ _ => written_of_signed) h).not_mem (by decide) (by decide)
      (by decide)
  constructor
  · intro hvalid
    obtain ⟨first, rest, rfl, hparts⟩ := exists_joined '-' text
    rw [Field.validRange, splitOn_joined hparts] at hvalid
    cases rest with
    | nil =>
      obtain ⟨value, hvalue⟩ := Option.isSome_iff_exists.mp hvalid
      rw [joined, List.flatMap_nil, List.append_nil]
      exact Or.inl ⟨value, h.value_iff.mp hvalue⟩
    | cons stop rest =>
      cases rest with
      | nil =>
        obtain ⟨low, hlow, hvalid⟩ := (Option.any_eq_true ..).mp hvalid
        obtain ⟨high, hhigh, hle⟩ := (Option.any_eq_true ..).mp hvalid
        refine Or.inr ⟨first, stop, low, high, ?_, h.value_iff.mp hlow, h.value_iff.mp hhigh,
          of_decide_eq_true hle⟩
        rw [joined_cons, joined, List.flatMap_nil, List.append_nil]
      | cons => cases hvalid
  · rintro (⟨value, hvalue⟩ | ⟨start, stop, low, high, rfl, hlow, hhigh, hle⟩)
    · rw [Field.validRange, List.splitOn_eq_singleton (hplain hvalue)]
      exact Option.isSome_iff_exists.mpr ⟨value, h.value_iff.mpr hvalue⟩
    · rw [Field.validRange, List.splitOn_append_cons_self_of_not_mem (hplain hlow),
        List.splitOn_eq_singleton (hplain hhigh)]
      exact (Option.any_eq_true ..).mpr ⟨low, h.value_iff.mpr hlow,
        (Option.any_eq_true ..).mpr ⟨high, h.value_iff.mpr hhigh, decide_eq_true hle⟩⟩

theorem validBase_iff (h : Proper field) :
    (text == ['*'] || field.validRange text) = true ↔ BaseText Signed field text := by
  rw [Bool.or_eq_true, beq_iff_eq, validRange_iff h, BaseText]

theorem validItem_iff (h : Proper field) :
    field.validItem text = true ↔ ItemText Signed field text := by
  -- what stands before the slash has none in it
  have hplain : ∀ {part}, BaseText Signed field part → '/' ∉ part := fun hbase =>
    (hbase.written (fun _ _ => written_of_signed) h).not_mem (by decide) (by decide)
      (by decide)
  constructor
  · intro hvalid
    obtain ⟨first, rest, rfl, hparts⟩ := exists_joined '/' text
    rw [Field.validItem, splitOn_joined hparts] at hvalid
    cases rest with
    | nil =>
      rw [joined, List.flatMap_nil, List.append_nil]
      exact Or.inl ((validBase_iff h).mp hvalid)
    | cons step rest =>
      cases rest with
      | nil =>
        obtain ⟨hstep, hbase⟩ := Bool.and_eq_true_iff.mp hvalid
        refine Or.inr ⟨first, step, ?_, (validBase_iff h).mp hbase, validStep_iff.mp hstep⟩
        rw [joined_cons, joined, List.flatMap_nil, List.append_nil]
      | cons => cases hvalid
  · rintro (hbase | ⟨base, step, rfl, hbase, hstep⟩)
    · rw [Field.validItem, List.splitOn_eq_singleton (hplain hbase)]
      exact (validBase_iff h).mpr hbase
    · obtain ⟨number, hnumber, -⟩ := id hstep
      have hslash : '/' ∉ step :=
        (written_of_signed hnumber).not_mem (by decide) (by decide) (by decide)
      rw [Field.validItem, List.splitOn_append_cons_self_of_not_mem (hplain hbase),
        List.splitOn_eq_singleton hslash]
      exact Bool.and_eq_true_iff.mpr ⟨validStep_iff.mpr hstep, (validBase_iff h).mpr hbase⟩

theorem ValueText.ne_nil (h : Proper field) {value : ℕ} (hvalue : ValueText Signed field text value) :
    text ≠ [] := by
  rcases hvalue with ⟨hsigned, -⟩ | ⟨index, name, hname, hsame, -⟩
  · obtain ⟨c, hc, -⟩ := exists_digit_of_signed hsigned
    exact List.ne_nil_of_mem hc
  · rintro rfl
    refine h.nonempty name (List.mem_of_getElem? hname) ?_
    exact List.map_eq_nil_iff.mp (equalIgnoringCase_iff.mp hsame).symm

/-- No item is empty. -/
theorem ItemText.ne_nil (h : Proper field) (hitem : ItemText Signed field text) : text ≠ [] := by
  rcases hitem with (rfl | ⟨value, hvalue⟩ | ⟨start, stop, low, high, rfl, -⟩) |
    ⟨base, step, rfl, -⟩
  · exact List.cons_ne_nil _ _
  · exact hvalue.ne_nil h
  · exact List.append_ne_nil_of_right_ne_nil _ (List.cons_ne_nil _ _)
  · exact List.append_ne_nil_of_right_ne_nil _ (List.cons_ne_nil _ _)

theorem fieldValid_iff (h : Proper field) : field.valid = true ↔ FieldText Signed field := by
  have hplain : ∀ {part}, ItemText Signed field part → ',' ∉ part := fun hitem =>
    (hitem.written (fun _ _ => written_of_signed) h).not_mem (by decide) (by decide)
      (by decide)
  rw [Field.valid, Bool.and_eq_true, List.all_eq_true]
  constructor
  · rintro ⟨-, hitems⟩
    obtain ⟨first, rest, hsource, hparts⟩ := exists_joined ',' field.source
    rw [hsource, splitOn_joined hparts] at hitems
    exact ⟨first, rest, hsource, fun item hitem => (validItem_iff h).mp (hitems item hitem)⟩
  · rintro ⟨first, rest, hsource, hitems⟩
    rw [hsource, splitOn_joined fun item hitem => hplain (hitems item hitem)]
    refine ⟨?_, fun item hitem => (validItem_iff h).mpr (hitems item hitem)⟩
    have hfirst := (hitems first List.mem_cons_self).ne_nil h
    rw [Bool.not_eq_true', List.isEmpty_eq_false_iff, joined]
    exact List.append_ne_nil_of_left_ne_nil hfirst _

/-- The code accepts the schedules whose numbers may have plus signs. -/
theorem valid_iff : valid text = true ↔ Schedule Signed text := by
  have hminute := fun source => proper_unnamed source (show 0 ≤ 255 by decide)
    (show 59 ≤ 255 by decide)
  have hhour := fun source => proper_unnamed source (show 0 ≤ 255 by decide)
    (show 23 ≤ 255 by decide)
  have hday := fun source => proper_unnamed source (show 1 ≤ 255 by decide)
    (show 31 ≤ 255 by decide)
  have hall : ∀ minute hour day month weekday,
      ([⟨minute, 0, 59, []⟩, ⟨hour, 0, 23, []⟩, ⟨day, 1, 31, []⟩, ⟨month, 1, 12, months⟩,
        (⟨weekday, 0, 7, weekdays⟩ : Field)].all Field.valid) = true ↔
      FieldText Signed ⟨minute, 0, 59, []⟩ ∧ FieldText Signed ⟨hour, 0, 23, []⟩ ∧
        FieldText Signed ⟨day, 1, 31, []⟩ ∧ FieldText Signed ⟨month, 1, 12, months⟩ ∧
        FieldText Signed ⟨weekday, 0, 7, weekdays⟩ := by
    intro minute hour day month weekday
    simp only [List.all_cons, List.all_nil, Bool.and_true, Bool.and_eq_true]
    rw [fieldValid_iff (hminute minute), fieldValid_iff (hhour hour), fieldValid_iff (hday day),
      fieldValid_iff (proper_month month), fieldValid_iff (proper_weekday weekday)]
  constructor
  · intro hvalid
    obtain ⟨first, rest, htext, hparts⟩ := exists_joined ' ' text
    have hsplit : text.splitOn ' ' = first :: rest := by rw [htext, splitOn_joined hparts]
    unfold valid at hvalid
    split at hvalid
    case h_1 minute hour day month weekday heq =>
      rw [hsplit, List.cons.injEq] at heq
      obtain ⟨rfl, rfl⟩ := heq
      exact ⟨_, hour, day, month, weekday, htext, (hall ..).mp hvalid⟩
    case h_2 => cases hvalid
  · rintro ⟨minute, hour, day, month, weekday, rfl, hfields⟩
    obtain ⟨h₁, h₂, h₃, h₄, h₅⟩ := id hfields
    -- a field has no space in it
    have hplain : ∀ {field}, Proper field → FieldText Signed field → ' ' ∉ field.source :=
      fun h hfield => (hfield.written (fun _ _ => written_of_signed) h).not_mem (by decide)
        (by decide) (by decide)
    have hparts : ∀ part ∈ [minute, hour, day, month, weekday], ' ' ∉ part := by
      intro part hpart
      simp only [List.mem_cons, List.not_mem_nil, or_false] at hpart
      rcases hpart with rfl | rfl | rfl | rfl | rfl
      · exact hplain (hminute _) h₁
      · exact hplain (hhour _) h₂
      · exact hplain (hday _) h₃
      · exact hplain (proper_month _) h₄
      · exact hplain (proper_weekday _) h₅
    rw [valid, splitOn_joined hparts]
    exact (hall ..).mpr hfields

end Accepted

/-- The code accepts exactly the schedules with plain numbers, unless the text has a plus sign and
is a schedule whose numbers may have plus signs. -/
theorem cron_law (value : String) :
    (valid value.toList = true ↔ Schedule Digits value.toList) ↔
      ¬('+' ∈ value.toList ∧ Schedule Signed value.toList) := by
  rw [valid_iff, schedule_digits_iff]
  tauto

/-- A schedule with a plus sign is accepted. -/
theorem plusMinute_accepted :
    ¬∀ value : String, valid value.toList = true ↔ Schedule Digits value.toList := by
  intro h
  have hvalid : valid "+5 * * * *".toList = true := by decide +kernel
  have hplus : '+' ∈ "+5 * * * *".toList := by decide
  exact (schedule_digits_iff.mp ((h "+5 * * * *").mp hvalid)).2 hplus

end Cron

end Manifest

end BlobYard
