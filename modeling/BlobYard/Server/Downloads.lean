/-
Downloads and their byte ranges.

A `Range` header is read against the size that storage reports; storage checks the
range again and hands out a reader, which is copied to the body in chunks.

* `parseRange` — the reader of the header;
* `RangeSpec` — the three forms of a range, what they write and what they select;
* `SignedRange`, `OffByOne` — two kinds of headers that the parser takes besides them;
* `parseRange_eq_ok` — what the parser returns;
* `responseFromStorage`, `buildResponse`, `Streams` — the response.
-/
import BlobYard.Contract.Numbers
import BlobYard.Lib.Splitting
import BlobYard.Server.Objects
import BlobYard.Storage.Objects

namespace BlobYard

open Outcome FilesystemStorage

namespace Downloads

/-! ### The header -/

/-- A header value as `to_str` shows it: a text of visible characters, or other bytes. -/
inductive HeaderValue where
  | visible (text : List Char)
  | other
  deriving DecidableEq

def parseNumber (value : List Char) : Except ApiError ℕ :=
  ofOption .invalidRequest (parseU64 value)

/-- The end of a range: one after the last position, or the size when there is none. -/
def parseStop (last : List Char) (size : ℕ) : Except ApiError ℕ :=
  if last = [] then pure size else do
    let last ← parseNumber last
    let stop ← ofOption .invalidRequest (checkedAdd last 1)
    pure (min stop size)

/-- The half-open range of a range text, checked by `ByteRange::new`. -/
def parseBounds (start last : List Char) (size : ℕ) :
    Except ApiError (Except StorageError ByteRange) :=
  if start = [] then do
    let suffix ← parseNumber last
    ensure (suffix ≠ 0) .rangeNotSatisfiable
    pure (ByteRange.new (saturatingSub size (min suffix size)) size)
  else do
    let start ← parseNumber start
    ensure (start < size) .rangeNotSatisfiable
    let stop ← parseStop last size
    pure (ByteRange.new start stop)

def parseRange (value : Option HeaderValue) (size : ℕ) : Except ApiError (Option ByteRange) :=
  match value with
  | none => .ok none
  | some .other => .error .invalidRequest
  | some (.visible text) => do
    let value ← ofOption .invalidRequest (stripPrefix? "bytes=".toList text)
    ensure (',' ∉ value ∧ size ≠ 0) .rangeNotSatisfiable
    let (start, last) ← ofOption .invalidRequest (splitOnce '-' value)
    let range ← parseBounds start last size
    (range.mapError fun _ => ApiError.rangeNotSatisfiable).map some

/-! ### The forms of a range -/

/-- A single byte range. -/
inductive RangeSpec where
  | between (first last : ℕ)
  | upFrom (first : ℕ)
  | suffix (length : ℕ)
  deriving DecidableEq

namespace RangeSpec

section Writing

variable (Numeral : List Char → ℕ → Prop)

/-- The texts before and after the dash. -/
def Positions (before after : List Char) : RangeSpec → Prop
  | between first last => Numeral before first ∧ Numeral after last ∧ first ≤ last
  | upFrom first => Numeral before first ∧ after = []
  | suffix length => before = [] ∧ Numeral after length

/-- The text is a single range of bytes. -/
def Writes (text : List Char) (spec : RangeSpec) : Prop :=
  ∃ before after, text = "bytes=".toList ++ (before ++ '-' :: after) ∧
    spec.Positions Numeral before after

end Writing

/-- The position after the range is a 64-bit number, and so are the numbers of the text. -/
def Fits : RangeSpec → Prop
  | between _ last => last + 1 ≤ u64Max
  | upFrom first => first ≤ u64Max
  | suffix length => length ≤ u64Max

/-- The part of an object of this size that the range selects, if it is satisfiable. -/
def select (size : ℕ) : RangeSpec → Option ByteRange
  | between first last => if first < size then some ⟨first, min (last + 1) size⟩ else none
  | upFrom first => if first < size then some ⟨first, size⟩ else none
  | suffix length => if 0 < length ∧ 0 < size then some ⟨size - length, size⟩ else none

end RangeSpec

/-- The last position is the one before the first, which the object has. -/
def Adjacent (before after : List Char) (size first : ℕ) : Prop :=
  ∃ last, Signed before first ∧ Signed after last ∧ last + 1 = first ∧ first < size

/-- The text is a single range of bytes, but with a plus sign before one of its numbers. -/
def SignedRange (text : List Char) : Prop :=
  ∃ spec : RangeSpec, spec.Writes Signed text ∧ ¬spec.Writes Digits text

/-- The text names a position of the object, and the one before it as the last. -/
def OffByOne (text : List Char) (size first : ℕ) : Prop :=
  ∃ before after, text = "bytes=".toList ++ (before ++ '-' :: after) ∧
    Adjacent before after size first

/-- A satisfiable range of a text selects a part of the object that is not empty. -/
theorem select_bounds {before after : List Char} {spec : RangeSpec}
    (hwrites : spec.Positions Signed before after) {size : ℕ} {range : ByteRange}
    (h : spec.select size = some range) : range.start < range.stop ∧ range.stop ≤ size := by
  cases spec with
  | between first last =>
    obtain ⟨-, -, hle⟩ := hwrites
    simp only [RangeSpec.select, Option.ite_none_right_eq_some, Option.some.injEq] at h
    obtain ⟨hlt, rfl⟩ := h
    exact ⟨by simp only; omega, by simp only; omega⟩
  | upFrom first =>
    simp only [RangeSpec.select, Option.ite_none_right_eq_some, Option.some.injEq] at h
    obtain ⟨hlt, rfl⟩ := h
    exact ⟨hlt, le_refl _⟩
  | suffix length =>
    simp only [RangeSpec.select, Option.ite_none_right_eq_some, Option.some.injEq] at h
    obtain ⟨⟨hlength, hsize⟩, rfl⟩ := h
    exact ⟨by simp only; omega, le_refl _⟩

/-! ### What the parser reads -/

theorem parseNumber_eq_ok {value : List Char} {number : ℕ} :
    parseNumber value = .ok number ↔ Signed value number ∧ number ≤ u64Max := by
  rw [parseNumber, ofOption_eq_ok, parseU64, parseUnsigned_iff]

theorem parseStop_eq_ok {last : List Char} {size stop : ℕ} :
    parseStop last size = .ok stop ↔ last = [] ∧ stop = size ∨
      ∃ number, Signed last number ∧ number + 1 ≤ u64Max ∧ stop = min (number + 1) size := by
  unfold parseStop
  split
  case isTrue hempty =>
    have hnot : ∀ number, ¬Signed last number := fun number hsigned => hsigned.ne_nil hempty
    rw [pure_eq_ok]
    simp [hempty, hempty ▸ hnot, eq_comm]
  case isFalse hne =>
    simp only [bind_eq_ok, ofOption_eq_ok, pure_eq_ok, parseNumber_eq_ok, checkedAdd_eq_some,
      hne, false_and, false_or]
    constructor
    · rintro ⟨number, ⟨hsigned, -⟩, _, ⟨rfl, hfits⟩, rfl⟩
      exact ⟨number, hsigned, hfits, rfl⟩
    · rintro ⟨number, hsigned, hfits, rfl⟩
      exact ⟨number, ⟨hsigned, by omega⟩, _, ⟨rfl, hfits⟩, rfl⟩

theorem ByteRange.new_eq_ok {start stop : ℕ} {range : ByteRange} :
    ByteRange.new start stop = .ok range ↔ start ≤ stop ∧ range = ⟨start, stop⟩ := by
  unfold ByteRange.new
  split
  case isTrue h => simp [h, eq_comm]
  case isFalse h => simp [h]

/-- Without a first position the parser reads the suffix form. -/
theorem parseBounds_nil_eq_ok {after : List Char} {size : ℕ} (hsize : size ≠ 0)
    {range : ByteRange} :
    parseBounds [] after size = .ok (.ok range) ↔
      ∃ length, Signed after length ∧ length ≤ u64Max ∧
        (RangeSpec.suffix length).select size = some range := by
  rw [parseBounds, if_pos rfl]
  simp only [bind_eq_ok, ensure_eq_ok, pure_eq_ok, parseNumber_eq_ok, ByteRange.new_eq_ok,
    saturatingSub, RangeSpec.select, Option.ite_none_right_eq_some, Option.some.injEq]
  -- a suffix that is longer than the object is the whole object
  have hstart : ∀ length, size - min length size = size - length := by omega
  constructor
  · rintro ⟨length, ⟨hsigned, hfits⟩, -, hne, -, rfl⟩
    refine ⟨length, hsigned, hfits, ⟨by omega, by omega⟩, ?_⟩
    rw [hstart]
  · rintro ⟨length, hsigned, hfits, ⟨hlength, -⟩, rfl⟩
    refine ⟨length, ⟨hsigned, hfits⟩, (), by omega, by omega, ?_⟩
    rw [hstart]

/-- With a first position it reads the two other forms, and an inverted pair if it is off by
one: `ByteRange::new` takes the empty range. -/
theorem parseBounds_cons_eq_ok {before after : List Char} (hbefore : before ≠ []) {size : ℕ}
    {range : ByteRange} :
    parseBounds before after size = .ok (.ok range) ↔
      ∃ first, Signed before first ∧ first ≤ u64Max ∧ first < size ∧
        (after = [] ∧ range = ⟨first, size⟩ ∨
          ∃ last, Signed after last ∧ last + 1 ≤ u64Max ∧ first ≤ last + 1 ∧
            range = ⟨first, min (last + 1) size⟩) := by
  rw [parseBounds, if_neg hbefore]
  simp only [bind_eq_ok, ensure_eq_ok, pure_eq_ok, parseNumber_eq_ok, parseStop_eq_ok,
    ByteRange.new_eq_ok]
  constructor
  · rintro ⟨first, ⟨hsigned, hfits⟩, -, hlt, stop, hstop, hle, rfl⟩
    refine ⟨first, hsigned, hfits, hlt, ?_⟩
    rcases hstop with ⟨hempty, rfl⟩ | ⟨last, hlast, hend, rfl⟩
    · exact Or.inl ⟨hempty, rfl⟩
    · exact Or.inr ⟨last, hlast, hend, by omega, rfl⟩
  · rintro ⟨first, hsigned, hfits, hlt, ⟨hempty, rfl⟩ | ⟨last, hlast, hend, hle, rfl⟩⟩
    · exact ⟨first, ⟨hsigned, hfits⟩, (), hlt, size, Or.inl ⟨hempty, rfl⟩, hlt.le, rfl⟩
    · exact ⟨first, ⟨hsigned, hfits⟩, (), hlt, _, Or.inr ⟨last, hlast, hend, rfl⟩, by omega, rfl⟩

/-- The two positions select what their form selects, or nothing if they are off by one. -/
theorem parseBounds_eq_ok {before after : List Char} {size : ℕ} (hsize : size ≠ 0)
    {range : ByteRange} :
    parseBounds before after size = .ok (.ok range) ↔
      (∃ spec : RangeSpec, spec.Positions Signed before after ∧ spec.Fits ∧
        spec.select size = some range) ∨
      ∃ first, Adjacent before after size first ∧ first ≤ u64Max ∧ range = ⟨first, first⟩ := by
  by_cases hbefore : before = []
  case pos =>
    subst hbefore
    have hnone : ∀ number, ¬Signed [] number := fun number hsigned => hsigned.ne_nil rfl
    rw [parseBounds_nil_eq_ok hsize]
    constructor
    · rintro ⟨length, hsigned, hfits, hselect⟩
      exact Or.inl ⟨.suffix length, ⟨rfl, hsigned⟩, hfits, hselect⟩
    · rintro (⟨spec, hspec, hfits, hselect⟩ | ⟨first, ⟨last, hfirst, -⟩, -⟩)
      · cases spec with
        | between first last => exact absurd hspec.1 (hnone _)
        | upFrom first => exact absurd hspec.1 (hnone _)
        | suffix length => exact ⟨length, hspec.2, hfits, hselect⟩
      · exact absurd hfirst (hnone _)
  case neg =>
    rw [parseBounds_cons_eq_ok hbefore]
    constructor
    · rintro ⟨first, hfirst, hfits, hlt, ⟨hempty, rfl⟩ | ⟨last, hlast, hend, hle, rfl⟩⟩
      · exact Or.inl ⟨.upFrom first, ⟨hfirst, hempty⟩, hfits, if_pos hlt⟩
      -- an inverted pair is refused, unless it is off by one
      · rcases Nat.lt_or_ge last first with hinverted | hordered
        · have heq : last + 1 = first := by omega
          refine Or.inr ⟨first, ⟨last, hfirst, hlast, heq, hlt⟩, hfits, ?_⟩
          rw [heq, Nat.min_eq_left hlt.le]
        · exact Or.inl ⟨.between first last, ⟨hfirst, hlast, hordered⟩, hend, if_pos hlt⟩
    · rintro (⟨spec, hspec, hfits, hselect⟩ | ⟨first, ⟨last, hfirst, hlast, rfl, hlt⟩, hfits, rfl⟩)
      · cases spec with
        | between first last =>
          obtain ⟨hfirst, hlast, hordered⟩ := hspec
          simp only [RangeSpec.select, Option.ite_none_right_eq_some, Option.some.injEq] at hselect
          obtain ⟨hlt, rfl⟩ := hselect
          have hend : last + 1 ≤ u64Max := hfits
          exact ⟨first, hfirst, by omega, hlt, Or.inr ⟨last, hlast, hend, by omega, rfl⟩⟩
        | upFrom first =>
          simp only [RangeSpec.select, Option.ite_none_right_eq_some, Option.some.injEq] at hselect
          obtain ⟨hlt, rfl⟩ := hselect
          exact ⟨first, hspec.1, hfits, hlt, Or.inl ⟨hspec.2, rfl⟩⟩
        | suffix length => exact absurd hspec.1 hbefore
      · refine ⟨last + 1, hfirst, hfits, hlt, Or.inr ⟨last, hlast, hfits, le_refl _, ?_⟩⟩
        rw [Nat.min_eq_left hlt.le]

/-- The dash is the first one, and there is no comma. -/
theorem separated {before after : List Char}
    (hbefore : before = [] ∨ ∃ first, Signed before first)
    (hafter : after = [] ∨ ∃ last, Signed after last) :
    '-' ∉ before ∧ ',' ∉ before ++ '-' :: after := by
  have hpart : ∀ {part : List Char} {c : Char}, (part = [] ∨ ∃ number, Signed part number) →
      c.isDigit = false → c ≠ '+' → c ∉ part := by
    rintro part c (rfl | ⟨number, hsigned⟩) hdigit hplus
    · exact List.not_mem_nil
    · exact hsigned.not_mem hdigit hplus
  refine ⟨hpart hbefore (by decide) (by decide), ?_⟩
  simp [hpart hbefore (c := ',') (by decide) (by decide),
    hpart hafter (c := ',') (by decide) (by decide)]

theorem positions_separated {before after : List Char} {spec : RangeSpec}
    (h : spec.Positions Signed before after) :
    '-' ∉ before ∧ ',' ∉ before ++ '-' :: after := by
  cases spec with
  | between first last => exact separated (Or.inr ⟨first, h.1⟩) (Or.inr ⟨last, h.2.1⟩)
  | upFrom first => exact separated (Or.inr ⟨first, h.1⟩) (Or.inl h.2)
  | suffix length => exact separated (Or.inl h.1) (Or.inr ⟨length, h.2⟩)

/-- The text before the dash and the text after it have one reading. -/
theorem positions_unique {before after : List Char} {spec spec' : RangeSpec}
    (h : spec.Positions Signed before after) (h' : spec'.Positions Signed before after) :
    spec = spec' := by
  have hnone : ∀ number, ¬Signed [] number := fun number hsigned => hsigned.ne_nil rfl
  cases spec <;> cases spec' <;>
    simp only [RangeSpec.Positions] at h h'
  case between.between => rw [h.1.unique h'.1, h.2.1.unique h'.2.1]
  case upFrom.upFrom => rw [h.1.unique h'.1]
  case suffix.suffix => rw [h.2.unique h'.2]
  case between.upFrom => exact absurd (h'.2 ▸ h.2.1) (hnone _)
  case upFrom.between => exact absurd (h.2 ▸ h'.2.1) (hnone _)
  case between.suffix | upFrom.suffix => exact absurd (h'.1 ▸ h.1) (hnone _)
  case suffix.between | suffix.upFrom => exact absurd (h.1 ▸ h'.1) (hnone _)

/-- The dash of a header is determined. -/
theorem parts_unique {before after before' after' : List Char} (h : '-' ∉ before)
    (h' : '-' ∉ before')
    (htext : "bytes=".toList ++ (before ++ '-' :: after) =
      "bytes=".toList ++ (before' ++ '-' :: after')) : before = before' ∧ after = after' := by
  have hsplit := splitOnce_append h after
  rw [List.append_cancel_left htext, splitOnce_append h' after'] at hsplit
  simpa [eq_comm] using hsplit

/-- Digits alone are among the texts that may have a sign. -/
theorem writes_signed {text : List Char} {spec : RangeSpec} (h : spec.Writes Digits text) :
    spec.Writes Signed text := by
  obtain ⟨before, after, htext, hspec⟩ := h
  refine ⟨before, after, htext, ?_⟩
  cases spec with
  | between first last => exact ⟨hspec.1.signed, hspec.2.1.signed, hspec.2.2⟩
  | upFrom first => exact ⟨hspec.1.signed, hspec.2⟩
  | suffix length => exact ⟨hspec.1, hspec.2.signed⟩

/-- A range in digits has no plus sign. -/
theorem not_signedRange {text : List Char} {spec : RangeSpec} (h : spec.Writes Digits text) :
    ¬SignedRange text := by
  rintro ⟨spec', ⟨before, after, htext, hspec⟩, hnot⟩
  obtain ⟨before', after', htext', hspec'⟩ := writes_signed h
  obtain ⟨rfl, rfl⟩ := parts_unique (positions_separated hspec).1 (positions_separated hspec').1
    (htext.symm.trans htext')
  exact hnot (positions_unique hspec' hspec ▸ h)

/-- The positions of a range are in order, so they are not off by one. -/
theorem not_offByOne {text : List Char} {spec : RangeSpec} (h : spec.Writes Signed text)
    (size first : ℕ) : ¬OffByOne text size first := by
  rintro ⟨before, after, htext, last, hfirst, hlast, hnext, -⟩
  obtain ⟨before', after', htext', hspec⟩ := h
  obtain ⟨rfl, rfl⟩ := parts_unique (separated (Or.inr ⟨first, hfirst⟩) (Or.inr ⟨last, hlast⟩)).1
    (positions_separated hspec).1 (htext.symm.trans htext')
  cases spec with
  | between first' last' =>
    obtain ⟨hfirst', hlast', hle⟩ := hspec
    obtain rfl := hfirst.unique hfirst'
    obtain rfl := hlast.unique hlast'
    omega
  | upFrom first' => exact hlast.ne_nil hspec.2
  | suffix length => exact hfirst.ne_nil hspec.1

theorem select_ne_zero {spec : RangeSpec} {size : ℕ} {range : ByteRange}
    (h : spec.select size = some range) : size ≠ 0 := by
  rintro rfl
  cases spec <;> simp [RangeSpec.select] at h

theorem parseRange_visible {text : List Char} {size : ℕ} {range : ByteRange} :
    parseRange (some (.visible text)) size = .ok (some range) ↔
      ∃ before after, text = "bytes=".toList ++ (before ++ '-' :: after) ∧ '-' ∉ before ∧
        ',' ∉ before ++ '-' :: after ∧ size ≠ 0 ∧
        parseBounds before after size = .ok (.ok range) := by
  have hrange : ∀ r : Except StorageError ByteRange,
      (r.mapError fun _ => ApiError.rangeNotSatisfiable).map some = .ok (some range) ↔
        r = .ok range := by
    intro r
    cases r with
    | error e => simp [Except.mapError, Except.map]
    | ok r => simp [Except.mapError, Except.map]
  simp only [parseRange, bind_eq_ok, ofOption_eq_ok, ensure_eq_ok, stripPrefix?_eq_some, hrange]
  constructor
  · rintro ⟨value, htext, -, ⟨hcomma, hsize⟩, ⟨before, after⟩, hsplit, _, hbounds, rfl⟩
    obtain ⟨rfl, hdash⟩ := splitOnce_eq_some.mp hsplit
    exact ⟨before, after, htext, hdash, hcomma, hsize, hbounds⟩
  · rintro ⟨before, after, htext, hdash, hcomma, hsize, hbounds⟩
    exact ⟨_, htext, (), ⟨hcomma, hsize⟩, (before, after), splitOnce_append hdash after, _,
      hbounds, rfl⟩

/-- A header yields what its form selects, or an empty range if its positions are off by one. -/
theorem parseRange_eq_ok {text : List Char} {size : ℕ} {range : ByteRange} :
    parseRange (some (.visible text)) size = .ok (some range) ↔
      (∃ spec : RangeSpec, spec.Writes Signed text ∧ spec.Fits ∧
        spec.select size = some range) ∨
      ∃ first, OffByOne text size first ∧ first ≤ u64Max ∧ range = ⟨first, first⟩ := by
  rw [parseRange_visible]
  constructor
  · rintro ⟨before, after, htext, -, -, hsize, hbounds⟩
    rcases (parseBounds_eq_ok hsize).mp hbounds with
      ⟨spec, hspec, hfits, hselect⟩ | ⟨first, hadjacent, hfits, hrange⟩
    · exact Or.inl ⟨spec, ⟨before, after, htext, hspec⟩, hfits, hselect⟩
    · exact Or.inr ⟨first, ⟨before, after, htext, hadjacent⟩, hfits, hrange⟩
  · rintro (⟨spec, ⟨before, after, htext, hspec⟩, hfits, hselect⟩ |
      ⟨first, ⟨before, after, htext, ⟨last, hfirst, hlast, hnext, hlt⟩⟩, hfits, hrange⟩)
    · obtain ⟨hdash, hcomma⟩ := positions_separated hspec
      have hsize := select_ne_zero hselect
      exact ⟨before, after, htext, hdash, hcomma, hsize,
        (parseBounds_eq_ok hsize).mpr (Or.inl ⟨spec, hspec, hfits, hselect⟩)⟩
    · obtain ⟨hdash, hcomma⟩ := separated (Or.inr ⟨first, hfirst⟩) (Or.inr ⟨last, hlast⟩)
      have hsize : size ≠ 0 := by omega
      exact ⟨before, after, htext, hdash, hcomma, hsize,
        (parseBounds_eq_ok hsize).mpr
          (Or.inr ⟨first, ⟨last, hfirst, hlast, hnext, hlt⟩, hfits, hrange⟩)⟩

/-- A header that is there is never ignored. -/
theorem parseRange_none {value : Option HeaderValue} {size : ℕ} :
    parseRange value size = .ok none ↔ value = none := by
  rcases value with _ | text | _
  · simp [parseRange]
  · have hmap : ∀ r : Except ApiError ByteRange, r.map some ≠ .ok none := by
      intro r
      cases r <;> simp [Except.map]
    simp only [parseRange, bind_eq_ok, reduceCtorEq, iff_false, not_exists, not_and]
    intro value _ _ _ _ _ r _
    exact hmap _
  · simp [parseRange]

/-! ### The response -/

/-- `download_storage_error`. -/
def downloadStorageError : StorageError → ApiError
  | .notFound => .notFound
  | .conflict | .invalidInput | .integrityMismatch | .unavailable => .internal

/-- The parts of a response that depend on the range; `body` is what the reader yields. -/
structure DownloadResponse where
  status : ℕ
  contentLength : ℕ
  /-- First and last position and total size. -/
  contentRange : Option (ℕ × ℕ × ℕ)
  body : Bytes
  deriving DecidableEq

def buildResponse (metadata : StorageMetadata) (range : ByteRange) (reader : Bytes) (status : ℕ) :
    DownloadResponse where
  status := status
  contentLength := range.stop - range.start
  contentRange :=
    if status = 206 then some (range.start, saturatingSub range.stop 1, metadata.size) else none
  body := reader

def responseFromStorage (storageKey : String) (header : Option HeaderValue) :
    Procedure FileCommand FileCommand.Response ApiError DownloadResponse := do
  let key ← .lift ((StorageKey.new storageKey).mapError fun _ => .internal)
  let metadata ← .attempt downloadStorageError (head key).program
  let range ← .lift (parseRange header metadata.size)
  let (metadata, actual, reader) ← .attempt downloadStorageError (getRange key range).program
  let status := if range.isSome then 206 else 200
  pure (buildResponse metadata actual reader status)

/-- A response is what the range of the header selects from the object that storage describes. -/
theorem responseFromStorage_eq_ok {fs fs' : Filesystem} {storageKey : String}
    {header : Option HeaderValue} {response : DownloadResponse} :
    (responseFromStorage storageKey header).exec Filesystem.machine fs = (.ok response, fs') ↔
      ∃ key metadata content requested, StorageKey.new storageKey = .ok key ∧
        fs.metadata.fileAt key.metadataPath = some metadata ∧
        fs.objects.fileAt key.path = some content ∧ content.length = metadata.size ∧
        parseRange header metadata.size = .ok requested ∧
        (requested.getD ⟨0, metadata.size⟩).start ≤ (requested.getD ⟨0, metadata.size⟩).stop ∧
        (requested.getD ⟨0, metadata.size⟩).stop ≤ metadata.size ∧
        response = buildResponse metadata (requested.getD ⟨0, metadata.size⟩)
          ((requested.getD ⟨0, metadata.size⟩).slice content)
          (if requested.isSome then 206 else 200) ∧ fs' = fs := by
  have hattempt : ∀ {α : Type} (x : FileAction α) (a : α) (s s' : Filesystem),
      (Procedure.attempt downloadStorageError x.program).exec Filesystem.machine s = (.ok a, s') ↔
        x.exec Filesystem.machine s = (.ok a, s') := by
    intro α x a s s'
    rw [Procedure.exec_attempt, ← Procedure.exec]
    rcases x.exec Filesystem.machine s with ⟨_ | _, _⟩ <;> simp [Except.mapError]
  simp only [responseFromStorage, Procedure.exec_bind_eq_ok, Procedure.exec_lift, hattempt,
    Prod.exists, head_eq_ok, getRange_eq_ok, Procedure.exec_pure, Prod.mk.injEq, Except.ok.injEq,
    mapError_eq_ok]
  constructor
  · rintro ⟨key, _, ⟨hkey, rfl⟩, metadata, _, ⟨hmetadata, ⟨content, hobject, hlength⟩, rfl⟩,
      requested, _, ⟨hparse, rfl⟩, stored, range, bytes, _,
      ⟨hstored, rfl, hstart, hstop, ⟨content', hobject', -, rfl⟩, rfl⟩, rfl, rfl⟩
    obtain rfl := Option.some.inj (hmetadata.symm.trans hstored)
    obtain rfl := Option.some.inj (hobject.symm.trans hobject')
    exact ⟨key, metadata, content, requested, hkey, hmetadata, hobject, hlength, hparse, hstart,
      hstop, rfl, rfl⟩
  · rintro ⟨key, metadata, content, requested, hkey, hmetadata, hobject, hlength, hparse, hstart,
      hstop, rfl, rfl⟩
    exact ⟨key, fs', ⟨hkey, rfl⟩, metadata, fs', ⟨hmetadata, ⟨content, hobject, hlength⟩, rfl⟩,
      requested, fs', ⟨hparse, rfl⟩, metadata, _, _, fs',
      ⟨hmetadata, rfl, hstart, hstop, ⟨content, hobject, hlength, rfl⟩, rfl⟩, rfl, rfl⟩

theorem ByteRange.length_slice {range : ByteRange} {content : Bytes}
    (h : range.stop ≤ content.length) :
    (range.slice content).length = range.stop - range.start := by
  rw [ByteRange.slice, List.length_take, List.length_drop]
  omega

/-- `stream_reader`: the reader fills a buffer of 64 KiB, or as much of it as it likes. -/
inductive Streams : Bytes → List Bytes → Prop
  | done : Streams [] []
  | chunk {reader : Bytes} {size : ℕ} {chunks : List Bytes} : 0 < size → size ≤ 64 * 1024 →
      size ≤ reader.length → Streams (reader.drop size) chunks →
      Streams reader (reader.take size :: chunks)

theorem Streams.flatten {reader : Bytes} {chunks : List Bytes} (h : Streams reader chunks) :
    chunks.flatten = reader := by
  induction h with
  | done => rfl
  | chunk _ _ _ _ ih => rw [List.flatten_cons, ih, List.take_append_drop]

end Downloads

end BlobYard
