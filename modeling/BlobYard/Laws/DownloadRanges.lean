/-
Ranges of downloads.

A header with a single range of bytes is answered with exactly the bytes that the range
selects, and every other header that is there is refused.  Two kinds of headers are left
out: the integer parser takes a plus sign, and a last position that is the one before the
first selects nothing and is answered all the same.

* `download_range_law` — what the parser returns and what the response carries;
* `lawful_oneToThree` — the law for a header;
* `odd_headers` — headers of the two kinds, and a number that is too large.
-/
import BlobYard.Server.Downloads

namespace BlobYard

open Outcome FilesystemStorage

namespace Downloads

/-- The header is a range with a plus sign. -/
def SignedHeader (header : Option HeaderValue) : Prop :=
  ∃ text, header = some (.visible text) ∧ SignedRange text

/-- The header names a position of the object, and the one before it as the last. -/
def OffByOneHeader (header : Option HeaderValue) (size first : ℕ) : Prop :=
  ∃ text, header = some (.visible text) ∧ OffByOne text size first

/-- The response carries the selected part of the object, described as it is. -/
structure Carries (response : DownloadResponse) (range : ByteRange) (content : Bytes) : Prop where
  status : response.status = 206
  contentRange : response.contentRange = some (range.start, range.stop - 1, content.length)
  contentLength : response.contentLength = range.stop - range.start
  length : response.body.length = range.stop - range.start
  streamed : ∀ chunks, Streams response.body chunks → chunks.flatten = range.slice content

theorem parseRange_some {header : Option HeaderValue} {size : ℕ} {range : ByteRange} :
    parseRange header size = .ok (some range) ↔
      (∃ text spec, header = some (.visible text) ∧ RangeSpec.Writes Signed text spec ∧
        spec.Fits ∧ spec.select size = some range) ∨
      ∃ first, OffByOneHeader header size first ∧ first ≤ u64Max ∧ range = ⟨first, first⟩ := by
  rcases header with _ | text | _
  · simp [parseRange, OffByOneHeader]
  · rw [parseRange_eq_ok]
    simp [OffByOneHeader]
  · simp [parseRange, OffByOneHeader]

/-- Apart from the two slips the parser returns what a range in digits selects. -/
theorem parseRange_digits {header : Option HeaderValue} (hsigned : ¬SignedHeader header) {size : ℕ}
    (hoff : ∀ first, ¬OffByOneHeader header size first) {range : ByteRange} :
    parseRange header size = .ok (some range) ↔
      ∃ text spec, header = some (.visible text) ∧ RangeSpec.Writes Digits text spec ∧
        spec.Fits ∧ spec.select size = some range := by
  rw [parseRange_some]
  constructor
  · rintro (⟨text, spec, hheader, hwrites, hfits, hselect⟩ | ⟨first, hfirst, -⟩)
    · have hdigits : spec.Writes Digits text := by
        by_contra hnot
        exact hsigned ⟨text, hheader, spec, hwrites, hnot⟩
      exact ⟨text, spec, hheader, hdigits, hfits, hselect⟩
    · exact absurd hfirst (hoff first)
  · rintro ⟨text, spec, hheader, hwrites, hfits, hselect⟩
    exact Or.inl ⟨text, spec, hheader, writes_signed hwrites, hfits, hselect⟩

/-- A range that is returned is inside the object, and empty only where the positions are off
by one. -/
theorem parseRange_inside {header : Option HeaderValue} {size : ℕ} {range : ByteRange}
    (h : parseRange header size = .ok (some range)) :
    range.start ≤ range.stop ∧ range.stop ≤ size ∧
      (range.start = range.stop → OffByOneHeader header size range.start) := by
  rcases parseRange_some.mp h with
    ⟨text, spec, -, ⟨before, after, -, hspec⟩, -, hselect⟩ | ⟨first, hoff, -, rfl⟩
  · obtain ⟨hstart, hstop⟩ := select_bounds hspec hselect
    exact ⟨hstart.le, hstop, fun heq => absurd heq hstart.ne⟩
  · have hfirst : first < size := by
      obtain ⟨_, -, _, _, -, _, -, -, -, hlt⟩ := hoff
      exact hlt
    exact ⟨le_refl _, hfirst.le, fun _ => hoff⟩

/-- A header yields a range if and only if it is a single range of bytes, satisfiable for the size
and with numbers that fit, and the range is the selected one; left out are a plus sign before the
digits of such a range, and a last position that is the one before a first position of the object.
Every returned range is inside the object, and but for the latter it is not empty.  No header that
is there is ignored.  The response streams exactly the bytes of the returned range, or the whole
object when there is no header, and is given whenever storage describes the object. -/
theorem download_range_law (header : Option HeaderValue) :
    (¬SignedHeader header → ∀ size, (∀ first, ¬OffByOneHeader header size first) → ∀ range,
      parseRange header size = .ok (some range) ↔
        ∃ text spec, header = some (.visible text) ∧ RangeSpec.Writes Digits text spec ∧
          spec.Fits ∧ spec.select size = some range) ∧
    (∀ size, parseRange header size = .ok none ↔ header = none) ∧
    (∀ size range, parseRange header size = .ok (some range) →
      range.start ≤ range.stop ∧ range.stop ≤ size ∧
        (range.start = range.stop → OffByOneHeader header size range.start)) ∧
    (∀ storageKey fs fs' response,
      (responseFromStorage storageKey header).exec Filesystem.machine fs = (.ok response, fs') →
        fs' = fs ∧ ∃ key content, StorageKey.new storageKey = .ok key ∧
          fs.objects.fileAt key.path = some content ∧
          (header = none ∧ response.status = 200 ∧
              (∀ chunks, Streams response.body chunks → chunks.flatten = content) ∨
            ∃ range, parseRange header content.length = .ok (some range) ∧
              Carries response range content)) ∧
    ∀ storageKey key fs metadata range, StorageKey.new storageKey = .ok key →
      (head key).exec Filesystem.machine fs = (.ok metadata, fs) →
      parseRange header metadata.size = .ok (some range) →
      ∃ response, (responseFromStorage storageKey header).exec Filesystem.machine fs =
        (.ok response, fs) := by
  refine ⟨fun hsigned size hoff range => parseRange_digits hsigned hoff,
    fun size => parseRange_none, fun size range => parseRange_inside, ?_, ?_⟩
  · intro storageKey fs fs' response h
    obtain ⟨key, metadata, content, requested, hkey, -, hobject, hlength, hparse, -, hstop, rfl,
      rfl⟩ := responseFromStorage_eq_ok.mp h
    refine ⟨rfl, key, content, hkey, hobject, ?_⟩
    rw [← hlength] at hparse hstop
    cases requested with
    | none =>
      refine Or.inl ⟨parseRange_none.mp hparse, rfl, fun chunks hchunks => ?_⟩
      rw [hchunks.flatten]
      change (content.drop 0).take (metadata.size - 0) = content
      rw [List.drop_zero, List.take_of_length_le (by omega)]
    | some range =>
      refine Or.inr ⟨range, hparse, rfl, ?_, rfl, ?_, fun chunks hchunks => hchunks.flatten⟩
      · rw [hlength]
        rfl
      · exact ByteRange.length_slice hstop
  · intro storageKey key fs metadata range hkey hhead hparse
    obtain ⟨hmetadata, ⟨content, hobject, hlength⟩, -⟩ := head_eq_ok.mp hhead
    obtain ⟨hstart, hstop, -⟩ := parseRange_inside hparse
    exact ⟨_, responseFromStorage_eq_ok.mpr ⟨key, metadata, content, some range, hkey, hmetadata,
      hobject, hlength, hparse, hstart, hstop, rfl, rfl⟩⟩

/-- The second to the fourth byte. -/
def oneToThree : HeaderValue := .visible "bytes=1-3".toList

/-- The header selects three bytes of an object of five. -/
theorem lawful_oneToThree : parseRange (some oneToThree) 5 = .ok (some ⟨1, 4⟩) := by
  have hwrites : RangeSpec.Writes Digits "bytes=1-3".toList (.between 1 3) :=
    ⟨['1'], ['3'], rfl, ⟨by decide, rfl⟩, ⟨by decide, rfl⟩, by decide⟩
  have hsigned : ¬SignedHeader (some oneToThree) := by
    rintro ⟨text, hheader, hslip⟩
    cases hheader
    exact not_signedRange hwrites hslip
  have hoff : ∀ first, ¬OffByOneHeader (some oneToThree) 5 first := by
    rintro first ⟨text, hheader, hslip⟩
    cases hheader
    exact not_offByOne (writes_signed hwrites) 5 first hslip
  have hfits : (RangeSpec.between 1 3).Fits := by
    simp [RangeSpec.Fits, u64Max]
  exact ((download_range_law (some oneToThree)).1 hsigned 5 hoff ⟨1, 4⟩).mpr
    ⟨_, _, rfl, hwrites, hfits, rfl⟩

/-- An inverted pair yields an empty range, a plus sign is taken, and a last position that is the
largest 64-bit number is refused. -/
theorem odd_headers :
    parseRange (some (.visible "bytes=5-4".toList)) 10 = .ok (some ⟨5, 5⟩) ∧
      parseRange (some (.visible "bytes=+0-4".toList)) 10 = .ok (some ⟨0, 5⟩) ∧
      parseRange (some (.visible "bytes=0-18446744073709551615".toList)) 10 =
        .error .invalidRequest :=
  ⟨rfl, rfl, rfl⟩

end Downloads

end BlobYard
