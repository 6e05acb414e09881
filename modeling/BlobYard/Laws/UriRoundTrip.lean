/-
Object identifiers and their written form.

The written form of an identifier can be longer than the text it was read from: the reader takes
many characters as they are that the writer makes an escape of.  Reader and constructor have
the same bound on the length, the reader for its input and the constructor for the written
form, so an identifier that was read may have a written form that is refused.

* `fromStr_toString` — the written form of a safe path is read back, or it is too long;
* `display_length` — how long the written form is, from the text that was read;
* `uri_round_trip_law` — reading and writing are inverse up to that bound.
-/
import BlobYard.Core.Uri

namespace BlobYard

open Outcome String

namespace BlobyardUri

/-! ### The characters of the written form -/

theorem ascii_of_kept {byte : UInt8} (h : shouldEncode byte = false) : byte.toNat < 128 := by
  simp only [shouldEncode, Bool.or_eq_false_iff, decide_eq_false_iff_not] at h
  omega

theorem percent_encoded : shouldEncode percentSign = true := by decide

/-- A character that can separate parts of a URI. -/
def IsDelimiter (c : Char) : Prop := c = '/' ∨ c = '?' ∨ c = '#'

theorem slug_character {c : Char} {slug : Slug} (h : c ∈ slug.asStr.toList) :
    ¬ IsDelimiter c ∧ c.toNat < 128 := by
  have hallowed := slug.valid.2.2.2.2 c h
  constructor
  · rintro (rfl | rfl | rfl) <;> exact absurd hallowed (by decide)
  · rcases hallowed with halnum | rfl | rfl
    · simp only [isAsciiAlphanumeric, Bool.or_eq_true, Bool.and_eq_true, decide_eq_true_eq,
        Char.le_def, UInt32.le_iff_toNat_le] at halnum
      change c.val.toNat < 128
      have h9 : '9'.val.toNat = 57 := rfl
      have hz : 'z'.val.toNat = 122 := rfl
      have hZ : 'Z'.val.toNat = 90 := rfl
      omega
    · decide
    · decide

theorem digit_ascii {c : Char} (h : c.isDigit = true) : ¬ IsDelimiter c ∧ c.toNat < 128 := by
  constructor
  · rintro (rfl | rfl | rfl) <;> exact absurd h (by decide)
  · simp only [Char.isDigit, Bool.and_eq_true, decide_eq_true_eq, ge_iff_le,
      UInt32.le_iff_toNat_le] at h
    change c.val.toNat < 128
    have h9 : '9'.val.toNat = 57 := rfl
    omega

theorem slug_ne_nil (slug : Slug) : slug.asStr.toList ≠ [] := fun h =>
  slug.valid.1 (String.toList_eq_nil_iff.mp h)

/-! ### Decoded paths -/

theorem segments_cons (path : String) :
    segments path = (segments path).headD [] :: (segments path).tail := by
  obtain ⟨first, rest, hsplit⟩ := List.exists_cons_of_ne_nil (List.splitOn_ne_nil '/' path.toList)
  rw [segments, hsplit]
  rfl

theorem validateDecodedPath_eq_ok {path : String} {u : Unit} :
    validateDecodedPath path = .ok u ↔ path.utf8ByteSize ≤ maxPathBytes ∧
      ∀ segment ∈ segments path, ¬ UnsafeSegment segment := by
  simp [validateDecodedPath]

/-! ### The version -/

theorem version_digits (version : NonZeroU64) {c : Char}
    (h : c ∈ Nat.toDigits 10 version.value) : c.isDigit = true :=
  (isDecimal_toDigits version.value).2 c h

/-- The written version, without the question mark. -/
def queryOf : Option NonZeroU64 → Option (List Char)
  | none => none
  | some version => some (versionKey ++ Nat.toDigits 10 version.value)

theorem parseVersion_queryOf (version : Option NonZeroU64) :
    parseVersion (queryOf version) = .ok version := by
  cases version with
  | none => rfl
  | some version =>
    have hand : '&' ∉ Nat.toDigits 10 version.value := fun h =>
      absurd (version_digits version h) (by decide)
    have hparse : parseU64 (Nat.toDigits 10 version.value) = some version.value :=
      parseUnsigned_toDigits version.bounded
    have hprefix : stripPrefix? versionKey
        (versionKey ++ Nat.toDigits 10 version.value) =
          some (Nat.toDigits 10 version.value) := stripPrefix?_eq_some.mpr rfl
    have hvalue : (parseU64 (Nat.toDigits 10 version.value)).bind NonZeroU64.new = some version := by
      rw [hparse, Option.bind_some, NonZeroU64.new_value]
    rw [queryOf, parseVersion, hprefix]
    simp only [bind_eq_ok, ofOption_eq_ok, ensure_eq_ok, pure_eq_ok]
    exact ⟨Nat.toDigits 10 version.value, rfl, (), ⟨Nat.toDigits_ne_nil, hand⟩, version, hvalue,
      rfl⟩

theorem splitQuery_display {location : List Char} (h : '?' ∉ location)
    (version : Option NonZeroU64) :
    splitQuery (location ++ displayVersion version) = .ok (location, queryOf version) := by
  cases version with
  | none =>
    rw [displayVersion, List.append_nil, splitQuery, splitOnce_eq_none.mpr h]
    rfl
  | some version =>
    have hquery : '?' ∉ versionKey ++ Nat.toDigits 10 version.value := by
      rw [List.mem_append, not_or]
      exact ⟨by decide, fun h => absurd (version_digits version h) (by decide)⟩
    rw [displayVersion, splitQuery, splitOnce_append h]
    simp only [bind_eq_ok, ensure_eq_ok, pure_eq_ok]
    exact ⟨(), hquery, rfl⟩

theorem displayVersion_character {version : Option NonZeroU64} {c : Char}
    (h : c ∈ displayVersion version) : c ≠ '#' ∧ c.toNat < 128 := by
  cases version with
  | none => exact absurd h List.not_mem_nil
  | some version =>
    rw [displayVersion, List.mem_cons, List.mem_append] at h
    rcases h with rfl | h | h
    · exact ⟨by decide, by decide⟩
    · have hkey : ∀ c ∈ versionKey, c ≠ '#' ∧ c.toNat < 128 := by decide
      exact hkey c h
    · have hdigit := digit_ascii (version_digits version h)
      exact ⟨fun hc => hdigit.1 (Or.inr (Or.inr hc)), hdigit.2⟩

/-! ### The path -/

section Encoding

variable [PercentEncoding]

theorem encoded_character {c : Char} {segment : List Char}
    (h : c ∈ utf8PercentEncode shouldEncode segment) : ¬ IsDelimiter c ∧ c.toNat < 128 := by
  have hspelled := spelled_utf8PercentEncode shouldEncode (fun _ => ascii_of_kept) segment
  have hascii : ∀ byte, shouldEncode byte = false → byte.toNat < 128 := fun _ => ascii_of_kept
  refine ⟨?_, utf8PercentEncode_ascii hascii h⟩
  rintro (rfl | rfl | rfl)
  · exact hspelled.not_mem hascii (by decide) (by decide) (by decide) (by decide) h
  · exact hspelled.not_mem hascii (by decide) (by decide) (by decide) (by decide) h
  · exact hspelled.not_mem hascii (by decide) (by decide) (by decide) (by decide) h

/-- The written form of the path, without the slash in front. -/
def displayPath (path : String) : List Char :=
  joined '/' (utf8PercentEncode shouldEncode ((segments path).headD []))
    ((segments path).tail.map (utf8PercentEncode shouldEncode))

theorem flatMap_segments (path : String) :
    (segments path).flatMap (fun segment => '/' :: utf8PercentEncode shouldEncode segment) =
      '/' :: displayPath path := by
  rw [segments_cons path, List.flatMap_cons, displayPath, joined, List.cons_append,
    List.flatMap_map]

theorem splitOn_displayPath (path : String) :
    (displayPath path).splitOn '/' = (segments path).map (utf8PercentEncode shouldEncode) := by
  rw [displayPath, splitOn_joined, ← List.map_cons, ← segments_cons]
  intro part hpart
  rw [← List.map_cons, ← segments_cons] at hpart
  obtain ⟨segment, -, rfl⟩ := List.mem_map.mp hpart
  exact fun hslash => (encoded_character hslash).1 (Or.inl rfl)

theorem displayPath_character {path : String} {c : Char} (h : c ∈ displayPath path) :
    (c = '/' ∨ ¬ IsDelimiter c) ∧ c.toNat < 128 := by
  have hmem : c ∈ '/' :: displayPath path := List.mem_cons_of_mem _ h
  rw [← flatMap_segments] at hmem
  obtain ⟨segment, -, hc⟩ := List.mem_flatMap.mp hmem
  rcases List.mem_cons.mp hc with rfl | hc
  · exact ⟨Or.inl rfl, by decide⟩
  · exact ⟨Or.inr (encoded_character hc).1, (encoded_character hc).2⟩

theorem wellEscaped_joined (first : List Char) (rest : List (List Char)) :
    wellEscaped (utf8Bytes (joined '/' (utf8PercentEncode shouldEncode first)
      (rest.map (utf8PercentEncode shouldEncode)))) = true := by
  induction rest generalizing first with
  | nil =>
    rw [List.map_nil, joined, List.flatMap_nil, utf8Bytes_append,
      wellEscaped_utf8PercentEncode (fun _ => ascii_of_kept) percent_encoded]
    rfl
  | cons part rest ih =>
    rw [List.map_cons, joined_cons, utf8Bytes_append,
      wellEscaped_utf8PercentEncode (fun _ => ascii_of_kept) percent_encoded,
      utf8Bytes_ascii (by decide), wellEscaped_cons (by decide), ih]

/-- The written form of a segment is read back. -/
theorem decodeSegment_utf8PercentEncode {segment : List Char} (hsafe : ¬ UnsafeSegment segment)
    (hslash : '/' ∉ segment) :
    decodeSegment (utf8PercentEncode shouldEncode segment) = .ok segment := by
  have htext : utf8Text? (utf8Bytes segment) = some segment := utf8Text?_eq_some.mpr rfl
  rw [decodeSegment,
    percentDecodeStr_utf8PercentEncode (fun _ => ascii_of_kept) percent_encoded, htext]
  simp only [bind_eq_ok, ofOption_eq_ok, ensure_eq_ok, pure_eq_ok]
  exact ⟨segment, rfl, (), not_or.mpr ⟨hsafe, hslash⟩, rfl⟩

theorem decodePath_displayPath {path : String} (h : validateDecodedPath path = .ok ()) :
    decodePath (displayPath path) = .ok path := by
  have hsafe := (validateDecodedPath_eq_ok.mp h).2
  have hsegments : ((displayPath path).splitOn '/').mapM decodeSegment = .ok (segments path) := by
    rw [splitOn_displayPath]
    refine mapM_map_pure fun segment hsegment => ?_
    exact decodeSegment_utf8PercentEncode (hsafe segment hsegment)
      (PathOrder.not_mem_of_mem_splitOn hsegment)
  have hjoin : ['/'].intercalate (segments path) = path.toList := List.intercalate_splitOn ..
  have hescapes : validatePercentEncoding (displayPath path) = .ok () :=
    ensure_eq_ok.mpr (wellEscaped_joined _ _)
  simp only [decodePath, bind_eq_ok, pure_eq_ok]
  refine ⟨(), hescapes, segments path, hsegments, (), ?_, ?_⟩
  · rw [hjoin, String.ofList_toList]
    exact h
  · rw [hjoin, String.ofList_toList]

/-! ### Reading what was written -/

/-- The written form between the scheme and the version. -/
def location (uri : BlobyardUri) : List Char :=
  uri.workspace.asStr.toList ++ '/' :: (uri.project.asStr.toList ++
    '/' :: displayPath uri.logicalPath)

theorem display_eq (uri : BlobyardUri) :
    uri.display = scheme ++ (uri.location ++ displayVersion uri.version) := by
  rw [display, flatMap_segments, location]
  simp only [List.append_assoc, List.cons_append]

theorem location_character {uri : BlobyardUri} {c : Char} (h : c ∈ uri.location) :
    c ≠ '?' ∧ c ≠ '#' ∧ c.toNat < 128 := by
  have hpart : (c = '/' ∨ ¬ IsDelimiter c) ∧ c.toNat < 128 := by
    simp only [location, List.mem_append, List.mem_cons] at h
    rcases h with h | rfl | h | rfl | h
    · exact ⟨Or.inr (slug_character h).1, (slug_character h).2⟩
    · exact ⟨Or.inl rfl, by decide⟩
    · exact ⟨Or.inr (slug_character h).1, (slug_character h).2⟩
    · exact ⟨Or.inl rfl, by decide⟩
    · exact displayPath_character h
  refine ⟨?_, ?_, hpart.2⟩
  · rintro rfl
    rcases hpart.1 with h | h
    · exact absurd h (by decide)
    · exact h (Or.inr (Or.inl rfl))
  · rintro rfl
    rcases hpart.1 with h | h
    · exact absurd h (by decide)
    · exact h (Or.inr (Or.inr rfl))

theorem display_ascii {uri : BlobyardUri} {c : Char} (h : c ∈ uri.display) : c.toNat < 128 := by
  rw [display_eq, List.mem_append, List.mem_append] at h
  rcases h with h | h | h
  · have hscheme : ∀ c ∈ scheme, c.toNat < 128 := by decide
    exact hscheme c h
  · exact (location_character h).2.2
  · exact (displayVersion_character h).2

theorem utf8ByteSize_toString (uri : BlobyardUri) :
    uri.toString.utf8ByteSize = uri.display.length := by
  rw [toString, utf8ByteSize_eq, String.toList_ofList, utf8Len_eq_length fun c => display_ascii]

theorem displayPath_ne_nil {path : String} (h : validateDecodedPath path = .ok ()) :
    displayPath path ≠ [] := by
  intro hnil
  have hsegments := splitOn_displayPath path
  rw [hnil, List.splitOn_nil] at hsegments
  obtain ⟨segment, hsegment, hempty⟩ :=
    List.mem_map.mp (hsegments ▸ List.mem_singleton_self ([] : List Char))
  have hsafe := (validateDecodedPath_eq_ok.mp h).2 segment hsegment
  refine hsafe (Or.inl ?_)
  by_contra hne
  exact utf8PercentEncode_ne_nil (fun _ => ascii_of_kept) hne hempty

theorem splitLocation_location {uri : BlobyardUri}
    (h : validateDecodedPath uri.logicalPath = .ok ()) :
    splitLocation uri.location =
      .ok (uri.workspace.asStr.toList, uri.project.asStr.toList, displayPath uri.logicalPath) := by
  have hslug : ∀ slug : Slug, '/' ∉ slug.asStr.toList := fun slug hmem =>
    (slug_character hmem).1 (Or.inl rfl)
  simp only [splitLocation, location, splitOnce_append (hslug _), bind_eq_ok, ofOption_eq_ok,
    ensure_eq_ok, pure_eq_ok]
  exact ⟨(uri.workspace.asStr.toList, uri.project.asStr.toList ++ '/' :: displayPath uri.logicalPath),
    rfl, (uri.project.asStr.toList, displayPath uri.logicalPath), splitOnce_append (hslug _) _,
    (), ⟨slug_ne_nil _, slug_ne_nil _, displayPath_ne_nil h⟩, rfl⟩

/-- The written form of an identifier with a safe path is read back, or it is too long. -/
theorem fromStr_toString {uri : BlobyardUri} (h : validateDecodedPath uri.logicalPath = .ok ()) :
    fromStr uri.toString =
      if uri.display.length ≤ maxUriBytes then .ok uri else .error .tooLong := by
  split
  case isFalse hlong =>
    rw [fromStr, bind_eq_error]
    refine Or.inl (ensure_eq_error.mpr ⟨?_, rfl⟩)
    rwa [utf8ByteSize_toString]
  case isTrue hshort =>
    have hhash : '#' ∉ uri.location ++ displayVersion uri.version := by
      rw [List.mem_append, not_or]
      exact ⟨fun h => (location_character h).2.1 rfl, fun h => (displayVersion_character h).1 rfl⟩
    have hquery : splitQuery (uri.location ++ displayVersion uri.version) =
        .ok (uri.location, queryOf uri.version) :=
      splitQuery_display (fun h => (location_character h).1 rfl) uri.version
    have hbody : stripPrefix? scheme uri.display =
        some (uri.location ++ displayVersion uri.version) :=
      stripPrefix?_eq_some.mpr uri.display_eq
    simp only [fromStr, bind_eq_ok, ensure_eq_ok, ofOption_eq_ok, pure_eq_ok]
    refine ⟨(), ?_, _, ?_, (), hhash, _, hquery, _, splitLocation_location h, uri.workspace, ?_,
      uri.project, ?_, _, decodePath_displayPath h, _, parseVersion_queryOf _, rfl⟩
    · rwa [utf8ByteSize_toString]
    · rw [toString, String.toList_ofList, hbody]
    · rw [String.ofList_toList, Slug.new_asStr]
    · rw [String.ofList_toList, Slug.new_asStr]

/-! ### The length of the written form -/

/-- The size of a segment that was read, with every byte written as the writer does. -/
def segmentSize (segment : List Char) : ℕ :=
  ((percentDecodeStr segment).map (encodedSize shouldEncode)).sum

/-- The size of the whole text, with every byte of its path written as the writer does, and its
version in the shortest digits. -/
def canonicalSize (input : String) : Except BlobyardUriError ℕ := do
  let body ← ofOption .invalidScheme (stripPrefix? scheme input.toList)
  let (location, query) ← splitQuery body
  let (workspace, project, encodedPath) ← splitLocation location
  let version ← parseVersion query
  return scheme.length + workspace.length + (1 + project.length) +
    ((encodedPath.splitOn '/').map fun segment => 1 + segmentSize segment).sum +
    (displayVersion version).length

theorem segmentSize_eq {segment decoded : List Char} (h : decodeSegment segment = .ok decoded) :
    segmentSize segment = (utf8PercentEncode shouldEncode decoded).length ∧ '/' ∉ decoded := by
  simp only [decodeSegment, bind_eq_ok, ofOption_eq_ok, ensure_eq_ok, pure_eq_ok] at h
  obtain ⟨text, htext, _, hsafe, rfl⟩ := h
  rw [utf8Text?_eq_some] at htext
  rw [segmentSize, ← htext, length_utf8PercentEncode]
  exact ⟨rfl, fun hslash => hsafe (Or.inr hslash)⟩

/-- What reading the segments of a path one by one gives. -/
theorem mapM_decodeSegment {encoded decoded : List (List Char)}
    (h : encoded.mapM decodeSegment = .ok decoded) :
    encoded.map segmentSize = decoded.map (fun s => (utf8PercentEncode shouldEncode s).length) ∧
      ∀ segment ∈ decoded, '/' ∉ segment := by
  induction encoded generalizing decoded with
  | nil =>
    obtain rfl := Except.ok.inj h
    exact ⟨rfl, nofun⟩
  | cons segment encoded ih =>
    rw [List.mapM_cons] at h
    simp only [bind_eq_ok, pure_eq_ok] at h
    obtain ⟨first, hfirst, rest, hrest, rfl⟩ := h
    obtain ⟨hsize, hslash⟩ := segmentSize_eq hfirst
    obtain ⟨hsizes, hslashes⟩ := ih hrest
    exact ⟨by rw [List.map_cons, List.map_cons, hsize, hsizes],
      List.forall_mem_cons.mpr ⟨hslash, hslashes⟩⟩

theorem decodePath_segments {encodedPath : List Char} {path : String}
    (h : decodePath encodedPath = .ok path) :
    (encodedPath.splitOn '/').mapM decodeSegment = .ok (segments path) ∧
      validateDecodedPath path = .ok () := by
  simp only [decodePath, bind_eq_ok, pure_eq_ok] at h
  obtain ⟨_, -, decoded, hdecoded, _, hvalid, rfl⟩ := h
  refine ⟨?_, hvalid⟩
  have hslashes := (mapM_decodeSegment hdecoded).2
  have hne : decoded ≠ [] := by
    rintro rfl
    have hsizes := (mapM_decodeSegment hdecoded).1
    exact List.splitOn_ne_nil '/' encodedPath (List.map_eq_nil_iff.mp hsizes)
  obtain ⟨first, rest, rfl⟩ := List.exists_cons_of_ne_nil hne
  rw [hdecoded, segments, String.toList_ofList, intercalate_eq_joined, splitOn_joined hslashes]

/-- The written form of what was read has the size of the input, written as the writer does. -/
theorem canonicalSize_of_fromStr {input : String} {uri : BlobyardUri}
    (h : fromStr input = .ok uri) :
    canonicalSize input = .ok uri.display.length ∧
      validateDecodedPath uri.logicalPath = .ok () := by
  simp only [fromStr, bind_eq_ok, ensure_eq_ok, ofOption_eq_ok, pure_eq_ok] at h
  obtain ⟨_, -, body, hbody, _, -, ⟨location, query⟩, hquery, ⟨workspace, project, encodedPath⟩,
    hlocation, workspace', hworkspace, project', hproject, path, hpath, version, hversion, rfl⟩ := h
  obtain ⟨hsegments, hvalid⟩ := decodePath_segments hpath
  have hslug : ∀ {text : List Char} {slug : Slug}, Slug.new (String.ofList text) = some slug →
      slug.asStr.toList = text := by
    intro text slug hslug
    simp only [Slug.new, Option.dite_none_right_eq_some, Option.some.injEq] at hslug
    obtain ⟨-, rfl⟩ := hslug
    exact String.toList_ofList
  refine ⟨?_, hvalid⟩
  simp only [canonicalSize, bind_eq_ok, ofOption_eq_ok, pure_eq_ok]
  refine ⟨body, hbody, _, hquery, _, hlocation, version, hversion, ?_⟩
  have hsizes : ((encodedPath.splitOn '/').map fun segment => 1 + segmentSize segment) =
      (segments path).map fun segment => 1 + (utf8PercentEncode shouldEncode segment).length := by
    have h := congrArg (List.map (1 + ·)) (mapM_decodeSegment hsegments).1
    simpa [List.map_map, Function.comp_def] using h
  have hworkspaceSize : workspace'.asStr.toList.length = workspace.length :=
    congrArg List.length (hslug hworkspace)
  have hprojectSize : project'.asStr.toList.length = project.length :=
    congrArg List.length (hslug hproject)
  simp only [display, hsizes, List.length_append, List.length_cons, List.length_flatMap]
  simp only [Nat.add_comm 1]
  omega

/-! ### The law -/

/-- Reading and writing are inverse where the written form keeps the bound on the length: of the
identifiers that were read exactly those, and all that the constructor accepts. -/
theorem uri_round_trip_law (input : String) (workspace project : Slug) (logicalPath : String)
    (version : Option NonZeroU64) :
    (∀ uri, fromStr input = .ok uri →
      (fromStr uri.toString = .ok uri ↔
        ∃ size, canonicalSize input = .ok size ∧ size ≤ maxUriBytes)) ∧
      ∀ uri, new workspace project logicalPath version = .ok uri →
        uri = { workspace, project, logicalPath, version } ∧ fromStr uri.toString = .ok uri := by
  constructor
  · intro uri huri
    obtain ⟨hsize, hvalid⟩ := canonicalSize_of_fromStr huri
    rw [fromStr_toString hvalid, hsize]
    simp only [Except.ok.injEq, exists_eq_left']
    split
    case isTrue hshort => exact iff_of_true rfl hshort
    case isFalse hlong => exact iff_of_false nofun hlong
  · intro uri huri
    simp only [new, bind_eq_ok, ensure_eq_ok, pure_eq_ok] at huri
    obtain ⟨_, hvalid, _, hsize, rfl⟩ := huri
    rw [utf8ByteSize_toString] at hsize
    exact ⟨rfl, by rw [fromStr_toString hvalid, if_pos hsize]⟩

end Encoding

/-! ### A path of exclamation marks -/

attribute [local instance] percentEscapes

/-- The input whose path is `count` exclamation marks. -/
def exclamations (count : ℕ) : String :=
  String.ofList (scheme ++ ("studio/default/".toList ++ List.replicate count '!'))

theorem utf8Bytes_exclamations (count : ℕ) :
    utf8Bytes (List.replicate count '!') = List.replicate count 33 := by
  induction count with
  | zero => rfl
  | succ count ih => rw [List.replicate_succ, utf8Bytes_ascii (by decide), ih]; rfl

theorem percentDecodeStr_exclamations (count : ℕ) :
    percentDecodeStr (List.replicate count '!') = List.replicate count 33 ∧
      wellEscaped (List.replicate count 33) = true := by
  show percentDecode (utf8Bytes _) = _ ∧ _
  rw [utf8Bytes_exclamations]
  induction count with
  | zero => exact ⟨rfl, rfl⟩
  | succ count ih =>
    rw [List.replicate_succ, percentDecode_cons (by decide), wellEscaped_cons (by decide)]
    exact ⟨by rw [ih.1], ih.2⟩

theorem exclamation_of_mem {count : ℕ} {c : Char} (h : c ∈ List.replicate count '!') : c = '!' :=
  (List.mem_replicate.mp h).2

/-- The input is read as the path of exclamation marks. -/
theorem fromStr_exclamations {count : ℕ} (hpos : 0 < count) (hmax : count ≤ maxPathBytes) :
    ∃ workspace project, fromStr (exclamations count) =
      .ok ⟨workspace, project, String.ofList (List.replicate count '!'), none⟩ := by
  have hno : ∀ c, c ≠ '!' → c ∉ List.replicate count '!' := fun c hc hmem =>
    hc (exclamation_of_mem hmem)
  have hne : List.replicate count '!' ≠ [] := by
    intro hnil
    have := congrArg List.length hnil
    simp only [List.length_replicate, List.length_nil] at this
    omega
  have hsplit : (List.replicate count '!').splitOn '/' = [List.replicate count '!'] :=
    List.splitOn_eq_singleton (hno '/' (by decide))
  have hsafe : ¬ UnsafeSegment (List.replicate count '!') := by
    rintro (h | h | h | h | ⟨c, hc, hcontrol⟩)
    · exact hne h
    · exact hno '.' (by decide) (h ▸ List.mem_cons_self)
    · exact hno '.' (by decide) (h ▸ List.mem_cons_self)
    · exact hno '\\' (by decide) h
    · rw [exclamation_of_mem hc] at hcontrol
      exact absurd hcontrol (by decide)
  have hsegment : decodeSegment (List.replicate count '!') = .ok (List.replicate count '!') := by
    simp only [decodeSegment, bind_eq_ok, ofOption_eq_ok, ensure_eq_ok, pure_eq_ok,
      utf8Text?_eq_some, (percentDecodeStr_exclamations count).1]
    exact ⟨_, utf8Bytes_exclamations count, (), not_or.mpr ⟨hsafe, hno '/' (by decide)⟩, rfl⟩
  have hbytes : (String.ofList (List.replicate count '!')).utf8ByteSize = count := by
    rw [utf8ByteSize_eq, String.toList_ofList, utf8Len_eq_length, List.length_replicate]
    intro c hc
    rw [exclamation_of_mem hc]
    decide
  have hvalid : validateDecodedPath (String.ofList (List.replicate count '!')) = .ok () := by
    rw [validateDecodedPath_eq_ok, hbytes, segments, String.toList_ofList, hsplit]
    exact ⟨hmax, fun segment hsegment => List.mem_singleton.mp hsegment ▸ hsafe⟩
  have hpath : decodePath (List.replicate count '!') =
      .ok (String.ofList (List.replicate count '!')) := by
    simp only [decodePath, bind_eq_ok, pure_eq_ok]
    refine ⟨(), ensure_eq_ok.mpr ?_, [List.replicate count '!'], ?_, (), ?_, ?_⟩
    · rw [utf8Bytes_exclamations]
      exact (percentDecodeStr_exclamations count).2
    · rw [hsplit, List.mapM_cons, hsegment]
      rfl
    · simpa using hvalid
    · simp
  have hbody : ∀ c, c ∉ "studio/default/".toList → c ≠ '!' →
      c ∉ "studio/default/".toList ++ List.replicate count '!' := fun c hc hmark =>
    List.not_mem_append hc (hno c hmark)
  have hquery : splitQuery ("studio/default/".toList ++ List.replicate count '!') =
      .ok ("studio/default/".toList ++ List.replicate count '!', none) := by
    rw [splitQuery, splitOnce_eq_none.mpr (hbody '?' (by decide) (by decide))]
    rfl
  have hlocation : splitLocation ("studio/default/".toList ++ List.replicate count '!') =
      .ok ("studio".toList, "default".toList, List.replicate count '!') := by
    have hworkspace : '/' ∉ "studio".toList := by decide
    have hproject : '/' ∉ "default".toList := by decide
    have hnames : "studio".toList ≠ [] ∧ "default".toList ≠ [] := by decide
    simp only [splitLocation, bind_eq_ok, ofOption_eq_ok, ensure_eq_ok, pure_eq_ok]
    exact ⟨("studio".toList, "default".toList ++ '/' :: List.replicate count '!'),
      splitOnce_append hworkspace _, ("default".toList, List.replicate count '!'),
      splitOnce_append hproject _, (), ⟨hnames.1, hnames.2, hne⟩, rfl⟩
  have hsize : (exclamations count).utf8ByteSize ≤ maxUriBytes := by
    rw [utf8ByteSize_eq, String.toList_ofList] at hbytes
    rw [utf8ByteSize_eq, exclamations, String.toList_ofList, utf8Len_append, utf8Len_append, hbytes]
    have hfixed : utf8Len scheme + utf8Len "studio/default/".toList = 26 := by decide
    rw [maxUriBytes]
    rw [maxPathBytes] at hmax
    omega
  have hworkspace : ValidSlug "studio" := by decide
  have hproject : ValidSlug "default" := by decide
  refine ⟨⟨"studio", hworkspace⟩, ⟨"default", hproject⟩, ?_⟩
  simp only [fromStr, bind_eq_ok, ensure_eq_ok, ofOption_eq_ok, pure_eq_ok]
  refine ⟨(), hsize, _, ?_, (), hbody '#' (by decide) (by decide), _, hquery, _, hlocation,
    _, dif_pos hworkspace, _, dif_pos hproject, _, hpath, none, rfl, rfl⟩
  rw [exclamations, String.toList_ofList]
  exact stripPrefix?_eq_some.mpr rfl

/-- A path of 1366 exclamation marks is read, but its written form is not. -/
theorem exclamations_lost :
    ¬ ∀ input uri, fromStr input = .ok uri → fromStr uri.toString = .ok uri := by
  intro hinverse
  obtain ⟨workspace, project, hread⟩ :=
    @fromStr_exclamations 1366 (by decide) (by decide)
  have hback := hinverse _ _ hread
  have hvalid := (canonicalSize_of_fromStr hread).2
  rw [fromStr_toString hvalid] at hback
  split at hback
  case isFalse hlong => cases hback
  case isTrue hshort =>
    have hsplit : segments (String.ofList (List.replicate 1366 '!')) =
        [List.replicate 1366 '!'] := by
      rw [segments, String.toList_ofList]
      exact List.splitOn_eq_singleton fun h => absurd (exclamation_of_mem h) (by decide)
    have hmark : encodedSize shouldEncode 33 = 3 := by decide
    have hscheme : scheme.length = 11 := by decide
    simp only [display, hsplit, List.flatMap_singleton, List.length_append, List.length_cons,
      length_utf8PercentEncode, utf8Bytes_exclamations, List.map_replicate, List.sum_replicate_nat,
      hmark, hscheme, maxUriBytes] at hshort
    omega

end BlobyardUri

end BlobYard
