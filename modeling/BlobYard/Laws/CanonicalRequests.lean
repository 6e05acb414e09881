/-
The canonical requests of S3.

S3 computes the signed text again from the request it receives: it reads the path and the query,
escapes every byte but the unreserved ones and sorts what is to be sorted.  The client does this for
the query and the headers, but takes the path as the url crate writes it, where more bytes stand for
themselves.

* `Wire.canonicalRequest` — what S3 computes from a request;
* `path_eq_objectUri_iff` — when the path is the one S3 expects;
* `normalizeHeader_eq` — the words of a header are its text with the blanks collapsed;
* `canonicalRequest_law` — the texts agree when every byte of the key is escaped like in a query;
* `plusKey_differs` — a plus sign is not.
-/
import BlobYard.Storage.S3Requests

namespace BlobYard

namespace S3

open Outcome

/-! ### What S3 computes -/

namespace Wire

/-- The bytes that are escaped in a path; the slash is not. -/
def pathEscaped (byte : UInt8) : Bool := !unreserved byte && byte != 47

def canonicalUri (path : List Char) : List Char :=
  (percentDecode (utf8Bytes path)).flatMap (encodeByte pathEscaped)

/-- A name or a value of a query, read and written again. -/
def recode (text : List Char) : List Char :=
  (percentDecode (utf8Bytes text)).flatMap (encodeByte fun byte => !unreserved byte)

/-- A parameter of a query; without an equals sign it has no value. -/
def parameter (text : List Char) : List Char × List Char :=
  ((splitOnce '=' text).getD (text, [])).map recode recode

def canonicalQuery (query : List Char) : List Char :=
  if query = [] then []
  else queryText (orderBy toLex ((query.splitOn '&').map parameter))

def blank (c : Char) : Bool := c == ' ' || c.toNat == 9

/-- The text with one space for blanks behind each other and none at the end. -/
def squeeze : List Char → List Char
  | [] => []
  | c :: rest =>
    if blank c then
      if squeeze rest = [] ∨ (squeeze rest).head? = some ' ' then squeeze rest
      else ' ' :: squeeze rest
    else c :: squeeze rest

/-- The text without blanks at its ends and with single spaces within. -/
def collapse (text : List Char) : List Char := (squeeze text).dropWhile (· == ' ')

/-- The line of one signed header. -/
def headerLine (headers : List (HeaderName × Bytes)) (name : List Char) : List Char :=
  name ++ ':' :: [','].intercalate ((headers.filter fun header =>
    header.1.text.map toAsciiLowercase = name).map fun header =>
      collapse (header.2.map fun byte => Char.ofNat byte.toNat)) ++ ['\n']

/-- The text that S3 computes from the request on the wire and the signed names. -/
def canonicalRequest {H : Type} [HeaderMap H] (sent : SignedRequest H) : List Char :=
  ['\n'].intercalate
    [sent.method, canonicalUri sent.url.path, canonicalQuery (sent.url.query.getD []),
      (sent.signedHeaders.splitOn ';').flatMap (headerLine (HeaderMap.iter sent.headers)),
      sent.signedHeaders, sent.payloadHash]

end Wire

/-! ### The headers -/

theorem lowercase_token {c : Char} (h : tokenCharacter c = true) : toAsciiLowercase c = c := by
  rw [toAsciiLowercase, if_neg]
  intro hupper
  simp only [tokenCharacter, Bool.or_eq_true, Bool.and_eq_true, decide_eq_true_eq, beq_iff_eq] at h
  omega

theorem HeaderName.lowercase (name : HeaderName) : name.text.map toAsciiLowercase = name.text := by
  rw [List.map_congr_left fun c hc => lowercase_token (name.valid c hc), List.map_id']

/-- Every word begins with a character that is no blank. -/
theorem word_head (text : List Char) : ∀ word ∈ splitAsciiWhitespace text,
    ∃ c rest, word = c :: rest ∧ isAsciiWhitespace c = false := by
  induction text with
  | nil => exact fun _ hword => absurd hword List.not_mem_nil
  | cons c rest ih =>
    intro word hword
    rw [splitAsciiWhitespace] at hword
    -- a blank is skipped
    split at hword
    case isTrue => exact ih word hword
    case isFalse hc =>
      have hc : isAsciiWhitespace c = false := Bool.eq_false_iff.mpr hc
      -- the character stands in front of a word, or is one
      split at hword
      case isTrue =>
        cases hwords : splitAsciiWhitespace rest with
        | nil =>
          rw [hwords] at hword
          exact absurd hword List.not_mem_nil
        | cons first others =>
          rw [hwords, List.modifyHead_cons] at hword
          rcases List.mem_cons.mp hword with rfl | hword
          · exact ⟨c, first, rfl, hc⟩
          · exact ih word (hwords ▸ List.mem_cons_of_mem first hword)
      case isFalse =>
        rcases List.mem_cons.mp hword with rfl | hword
        · exact ⟨c, [], rfl, hc⟩
        · exact ih word hword

/-- So a text of words begins with none either. -/
theorem head_words {text : List Char} (h : splitAsciiWhitespace text ≠ []) :
    ∃ c rest, [' '].intercalate (splitAsciiWhitespace text) = c :: rest ∧ c ≠ ' ' := by
  obtain ⟨first, others, hwords⟩ := List.exists_cons_of_ne_nil h
  obtain ⟨c, rest, rfl, hc⟩ := word_head text first (hwords ▸ List.mem_cons_self)
  refine ⟨c, _, by rw [hwords, intercalate_eq_joined, joined, List.cons_append], ?_⟩
  rintro rfl
  exact absurd hc (by decide)

/-- A text that begins with a character that is no blank has words. -/
theorem words_ne_nil {text : List Char} (h : text.head?.any (!isAsciiWhitespace ·) = true) :
    splitAsciiWhitespace text ≠ [] := by
  cases text with
  | nil => exact absurd h (by decide)
  | cons c rest =>
    have hc : isAsciiWhitespace c = false := by simpa using h
    rw [splitAsciiWhitespace, hc, if_neg Bool.false_ne_true]
    split
    case isTrue hrest =>
      have hwords : splitAsciiWhitespace rest ≠ [] := words_ne_nil hrest
      obtain ⟨first, others, hfirst⟩ := List.exists_cons_of_ne_nil hwords
      rw [hfirst]
      exact List.cons_ne_nil _ _
    case isFalse => exact List.cons_ne_nil _ _

/-- Words with spaces between them, behind a space if the text begins with a blank. -/
theorem squeeze_eq {text : List Char} (h : ∀ c ∈ text, isAsciiWhitespace c = Wire.blank c) :
    Wire.squeeze text =
      (if text.head?.any Wire.blank = true ∧ splitAsciiWhitespace text ≠ [] then [' '] else []) ++
        [' '].intercalate (splitAsciiWhitespace text) := by
  induction text with
  | nil => rfl
  | cons c rest ih =>
    have ih := ih fun d hd => h d (List.mem_cons_of_mem c hd)
    have hc := h c List.mem_cons_self
    rw [Wire.squeeze, splitAsciiWhitespace, hc]
    cases hblank : Wire.blank c with
    | true =>
      -- a blank becomes a space if a word follows, and is dropped with the other blanks otherwise
      simp only [if_true, List.head?_cons, Option.any_some, hblank, true_and]
      by_cases hwords : splitAsciiWhitespace rest = []
      · rw [hwords] at ih
        have hnil : Wire.squeeze rest = [] := by simpa using ih
        simp [hnil, hwords]
      · obtain ⟨d, tail, hjoin, hd⟩ := head_words hwords
        by_cases hhead : rest.head?.any Wire.blank = true
        · rw [if_pos ⟨hhead, hwords⟩] at ih
          rw [if_pos hwords, if_pos (Or.inr (by rw [ih]; rfl)), ih]
        · rw [if_neg (not_and_of_not_left _ hhead), List.nil_append, hjoin] at ih
          rw [if_pos hwords, if_neg (by rw [ih]; simpa using hd), ih, hjoin]
          rfl
    | false =>
      -- a character that is no blank begins without a space
      have hnone : ¬((c :: rest).head?.any Wire.blank = true ∧
          (if rest.head?.any (!isAsciiWhitespace ·) then
            (splitAsciiWhitespace rest).modifyHead (c :: ·)
          else [c] :: splitAsciiWhitespace rest) ≠ []) := by
        rw [List.head?_cons, Option.any_some, hblank]
        exact fun hboth => absurd hboth.1 nofun
      simp only [if_neg Bool.false_ne_true]
      rw [if_neg hnone, List.nil_append, ih]
      by_cases hword : rest.head?.any (!isAsciiWhitespace ·) = true
      -- the character stands in front of the first word
      · obtain ⟨first, others, hwords⟩ := List.exists_cons_of_ne_nil (words_ne_nil hword)
        have hhead : ¬rest.head?.any Wire.blank = true := by
          cases rest with
          | nil => exact Bool.false_ne_true
          | cons d tail =>
            have hd := h d (by simp)
            simpa [← hd] using hword
        rw [if_pos hword, if_neg (not_and_of_not_left _ hhead), hwords, List.modifyHead_cons,
          intercalate_eq_joined, intercalate_eq_joined]
        rfl
      -- the character is a word
      · rw [if_neg hword]
        by_cases hwords : splitAsciiWhitespace rest = []
        · simp [hwords]
        · have hhead : rest.head?.any Wire.blank = true := by
            cases rest with
            | nil => exact absurd rfl hwords
            | cons d tail =>
              have hd := h d (by simp)
              simpa [← hd] using hword
          obtain ⟨first, others, hfirst⟩ := List.exists_cons_of_ne_nil hwords
          rw [if_pos ⟨hhead, hwords⟩, hfirst, List.intercalate_cons_cons]
          rfl

/-- The words of a header with spaces between them are its text with the blanks collapsed. -/
theorem normalizeHeader_eq {text : List Char} (h : ∀ c ∈ text, isAsciiWhitespace c = Wire.blank c) :
    normalizeHeader text = Wire.collapse text := by
  rw [normalizeHeader, Wire.collapse, squeeze_eq h]
  by_cases hwords : splitAsciiWhitespace text = []
  · simp [hwords]
  · obtain ⟨c, rest, hjoin, hc⟩ := head_words hwords
    have hkeep : (c :: rest).dropWhile (· == ' ') = c :: rest := by
      rw [List.dropWhile_cons_of_neg (by simpa using hc)]
    rw [hjoin]
    split
    · rw [List.cons_append, List.nil_append, List.dropWhile_cons_of_pos (by decide), hkeep]
    · rw [List.nil_append, hkeep]

/-- The blanks of a value that has a text are spaces and tabs. -/
theorem visible_blank {byte : UInt8} (h : visible byte = true) :
    isAsciiWhitespace (Char.ofNat byte.toNat) = Wire.blank (Char.ofNat byte.toNat) := by
  have hall : ∀ code < 128, (32 ≤ code ∨ code = 9) →
      isAsciiWhitespace (Char.ofNat code) = Wire.blank (Char.ofNat code) := by decide
  simp only [visible, Bool.or_eq_true, Bool.and_eq_true, decide_eq_true_eq, beq_iff_eq] at h
  exact hall byte.toNat (by omega) (by omega)

theorem normalizeHeader_visible {value : Bytes} (h : ∀ byte ∈ value, visible byte = true) :
    normalizeHeader (value.map fun byte => Char.ofNat byte.toNat) =
      Wire.collapse (value.map fun byte => Char.ofNat byte.toNat) := by
  refine normalizeHeader_eq fun c hc => ?_
  obtain ⟨byte, hbyte, rfl⟩ := List.mem_map.mp hc
  exact visible_blank (h byte hbyte)

/-- A line of the block is the line of the header with the name. -/
theorem headerLine_eq {headers : List (HeaderName × Bytes)}
    {map : List (List Char × List (List Char))}
    (hmap : Collects map (headers.map headerPair))
    (hvisible : ∀ header ∈ headers, ∀ byte ∈ header.2, visible byte = true)
    {entry : List Char × List (List Char)} (hentry : entry ∈ map) :
    headerLine entry = Wire.headerLine headers entry.1 := by
  have hvalues : entry.2 = (headers.filter fun header =>
      header.1.text.map toAsciiLowercase = entry.1).map fun header =>
        Wire.collapse (header.2.map fun byte => Char.ofNat byte.toNat) := by
    rw [hmap.values entry hentry, List.filter_map, List.map_map]
    -- the order of the names compares them in its own way
    refine (congrArg _ (List.filter_congr fun header _ =>
      decide_eq_decide.mpr Iff.rfl)).trans (List.map_congr_left fun header hheader => ?_)
    exact normalizeHeader_visible (hvisible header (List.mem_filter.mp hheader).1)
  rw [headerLine, Wire.headerLine, hvalues]

/-- The block is the one that S3 makes of the headers and the signed names. -/
theorem headerBlock_eq {headers : List (HeaderName × Bytes)}
    {map : List (List Char × List (List Char))}
    (hne : headers ≠ []) (hmap : Collects map (headers.map headerPair))
    (hvisible : ∀ header ∈ headers, ∀ byte ∈ header.2, visible byte = true) :
    map.flatMap headerLine =
      (([';'].intercalate (map.map Prod.fst)).splitOn ';').flatMap (Wire.headerLine headers) := by
  have hnames : ∀ name ∈ map.map Prod.fst, ';' ∉ name := by
    intro name hname hmem
    obtain ⟨pair, hpair, rfl⟩ := List.mem_map.mp ((hmap.keys name).mp hname)
    obtain ⟨header, -, rfl⟩ := List.mem_map.mp hpair
    rw [headerPair, HeaderName.lowercase] at hmem
    exact absurd (header.1.valid ';' hmem) (by decide)
  obtain ⟨header, hheader⟩ := List.exists_mem_of_ne_nil headers hne
  have hkey := (hmap.keys _).mpr (List.mem_map_of_mem (List.mem_map_of_mem hheader))
  obtain ⟨first, rest, hsplit⟩ := List.exists_cons_of_ne_nil (List.ne_nil_of_mem hkey)
  rw [hsplit] at hnames
  rw [hsplit, intercalate_eq_joined, splitOn_joined hnames, ← hsplit, List.flatMap_map]
  exact List.flatMap_congr fun entry hentry => headerLine_eq hmap hvisible hentry

theorem insert_ne_nil {H : Type} [HeaderMap H] (headers : H) (header : HeaderName × Bytes) :
    HeaderMap.iter (HeaderMap.insert headers header) ≠ [] := by
  intro hnil
  have hvalues := HeaderMap.iter_insert headers header header.1
  rw [hnil, if_pos rfl] at hvalues
  exact absurd hvalues.symm (List.cons_ne_nil _ _)

/-- The headers have a host at least. -/
theorem headers_ne_nil {H : Type} [HeaderValue] [HeaderMap H] {url : RequestUrl}
    {payloadHash timestamp : List Char} {sessionToken : Option (List Char)}
    {initial : List (HeaderName × Bytes)} {headers : H}
    (h : initialHeaders url payloadHash timestamp sessionToken = .ok initial) :
    HeaderMap.iter (initial.foldl HeaderMap.insert headers) ≠ [] := by
  simp only [initialHeaders, bind_eq_ok] at h
  obtain ⟨host, -, h⟩ := h
  have hlength := (mapM_forall₂ h).length_eq
  rcases List.eq_nil_or_concat' initial with rfl | ⟨first, last, rfl⟩
  · rw [List.length_append] at hlength
    exact absurd hlength (by simp)
  · rw [List.foldl_append]
    exact insert_ne_nil _ _

/-! ### The query -/

theorem unreserved_ascii {byte : UInt8} (h : unreserved byte = true) : byte.toNat < 128 := by
  have hall : ∀ code < 256, unreserved (UInt8.ofNat code) = true → code < 128 := by
    decide +kernel
  have hbyte := hall byte.toNat byte.toNat_lt
  rw [UInt8.ofNat_toNat] at hbyte
  exact hbyte h

/-- Encoded names and values have unreserved characters and percent signs only. -/
theorem mem_awsEncode {text : List Char} {c : Char} (h : c ∈ awsEncode text) :
    c.toNat < 128 ∧
      (unreserved (UInt8.ofNat c.toNat) = true ∨ UInt8.ofNat c.toNat = percentSign) := by
  have hdigit : ∀ value < 16, (upperHexDigit value).toNat < 128 ∧
      unreserved (UInt8.ofNat (upperHexDigit value).toNat) = true := by decide
  have hraw : ∀ byte, (!unreserved byte) = false → byte.toNat < 128 :=
    fun byte hbyte => unreserved_ascii (by simpa using hbyte)
  rcases mem_percentEncode hraw h with rfl | ⟨value, hvalue, rfl⟩ | ⟨hascii, hc⟩
  · exact ⟨by decide, Or.inr rfl⟩
  · exact ⟨(hdigit value hvalue).1, Or.inl (hdigit value hvalue).2⟩
  · exact ⟨hascii, Or.inl (by simpa using hc)⟩

theorem recode_awsEncode (text : List Char) : Wire.recode (awsEncode text) = awsEncode text := by
  rw [Wire.recode, awsEncode, percentDecode_percentEncode]
  · rfl
  · intro byte hbyte
    exact unreserved_ascii (by simpa using hbyte)
  · decide

theorem notMem_awsEncode {c : Char} (hc : unreserved (UInt8.ofNat c.toNat) = false)
    (hsign : UInt8.ofNat c.toNat ≠ percentSign) (text : List Char) : c ∉ awsEncode text := by
  intro hmem
  rcases (mem_awsEncode hmem).2 with h | h
  · rw [hc] at h
    exact absurd h nofun
  · exact hsign h

/-- The pairs of a query, as they are written. -/
theorem mem_sortedPairs {query : List (List Char × List Char)} {pair : List Char × List Char}
    (h : pair ∈ sortedPairs query) :
    ∃ name value, pair = (awsEncode name, awsEncode value) := by
  obtain ⟨⟨name, value⟩, -, rfl⟩ := List.mem_map.mp (mem_orderBy.mp h)
  exact ⟨name, value, rfl⟩

/-- The url crate leaves the query as the client writes it. -/
theorem writeQuery_queryText [UrlWriter] (query : List (List Char × List Char)) :
    UrlWriter.writeQuery (queryText (sortedPairs query)) = queryText (sortedPairs query) := by
  refine UrlWriter.writeQuery_raw _ fun c hc => ?_
  rcases mem_intercalate hc with rfl | ⟨part, hpart, hc⟩
  · exact ⟨by decide, Or.inr (Or.inr (Or.inl rfl))⟩
  · obtain ⟨pair, hpair, rfl⟩ := List.mem_map.mp hpart
    obtain ⟨name, value, rfl⟩ := mem_sortedPairs hpair
    rcases List.mem_append.mp hc with hc | hc
    · exact ⟨(mem_awsEncode hc).1, (mem_awsEncode hc).2.imp_right Or.inl⟩
    · rcases List.mem_cons.mp hc with rfl | hc
      · exact ⟨by decide, Or.inr (Or.inr (Or.inr rfl))⟩
      · exact ⟨(mem_awsEncode hc).1, (mem_awsEncode hc).2.imp_right Or.inl⟩

theorem parameter_pair (name value : List Char) :
    Wire.parameter (awsEncode name ++ '=' :: awsEncode value) =
      (awsEncode name, awsEncode value) := by
  have hequals : '=' ∉ awsEncode name := notMem_awsEncode (by decide) (by decide) name
  rw [Wire.parameter, splitOnce_append hequals, Option.getD_some, Prod.map_apply, recode_awsEncode,
    recode_awsEncode]

/-- S3 reads the pairs of the query and writes the same text. -/
theorem canonicalQuery_queryText {query : List (List Char × List Char)} (hne : query ≠ []) :
    Wire.canonicalQuery (queryText (sortedPairs query)) = queryText (sortedPairs query) := by
  -- sorting and encoding loses no pair
  have hpairs : sortedPairs query ≠ [] := by
    intro hnil
    have hlength := (orderBy_perm toLex (query.map fun pair =>
      (awsEncode pair.1, awsEncode pair.2))).length_eq
    rw [show orderBy toLex _ = sortedPairs query from rfl, hnil, List.length_nil, List.length_map]
      at hlength
    exact hne (List.length_eq_zero_iff.mp hlength.symm)
  -- the encoding escapes the separators, so every part is one pair
  have hparts : ∀ part ∈ (sortedPairs query).map fun pair => pair.1 ++ '=' :: pair.2,
      '&' ∉ part := by
    intro part hpart
    obtain ⟨pair, hpair, rfl⟩ := List.mem_map.mp hpart
    obtain ⟨name, value, rfl⟩ := mem_sortedPairs hpair
    rw [List.mem_append, List.mem_cons, not_or, not_or]
    exact ⟨notMem_awsEncode (by decide) (by decide) name, by decide,
      notMem_awsEncode (by decide) (by decide) value⟩
  have hsplit : (queryText (sortedPairs query)).splitOn '&' =
      (sortedPairs query).map fun pair => pair.1 ++ '=' :: pair.2 := by
    rw [queryText]
    obtain ⟨first, rest, hcons⟩ := List.exists_cons_of_ne_nil
      (fun hnil => hpairs (List.map_eq_nil_iff.mp hnil) :
        (sortedPairs query).map (fun pair => pair.1 ++ '=' :: pair.2) ≠ [])
    rw [hcons] at hparts ⊢
    rw [intercalate_eq_joined, splitOn_joined hparts]
  -- each part is read as the pair it was written from
  have hread : ((sortedPairs query).map fun pair => pair.1 ++ '=' :: pair.2).map Wire.parameter =
      sortedPairs query := by
    rw [List.map_map]
    refine (List.map_congr_left fun pair hpair => ?_).trans (List.map_id _)
    obtain ⟨name, value, rfl⟩ := mem_sortedPairs hpair
    exact parameter_pair name value
  -- and the pairs are sorted already
  have hsorted : orderBy toLex (sortedPairs query) = sortedPairs query :=
    (orderBy_pairwise toLex _).insertionSort_eq
  -- a query with a pair is not empty
  have htext : queryText (sortedPairs query) ≠ [] := by
    intro hnil
    obtain ⟨pair, hpair⟩ := List.exists_mem_of_ne_nil _ hpairs
    have hpart : pair.1 ++ '=' :: pair.2 ∈ ([] : List Char).splitOn '&' := by
      rw [← hnil, hsplit]
      exact List.mem_map_of_mem hpair
    rw [List.splitOn_nil, List.mem_singleton] at hpart
    exact absurd (List.append_eq_nil_iff.mp hpart).2 (List.cons_ne_nil _ _)
  rw [Wire.canonicalQuery, if_neg htext, hsplit, hread, hsorted]

/-- The query that is sent. -/
theorem setQuery_text [UrlWriter] (url : RequestUrl) (query : List (List Char × List Char)) :
    (setQuery url query).query.getD [] = queryText (sortedPairs query) := by
  rw [setQuery]
  split
  case isTrue h =>
    rw [h]
    rfl
  case isFalse => exact writeQuery_queryText query

theorem setQuery_path [UrlWriter] (url : RequestUrl) (query : List (List Char × List Char)) :
    (setQuery url query).path = url.path := by
  rw [setQuery]
  split <;> rfl

theorem canonicalQuery_sorted (query : List (List Char × List Char)) :
    Wire.canonicalQuery (queryText (sortedPairs query)) = queryText (sortedPairs query) := by
  by_cases hne : query = []
  · rw [hne]
    rfl
  · exact canonicalQuery_queryText hne

/-! ### The path -/

/-- The path of the bucket, in path style, and the key. -/
def objectText (client : S3Client) (key : Option StorageKey) : List Char :=
  (if client.forcePathStyle then '/' :: client.bucket.toList else []) ++
    match key with
    | some key => '/' :: client.providerKey key
    | none => []

/-- The canonical URI of the bucket and the key. -/
def objectUri (client : S3Client) (key : Option StorageKey) : List Char :=
  percentEncode Wire.pathEscaped
    (if objectText client key = [] then ['/'] else objectText client key)

theorem flatMap_segments (client : S3Client) (key : Option StorageKey) :
    (client.segments key).flatMap ('/' :: ·) = objectText client key := by
  rw [S3Client.segments.eq_def, objectText.eq_def, List.flatMap_append]
  congr 1
  · split <;> simp
  · cases key with
    | none => rfl
    | some key => exact flatMap_splitOn '/' _

theorem pathEscaped_ascii (byte : UInt8) (h : Wire.pathEscaped byte = false) :
    byte.toNat < 128 := by
  rw [Wire.pathEscaped, Bool.and_eq_false_iff] at h
  rcases h with h | h
  · exact unreserved_ascii (by simpa using h)
  · have hslash : byte = 47 := by simpa using h
    rw [hslash]
    decide

theorem percentEncode_segments (segments : List (List Char)) :
    percentEncode Wire.pathEscaped (segments.flatMap ('/' :: ·)) =
      segments.flatMap fun segment => '/' :: percentEncode Wire.pathEscaped segment := by
  induction segments with
  | nil => rfl
  | cons segment segments ih =>
    have hslash : encodeByte Wire.pathEscaped (UInt8.ofNat '/'.toNat) = ['/'] := by decide
    rw [List.flatMap_cons, List.flatMap_cons, ← ih, percentEncode, percentEncode, percentEncode,
      List.cons_append, utf8Bytes_ascii (by decide), utf8Bytes_append, List.flatMap_cons, hslash,
      List.flatMap_append]
    rfl

/-- S3 does not change the canonical URI. -/
theorem canonicalUri_objectUri (client : S3Client) (key : Option StorageKey) :
    Wire.canonicalUri (objectUri client key) = objectUri client key := by
  rw [Wire.canonicalUri, objectUri, percentDecode_percentEncode pathEscaped_ascii (by decide)]
  rfl

theorem objectUri_eq (client : S3Client) (key : Option StorageKey) :
    objectUri client key = if client.segments key = [] then ['/']
      else (client.segments key).flatMap fun segment =>
        '/' :: percentEncode Wire.pathEscaped segment := by
  rw [objectUri, ← flatMap_segments]
  by_cases hnil : client.segments key = []
  · rw [hnil, if_pos rfl, List.flatMap_nil, if_pos rfl]
    decide
  · obtain ⟨first, rest, hcons⟩ := List.exists_cons_of_ne_nil hnil
    have htext : (client.segments key).flatMap ('/' :: ·) ≠ [] := by
      rw [hcons, List.flatMap_cons, List.cons_append]
      exact List.cons_ne_nil _ _
    rw [if_neg hnil, if_neg htext, percentEncode_segments]

/-- The bytes of a path become fewer when a segment is lost. -/
theorem length_filter_segments {segments : List (List Char)} {p : List Char → Bool}
    {lost : List Char} (hmem : lost ∈ segments) (hlost : p lost = false) (hne : lost ≠ []) :
    (utf8Bytes ((segments.filter p).flatMap ('/' :: ·))).length + 2 ≤
      (utf8Bytes (segments.flatMap ('/' :: ·))).length := by
  -- filtering makes no path longer
  have hle : ∀ parts : List (List Char),
      (utf8Bytes ((parts.filter p).flatMap ('/' :: ·))).length ≤
        (utf8Bytes (parts.flatMap ('/' :: ·))).length := by
    intro parts
    induction parts with
    | nil => exact le_rfl
    | cons part parts ih =>
      rw [List.filter_cons]
      split
      · rw [List.flatMap_cons, List.flatMap_cons, utf8Bytes_append, utf8Bytes_append,
          List.length_append, List.length_append]
        omega
      · rw [List.flatMap_cons, utf8Bytes_append, List.length_append]
        omega
  -- the lost segment has a byte, and its separator
  have hsize : 2 ≤ (utf8Bytes ('/' :: lost)).length := by
    have hlength := length_le_utf8Len ('/' :: lost)
    have hpos := List.length_pos_iff.mpr hne
    rw [length_utf8Bytes]
    rw [List.length_cons] at hlength
    omega
  obtain ⟨before, after, rfl⟩ := List.append_of_mem hmem
  have hbefore := hle before
  have hafter := hle after
  rw [List.filter_append, List.filter_cons_of_neg (by rw [hlost]; exact Bool.false_ne_true),
    List.flatMap_append, List.flatMap_append, List.flatMap_cons, utf8Bytes_append, utf8Bytes_append,
    utf8Bytes_append, List.length_append, List.length_append, List.length_append]
  omega

section Paths

variable [UrlWriter]

/-- Every byte of the path is written like in the canonical URI: no segment is a dot or two, and
each byte is unreserved or escaped by the url crate, but no slash. -/
def PlainPath (client : S3Client) (key : Option StorageKey) : Prop :=
  ∀ segment ∈ client.segments key, segment ≠ ['.'] ∧ segment ≠ ['.', '.'] ∧
    ∀ byte ∈ utf8Bytes segment,
      byte ≠ 47 ∧ (unreserved byte = true ∨ UrlWriter.segmentEscaped byte = true)

/-- The url crate and S3 write a byte in the same way. -/
theorem segmentEscaped_eq_iff (byte : UInt8) :
    UrlWriter.segmentEscaped byte = Wire.pathEscaped byte ↔
      byte ≠ 47 ∧ (unreserved byte = true ∨ UrlWriter.segmentEscaped byte = true) := by
  by_cases hslash : byte = 47
  · have hsegment := UrlWriter.segment_special byte (Or.inr (Or.inl hslash))
    have hpath : Wire.pathEscaped byte = false := by simp [Wire.pathEscaped, hslash]
    rw [hsegment, hpath]
    simp [hslash]
  · cases hunreserved : unreserved byte with
    | true =>
      have hsegment := UrlWriter.segment_unreserved byte hunreserved
      simp [hsegment, Wire.pathEscaped, hunreserved, hslash]
    | false =>
      have hne : (byte != 47) = true := by simpa using hslash
      simp [Wire.pathEscaped, hunreserved, hslash, hne]

/-- Where they differ, the byte is no percent sign. -/
theorem segmentEscaped_ne {byte : UInt8}
    (h : UrlWriter.segmentEscaped byte ≠ Wire.pathEscaped byte) :
    byte.toNat < 128 ∧ byte ≠ percentSign := by
  constructor
  · by_contra hnot
    have hsegment := UrlWriter.segment_special byte (Or.inr (Or.inr (not_lt.mp hnot)))
    have hpath : Wire.pathEscaped byte = true := by
      by_contra hraw
      exact hnot (pathEscaped_ascii byte (Bool.eq_false_iff.mpr hraw))
    exact h (hsegment.trans hpath.symm)
  · rintro rfl
    exact h (segment_percent.trans (by decide))

/-- The paths of segments are equal when their bytes are written in the same way. -/
theorem encode_segments_eq_iff {segments : List (List Char)} :
    (segments.flatMap fun segment => '/' :: percentEncode UrlWriter.segmentEscaped segment) =
        segments.flatMap (fun segment => '/' :: percentEncode Wire.pathEscaped segment) ↔
      ∀ segment ∈ segments, ∀ byte ∈ utf8Bytes segment,
        UrlWriter.segmentEscaped byte = Wire.pathEscaped byte := by
  induction segments with
  | nil => simp
  | cons segment segments ih =>
    rw [List.flatMap_cons, List.flatMap_cons, List.cons_append, List.cons_append,
      List.cons.injEq, and_iff_right rfl, percentEncode, percentEncode,
      encodeBytes_append_inj fun byte _ => segmentEscaped_ne, ih, List.forall_mem_cons]

/-- A segment of dots is lost. -/
theorem foldl_pushSegment_filter (path : List Char) (segments : List (List Char)) :
    segments.foldl pushSegment path =
      (segments.filter fun segment => ¬(segment = ['.'] ∨ segment = ['.', '.'])).foldl
        pushSegment path := by
  induction segments generalizing path with
  | nil => rfl
  | cons segment segments ih =>
    rw [List.foldl_cons]
    by_cases hdots : segment = ['.'] ∨ segment = ['.', '.']
    · rw [List.filter_cons_of_neg (by simp [hdots]), UrlWriter.pushSegment_dots path segment hdots,
        ih]
    · rw [List.filter_cons_of_pos (by rwa [decide_eq_true_eq]), List.foldl_cons, ih]

/-- The path is the canonical URI of the bucket and the key when all its bytes are plain. -/
theorem path_eq_objectUri_iff {client : S3Client} {key : Option StorageKey} {url : RequestUrl}
    (h : client.requestUrl (key.map client.providerKey) = .ok url) :
    url.path = objectUri client key ↔ PlainPath client key := by
  rw [S3Client.requestUrl_path h, objectUri_eq]
  by_cases hdots : ∃ segment ∈ client.segments key, segment = ['.'] ∨ segment = ['.', '.']
  case pos =>
    obtain ⟨lost, hmem, hlost⟩ := hdots
    refine ⟨fun heq => ?_, fun hplain => ?_⟩
    -- the bytes of the lost segment are missing when the path is read
    · have hnil : client.segments key ≠ [] := List.ne_nil_of_mem hmem
      rw [if_neg hnil, ← percentEncode_segments, foldl_pushSegment_filter] at heq
      have hread := congrArg (fun path => (percentDecode (utf8Bytes path)).length) heq
      simp only [percentDecode_percentEncode pathEscaped_ascii (by decide)] at hread
      have hkept : ∀ segment ∈ (client.segments key).filter fun segment =>
          ¬(segment = ['.'] ∨ segment = ['.', '.']), ProperSegment segment := by
        intro segment hsegment
        obtain ⟨hin, hnot⟩ := List.mem_filter.mp hsegment
        rw [decide_eq_true_eq, not_or] at hnot
        obtain ⟨hne, hcontrol⟩ := client.segments_proper hin
        exact ⟨hne, hnot.1, hnot.2, hcontrol⟩
      have hlength := @length_filter_segments (client.segments key)
        (fun segment => ¬(segment = ['.'] ∨ segment = ['.', '.'])) lost hmem
        (by rw [decide_eq_false_iff_not, not_not]; exact hlost) (client.segments_proper hmem).1
      generalize (client.segments key).filter (fun segment =>
        ¬(segment = ['.'] ∨ segment = ['.', '.'])) = kept at hread hkept hlength
      by_cases hempty : kept = []
      · rw [hempty, List.foldl_nil, show (percentDecode (utf8Bytes ['/'])).length = 1 by decide]
          at hread
        omega
      · rw [foldl_pushSegment_root hempty hkept, percentDecode_segments] at hread
        omega
    · obtain ⟨hdot, hdotdot, -⟩ := hplain lost hmem
      exact absurd hlost (not_or.mpr ⟨hdot, hdotdot⟩)
  -- no segment is lost, and each is compared byte by byte
  case neg =>
    have hproper : ∀ segment ∈ client.segments key, ProperSegment segment := by
      intro segment hmem
      have hnot : ¬(segment = ['.'] ∨ segment = ['.', '.']) :=
        fun hdot => hdots ⟨segment, hmem, hdot⟩
      obtain ⟨hne, hcontrol⟩ := client.segments_proper hmem
      exact ⟨hne, (not_or.mp hnot).1, (not_or.mp hnot).2, hcontrol⟩
    by_cases hnil : client.segments key = []
    · rw [hnil, if_pos rfl]
      refine iff_of_true rfl fun segment hmem => ?_
      rw [hnil] at hmem
      exact absurd hmem List.not_mem_nil
    · rw [if_neg hnil, foldl_pushSegment_root hnil hproper, encode_segments_eq_iff]
      refine forall₂_congr fun segment hmem => ?_
      rw [and_iff_right (hproper segment hmem).ne_dot, and_iff_right (hproper segment hmem).ne_dots]
      exact forall₂_congr fun byte _ => segmentEscaped_eq_iff byte

end Paths

/-! ### The law -/

/-- The request is signed as S3 expects: the text that is hashed is the one S3 computes from the
request, the path is the canonical URI of the bucket and the key, the query has the encoded pairs in
order, and the block has every header once, by name. -/
structure Canonical {H : Type} [HeaderMap H] (client : S3Client) (key : Option StorageKey)
    (query : List (List Char × List Char)) (sent : SignedRequest H) : Prop where
  recomputed : sent.canonical = Wire.canonicalRequest sent
  uri : sent.url.path = objectUri client key
  pairs : ∃ pairs : List (List Char × List Char),
    pairs.Perm (query.map fun pair => (awsEncode pair.1, awsEncode pair.2)) ∧
      (pairs.Pairwise fun a b => toLex a ≤ toLex b) ∧
      sent.url.query.getD [] = queryText pairs
  block : ∃ map : List (List Char × List (List Char)),
    Collects map ((HeaderMap.iter sent.headers).map fun header =>
        (header.1.text.map toAsciiLowercase,
          Wire.collapse (header.2.map fun byte => Char.ofNat byte.toNat))) ∧
      sent.headerBlock = map.flatMap headerLine ∧
      sent.signedHeaders = [';'].intercalate (map.map Prod.fst)

/-- **Canonical requests.**  For every storage key, query and header map, a request is signed as S3
expects if and only if every byte of its path, the slashes between the parts apart, is unreserved or
escaped by the url crate. -/
theorem canonicalRequest_law {H : Type} [UrlWriter] [HeaderValue] [HeaderMap H]
    {client : S3Client} {key : Option StorageKey} {query : List (List Char × List Char)}
    {headers : H} {method payloadHash timestamp : List Char} {sent : SignedRequest H}
    (h : client.request method (key.map client.providerKey) query headers payloadHash timestamp =
      .ok sent) :
    Canonical client key query sent ↔ PlainPath client key := by
  simp only [S3Client.request, bind_eq_ok, pure_eq_ok, Prod.exists] at h
  obtain ⟨url, hurl, initial, hinitial, block, signed, hheaders, rfl⟩ := h
  obtain ⟨map, hmap, rfl, rfl, hvisible⟩ := canonicalHeaders_eq_ok hheaders
  have hpath : (setQuery url query).path = url.path := setQuery_path url query
  refine ⟨fun hcanonical => ?_, fun hplain => ?_⟩
  · exact (path_eq_objectUri_iff hurl).mp (hpath.symm.trans hcanonical.uri)
  · have huri := (path_eq_objectUri_iff hurl).mpr hplain
    refine ⟨?_, hpath.trans huri, ?_, map, ?_, rfl, rfl⟩
    · show canonicalRequest _ _ _ _ _ = Wire.canonicalRequest _
      rw [canonicalRequest, Wire.canonicalRequest]
      simp only [hpath, huri, canonicalUri_objectUri, setQuery_text, canonicalQuery_sorted,
        ← headerBlock_eq (headers_ne_nil hinitial) hmap hvisible]
    · exact ⟨sortedPairs query, orderBy_perm _ _, orderBy_pairwise _ _, setQuery_text url query⟩
    · refine cast (congrArg _ (List.map_congr_left fun header hheader => ?_)) hmap
      exact Prod.ext rfl (normalizeHeader_visible (hvisible header hheader))

/-! ### Samples -/

/-- What holds of the numbers below 256 holds of bytes. -/
private theorem byte_cases {p : UInt8 → Prop} (h : ∀ code < 256, p (UInt8.ofNat code))
    (byte : UInt8) : p byte := by
  have hbyte := h byte.toNat byte.toNat_lt
  rwa [UInt8.ofNat_toNat] at hbyte

/-- The bytes that are escaped in a segment, much like in the url standard; its versions differ in
the caret, which is escaped here. -/
def segmentSet (byte : UInt8) : Bool :=
  byte.toNat < 32 || 127 ≤ byte.toNat ||
    [32, 34, 35, 37, 47, 60, 62, 63, 92, 94, 96, 123, 125].contains byte.toNat

/-- The bytes that are escaped in a query. -/
def querySet (byte : UInt8) : Bool :=
  byte.toNat < 32 || 127 ≤ byte.toNat || [32, 34, 35, 39, 60, 62].contains byte.toNat

theorem querySet_raw (byte : UInt8) (h : unreserved byte = true ∨ byte = percentSign ∨
    byte = 38 ∨ byte = 61) : querySet byte = false := by
  revert h
  revert byte
  exact byte_cases (by decide +kernel)

@[reducible] def standardUrls : UrlWriter where
  segmentEscaped := segmentSet
  pushSegment path segment :=
    if segment = ['.'] ∨ segment = ['.', '.'] then path
    else (if path = ['/'] then path else path ++ ['/']) ++ percentEncode segmentSet segment
  writeQuery := percentEncode querySet
  parseHost := some
  segment_unreserved := byte_cases (by decide +kernel)
  segment_special := byte_cases (by decide +kernel)
  pushSegment_dots _ _ hdots := if_pos hdots
  pushSegment_eq path segment hpath hdot hdots _ := by
    rw [if_neg (not_or.mpr ⟨hdot, hdots⟩), if_neg hpath, List.append_assoc]
    rfl
  pushSegment_root segment hdot hdots _ := by
    rw [if_neg (not_or.mpr ⟨hdot, hdots⟩), if_pos rfl]
    rfl
  writeQuery_raw query h := by
    refine percentEncode_raw fun c hc => ⟨(h c hc).1, querySet_raw _ ?_⟩
    rcases (h c hc).2 with hraw | hsign | rfl | rfl
    · exact Or.inl hraw
    · exact Or.inr (Or.inl hsign)
    · exact Or.inr (Or.inr (Or.inl rfl))
    · exact Or.inr (Or.inr (Or.inr rfl))

/-- Values are texts of visible characters. -/
@[reducible] def visibleValues : HeaderValue where
  fromStr text :=
    if (utf8Bytes text).all fun byte => (32 ≤ byte.toNat && byte.toNat ≠ 127) || byte.toNat == 9
    then some (utf8Bytes text) else none
  toStr value :=
    if value.all visible then some (value.map fun byte => Char.ofNat byte.toNat) else none
  toStr_eq_some value text := by
    rw [← List.all_eq_true]
    split
    case isTrue h =>
      rw [Option.some.injEq]
      exact ⟨fun heq => ⟨h, heq.symm⟩, fun heq => heq.2.symm⟩
    case isFalse h => exact ⟨nofun, fun heq => absurd heq.1 h⟩

/-- A list of headers, to which an inserted one is added at the end. -/
@[reducible] def listHeaders : HeaderMap (List (HeaderName × Bytes)) where
  iter := id
  insert headers header := headers.filter (fun other => other.1 ≠ header.1) ++ [header]
  iter_insert headers header name := by
    simp only [id, List.filter_append, List.filter_filter]
    split
    case isTrue h =>
      subst h
      simp
    case isFalse h =>
      have hother : decide (header.1 = name) = false := decide_eq_false fun heq => h heq.symm
      rw [List.filter_singleton, hother, cond_false, List.append_nil]
      refine List.filter_congr fun other _ => ?_
      by_cases hname : other.1 = name
      · simp [hname, h]
      · simp [hname]

attribute [local instance] standardUrls visibleValues listHeaders

def sampleClient : S3Client where
  endpoint := ⟨true, some "s3.example".toList, none, ['/'], none⟩
  bucket := "bucket"
  keyPrefix := none
  sessionToken := none
  forcePathStyle := true
  endpoint_root := ⟨rfl, rfl⟩
  bucket_valid := by decide

/-- A key without special characters but a space. -/
def spacedKey : StorageKey where
  asStr := "notes/a b.txt"
  valid := by decide

def plusKey : StorageKey where
  asStr := "a+b"
  valid := by decide

/-- The request that stores the key. -/
def sampleRequest (key : StorageKey) :
    Except StorageError (SignedRequest (List (HeaderName × Bytes))) :=
  sampleClient.request "PUT".toList (some (sampleClient.providerKey key)) [] [] "hash".toList
    "20260102T030405Z".toList

theorem spacedKey_canonical :
    ∃ sent, sampleRequest spacedKey = .ok sent ∧
      Canonical sampleClient (some spacedKey) [] sent := by
  have hplain : PlainPath sampleClient (some spacedKey) := by
    unfold PlainPath
    decide +kernel
  have hok : (sampleRequest spacedKey).isOk = true := by decide +kernel
  cases h : sampleRequest spacedKey with
  | error e =>
    rw [h] at hok
    exact absurd hok Bool.false_ne_true
  | ok sent =>
    have hlaw := @canonicalRequest_law _ _ _ _ sampleClient (some spacedKey) _ _ _ _ _ _ h
    exact ⟨sent, rfl, hlaw.mpr hplain⟩

/-- The plus sign stands for itself in the path, and S3 expects its escape. -/
theorem plusKey_differs :
    ∃ sent, sampleRequest plusKey = .ok sent ∧ sent.url.path = "/bucket/a+b".toList ∧
      objectUri sampleClient (some plusKey) = "/bucket/a%2Bb".toList ∧
      ¬Canonical sampleClient (some plusKey) [] sent := by
  have hpath : (sampleRequest plusKey).toOption.map (·.url.path) = some "/bucket/a+b".toList := by
    decide +kernel
  have huri : objectUri sampleClient (some plusKey) = "/bucket/a%2Bb".toList := by decide +kernel
  cases h : sampleRequest plusKey with
  | error e =>
    rw [h] at hpath
    exact absurd hpath nofun
  | ok sent =>
    rw [h] at hpath
    have hsent : sent.url.path = "/bucket/a+b".toList := Option.some.inj hpath
    refine ⟨sent, rfl, hsent, huri, fun hcanonical => ?_⟩
    have heq := hsent.symm.trans (hcanonical.uri.trans huri)
    exact absurd heq (by decide +kernel)

end S3

end BlobYard
