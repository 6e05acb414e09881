/-
Signed requests to S3.

The client builds the URL of an object with the url crate, writes the query itself and signs a text
that lists the method, the path, the query and the headers of the request.

* `S3Client.requestUrl`, `setQuery`, `canonicalHeaders`, `canonicalRequest` — the parts of the text;
* `S3Client.request` — what is sent, with the text that is hashed;
* `requestUrl_path` — the path is made of the bucket and the key, segment by segment;
* `canonicalHeaders_eq_ok` — the headers by name, with their values in the order of the map.
-/
import BlobYard.Contract.Storage
import BlobYard.Lib.Occurrences
import BlobYard.Lib.Order
import BlobYard.Lib.PercentEncoding
import BlobYard.Lib.SortedMap
import BlobYard.Lib.Splitting

namespace BlobYard

namespace S3

open Outcome

/-! ### The url crate -/

/-- The bytes that S3 leaves unescaped: letters, digits and `-`, `_`, `.`, `~`. -/
def unreserved (byte : UInt8) : Bool :=
  (65 ≤ byte.toNat && byte.toNat ≤ 90) || (97 ≤ byte.toNat && byte.toNat ≤ 122) ||
    (48 ≤ byte.toNat && byte.toNat ≤ 57) || byte == 45 || byte == 95 || byte == 46 || byte == 126

/-- How the url crate writes the segments of a path and the query, and the hosts it takes. -/
class UrlWriter where
  segmentEscaped : UInt8 → Bool
  /-- `PathSegmentsMut::push`. -/
  pushSegment : List Char → List Char → List Char
  /-- `Url::set_query`. -/
  writeQuery : List Char → List Char
  parseHost : List Char → Option (List Char)
  /-- In a segment letters and digits are not escaped, -/
  segment_unreserved : ∀ byte, unreserved byte = true → segmentEscaped byte = false
  /-- but the percent sign, the slash and everything outside ASCII are. -/
  segment_special : ∀ byte, byte = percentSign ∨ byte = 47 ∨ 128 ≤ byte.toNat →
    segmentEscaped byte = true
  /-- Dots are ignored, -/
  pushSegment_dots : ∀ path segment, segment = ['.'] ∨ segment = ['.', '.'] →
    pushSegment path segment = path
  /-- other segments stand behind a slash, if they are without control characters, -/
  pushSegment_eq : ∀ path segment, path ≠ ['/'] → segment ≠ ['.'] → segment ≠ ['.', '.'] →
    (∀ c ∈ segment, isControl c = false) →
      pushSegment path segment = path ++ '/' :: percentEncode segmentEscaped segment
  /-- and only the root path gets no slash more. -/
  pushSegment_root : ∀ segment, segment ≠ ['.'] → segment ≠ ['.', '.'] →
    (∀ c ∈ segment, isControl c = false) →
      pushSegment ['/'] segment = '/' :: percentEncode segmentEscaped segment
  /-- A query keeps its letters and digits, its percent signs and its separators. -/
  writeQuery_raw : ∀ query : List Char,
    (∀ c ∈ query, c.toNat < 128 ∧ (unreserved (UInt8.ofNat c.toNat) = true ∨
      UInt8.ofNat c.toNat = percentSign ∨ c = '&' ∨ c = '=')) → writeQuery query = query

export UrlWriter (pushSegment)

/-- A URL as the client builds it; without segments it cannot be a base. -/
structure RequestUrl where
  hasSegments : Bool
  host : Option (List Char)
  port : Option ℕ
  path : List Char
  query : Option (List Char)

/-! ### The client -/

/-- `validate_name`. -/
def ValidName (value : String) (max : ℕ) : Prop :=
  value ≠ "" ∧ value.utf8ByteSize ≤ max ∧ ∀ c ∈ value.toList, isControl c = false

instance (value : String) (max : ℕ) : Decidable (ValidName value max) :=
  inferInstanceAs (Decidable (_ ∧ _ ∧ _))

/-- The validated configuration: the endpoint has the root path and no query. -/
structure S3Client where
  endpoint : RequestUrl
  bucket : String
  keyPrefix : Option StorageKey
  sessionToken : Option String
  forcePathStyle : Bool
  endpoint_root : endpoint.path = ['/'] ∧ endpoint.query = none
  bucket_valid : ValidName bucket 255

/-- `provider_key`. -/
def S3Client.providerKey (client : S3Client) (key : StorageKey) : List Char :=
  match client.keyPrefix with
  | none => key.asStr.toList
  | some start => start.asStr.toList ++ '/' :: key.asStr.toList

/-- `append_segments`. -/
def appendSegments [UrlWriter] (url : RequestUrl) (segments : List (List Char)) :
    Except StorageError RequestUrl := do
  ensure (url.hasSegments = true) .invalidInput
  pure { url with path := segments.foldl pushSegment url.path }

/-- The URL before its path is built, and the first segment. -/
def S3Client.bucketUrl [UrlWriter] (client : S3Client) :
    Except StorageError (RequestUrl × List (List Char)) :=
  if client.forcePathStyle then .ok (client.endpoint, [client.bucket.toList])
  else do
    let host ← ofOption .invalidInput client.endpoint.host
    let bucketHost ← ofOption .invalidInput
      (UrlWriter.parseHost (client.bucket.toList ++ '.' :: host))
    pure ({ client.endpoint with host := some bucketHost }, [])

/-- `request_url`. -/
def S3Client.requestUrl [UrlWriter] (client : S3Client) (key : Option (List Char)) :
    Except StorageError RequestUrl := do
  let (url, segments) ← client.bucketUrl
  let segments := segments ++ match key with
    | some key => key.splitOn '/'
    | none => []
  if segments = [] then pure url else appendSegments url segments

/-! ### The query -/

/-- `aws_encode`. -/
def awsEncode (value : List Char) : List Char := percentEncode (fun byte => !unreserved byte) value

/-- The pairs of a query as they are written, sorted by name and then value. -/
def sortedPairs (query : List (List Char × List Char)) : List (List Char × List Char) :=
  orderBy toLex (query.map fun pair => (awsEncode pair.1, awsEncode pair.2))

def queryText (pairs : List (List Char × List Char)) : List Char :=
  ['&'].intercalate (pairs.map fun pair => pair.1 ++ '=' :: pair.2)

/-- `set_query`, where the url crate escapes what it has to. -/
def setQuery [UrlWriter] (url : RequestUrl) (query : List (List Char × List Char)) : RequestUrl :=
  if query = [] then { url with query := none }
  else { url with query := some (UrlWriter.writeQuery (queryText (sortedPairs query))) }

/-! ### The headers -/

/-- A character of a header name: a digit, a lower-case letter or one of the marks of a token. -/
def tokenCharacter (c : Char) : Bool :=
  c.toNat == 33 || (35 ≤ c.toNat && c.toNat ≤ 39) || c.toNat == 42 || c.toNat == 43 ||
    c.toNat == 45 || c.toNat == 46 || (48 ≤ c.toNat && c.toNat ≤ 57) ||
    (94 ≤ c.toNat && c.toNat ≤ 122) || c.toNat == 124 || c.toNat == 126

/-- `http::HeaderName`. -/
structure HeaderName where
  text : List Char
  valid : ∀ c ∈ text, tokenCharacter c = true
  deriving DecidableEq

/-- A byte that `HeaderValue::to_str` takes. -/
def visible (byte : UInt8) : Bool := (32 ≤ byte.toNat && byte.toNat < 127) || byte.toNat == 9

/-- `http::HeaderValue`: the values that a text makes, and the texts of values. -/
class HeaderValue where
  fromStr : List Char → Option Bytes
  toStr : Bytes → Option (List Char)
  toStr_eq_some : ∀ value text, toStr value = some text ↔
    (∀ byte ∈ value, visible byte = true) ∧ text = value.map fun byte => Char.ofNat byte.toNat

/-- `http::HeaderMap`: the headers in the order of iteration; which order different names have does
not matter. -/
class HeaderMap (H : Type) where
  iter : H → List (HeaderName × Bytes)
  insert : H → HeaderName × Bytes → H
  /-- An insertion replaces the values of its name. -/
  iter_insert : ∀ (headers : H) (header : HeaderName × Bytes) (name : HeaderName),
    (iter (insert headers header)).filter (fun other => other.1 = name) =
      if name = header.1 then [header] else (iter headers).filter fun other => other.1 = name

def isAsciiWhitespace (c : Char) : Bool :=
  c.toNat == 9 || c.toNat == 10 || c.toNat == 12 || c.toNat == 13 || c.toNat == 32

/-- `split_ascii_whitespace`: a character begins a word, or stands in front of the next one. -/
def splitAsciiWhitespace : List Char → List (List Char)
  | [] => []
  | c :: rest =>
    if isAsciiWhitespace c then splitAsciiWhitespace rest
    else if rest.head?.any (!isAsciiWhitespace ·) then
      (splitAsciiWhitespace rest).modifyHead (c :: ·)
    else [c] :: splitAsciiWhitespace rest

/-- `normalize_header`. -/
def normalizeHeader (value : List Char) : List Char :=
  [' '].intercalate (splitAsciiWhitespace value)

/-- One turn of the loop of `canonical_headers`. -/
def collectHeader [HeaderValue] (values : List (List Char × List (List Char)))
    (header : HeaderName × Bytes) :
    Except StorageError (List (List Char × List (List Char))) := do
  let text ← ofOption .invalidInput (HeaderValue.toStr header.2)
  pure (pushEntry (header.1.text.map toAsciiLowercase) (normalizeHeader text) values)

def headerLine (entry : List Char × List (List Char)) : List Char :=
  entry.1 ++ ':' :: [','].intercalate entry.2 ++ ['\n']

/-- `canonical_headers`: the block and the list of the signed names. -/
def canonicalHeaders {H : Type} [HeaderValue] [HeaderMap H] (headers : H) :
    Except StorageError (List Char × List Char) := do
  let values ← (HeaderMap.iter headers).foldlM collectHeader []
  pure (values.flatMap headerLine, [';'].intercalate (values.map Prod.fst))

def hostName : HeaderName := ⟨"host".toList, by decide⟩

def contentHashName : HeaderName := ⟨"x-amz-content-sha256".toList, by decide⟩

def dateName : HeaderName := ⟨"x-amz-date".toList, by decide⟩

def securityTokenName : HeaderName := ⟨"x-amz-security-token".toList, by decide⟩

/-- `canonical_host`. -/
def canonicalHost (url : RequestUrl) : Except StorageError (List Char) := do
  let host ← ofOption .invalidInput url.host
  pure (match url.port with
    | none => host
    | some port => host ++ ':' :: Nat.toDigits 10 port)

/-- `initial_headers`. -/
def initialHeaders [HeaderValue] (url : RequestUrl) (payloadHash timestamp : List Char)
    (sessionToken : Option (List Char)) : Except StorageError (List (HeaderName × Bytes)) := do
  let host ← canonicalHost url
  let values := [(hostName, host), (contentHashName, payloadHash), (dateName, timestamp)] ++
    sessionToken.toList.map fun token => (securityTokenName, token)
  values.mapM fun header => do
    let value ← ofOption .invalidInput (HeaderValue.fromStr header.2)
    pure (header.1, value)

/-! ### The request -/

/-- `canonical_request`. -/
def canonicalRequest (method : List Char) (url : RequestUrl)
    (headers signedHeaders payloadHash : List Char) : List Char :=
  ['\n'].intercalate
    [method, url.path, url.query.getD [], headers, signedHeaders, payloadHash]

/-- What is sent: the URL and the headers that are signed, with the header block, the list of the
signed names and the text that is hashed. -/
structure SignedRequest (H : Type) where
  method : List Char
  url : RequestUrl
  headers : H
  payloadHash : List Char
  headerBlock : List Char
  signedHeaders : List Char
  canonical : List Char

/-- `send` with `sign_headers`, up to the text that is hashed. -/
def S3Client.request {H : Type} [UrlWriter] [HeaderValue] [HeaderMap H] (client : S3Client)
    (method : List Char) (key : Option (List Char)) (query : List (List Char × List Char))
    (headers : H) (payloadHash timestamp : List Char) :
    Except StorageError (SignedRequest H) := do
  let url ← client.requestUrl key
  let url := setQuery url query
  let initial ← initialHeaders url payloadHash timestamp (client.sessionToken.map String.toList)
  let headers := initial.foldl HeaderMap.insert headers
  let (headerBlock, signedHeaders) ← canonicalHeaders headers
  let canonical := canonicalRequest method url headerBlock signedHeaders payloadHash
  pure { method, url, headers, payloadHash, headerBlock, signedHeaders, canonical }

/-! ### The path -/

section Paths

variable [UrlWriter]

theorem segment_ascii (byte : UInt8) (h : UrlWriter.segmentEscaped byte = false) :
    byte.toNat < 128 := by
  by_contra hnot
  have hspecial := UrlWriter.segment_special byte (Or.inr (Or.inr (not_lt.mp hnot)))
  rw [h] at hspecial
  exact absurd hspecial nofun

theorem segment_percent : UrlWriter.segmentEscaped percentSign = true :=
  UrlWriter.segment_special _ (Or.inl rfl)

/-- A segment that a path can have. -/
structure ProperSegment (segment : List Char) : Prop where
  ne_nil : segment ≠ []
  ne_dot : segment ≠ ['.']
  ne_dots : segment ≠ ['.', '.']
  noControl : ∀ c ∈ segment, isControl c = false

theorem foldl_pushSegment {path : List Char} {segments : List (List Char)} (hpath : path ≠ ['/'])
    (hne : path ≠ []) (h : ∀ segment ∈ segments, ProperSegment segment) :
    segments.foldl pushSegment path =
      path ++ segments.flatMap fun segment =>
        '/' :: percentEncode UrlWriter.segmentEscaped segment := by
  induction segments generalizing path with
  | nil => exact (List.append_nil _).symm
  | cons segment segments ih =>
    have hproper := h segment List.mem_cons_self
    have hpush : pushSegment path segment =
        path ++ '/' :: percentEncode UrlWriter.segmentEscaped segment :=
      UrlWriter.pushSegment_eq path segment hpath hproper.ne_dot hproper.ne_dots hproper.noControl
    have hlength : 2 ≤ (path ++ '/' :: percentEncode UrlWriter.segmentEscaped segment).length := by
      have hpos := List.length_pos_iff.mpr hne
      rw [List.length_append, List.length_cons]
      omega
    rw [List.foldl_cons, hpush, ih ?_ ?_ fun s hs => h s (List.mem_cons_of_mem segment hs),
      List.flatMap_cons, List.append_assoc]
    · intro heq
      rw [heq] at hlength
      exact absurd hlength (by decide)
    · intro heq
      rw [heq] at hlength
      exact absurd hlength (by decide)

/-- The segments stand behind each other, each with a slash in front. -/
theorem foldl_pushSegment_root {segments : List (List Char)} (hne : segments ≠ [])
    (h : ∀ segment ∈ segments, ProperSegment segment) :
    segments.foldl pushSegment ['/'] = segments.flatMap fun segment =>
      '/' :: percentEncode UrlWriter.segmentEscaped segment := by
  obtain ⟨segment, rest, rfl⟩ := List.exists_cons_of_ne_nil hne
  have hproper := h segment List.mem_cons_self
  have hpush : pushSegment ['/'] segment =
      '/' :: percentEncode UrlWriter.segmentEscaped segment :=
    UrlWriter.pushSegment_root segment hproper.ne_dot hproper.ne_dots hproper.noControl
  have hencoded : percentEncode UrlWriter.segmentEscaped segment ≠ [] :=
    fun hnil => hproper.ne_nil (percentEncode_eq_nil.mp hnil)
  rw [List.foldl_cons, hpush, foldl_pushSegment ?_ (List.cons_ne_nil _ _)
    fun s hs => h s (List.mem_cons_of_mem segment hs), List.flatMap_cons]
  exact fun heq => hencoded (List.cons.inj heq).2

omit [UrlWriter] in
theorem properSegment_of_key {key : StorageKey} {segment : List Char}
    (h : segment ∈ key.asStr.toList.splitOn '/') : ProperSegment segment := by
  obtain ⟨-, -, -, -, -, hcontrol, hsegments⟩ := key.valid
  obtain ⟨hne, hdot, hdots⟩ := hsegments segment h
  exact ⟨hne, hdot, hdots, fun c hc => hcontrol c (subset_of_mem_splitOn h hc)⟩

/-- The segments of the path: the bucket in path style, and the parts of the key. -/
def S3Client.segments (client : S3Client) (key : Option StorageKey) : List (List Char) :=
  (if client.forcePathStyle then [client.bucket.toList] else []) ++
    match key with
    | some key => (client.providerKey key).splitOn '/'
    | none => []

omit [UrlWriter] in
/-- What all segments are like, also a bucket of a dot or two. -/
theorem S3Client.segments_proper {client : S3Client} {key : Option StorageKey}
    {segment : List Char} (h : segment ∈ client.segments key) :
    segment ≠ [] ∧ ∀ c ∈ segment, isControl c = false := by
  rcases List.mem_append.mp h with h | h
  · split at h
    · obtain rfl := List.mem_singleton.mp h
      refine ⟨fun hnil => client.bucket_valid.1 ?_, client.bucket_valid.2.2⟩
      rw [← String.ofList_toList (s := client.bucket), hnil]
    · exact absurd h List.not_mem_nil
  · cases key with
    | none => exact absurd h List.not_mem_nil
    | some key =>
      have hproper : ProperSegment segment := by
        simp only [S3Client.providerKey] at h
        cases hstart : client.keyPrefix with
        | none =>
          rw [hstart] at h
          exact properSegment_of_key h
        | some start =>
          rw [hstart, splitOn_append] at h
          exact (List.mem_append.mp h).elim properSegment_of_key properSegment_of_key
      exact ⟨hproper.ne_nil, hproper.noControl⟩

theorem S3Client.requestUrl_path {client : S3Client} {key : Option StorageKey} {url : RequestUrl}
    (h : client.requestUrl (key.map client.providerKey) = .ok url) :
    url.path = (client.segments key).foldl pushSegment ['/'] := by
  simp only [S3Client.requestUrl, bind_eq_ok, Prod.exists] at h
  obtain ⟨start, segments, hbucket, h⟩ := h
  have hsegments : (segments ++ match key.map client.providerKey with
      | some key => key.splitOn '/'
      | none => []) = client.segments key ∧ start.path = ['/'] := by
    rw [S3Client.bucketUrl] at hbucket
    split at hbucket
    case isTrue hstyle =>
      obtain ⟨rfl, rfl⟩ := Prod.mk.inj (Except.ok.inj hbucket)
      exact ⟨by cases key <;> simp [S3Client.segments, hstyle], client.endpoint_root.1⟩
    case isFalse hstyle =>
      simp only [bind_eq_ok, ofOption_eq_ok, pure_eq_ok, Prod.mk.injEq] at hbucket
      obtain ⟨host, -, bucketHost, -, rfl, rfl⟩ := hbucket
      exact ⟨by cases key <;> simp [S3Client.segments, hstyle], client.endpoint_root.1⟩
  rw [hsegments.1] at h
  split at h
  case isTrue hnil =>
    rw [← pure_eq_ok.mp h, hnil]
    exact hsegments.2
  case isFalse =>
    simp only [appendSegments, bind_eq_ok, ensure_eq_ok, pure_eq_ok, exists_const] at h
    obtain ⟨-, rfl⟩ := h
    rw [hsegments.2]

/-- The path of segments is read as their texts. -/
theorem percentDecode_segments (segments : List (List Char)) :
    percentDecode (utf8Bytes (segments.flatMap fun segment =>
      '/' :: percentEncode UrlWriter.segmentEscaped segment)) =
        utf8Bytes (segments.flatMap ('/' :: ·)) := by
  induction segments with
  | nil => rfl
  | cons segment segments ih =>
    have hslash : UInt8.ofNat '/'.toNat ≠ percentSign := by decide
    rw [List.flatMap_cons, List.flatMap_cons, List.cons_append, List.cons_append,
      utf8Bytes_ascii (by decide), utf8Bytes_ascii (by decide), utf8Bytes_append, utf8Bytes_append,
      percentDecode_cons hslash, percentEncode,
      percentDecode_flatMap segment_ascii segment_percent, ih]

end Paths

/-! ### The header block -/

/-- A name and the text of its header, as they go into the block. -/
def headerPair (header : HeaderName × Bytes) : List Char × List Char :=
  (header.1.text.map toAsciiLowercase,
    normalizeHeader (header.2.map fun byte => Char.ofNat byte.toNat))

section Headers

variable [HeaderValue]

/-- The loop collects the values of each name. -/
theorem foldlM_collectHeader {headers : List (HeaderName × Bytes)}
    {pairs : List (List Char × List Char)}
    {map map' : List (List Char × List (List Char))} (hmap : Collects map pairs)
    (h : headers.foldlM collectHeader map = .ok map') :
    Collects map' (pairs ++ headers.map headerPair) ∧
      ∀ header ∈ headers, ∀ byte ∈ header.2, visible byte = true := by
  induction headers generalizing map pairs with
  | nil =>
    obtain rfl := Except.ok.inj h
    rw [List.map_nil, List.append_nil]
    exact ⟨hmap, fun _ hheader => absurd hheader List.not_mem_nil⟩
  | cons header headers ih =>
    rw [List.foldlM_cons] at h
    obtain ⟨middle, hfirst, hrest⟩ := bind_eq_ok.mp h
    simp only [collectHeader, bind_eq_ok, ofOption_eq_ok, pure_eq_ok] at hfirst
    obtain ⟨text, htext, rfl⟩ := hfirst
    obtain ⟨hvisible, rfl⟩ := (HeaderValue.toStr_eq_some _ _).mp htext
    obtain ⟨hcollects, hothers⟩ := ih hmap.push hrest
    rw [List.append_assoc] at hcollects
    exact ⟨hcollects, List.forall_mem_cons.mpr ⟨hvisible, hothers⟩⟩

theorem canonicalHeaders_eq_ok {H : Type} [HeaderMap H] {headers : H} {block signed : List Char}
    (h : canonicalHeaders headers = .ok (block, signed)) :
    ∃ map, Collects map ((HeaderMap.iter headers).map headerPair) ∧
      block = map.flatMap headerLine ∧ signed = [';'].intercalate (map.map Prod.fst) ∧
      ∀ header ∈ HeaderMap.iter headers, ∀ byte ∈ header.2, visible byte = true := by
  simp only [canonicalHeaders, bind_eq_ok, pure_eq_ok, Prod.mk.injEq] at h
  obtain ⟨map, hmap, rfl, rfl⟩ := h
  obtain ⟨hcollects, hvisible⟩ := foldlM_collectHeader Collects.nil hmap
  exact ⟨map, hcollects, rfl, rfl, hvisible⟩

end Headers

end S3

end BlobYard
