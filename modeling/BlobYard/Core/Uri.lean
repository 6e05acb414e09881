/-
The identifiers of objects.

`blobyard://workspace/project/path?version=n`, with the path percent-encoded segment by
segment.

* `BlobyardUri.new` — the constructor from a decoded path;
* `BlobyardUri.display` — the written form;
* `BlobyardUri.fromStr` — the parser.
-/
import BlobYard.Contract.Numbers
import BlobYard.Lib.PercentEncoding
import BlobYard.Lib.Splitting

namespace BlobYard

open Outcome String

/-! ### Validated parts -/

/-- A positive unsigned 64-bit integer. -/
structure NonZeroU64 where
  value : ℕ
  positive : 0 < value
  bounded : value ≤ u64Max
  deriving DecidableEq

/-- `NonZeroU64::new`. -/
def NonZeroU64.new (value : ℕ) : Option NonZeroU64 :=
  if h : 0 < value ∧ value ≤ u64Max then some ⟨value, h.1, h.2⟩ else none

/-- `Slug::new`. -/
def Slug.new (value : String) : Option Slug :=
  if h : ValidSlug value then some ⟨value, h⟩ else none

theorem NonZeroU64.new_value (version : NonZeroU64) : NonZeroU64.new version.value = some version :=
  dif_pos ⟨version.positive, version.bounded⟩

theorem Slug.new_asStr (slug : Slug) : Slug.new slug.asStr = some slug := dif_pos slug.valid

/-- The reason a URI failed validation. -/
inductive BlobyardUriError where
  | tooLong
  | invalidScheme
  | invalidStructure
  | invalidWorkspace
  | invalidProject
  | invalidPath
  | invalidPercentEncoding
  | invalidVersion
  deriving DecidableEq

/-- An object identifier. -/
structure BlobyardUri where
  workspace : Slug
  project : Slug
  logicalPath : String
  version : Option NonZeroU64
  deriving DecidableEq

namespace BlobyardUri

/-- Every identifier begins with it. -/
def scheme : List Char := "blobyard://".toList

/-- What the version is written behind. -/
def versionKey : List Char := "version=".toList

/-- The bound on the written identifier. -/
def maxUriBytes : ℕ := 4096

/-- The bound on the logical path, before it is escaped. -/
def maxPathBytes : ℕ := 2048

/-- The characters of `SEGMENT_ENCODE_SET` that are no controls. -/
def segmentEncodeSet : List Char :=
  [' ', '!', '"', '#', '$', '%', '&', '\'', '(', ')', '*', '+', ',', '/', ':', ';', '<', '=', '>',
    '?', '@', '[', '\\', ']', '^', '`', '\x7b', '|', '\x7d']

/-- The bytes that are written as escapes: those of `SEGMENT_ENCODE_SET` and all that are not
ASCII. -/
def shouldEncode (byte : UInt8) : Bool :=
  decide (128 ≤ byte.toNat) || isControl (Char.ofNat byte.toNat) ||
    segmentEncodeSet.contains (Char.ofNat byte.toNat)

section Encoding

variable [PercentEncoding]

/-! ### Writing -/

/-- The version as a query. -/
def displayVersion : Option NonZeroU64 → List Char
  | none => []
  | some version => '?' :: (versionKey ++ Nat.toDigits 10 version.value)

/-- The characters of the written form. -/
def display (uri : BlobyardUri) : List Char :=
  scheme ++ uri.workspace.asStr.toList ++ '/' :: uri.project.asStr.toList ++
    (segments uri.logicalPath).flatMap
      (fun segment => '/' :: utf8PercentEncode shouldEncode segment) ++
    displayVersion uri.version

/-- `to_string`. -/
def toString (uri : BlobyardUri) : String := String.ofList uri.display

/-! ### The constructor -/

/-- A segment of a decoded path that is refused. -/
def UnsafeSegment (segment : List Char) : Prop :=
  segment = [] ∨ segment = ['.'] ∨ segment = ['.', '.'] ∨ '\\' ∈ segment ∨
    ∃ c ∈ segment, isControl c = true

instance (segment : List Char) : Decidable (UnsafeSegment segment) :=
  inferInstanceAs (Decidable (_ ∨ _ ∨ _ ∨ _ ∨ _))

/-- The path is short enough, and all its segments are safe. -/
def validateDecodedPath (value : String) : Except BlobyardUriError Unit := do
  ensure (value.utf8ByteSize ≤ maxPathBytes) .tooLong
  ensure (∀ segment ∈ segments value, ¬ UnsafeSegment segment) .invalidPath

/-- `BlobyardUri::new`. -/
def new (workspace project : Slug) (logicalPath : String) (version : Option NonZeroU64) :
    Except BlobyardUriError BlobyardUri := do
  validateDecodedPath logicalPath
  let value : BlobyardUri := { workspace, project, logicalPath, version }
  ensure (value.toString.utf8ByteSize ≤ maxUriBytes) .tooLong
  return value

/-! ### The parser -/

/-- The location and the query; there is at most one question mark. -/
def splitQuery (body : List Char) :
    Except BlobyardUriError (List Char × Option (List Char)) :=
  match splitOnce '?' body with
  | some (location, query) => do
    ensure ('?' ∉ query) .invalidStructure
    return (location, some query)
  | none => return (body, none)

/-- The two slugs and the rest, none of them empty. -/
def splitLocation (location : List Char) :
    Except BlobyardUriError (List Char × List Char × List Char) := do
  let (workspace, remainder) ← ofOption .invalidStructure (splitOnce '/' location)
  let (project, path) ← ofOption .invalidStructure (splitOnce '/' remainder)
  ensure (workspace ≠ [] ∧ project ≠ [] ∧ path ≠ []) .invalidStructure
  return (workspace, project, path)

/-- One segment, which may not become unsafe or two by being decoded. -/
def decodeSegment (segment : List Char) : Except BlobyardUriError (List Char) := do
  let decoded ← ofOption .invalidPercentEncoding (utf8Text? (percentDecodeStr segment))
  ensure (¬ (UnsafeSegment decoded ∨ '/' ∈ decoded)) .invalidPath
  return decoded

/-- Every percent sign is followed by two hexadecimal digits. -/
def validatePercentEncoding (value : List Char) : Except BlobyardUriError Unit :=
  ensure (wellEscaped (utf8Bytes value) = true) .invalidPercentEncoding

/-- The logical path from its escaped segments. -/
def decodePath (encodedPath : List Char) : Except BlobyardUriError String := do
  validatePercentEncoding encodedPath
  let decodedSegments ← (encodedPath.splitOn '/').mapM decodeSegment
  let logicalPath := String.ofList (['/'].intercalate decodedSegments)
  validateDecodedPath logicalPath
  return logicalPath

/-- The version from the query, which must be nothing else. -/
def parseVersion : Option (List Char) → Except BlobyardUriError (Option NonZeroU64)
  | none => return none
  | some query => do
    let raw ← ofOption .invalidVersion (stripPrefix? versionKey query)
    ensure (raw ≠ [] ∧ '&' ∉ raw) .invalidVersion
    let version ← ofOption .invalidVersion ((parseU64 raw).bind NonZeroU64.new)
    return some version

/-- `from_str`. -/
def fromStr (input : String) : Except BlobyardUriError BlobyardUri := do
  ensure (input.utf8ByteSize ≤ maxUriBytes) .tooLong
  let body ← ofOption .invalidScheme (stripPrefix? scheme input.toList)
  ensure ('#' ∉ body) .invalidStructure
  let (location, query) ← splitQuery body
  let (workspace, project, encodedPath) ← splitLocation location
  let workspace ← ofOption .invalidWorkspace (Slug.new (String.ofList workspace))
  let project ← ofOption .invalidProject (Slug.new (String.ofList project))
  let logicalPath ← decodePath encodedPath
  let version ← parseVersion query
  return { workspace, project, logicalPath, version }

end Encoding

end BlobyardUri

end BlobYard
