/-
The pattern predicates of the application manifest.

Each predicate of `patterns.rs` looks at one text.  It measures the text in bytes and
looks at bytes, but every class of bytes it asks for is ASCII, so that the model looks
at characters and measures only the length in bytes.

* `dnsLabel` … `timezoneShape` — the predicates of the manifest fields;
* `edgeAlphanumeric`, `dottedIdentifier`, `hostLabel`, `pathSegment`, `unitNumber` —
  their common parts.
-/
import BlobYard.Contract.Text
import BlobYard.Lib.Splitting
import BlobYard.Lib.Utf8

namespace BlobYard

namespace Patterns

open String (utf8Len)

/-- A lowercase letter, a digit or a dash. -/
def isLabelByte (c : Char) : Bool := c.isLower || c.isDigit || c == '-'

/-- The first and the last byte; both index the text, which is not empty where they are asked. -/
def edgeAlphanumeric (value : List Char) : Bool :=
  value.head?.any isAsciiAlphanumeric && value.getLast?.any isAsciiAlphanumeric

/-- One label of a host name, of any length. -/
def hostLabel (value : List Char) : Bool :=
  !value.isEmpty && edgeAlphanumeric value && value.all isLabelByte

/-- A label of at most 63 bytes. -/
def dnsLabel (value : List Char) : Bool :=
  !value.isEmpty && utf8Len value ≤ 63 && edgeAlphanumeric value && value.all isLabelByte

/-- A role name begins with a letter. -/
def roleName (value : List Char) : Bool :=
  !value.isEmpty && utf8Len value ≤ 32 && value.head?.any Char.isLower && value.all isLabelByte

/-- A lowercase letter, a digit or an underscore. -/
def isIdentifierByte (c : Char) : Bool := c.isLower || c.isDigit || c == '_'

/-- One part of a dotted identifier. -/
def identifierPart (part : List Char) : Bool :=
  !part.isEmpty && part.head?.any Char.isLower && part.all isIdentifierByte

/-- Two to four identifiers with dots between them. -/
def dottedIdentifier (value : List Char) : Bool :=
  let parts := value.splitOn '.'
  2 ≤ parts.length && parts.length ≤ 4 && parts.all identifierPart

/-- A dotted identifier of at most 128 bytes. -/
def permission (value : List Char) : Bool := utf8Len value ≤ 128 && dottedIdentifier value

/-- A name in capitals, as an environment variable has it. -/
def secretName (value : List Char) : Bool :=
  !value.isEmpty && utf8Len value ≤ 64 && value.head?.any Char.isUpper &&
    value.all fun c => c.isUpper || c.isDigit || c == '_'

/-- A bucket and what may be done with it. -/
def bucketGrant (value : List Char) : Bool :=
  (splitOnce ':' value).any fun (name, access) =>
    dnsLabel name &&
      ["read".toList, "write".toList, "read-write".toList].contains access

/-- A public host, by name, on one of the two ports of the web. -/
def egressTarget (value : List Char) : Bool :=
  utf8Len value ≤ 256 &&
    (rsplitOnce ':' value).any fun (host, port) =>
      let labels := host.splitOn '.'
      ["80".toList, "443".toList].contains port && 2 ≤ labels.length &&
        labels.getLast?.any (fun tld =>
          2 ≤ utf8Len tld && utf8Len tld ≤ 63 && tld.all Char.isLower) &&
        labels.all hostLabel

/-- A segment of a path that is portable between file systems. -/
def pathSegment (value : List Char) : Bool :=
  !value.isEmpty && value != ['.'] && value != ['.', '.'] &&
    value.all fun c => isAsciiAlphanumeric c || c == '.' || c == '_' || c == '-'

/-- A relative path of at most 256 bytes. -/
def relativePath (value : List Char) : Bool :=
  utf8Len value ≤ 256 && !value.isEmpty && value.head? != some '/' &&
    (value.splitOn '/').all pathSegment

/-- The suffixes of a module file. -/
def moduleSuffixes : List (List Char) :=
  [".ts".toList, ".js".toList, ".mts".toList, ".mjs".toList]

/-- A relative path that is left when the suffix of a module is taken off. -/
def modulePath (value : List Char) : Bool :=
  utf8Len value ≤ 256 &&
    moduleSuffixes.any fun suffix => (stripSuffix? suffix value).any relativePath

/-- One segment of a route. -/
def routeSegment (segment : List Char) : Bool :=
  !segment.isEmpty &&
    segment.all fun c => isAsciiAlphanumeric c || c == '.' || c == '_' || c == '~' || c == '-'

/-- An absolute path without empty segments. -/
def routePath (value : List Char) : Bool :=
  utf8Len value ≤ 256 && value.head? == some '/' &&
    (value.tail.isEmpty || (value.tail.splitOn '/').all routeSegment)

/-- A number without leading zeros, and one of the units. -/
def unitNumber (value : List Char) (units : List (List Char)) (maximumDigits : ℕ) : Bool :=
  units.any fun unit =>
    (stripSuffix? unit value).any fun number =>
      !number.isEmpty && utf8Len number ≤ maximumDigits && number.head?.any Char.isDigit &&
        number.head? != some '0' && number.all Char.isDigit

/-- A size in bytes. -/
def byteSize (value : List Char) : Bool :=
  unitNumber value ["KiB".toList, "MiB".toList, "GiB".toList] 6

/-- A time in milliseconds, seconds or minutes. -/
def duration (value : List Char) : Bool :=
  unitNumber value ["ms".toList, "s".toList, "m".toList] 4

/-- Five fields; what stands in them is checked later. -/
def cronShape (value : List Char) : Bool :=
  utf8Len value ≤ 64 &&
    let fields := value.splitOn ' '
    fields.length == 5 && fields.all fun field => !field.isEmpty && !field.any isWhitespace

/-- The characters of a time zone's later parts. -/
def isZoneByte (c : Char) : Bool := isAsciiAlphanumeric c || c == '_' || c == '+' || c == '-'

/-- UTC, or an area and one or two names. -/
def timezoneShape (value : List Char) : Bool :=
  value == "UTC".toList ||
    utf8Len value ≤ 64 &&
      let parts := value.splitOn '/'
      2 ≤ parts.length && parts.length ≤ 3 &&
        parts.head?.any (fun area => area.all fun c => c.isAlpha || c == '_') &&
        parts.tail.all fun part => !part.isEmpty && part.all isZoneByte

end Patterns

end BlobYard
