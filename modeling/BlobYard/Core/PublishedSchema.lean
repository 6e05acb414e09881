/-
The patterns of the published schema.

The schema `blobyard-application-manifest.v1.schema.json` restricts the texts of a manifest
by regular expressions in the ECMAScript dialect, and some of them by a length in characters.
Every definition of `$defs` is here under its name, its expression in the comment.

* `Pattern`, `Pattern.Accepts` — an expression with its length;
* `set` — a class of characters, by ranges and single characters;
* `dnsLabel` … `timezone` — the definitions.
-/
import BlobYard.Lib.Regex

namespace BlobYard

namespace PublishedSchema

open Regex

/-- `pattern` and `maxLength`. -/
structure Pattern where
  regex : Regex Char
  maxLength : Option ℕ

/-- The expression is found in the text, and the text is not too long. -/
def Pattern.Accepts (pattern : Pattern) (text : List Char) : Prop :=
  pattern.regex.Found text ∧ ∀ maximum, pattern.maxLength = some maximum → text.length ≤ maximum

/-! ### Classes -/

/-- The characters of some ranges and some others. -/
def set (ranges : List (Char × Char)) (others : List Char) (c : Char) : Bool :=
  (ranges.any fun range => range.1 ≤ c && c ≤ range.2) || others.contains c

/-- `[a-z]` -/
def lower : Char → Bool := set [('a', 'z')] []

/-- `[A-Z]` -/
def upper : Char → Bool := set [('A', 'Z')] []

/-- `[0-9]` -/
def digit : Char → Bool := set [('0', '9')] []

/-- `[1-9]` -/
def nonzero : Char → Bool := set [('1', '9')] []

/-- `[a-z0-9]` -/
def labelEdge : Char → Bool := set [('a', 'z'), ('0', '9')] []

/-- `[a-z0-9-]` -/
def labelInner : Char → Bool := set [('a', 'z'), ('0', '9')] ['-']

/-- `[a-z0-9_]` -/
def identifierRest : Char → Bool := set [('a', 'z'), ('0', '9')] ['_']

/-- `[A-Z0-9_]` -/
def secretRest : Char → Bool := set [('A', 'Z'), ('0', '9')] ['_']

/-- `[A-Za-z0-9._-]` -/
def pathCharacter : Char → Bool := set [('A', 'Z'), ('a', 'z'), ('0', '9')] ['.', '_', '-']

/-- `[A-Za-z0-9._~-]` -/
def routeCharacter : Char → Bool := set [('A', 'Z'), ('a', 'z'), ('0', '9')] ['.', '_', '~', '-']

/-- `[A-Za-z_]` -/
def areaCharacter : Char → Bool := set [('A', 'Z'), ('a', 'z')] ['_']

/-- `[A-Za-z0-9_+-]` -/
def zoneCharacter : Char → Bool := set [('A', 'Z'), ('a', 'z'), ('0', '9')] ['_', '+', '-']

/-- `\s`: the white space and the line terminators of ECMAScript. -/
def space : Char → Bool :=
  set [('\t', '\r'), ('\u2000', '\u200a')]
    [' ', '\u00a0', '\u1680', '\u2028', '\u2029', '\u202f', '\u205f', '\u3000', '\ufeff']

/-- `\S` -/
def nonspace (c : Char) : Bool := !space c

/-- A repeated class. -/
def chars (class_ : Char → Bool) (least : ℕ) (most : Option ℕ) : Regex Char :=
  .rep (.one class_) least most

/-- `(?:…)*` and its kin: a group behind a separator. -/
def separated (separator : Char) (group : Regex Char) (least : ℕ) (most : Option ℕ) : Regex Char :=
  .rep (.seq (literal [separator]) group) least most

/-! ### Definitions -/

/-- `[a-z0-9](?:[a-z0-9-]{0,most}[a-z0-9])?` -/
def label (most : Option ℕ) : Regex Char :=
  .seq (.one labelEdge) (optional (.seq (chars labelInner 0 most) (.one labelEdge)))

/-- `^[a-z0-9](?:[a-z0-9-]{0,61}[a-z0-9])?$` -/
def dnsLabel : Pattern := ⟨whole (label (some 61)), none⟩

/-- `^[a-z][a-z0-9-]{0,31}$` -/
def roleName : Pattern := ⟨whole (.seq (.one lower) (chars labelInner 0 (some 31))), none⟩

/-- `[a-z][a-z0-9_]*` -/
def identifier : Regex Char := .seq (.one lower) (chars identifierRest 0 none)

/-- `^[a-z][a-z0-9_]*(?:\.[a-z][a-z0-9_]*){1,3}$` -/
def permission : Pattern :=
  ⟨whole (.seq identifier (separated '.' identifier 1 (some 3))), some 128⟩

/-- `^[A-Z][A-Z0-9_]{0,63}$` -/
def secretName : Pattern := ⟨whole (.seq (.one upper) (chars secretRest 0 (some 63))), none⟩

/-- `^[a-z0-9](?:[a-z0-9-]{0,61}[a-z0-9])?:(read|write|read-write)$` -/
def bucketGrant : Pattern :=
  ⟨whole (.seq (label (some 61)) (.seq (literal [':'])
    (.alt (literal "read".toList) (.alt (literal "write".toList)
      (literal "read-write".toList))))), none⟩

/-- `^(?:[a-z0-9](?:[a-z0-9-]*[a-z0-9])?\.)+[a-z]{2,63}:(?:443|80)$` -/
def egressTarget : Pattern :=
  ⟨whole (.seq (.rep (.seq (label none) (literal ['.'])) 1 none) (.seq (chars lower 2 (some 63))
    (.seq (literal [':']) (.alt (literal "443".toList) (literal "80".toList))))), some 256⟩

/-- `\.\.?(?:/|$)` -/
def dots : Regex Char :=
  .seq (literal ['.']) (.seq (optional (literal ['.'])) (.alt (literal ['/']) .stop))

/-- `(?!\.\.?(?:/|$))[A-Za-z0-9._-]+` -/
def segment : Regex Char := .seq (.notAhead dots) (chars pathCharacter 1 none)

/-- `(?!/)(?!\.\.?(?:/|$))[A-Za-z0-9._-]+(?:/(?!\.\.?(?:/|$))[A-Za-z0-9._-]+)*` -/
def segments : Regex Char :=
  .seq (.notAhead (literal ['/'])) (.seq segment (separated '/' segment 0 none))

/-- `^(?!/)(?!\.\.?(?:/|$))[A-Za-z0-9._-]+(?:/(?!\.\.?(?:/|$))[A-Za-z0-9._-]+)*$` -/
def relativePath : Pattern := ⟨whole segments, some 256⟩

/-- `ts|js|mts|mjs` -/
def extension : Regex Char :=
  .alt (literal "ts".toList) (.alt (literal "js".toList)
    (.alt (literal "mts".toList) (literal "mjs".toList)))

/-- The expression of `segments`, and then `\.(?:ts|js|mts|mjs)`, between `^` and `$`. -/
def modulePath : Pattern := ⟨whole (.seq segments (.seq (literal ['.']) extension)), some 256⟩

/-- `^/(?:[A-Za-z0-9._~-]+(?:/[A-Za-z0-9._~-]+)*)?$` -/
def routePath : Pattern :=
  ⟨whole (.seq (literal ['/']) (optional (.seq (chars routeCharacter 1 none)
    (separated '/' (chars routeCharacter 1 none) 0 none)))), some 256⟩

/-- `^[1-9][0-9]{0,5}(?:KiB|MiB|GiB)$` -/
def byteSize : Pattern :=
  ⟨whole (.seq (.one nonzero) (.seq (chars digit 0 (some 5)) (.alt (literal "KiB".toList)
    (.alt (literal "MiB".toList) (literal "GiB".toList))))), none⟩

/-- `^[1-9][0-9]{0,3}(?:ms|s|m)$` -/
def duration : Pattern :=
  ⟨whole (.seq (.one nonzero) (.seq (chars digit 0 (some 3)) (.alt (literal "ms".toList)
    (.alt (literal "s".toList) (literal "m".toList))))), none⟩

/-- `^\S+ \S+ \S+ \S+ \S+$` -/
def cron : Pattern :=
  ⟨whole (.seq (chars nonspace 1 none) (.seq (literal [' ']) (.seq (chars nonspace 1 none)
    (.seq (literal [' ']) (.seq (chars nonspace 1 none) (.seq (literal [' '])
      (.seq (chars nonspace 1 none) (.seq (literal [' ']) (chars nonspace 1 none))))))))), some 64⟩

/-- `^[A-Za-z_]+(?:/[A-Za-z0-9_+-]+){1,2}$|^UTC$` -/
def timezone : Pattern :=
  ⟨.alt (whole (.seq (chars areaCharacter 1 none)
    (separated '/' (chars zoneCharacter 1 none) 1 (some 2)))) (whole (literal "UTC".toList)),
    some 64⟩

end PublishedSchema

end BlobYard
