/-
JSON texts and the values they write.

A value is written without blanks.  An object keeps its fields in the order of the text, a field
that is there twice included; its numbers are natural.  Programs that take the encoding from
elsewhere are stated over the classes.

* `JsonWriter` — how texts are escaped; `Json.compact` — the text of a value;
* `JsonReader` — a reader of JSON texts, which reads back what was written up to a depth of 127;
* `Json.same` — a comparison of values;
* `Json.record?`, `Json.map?` — the shapes of records and maps;
* `compactReader` — a writer, and a reader of texts without blanks.
-/
import BlobYard.Lib.Decimal
import BlobYard.Lib.Outcome
import BlobYard.Lib.SortedMap

namespace BlobYard

/-- A JSON value. -/
inductive Json where
  | null
  | bool (value : Bool)
  | number (value : ℕ)
  | string (value : String)
  | array (values : List Json)
  | object (fields : List (String × Json))

/-! ### Writing -/

/-- How texts are written. -/
class JsonWriter where
  jsonQuoted : String → List Char
  /-- A text is in quotes, -/
  jsonQuoted_cons : ∀ value, ∃ rest, jsonQuoted value = '"' :: rest
  /-- and each of its characters is written, -/
  length_jsonQuoted : ∀ value, value.toList.length + 2 ≤ (jsonQuoted value).length
  /-- as it is, where nothing has to be escaped. -/
  jsonQuoted_plain : ∀ value : String,
    (∀ c ∈ value.toList, 32 ≤ c.toNat ∧ c.toNat < 127 ∧ c ≠ '"' ∧ c ≠ '\\') →
      jsonQuoted value = '"' :: value.toList ++ ['"']

export JsonWriter (jsonQuoted jsonQuoted_cons length_jsonQuoted jsonQuoted_plain)

namespace Json

section Writing

variable [JsonWriter]

mutual

/-- The text of a value, without blanks. -/
def compact : Json → List Char
  | .null => ['n', 'u', 'l', 'l']
  | .bool true => ['t', 'r', 'u', 'e']
  | .bool false => ['f', 'a', 'l', 's', 'e']
  | .number value => Nat.toDigits 10 value
  | .string value => jsonQuoted value
  | .array values => '[' :: compactValues values ++ [']']
  | .object fields => '\x7b' :: compactFields fields ++ ['\x7d']

/-- The texts of the values with commas between them. -/
def compactValues : List Json → List Char
  | [] => []
  | [value] => compact value
  | value :: next :: rest => compact value ++ ',' :: compactValues (next :: rest)

/-- The texts of the fields with commas between them. -/
def compactFields : List (String × Json) → List Char
  | [] => []
  | [(name, value)] => jsonQuoted name ++ ':' :: compact value
  | (name, value) :: next :: rest =>
    jsonQuoted name ++ ':' :: compact value ++ ',' :: compactFields (next :: rest)

end

end Writing

mutual

/-- How deep arrays and objects are nested. -/
def depth : Json → ℕ
  | .array values => depthValues values + 1
  | .object fields => depthFields fields + 1
  | _ => 0

def depthValues : List Json → ℕ
  | [] => 0
  | value :: rest => max (depth value) (depthValues rest)

def depthFields : List (String × Json) → ℕ
  | [] => 0
  | (_, value) :: rest => max (depth value) (depthFields rest)

end

/-! ### Comparison -/

mutual

/-- Whether the values are the same, which is quicker to see than from their texts. -/
def same : Json → Json → Bool
  | .null, .null => true
  | .bool a, .bool b => a == b
  | .number a, .number b => a == b
  | .string a, .string b => a == b
  | .array as, .array bs => sameValues as bs
  | .object as, .object bs => sameFields as bs
  | _, _ => false

def sameValues : List Json → List Json → Bool
  | [], [] => true
  | a :: as, b :: bs => same a b && sameValues as bs
  | _, _ => false

def sameFields : List (String × Json) → List (String × Json) → Bool
  | [], [] => true
  | (name, a) :: as, (name', b) :: bs => name == name' && same a b && sameFields as bs
  | _, _ => false

end

theorem eq_of_same (a : Json) : ∀ b, same a b = true → a = b := by
  refine @Json.rec (fun a => ∀ b, same a b = true → a = b)
    (fun as => ∀ bs, sameValues as bs = true → as = bs)
    (fun as => ∀ bs, sameFields as bs = true → as = bs)
    (fun field => ∀ b, same field.2 b = true → field.2 = b)
    ?null ?bool ?number ?string ?array ?object ?nil ?cons ?noField ?consField (fun _ _ h => h) a
  case null | bool | number | string =>
    intros
    rename_i b h
    cases b <;> simp_all [same]
  case array | object =>
    intro as ih b h
    cases b <;> simp only [same, Bool.false_eq_true] at h
    rw [ih _ h]
  case nil | noField =>
    intro bs h
    cases bs with
    | nil => rfl
    | cons b bs => cases h
  case cons =>
    intro a as ih ihs bs h
    cases bs with
    | nil => cases h
    | cons b bs =>
      rw [sameValues, Bool.and_eq_true] at h
      rw [ih b h.1, ihs bs h.2]
  case consField =>
    rintro ⟨name, a⟩ as ih ihs bs h
    cases bs with
    | nil => cases h
    | cons field bs =>
      rw [sameFields, Bool.and_eq_true, Bool.and_eq_true, beq_iff_eq] at h
      obtain ⟨⟨rfl, hsame⟩, hrest⟩ := h
      obtain rfl : a = field.2 := ih _ hsame
      rw [ihs bs hrest]

/-! ### Joined texts -/

section Joined

variable [JsonWriter]

theorem compactValues_eq (values : List Json) :
    compactValues values = [','].intercalate (values.map compact) := by
  induction values with
  | nil => rfl
  | cons value rest ih =>
    cases rest with
    | nil => rw [compactValues, List.map_singleton, List.intercalate_singleton]
    | cons next rest =>
      rw [compactValues, ih]
      simp only [List.map_cons, List.intercalate_cons_cons]
      simp

/-- A field with its name. -/
def compactField (field : String × Json) : List Char := jsonQuoted field.1 ++ ':' :: compact field.2

theorem compactFields_eq (fields : List (String × Json)) :
    compactFields fields = [','].intercalate (fields.map compactField) := by
  induction fields with
  | nil => rfl
  | cons field rest ih =>
    cases rest with
    | nil =>
      rw [compactFields, List.map_singleton, List.intercalate_singleton]
      rfl
    | cons next rest =>
      rw [compactFields, ih]
      simp only [List.map_cons, List.intercalate_cons_cons]
      simp [compactField]

/-- A written value begins with a character that closes nothing. -/
theorem compact_cons (value : Json) : ∃ c rest, value.compact = c :: rest ∧ c ≠ ']' := by
  cases value with
  | null => exact ⟨_, _, rfl, by decide⟩
  | bool value => cases value <;> exact ⟨_, _, rfl, by decide⟩
  | number value =>
    obtain ⟨c, rest, hdigits⟩ := List.exists_cons_of_ne_nil (Nat.toDigits_ne_nil (b := 10) (n := value))
    refine ⟨c, rest, hdigits, ?_⟩
    rintro rfl
    have := (isDecimal_toDigits value).2 ']' (hdigits ▸ List.mem_cons_self)
    exact absurd this (by decide)
  | string value =>
    obtain ⟨rest, hquoted⟩ := jsonQuoted_cons value
    exact ⟨_, _, hquoted, by decide⟩
  | array values => exact ⟨_, _, rfl, by decide⟩
  | object fields => exact ⟨_, _, rfl, by decide⟩

theorem compactValues_cons (first : Json) (values : List Json) :
    ∃ c rest, compactValues (first :: values) = c :: rest ∧ c ≠ ']' := by
  obtain ⟨c, rest, hc, hne⟩ := compact_cons first
  cases values with
  | nil => exact ⟨c, rest, hc, hne⟩
  | cons next values => exact ⟨c, _, by rw [compactValues, hc, List.cons_append], hne⟩

theorem compactFields_cons (name : String) (value : Json) (fields : List (String × Json)) :
    ∃ rest, compactFields ((name, value) :: fields) = '"' :: rest := by
  obtain ⟨rest, hquoted⟩ := jsonQuoted_cons name
  cases fields with
  | nil => exact ⟨_, by rw [compactFields, hquoted, List.cons_append]⟩
  | cons next fields =>
    exact ⟨_, by rw [compactFields, hquoted, List.cons_append, List.cons_append]⟩

end Joined

theorem depthValues_le {values : List Json} {bound : ℕ} (h : ∀ value ∈ values, depth value ≤ bound) :
    depthValues values ≤ bound := by
  induction values with
  | nil => exact Nat.zero_le _
  | cons value rest ih =>
    rw [depthValues, Nat.max_le]
    exact ⟨h value List.mem_cons_self, ih fun v hv => h v (List.mem_cons_of_mem value hv)⟩

theorem depthFields_le {fields : List (String × Json)} {bound : ℕ}
    (h : ∀ field ∈ fields, depth field.2 ≤ bound) : depthFields fields ≤ bound := by
  induction fields with
  | nil => exact Nat.zero_le _
  | cons field rest ih =>
    rw [depthFields, Nat.max_le]
    exact ⟨h field List.mem_cons_self, ih fun v hv => h v (List.mem_cons_of_mem field hv)⟩

/-! ### Values of known shapes -/

section Shapes

variable {κ β : Type}

/-- A text. -/
def text? : Json → Option String
  | .string value => some value
  | _ => none

/-- A number that fits. -/
def natural? (maximum : ℕ) : Json → Option ℕ
  | .number value => if value ≤ maximum then some value else none
  | _ => none

/-- A list of texts. -/
def texts? : Json → Option (List String)
  | .array values => values.mapM text?
  | _ => none

/-- A value, or `null` for none. -/
def optional? (read : Json → Option β) : Json → Option (Option β)
  | .null => some none
  | value => (read value).map some

/-- A map, whose keys are read from the names. -/
def map? [LinearOrder κ] (readKey : String → Option κ) (read : Json → Option β) :
    Json → Option (List (κ × β))
  | .object fields =>
    (fields.mapM fun field =>
      (readKey field.1).bind fun key => (read field.2).map (Prod.mk key)).map fromEntries
  | _ => none

/-- The fields of a record: an object has each at most once and no others, an array has their
values in order. -/
def record? (names : List String) : Json → Option (List (String × Json))
  | .object fields =>
    if (fields.map Prod.fst).Nodup ∧ ∀ field ∈ fields, field.1 ∈ names then some fields else none
  | .array values => if values.length = names.length then some (names.zip values) else none
  | _ => none

/-- The field with the name, which must be there. -/
def required? (read : Json → Option β) (name : String) (fields : List (String × Json)) : Option β :=
  (fields.lookup name).bind read

theorem texts?_array (values : List String) : texts? (.array (values.map .string)) = some values :=
  Outcome.mapM_map_pure fun _ _ => rfl

/-- A map is read from its entries in any order. -/
theorem map?_object [LinearOrder κ] {readKey : String → Option κ} {writeKey : κ → String}
    {read : Json → Option β} {write : β → Json} {entries entries' : List (κ × β)}
    (hkey : ∀ entry ∈ entries, readKey (writeKey entry.1) = some entry.1)
    (hread : ∀ entry ∈ entries, read (write entry.2) = some entry.2) (hordered : Ordered entries)
    (hperm : entries'.Perm entries) :
    map? readKey read (.object (entries'.map fun entry => (writeKey entry.1, write entry.2))) =
      some entries := by
  have hmap : (entries'.map fun entry => (writeKey entry.1, write entry.2)).mapM (fun field =>
      (readKey field.1).bind fun key => (read field.2).map (Prod.mk key)) = some entries' := by
    refine Outcome.mapM_map_pure fun entry hentry => ?_
    have hmem := hperm.mem_iff.mp hentry
    simp only [hkey entry hmem, hread entry hmem, Option.bind_some, Option.map_some]
    rfl
  rw [map?, hmap, Option.map_some, fromEntries_of_perm hordered hperm]

end Shapes

end Json

/-- A writer and a reader of JSON texts: what was written is read, unless it is nested too
deeply. -/
class JsonReader extends JsonWriter where
  read : List Char → Option Json
  read_compact : ∀ value : Json, value.depth < 128 → read value.compact = some value

/-! ### A writer -/

/-- A lowercase hexadecimal digit. -/
def jsonHexDigit (value : ℕ) : Char :=
  if value < 10 then Char.ofNat (48 + value) else Char.ofNat (87 + value)

/-- What a character of a text is written as. -/
def jsonCharacter (c : Char) : List Char :=
  if c = '"' then ['\\', '"']
  else if c = '\\' then ['\\', '\\']
  else if c.toNat = 8 then ['\\', 'b']
  else if c.toNat = 9 then ['\\', 't']
  else if c.toNat = 10 then ['\\', 'n']
  else if c.toNat = 12 then ['\\', 'f']
  else if c.toNat = 13 then ['\\', 'r']
  else if c.toNat < 32 then
    ['\\', 'u', '0', '0', jsonHexDigit (c.toNat / 16), jsonHexDigit (c.toNat % 16)]
  else [c]

theorem jsonCharacter_plain {c : Char} (hcode : 32 ≤ c.toNat ∧ c.toNat < 127)
    (hquote : c ≠ '"') (hslash : c ≠ '\\') : jsonCharacter c = [c] := by
  rw [jsonCharacter, if_neg hquote, if_neg hslash, if_neg (by omega), if_neg (by omega),
    if_neg (by omega), if_neg (by omega), if_neg (by omega), if_neg (by omega)]

theorem jsonCharacter_ne_nil (c : Char) : 1 ≤ (jsonCharacter c).length := by
  unfold jsonCharacter
  repeat' split
  all_goals simp

/-- The writer that escapes quotes, backslashes and control characters. -/
@[reducible] def compactWriter : JsonWriter where
  jsonQuoted value := '"' :: value.toList.flatMap jsonCharacter ++ ['"']
  jsonQuoted_cons _ := ⟨_, rfl⟩
  length_jsonQuoted value := by
    have hflat : value.toList.length ≤ (value.toList.flatMap jsonCharacter).length := by
      induction value.toList with
      | nil => exact le_rfl
      | cons c rest ih =>
        have hpositive := jsonCharacter_ne_nil c
        rw [List.flatMap_cons, List.length_append, List.length_cons]
        omega
    rw [List.length_append, List.length_cons, List.length_singleton]
    omega
  jsonQuoted_plain value hplain := by
    have hsame : value.toList.flatMap jsonCharacter = value.toList := by
      refine Eq.trans (List.flatMap_congr fun c hc => ?_) (List.flatMap_singleton' _)
      obtain ⟨hleast, hmost, hquote, hslash⟩ := hplain c hc
      exact jsonCharacter_plain ⟨hleast, hmost⟩ hquote hslash
    rw [hsame]

/-! ### A reader of texts without blanks -/

namespace Json

attribute [local instance] compactWriter

def hexDigitValue? (c : Char) : Option ℕ :=
  if c.isDigit then some (c.toNat - 48)
  else if 'a' ≤ c ∧ c ≤ 'f' then some (c.toNat - 87)
  else none

/-- The character behind a backslash. -/
def unescaped? (c : Char) : Option Char :=
  if c = '"' ∨ c = '\\' ∨ c = '/' then some c
  else if c = 'b' then some (Char.ofNat 8)
  else if c = 't' then some (Char.ofNat 9)
  else if c = 'n' then some (Char.ofNat 10)
  else if c = 'f' then some (Char.ofNat 12)
  else if c = 'r' then some (Char.ofNat 13)
  else none

/-- The character of an escape with four digits, of which the last two are given. -/
def hexCharacter? (high low : Char) : Option Char := do
  let high ← hexDigitValue? high
  let low ← hexDigitValue? low
  some (Char.ofNat (16 * high + low))

/-- A text up to its closing quote, and what is behind it. -/
def readText : List Char → Option (List Char × List Char)
  | [] => none
  | '"' :: rest => some ([], rest)
  | '\\' :: 'u' :: '0' :: '0' :: high :: low :: rest =>
    (hexCharacter? high low).bind fun c => (readText rest).map (Prod.map (c :: ·) id)
  | '\\' :: c :: rest =>
    (unescaped? c).bind fun d => (readText rest).map (Prod.map (d :: ·) id)
  | c :: rest => (readText rest).map (Prod.map (c :: ·) id)

/-- The text with its beginning taken away. -/
def readWord (word : List Char) (value : Json) (text : List Char) : Option (Json × List Char) :=
  if word.isPrefixOf text then some (value, text.drop word.length) else none

def readNumber (text : List Char) : Option (Json × List Char) :=
  if text.takeWhile Char.isDigit = [] then none
  else some (.number (decimalValue (text.takeWhile Char.isDigit)), text.dropWhile Char.isDigit)

mutual

/-- A value at the beginning of the text, and what is behind it. -/
def readValue : ℕ → List Char → Option (Json × List Char)
  | 0, _ => none
  | _ + 1, [] => none
  | fuel + 1, c :: rest =>
    if c = 'n' then readWord ['u', 'l', 'l'] .null rest
    else if c = 't' then readWord ['r', 'u', 'e'] (.bool true) rest
    else if c = 'f' then readWord ['a', 'l', 's', 'e'] (.bool false) rest
    else if c = '"' then (readText rest).map (Prod.map (fun text => .string (String.ofList text)) id)
    else if c = '[' then
      if rest.head? = some ']' then some (.array [], rest.tail)
      else (readValues fuel rest).map (Prod.map .array id)
    else if c = '\x7b' then
      if rest.head? = some '\x7d' then some (.object [], rest.tail)
      else (readFields fuel rest).map (Prod.map .object id)
    else readNumber (c :: rest)

/-- The values up to the closing bracket. -/
def readValues : ℕ → List Char → Option (List Json × List Char)
  | 0, _ => none
  | fuel + 1, text =>
    (readValue fuel text).bind fun first =>
      if first.2.head? = some ',' then
        (readValues fuel first.2.tail).map (Prod.map (first.1 :: ·) id)
      else if first.2.head? = some ']' then some ([first.1], first.2.tail)
      else none

/-- The fields up to the closing brace. -/
def readFields : ℕ → List Char → Option (List (String × Json) × List Char)
  | 0, _ => none
  | fuel + 1, text =>
    if text.head? = some '"' then
      (readText text.tail).bind fun name =>
        if name.2.head? = some ':' then
          (readValue fuel name.2.tail).bind fun first =>
            if first.2.head? = some ',' then
              (readFields fuel first.2.tail).map
                (Prod.map ((String.ofList name.1, first.1) :: ·) id)
            else if first.2.head? = some '\x7d' then
              some ([(String.ofList name.1, first.1)], first.2.tail)
            else none
        else none
    else none

end

/-- The value that the whole text writes. -/
def readCompact (text : List Char) : Option Json :=
  (readValue (text.length + 1) text).bind fun value =>
    if value.2 = [] then some value.1 else none

/-! ### What was written is read -/

theorem jsonHexDigit_value {value : ℕ} (h : value < 16) :
    hexDigitValue? (jsonHexDigit value) = some value := by
  revert value
  decide

theorem readText_plain {c : Char} (hquote : c ≠ '"') (hslash : c ≠ '\\') (rest : List Char) :
    readText (c :: rest) = (readText rest).map (Prod.map (c :: ·) id) := by
  rw [readText.eq_def]
  split <;> simp_all

theorem readText_character (c : Char) (rest : List Char) :
    readText (jsonCharacter c ++ rest) = (readText rest).map (Prod.map (c :: ·) id) := by
  have hcode : ∀ code, c.toNat = code → c = Char.ofNat code := fun code h => by
    rw [← h, Char.ofNat_toNat]
  unfold jsonCharacter
  split
  · subst c
    rfl
  split
  · subst c
    rfl
  split
  case isTrue h =>
    rw [hcode 8 h]
    rfl
  split
  case isTrue h =>
    rw [hcode 9 h]
    rfl
  split
  case isTrue h =>
    rw [hcode 10 h]
    rfl
  split
  case isTrue h =>
    rw [hcode 12 h]
    rfl
  split
  case isTrue h =>
    rw [hcode 13 h]
    rfl
  split
  case isTrue h =>
    have hhigh : hexDigitValue? (jsonHexDigit (c.toNat / 16)) = some (c.toNat / 16) :=
      jsonHexDigit_value (by omega)
    have hlow : hexDigitValue? (jsonHexDigit (c.toNat % 16)) = some (c.toNat % 16) :=
      jsonHexDigit_value (by omega)
    have hc : hexCharacter? (jsonHexDigit (c.toNat / 16)) (jsonHexDigit (c.toNat % 16)) = some c := by
      rw [hexCharacter?, hhigh, hlow]
      show some (Char.ofNat (16 * (c.toNat / 16) + c.toNat % 16)) = some c
      rw [Nat.div_add_mod, Char.ofNat_toNat]
    show (hexCharacter? _ _).bind _ = _
    rw [hc]
    rfl
  case isFalse =>
    exact readText_plain ‹_› ‹_› rest

theorem readText_quoted (text rest : List Char) :
    readText (text.flatMap jsonCharacter ++ '"' :: rest) = some (text, rest) := by
  induction text with
  | nil => rfl
  | cons c text ih =>
    rw [List.flatMap_cons, List.append_assoc, readText_character, ih]
    rfl

theorem readText_jsonQuoted (value : String) (rest : List Char) :
    ∃ tail, jsonQuoted value ++ rest = '"' :: tail ∧
      readText tail = some (value.toList, rest) := by
  refine ⟨value.toList.flatMap jsonCharacter ++ '"' :: rest, ?_, readText_quoted _ _⟩
  simp [jsonQuoted]

/-- No digit follows. -/
def EndsNumber (rest : List Char) : Prop := ∀ c ∈ rest.head?, c.isDigit = false

theorem readNumber_toDigits (value : ℕ) {rest : List Char} (h : EndsNumber rest) :
    readNumber (Nat.toDigits 10 value ++ rest) = some (.number value, rest) := by
  have hdigits : ∀ c ∈ Nat.toDigits 10 value, c.isDigit = true := (isDecimal_toDigits value).2
  have htake : (Nat.toDigits 10 value ++ rest).takeWhile Char.isDigit = Nat.toDigits 10 value := by
    rw [List.takeWhile_append_of_pos hdigits]
    cases rest with
    | nil => simp
    | cons c rest => simp [h c rfl]
  have hdrop : (Nat.toDigits 10 value ++ rest).dropWhile Char.isDigit = rest := by
    rw [List.dropWhile_append_of_pos hdigits]
    cases rest with
    | nil => rfl
    | cons c rest => simp [h c rfl]
  rw [readNumber, htake, hdrop, if_neg Nat.toDigits_ne_nil, decimalValue_toDigits]

/-- The value is read in front of everything. -/
def Reads (value : Json) : Prop :=
  ∀ fuel rest, value.compact.length < fuel → EndsNumber rest →
    readValue fuel (value.compact ++ rest) = some (value, rest)

/-- The values are read in front of a closing bracket. -/
def ReadsValues (values : List Json) : Prop :=
  values ≠ [] → ∀ fuel rest, (compactValues values).length + 1 < fuel →
    readValues fuel (compactValues values ++ ']' :: rest) = some (values, rest)

/-- The fields are read in front of a closing brace. -/
def ReadsFields (fields : List (String × Json)) : Prop :=
  fields ≠ [] → ∀ fuel rest, (compactFields fields).length + 1 < fuel →
    readFields fuel (compactFields fields ++ '\x7d' :: rest) = some (fields, rest)

theorem reads_number (value : ℕ) : Reads (.number value) := by
  rintro (_ | fuel) rest hfuel hends
  · exact absurd hfuel (Nat.not_lt_zero _)
  · have hread := readNumber_toDigits value hends
    obtain ⟨c, digits, hdigits⟩ :=
      List.exists_cons_of_ne_nil (Nat.toDigits_ne_nil (b := 10) (n := value))
    have hc : c.isDigit = true :=
      (isDecimal_toDigits value).2 c (hdigits ▸ List.mem_cons_self)
    have hne : ∀ d : Char, d.isDigit = false → c ≠ d := by
      rintro d hd rfl
      rw [hc] at hd
      cases hd
    show readValue (fuel + 1) (Nat.toDigits 10 value ++ rest) = _
    rw [hdigits, List.cons_append] at hread ⊢
    rw [readValue, if_neg (hne _ (by decide)), if_neg (hne _ (by decide)),
      if_neg (hne _ (by decide)), if_neg (hne _ (by decide)), if_neg (hne _ (by decide)),
      if_neg (hne _ (by decide)), hread]

theorem reads_string (value : String) : Reads (.string value) := by
  rintro (_ | fuel) rest hfuel -
  · exact absurd hfuel (Nat.not_lt_zero _)
  · obtain ⟨tail, htext, hread⟩ := readText_jsonQuoted value rest
    show readValue (fuel + 1) (jsonQuoted value ++ rest) = _
    rw [htext, readValue, if_neg (by decide), if_neg (by decide), if_neg (by decide), if_pos rfl,
      hread]
    show some (Json.string (String.ofList value.toList), rest) = _
    rw [String.ofList_toList]

theorem reads_array {values : List Json} (h : ReadsValues values) : Reads (.array values) := by
  rintro (_ | fuel) rest hfuel -
  · exact absurd hfuel (Nat.not_lt_zero _)
  · cases values with
    | nil => rfl
    | cons first values =>
      have hlength : (compact (.array (first :: values))).length =
          (compactValues (first :: values)).length + 2 := by
        simp [compact]
      have hread := h (List.cons_ne_nil _ _) fuel rest (by omega)
      obtain ⟨c, tail, hc, hne⟩ := compactValues_cons first values
      show readValue (fuel + 1) ('[' :: compactValues (first :: values) ++ [']'] ++ rest) = _
      rw [List.append_assoc, List.cons_append, List.singleton_append, readValue,
        if_neg (by decide), if_neg (by decide), if_neg (by decide), if_neg (by decide), if_pos rfl,
        if_neg, hread]
      · rfl
      · rw [hc]
        simpa using hne

theorem reads_object {fields : List (String × Json)} (h : ReadsFields fields) :
    Reads (.object fields) := by
  rintro (_ | fuel) rest hfuel -
  · exact absurd hfuel (Nat.not_lt_zero _)
  · cases fields with
    | nil => rfl
    | cons first fields =>
      have hlength : (compact (.object (first :: fields))).length =
          (compactFields (first :: fields)).length + 2 := by
        simp [compact]
      have hread := h (List.cons_ne_nil _ _) fuel rest (by omega)
      obtain ⟨tail, htail⟩ := compactFields_cons first.1 first.2 fields
      show readValue (fuel + 1) ('\x7b' :: compactFields (first :: fields) ++ ['\x7d'] ++ rest) = _
      rw [List.append_assoc, List.cons_append, List.singleton_append, readValue,
        if_neg (by decide), if_neg (by decide), if_neg (by decide), if_neg (by decide),
        if_neg (by decide), if_pos rfl, if_neg, hread]
      · rfl
      · rw [show first = (first.1, first.2) from rfl, htail, List.cons_append, List.head?_cons,
          Option.some_inj]
        decide

theorem readsValues_cons {first : Json} {values : List Json} (hfirst : Reads first)
    (hvalues : ReadsValues values) : ReadsValues (first :: values) := by
  rintro - (_ | fuel) rest hfuel
  · exact absurd hfuel (Nat.not_lt_zero _)
  · cases values with
    | nil =>
      have hlast : EndsNumber (']' :: rest) := by
        rintro c hc
        obtain rfl := Option.some.inj hc
        decide
      have hread := hfirst fuel (']' :: rest) (by simp only [compactValues] at hfuel; omega) hlast
      rw [readValues, compactValues, hread]
      rfl
    | cons next values =>
      have hcomma : EndsNumber (',' :: (compactValues (next :: values) ++ ']' :: rest)) := by
        rintro c hc
        obtain rfl := Option.some.inj hc
        decide
      have hlength : (compactValues (first :: next :: values)).length =
          first.compact.length + ((compactValues (next :: values)).length + 1) := by
        rw [compactValues, List.length_append, List.length_cons]
      have hread := hfirst fuel _ (by omega) hcomma
      have hrest := hvalues (List.cons_ne_nil _ _) fuel rest (by omega)
      rw [readValues, compactValues, List.append_assoc, List.cons_append, hread]
      show (readValues fuel (compactValues (next :: values) ++ ']' :: rest)).map _ = _
      rw [hrest]
      rfl

theorem readsFields_cons {name : String} {first : Json} {fields : List (String × Json)}
    (hfirst : Reads first) (hfields : ReadsFields fields) :
    ReadsFields ((name, first) :: fields) := by
  rintro - (_ | fuel) rest hfuel
  · exact absurd hfuel (Nat.not_lt_zero _)
  · cases fields with
    | nil =>
      have hlast : EndsNumber ('\x7d' :: rest) := by
        rintro c hc
        obtain rfl := Option.some.inj hc
        decide
      have hlength : (compactFields [(name, first)]).length =
          (jsonQuoted name).length + (first.compact.length + 1) := by
        rw [compactFields, List.length_append, List.length_cons]
      have hread := hfirst fuel ('\x7d' :: rest) (by omega) hlast
      obtain ⟨tail, htext, hname⟩ :=
        readText_jsonQuoted name (':' :: (first.compact ++ '\x7d' :: rest))
      rw [readFields, compactFields, List.append_assoc, List.cons_append, htext]
      show (readText tail).bind _ = _
      rw [hname]
      show (readValue fuel (first.compact ++ '\x7d' :: rest)).bind _ = _
      rw [hread]
      show some ([(String.ofList name.toList, first)], rest) = _
      rw [String.ofList_toList]
    | cons next fields =>
      have hcomma : EndsNumber (',' :: (compactFields (next :: fields) ++ '\x7d' :: rest)) := by
        rintro c hc
        obtain rfl := Option.some.inj hc
        decide
      have htext' : compactFields ((name, first) :: next :: fields) =
          jsonQuoted name ++ (':' :: (first.compact ++ ',' :: compactFields (next :: fields))) := by
        rw [compactFields, List.append_assoc, List.cons_append]
      have hlength : (compactFields ((name, first) :: next :: fields)).length =
          (jsonQuoted name).length +
            (first.compact.length + ((compactFields (next :: fields)).length + 1) + 1) := by
        rw [htext']
        simp only [List.length_append, List.length_cons]
      have hread := hfirst fuel _ (by omega) hcomma
      have hrest := hfields (List.cons_ne_nil _ _) fuel rest (by omega)
      obtain ⟨tail, htext, hname⟩ := readText_jsonQuoted name
        (':' :: (first.compact ++ ',' :: (compactFields (next :: fields) ++ '\x7d' :: rest)))
      have hwhole : compactFields ((name, first) :: next :: fields) ++ '\x7d' :: rest =
          '"' :: tail := by
        rw [htext', ← htext]
        simp only [List.append_assoc, List.cons_append]
      rw [readFields, hwhole]
      show (readText tail).bind _ = _
      rw [hname]
      show (readValue fuel (first.compact ++
        ',' :: (compactFields (next :: fields) ++ '\x7d' :: rest))).bind _ = _
      rw [hread]
      show (readFields fuel (compactFields (next :: fields) ++ '\x7d' :: rest)).map _ = _
      rw [hrest]
      show some ((String.ofList name.toList, first) :: next :: fields, rest) = _
      rw [String.ofList_toList]

theorem reads (value : Json) : Reads value :=
  @Json.rec Reads ReadsValues ReadsFields (fun field => Reads field.2)
    (by rintro (_ | fuel) rest hfuel -
        · exact absurd hfuel (Nat.not_lt_zero _)
        · rfl)
    (by rintro (_ | _) (_ | fuel) rest hfuel -
        · exact absurd hfuel (Nat.not_lt_zero _)
        · rfl
        · exact absurd hfuel (Nat.not_lt_zero _)
        · rfl)
    reads_number reads_string (fun _ => reads_array) (fun _ => reads_object)
    (fun h => absurd rfl h) (fun _ _ => readsValues_cons) (fun h => absurd rfl h)
    (fun _ _ => readsFields_cons) (fun _ _ h => h) value

theorem readCompact_compact (value : Json) : readCompact value.compact = some value := by
  have hread := reads value (value.compact.length + 1) [] (Nat.lt_succ_self _) (fun _ h => by cases h)
  rw [List.append_nil] at hread
  rw [readCompact, hread]
  rfl

end Json

/-- The writer, and the reader of texts without blanks. -/
abbrev compactReader : JsonReader where
  toJsonWriter := compactWriter
  read := Json.readCompact
  read_compact value _ := Json.readCompact_compact value

end BlobYard
