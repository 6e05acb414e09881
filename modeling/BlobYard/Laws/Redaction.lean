/-
What a redacted result shows.

A result keeps its shape, and no sensitive key holds anything but the marker.  Which keys are
sensitive depends on how they are spelled: a key with its words run together is compared with other
terms than one with separators, and an invitation keeps its URL under two of its four spellings.

* `Redacted` — what holds of every result;
* `Spelled` — a key that is written the same twice, or words in one style and in another;
* `Uniform` — the values where the spelling makes no difference;
* `sanitize_law` — these are the values that are redacted at the same places;
* `oauthCode_differs` — a value that is not.
-/
import BlobYard.Laws.KeySpellings

namespace BlobYard

namespace Sanitize

open JsonTree

variable {Number : Type}

/-! ### Every result -/

mutual

/-- The arrays and keys of a value, with everything but its strings and what stands under sensitive
keys. -/
def shape (issued : IssuedCapability) : Value Number → Value Number
  | .array items => .array (shapeItems issued items)
  | .object fields => .object (shapeFields issued fields)
  | .string _ => .string []
  | .null => .null
  | .bool value => .bool value
  | .number value => .number value

def shapeItems (issued : IssuedCapability) : List (Value Number) → List (Value Number)
  | [] => []
  | item :: items => shape issued item :: shapeItems issued items

def shapeFields (issued : IssuedCapability) :
    List (List Char × Value Number) → List (List Char × Value Number)
  | [] => []
  | (key, item) :: fields =>
    (key, if sensitiveKey key issued then .string [] else shape issued item) ::
      shapeFields issued fields

end

theorem shape_array (issued : IssuedCapability) (items : List (Value Number)) :
    shape issued (.array items) = .array (items.map (shape issued)) := by
  rw [shape]
  congr 1
  induction items with
  | nil => rfl
  | cons item items ih => rw [shapeItems, ih, List.map_cons]

/-- The shape of the value of a field. -/
def fieldShape (issued : IssuedCapability) (field : List Char × Value Number) : Value Number :=
  if sensitiveKey field.1 issued then .string [] else shape issued field.2

theorem shape_object (issued : IssuedCapability) (fields : List (List Char × Value Number)) :
    shape issued (.object fields) =
      .object (fields.map fun field => (field.1, fieldShape issued field)) := by
  rw [shape]
  congr 1
  induction fields with
  | nil => rfl
  | cons field fields ih =>
    rw [shapeFields, ih, List.map_cons]
    rfl

/-- The value of a field is an invitation that stays, becomes the marker, or is rewritten. -/
theorem sanitizeField_cases (issued : IssuedCapability) (root : Bool)
    (field : List Char × Value Number) :
    (root = true ∧ issued = .guestInvitation ∧ field.1 ∈ invitationKeys ∧
        ∃ text, field.2 = .string text ∧ sanitizeField issued root field = .string text) ∨
      (sensitiveKey field.1 issued = true ∧
        sanitizeField issued root field = .string redacted) ∨
      (sensitiveKey field.1 issued = false ∧
        sanitizeField issued root field = sanitizeValue issued false field.2) := by
  rw [sanitizeField]
  split
  case isTrue hkept =>
    rw [Bool.and_eq_true, issuedGuestInvitationUrl_eq] at hkept
    obtain ⟨hroot, hissued, hkey, text, htext⟩ := hkept
    exact Or.inl ⟨hroot, hissued, hkey, text, htext, htext⟩
  case isFalse =>
    split
    case isTrue hsensitive => exact Or.inr (Or.inl ⟨hsensitive, rfl⟩)
    case isFalse hsensitive => exact Or.inr (Or.inr ⟨Bool.eq_false_iff.mpr hsensitive, rfl⟩)

theorem shape_sanitizeValue (issued : IssuedCapability) (root : Bool) (value : Value Number) :
    shape issued (sanitizeValue issued root value) = shape issued value := by
  induction value using JsonTree.induct generalizing root with
  | null => rfl
  | bool => rfl
  | number => rfl
  | string => rfl
  | array items ih =>
    rw [sanitizeValue_array, shape_array, shape_array, List.map_map]
    exact congrArg _ (List.map_congr_left fun item hitem => ih item hitem false)
  | object fields ih =>
    rw [sanitizeValue_object, shape_object, shape_object, List.map_map]
    refine congrArg _ (List.map_congr_left fun field hfield => Prod.ext rfl ?_)
    show fieldShape issued (field.1, sanitizeField issued root field) = fieldShape issued field
    rw [fieldShape, fieldShape]
    rcases sanitizeField_cases issued root field with
      ⟨-, -, -, text, htext, hkept⟩ | ⟨hsensitive, -⟩ | ⟨hplain, hrest⟩
    · rw [hkept, htext]
    · rw [if_pos hsensitive, if_pos hsensitive]
    · rw [hrest, ih field hfield false]

/-- What is shown once is shown again. -/
theorem sanitizeValue_idempotent (issued : IssuedCapability) (root : Bool)
    (value : Value Number) :
    sanitizeValue issued root (sanitizeValue issued root value) =
      sanitizeValue issued root value := by
  induction value using JsonTree.induct generalizing root with
  | null => rfl
  | bool => rfl
  | number => rfl
  | string text =>
    -- a string is the marker already, or its query is not sensitive and it stays
    by_cases hurl : sensitiveUrl text = true
    · rw [sanitizeValue, if_pos hurl, sanitizeValue_redacted]
    · rw [sanitizeValue, if_neg hurl, sanitizeValue, if_neg hurl]
  | array items ih =>
    rw [sanitizeValue_array, sanitizeValue_array, List.map_map]
    exact congrArg _ (List.map_congr_left fun item hitem => ih item hitem false)
  | object fields ih =>
    rw [sanitizeValue_object, sanitizeValue_object, List.map_map]
    refine congrArg _ (List.map_congr_left fun field hfield => Prod.ext rfl ?_)
    -- the field is looked at twice, in three ways each time
    show sanitizeField issued root (field.1, sanitizeField issued root field) =
      sanitizeField issued root field
    generalize hfirst : sanitizeField issued root field = first
    rcases sanitizeField_cases issued root (field.1, first) with
      ⟨-, -, -, text, htext, hkept⟩ | ⟨hsensitive, hmarker⟩ | ⟨hplain, hagain⟩
    · exact hkept.trans htext.symm
    -- the invitation is kept the second time too
    -- a sensitive key is no invitation, and holds the marker already
    · rcases sanitizeField_cases issued root field with
        ⟨-, -, hkey, -⟩ | ⟨-, hbefore⟩ | ⟨hplain, -⟩
      · rw [sensitiveKey_invitation hkey issued] at hsensitive
        exact absurd hsensitive Bool.false_ne_true
      · exact hmarker.trans (hbefore.symm.trans hfirst)
      · rw [hplain] at hsensitive
        exact absurd hsensitive Bool.false_ne_true
    -- a plain key: the invitation, or the value inside it once more
    · rcases sanitizeField_cases issued root field with
        ⟨hroot, hissued, hkey, text, htext, hbefore⟩ | ⟨hsensitive, -⟩ | ⟨-, hbefore⟩
      · have hkept : issuedGuestInvitationUrl field.1 first issued = true :=
          issuedGuestInvitationUrl_eq.mpr ⟨hissued, hkey, text, hfirst.symm.trans hbefore⟩
        rw [sanitizeField, if_pos (by rw [hroot, Bool.true_and]; exact hkept)]
      · rw [hplain] at hsensitive
        exact absurd hsensitive Bool.false_ne_true
      · rw [hagain, ← hfirst, hbefore]
        exact ih field hfield false

/-- A sensitive key holds the marker, however deep it is. -/
theorem sensitiveKey_marker {issued : IssuedCapability} {root : Bool} {value : Value Number}
    {path : List (Option (List Char))} {fields : List (List Char × Value Number)}
    {key : List Char} {item : Value Number}
    (h : Holds (sanitizeValue issued root value) path (.object fields))
    (hmem : (key, item) ∈ fields) (hkey : sensitiveKey key issued = true) :
    item = .string redacted := by
  induction value using JsonTree.induct generalizing root path with
  | null => cases h
  | bool => cases h
  | number => cases h
  | string => cases h
  -- a path into an array goes through one of its items
  | array items ih =>
    rw [sanitizeValue_array] at h
    cases h with
    | item hshown h =>
      obtain ⟨item, hitem, rfl⟩ := List.mem_map.mp hshown
      exact ih item hitem h
  | object all ih =>
    rw [sanitizeValue_object] at h
    cases h with
    -- the path ends here: the field is one of this object
    | here =>
      obtain ⟨field, -, heq⟩ := List.mem_map.mp hmem
      obtain ⟨rfl, rfl⟩ := Prod.mk.inj heq
      rcases sanitizeField_cases issued root field with
        ⟨-, -, hinvitation, -⟩ | ⟨-, hmarker⟩ | ⟨hplain, -⟩
      · rw [sensitiveKey_invitation hinvitation issued] at hkey
        exact absurd hkey Bool.false_ne_true
      · exact hmarker
      · rw [hplain] at hkey
        exact absurd hkey Bool.false_ne_true
    -- the path goes on: below an invitation or a marker there is nothing
    | field hshown h =>
      obtain ⟨field, hfield, heq⟩ := List.mem_map.mp hshown
      obtain ⟨rfl, rfl⟩ := Prod.mk.inj heq
      rcases sanitizeField_cases issued root field with
        ⟨-, -, -, text, -, hkept⟩ | ⟨-, hmarker⟩ | ⟨-, hrest⟩
      · rw [hkept] at h
        cases h
      · rw [hmarker] at h
        cases h
      · rw [hrest] at h
        exact ih field hfield h

/-- A string with a sensitive query is an invitation at the root. -/
theorem sensitiveUrl_invitation {issued : IssuedCapability} {root : Bool} {value : Value Number}
    {path : List (Option (List Char))} {text : List Char}
    (h : Holds (sanitizeValue issued root value) path (.string text))
    (hurl : sensitiveUrl text = true) :
    root = true ∧ issued = .guestInvitation ∧ ∃ key ∈ invitationKeys, path = [some key] := by
  -- the marker itself has no sensitive query
  have hmarker : ∀ {path : List (Option (List Char))},
      ¬Holds (.string redacted : Value Number) path (.string text) := by
    intro path hholds
    obtain ⟨-, heq⟩ := hholds.of_string
    obtain rfl := JsonTree.string.inj heq
    rw [sensitiveUrl_redacted] at hurl
    exact absurd hurl Bool.false_ne_true
  induction value using JsonTree.induct generalizing root path with
  | null => cases h
  | bool => cases h
  | number => cases h
  -- a string of the tree that is shown as it is has no sensitive query
  | string original =>
    rw [sanitizeValue] at h
    split at h
    case isTrue => exact absurd h hmarker
    case isFalse hplain =>
      obtain ⟨-, heq⟩ := h.of_string
      obtain rfl := JsonTree.string.inj heq
      exact absurd hurl hplain
  -- below the root no invitation is kept, so the induction hypothesis excludes the string
  | array items ih =>
    rw [sanitizeValue_array] at h
    cases h with
    | item hshown h =>
      obtain ⟨item, hitem, rfl⟩ := List.mem_map.mp hshown
      exact absurd (ih item hitem h).1 Bool.false_ne_true
  | object fields ih =>
    rw [sanitizeValue_object] at h
    cases h with
    | field hshown h =>
      obtain ⟨field, hfield, heq⟩ := List.mem_map.mp hshown
      obtain ⟨rfl, rfl⟩ := Prod.mk.inj heq
      -- an invitation at the root, the marker, or a value further down
      rcases sanitizeField_cases issued root field with
        ⟨hroot, hissued, hkey, kept, -, hkept⟩ | ⟨-, hredacted⟩ | ⟨-, hrest⟩
      · rw [hkept] at h
        obtain ⟨rfl, -⟩ := h.of_string
        exact ⟨hroot, hissued, field.1, hkey, rfl⟩
      · rw [hredacted] at h
        exact absurd h hmarker
      · rw [hrest] at h
        exact absurd (ih field hfield h).1 Bool.false_ne_true

/-- What holds of a redacted value. -/
structure Redacted (issued : IssuedCapability) (value : Value Number) : Prop where
  shape_eq : shape issued (sanitize issued value) = shape issued value
  idempotent : sanitize issued (sanitize issued value) = sanitize issued value
  keys : ∀ path fields key item, Holds (sanitize issued value) path (.object fields) →
    (key, item) ∈ fields → sensitiveKey key issued = true → item = .string redacted
  urls : ∀ path text, Holds (sanitize issued value) path (.string text) →
    sensitiveUrl text = true → issued = .guestInvitation ∧ ∃ key ∈ invitationKeys, path = [some key]

theorem sanitize_redacted (issued : IssuedCapability) (value : Value Number) :
    Redacted issued value where
  shape_eq := shape_sanitizeValue issued true value
  idempotent := sanitizeValue_idempotent issued true value
  keys _ _ _ _ h hmem hkey := sensitiveKey_marker h hmem hkey
  urls _ _ h hurl := (sensitiveUrl_invitation h hurl).2

/-! ### Two spellings of a value -/

/-- A key as it stands in two values: written the same twice, or as words in two styles. -/
inductive Spelled where
  | same (key : List Char)
  | styled (words : List Word) (left right : Style)

def Spelled.left : Spelled → List Char
  | .same key => key
  | .styled words style _ => writeWords style (words.map Word.text)

def Spelled.right : Spelled → List Char
  | .same key => key
  | .styled words _ style => writeWords style (words.map Word.text)

/-- One of the keys has its words run together and the other has separators, and this decides. -/
def Spelled.Ambiguous (issued : IssuedCapability) : Spelled → Prop
  | .same _ => False
  | .styled words left right =>
    (left = .camel ↔ right ≠ .camel) ∧ StyleDecides issued (words.map Word.text)

/-- One of the keys is that of an invitation, and the other is not. -/
def Spelled.HalfInvitation (key : Spelled) : Prop :=
  key.left ∈ invitationKeys ↔ key.right ∉ invitationKeys

theorem Spelled.ambiguous_iff {issued : IssuedCapability} {key : Spelled} :
    key.Ambiguous issued ↔ sensitiveKey key.left issued ≠ sensitiveKey key.right issued := by
  cases key with
  | same key => exact ⟨False.elim, fun hdiffer => hdiffer rfl⟩
  | styled words left right =>
    have hplain := plainWords words
    have hleft := @sensitiveKey_writeWords issued left _ hplain
    have hright := @sensitiveKey_writeWords issued right _ hplain
    have hdiffer : sensitiveKey (writeWords left (words.map Word.text)) issued ≠
        sensitiveKey (writeWords right (words.map Word.text)) issued ↔
          ¬(Sensitive issued left (words.map Word.text) ↔
            Sensitive issued right (words.map Word.text)) := by
      rw [← hleft, ← hright, ← Bool.eq_iff_iff]
    refine Iff.trans ?_ hdiffer.symm
    rw [Ambiguous, styleDecides_iff, Sensitive, Sensitive]
    by_cases hl : left = .camel
    · by_cases hr : right = .camel
      · simp [hl, hr]
      · simp [hl, hr]
    · by_cases hr : right = .camel
      · simp [hl, hr, iff_comm]
      · simp [hl, hr]

/-- The letters of an invitation are not sensitive in any style. -/
theorem Spelled.not_ambiguous {issued : IssuedCapability} {key : Spelled}
    (h : key.left ∈ invitationKeys ∨ key.right ∈ invitationKeys) : ¬key.Ambiguous issued := by
  cases key with
  | same key => exact id
  | styled words left right =>
    -- the letters of the words are those of the key, in whatever style
    have hplain := plainWords words
    have hkeys : ∀ key ∈ invitationKeys,
        (normalizeKey key).filter (· ≠ '_') = "invitationurl".toList := by decide
    have hletters : (words.map Word.text).flatten = "invitationurl".toList := by
      rcases h with h | h
      · rw [← @normalizeKey_letters left _ hplain]
        exact hkeys _ h
      · rw [← @normalizeKey_letters right _ hplain]
        exact hkeys _ h
    -- no term is within these letters
    have hinfix : ∀ term ∈ ["oauthcode".toList, "signedurl".toList] ++ joinedTerms,
        ¬term <:+: "invitationurl".toList := by
      intro term hterm
      rw [← containsText_iff]
      revert term
      decide
    have hnames : (∀ name ∈ capabilityNames, "invitationurl".toList ≠ name.1.flatten) ∧
        ∀ name ∈ secretNames, "invitationurl".toList ≠ name.flatten := by decide
    -- and it is no sensitive name that was run together
    have hjoined : ¬RunTogether issued (words.map Word.text) := by
      rintro (⟨name, hname, hwords, -⟩ | ⟨name, hname, hwords⟩ | ⟨term, hterm, hwords⟩)
      · exact hnames.1 name hname (hletters.symm.trans hwords)
      · exact hnames.2 name hname (hletters.symm.trans hwords)
      · rw [hletters] at hwords
        exact hinfix term (List.mem_append_right _ hterm) hwords
    -- neither way to be ambiguous is open to these letters
    rintro ⟨-, ⟨hsplit, -⟩ | ⟨hwords, -⟩⟩
    · rcases hsplit with hsplit | hsplit
      · have hwords := hsplit.infix_flatten
        rw [hletters] at hwords
        exact hinfix _ (by decide) hwords
      · have hwords := hsplit.infix_flatten
        rw [hletters] at hwords
        exact hinfix _ (by decide) hwords
    · exact hjoined hwords

/-! ### The places -/

/-- A string that is shown as the marker wherever it stands. -/
def ShownAsMarker {Key : Type} : JsonTree Number Key → Prop
  | .string text => text = redacted ∨ sensitiveUrl text = true
  | _ => False

/-- A string with a sensitive query. -/
def HasSensitiveUrl {Key : Type} : JsonTree Number Key → Prop
  | .string text => sensitiveUrl text = true
  | _ => False

/-- The values where the spelling makes no difference: where it decides whether a key is sensitive,
the value is shown as the marker anyway, and where it decides whether an invitation stays, the URL
has no sensitive query.  What stands under a sensitive key does not matter. -/
inductive Uniform (issued : IssuedCapability) : Bool → JsonTree Number Spelled → Prop
  | null {root : Bool} : Uniform issued root .null
  | bool {root : Bool} (value : Bool) : Uniform issued root (.bool value)
  | number {root : Bool} (value : Number) : Uniform issued root (.number value)
  | string {root : Bool} (text : List Char) : Uniform issued root (.string text)
  | array {root : Bool} {items : List (JsonTree Number Spelled)}
    (h : ∀ item ∈ items, Uniform issued false item) : Uniform issued root (.array items)
  | object {root : Bool} {fields : List (Spelled × JsonTree Number Spelled)}
    (hkeys : ∀ field ∈ fields, field.1.Ambiguous issued → ShownAsMarker field.2)
    (hinvitation : root = true → issued = .guestInvitation →
      ∀ field ∈ fields, field.1.HalfInvitation → ¬HasSensitiveUrl field.2)
    (hrest : ∀ field ∈ fields, sensitiveKey field.1.left issued = false →
      Uniform issued false field.2) : Uniform issued root (.object fields)

/-- The tree without its keys. -/
def forget {Key : Type} (value : JsonTree Number Key) : JsonTree Number Unit :=
  value.mapKeys fun _ => ()

/-- When a string under a key is replaced. -/
def Hidden (issued : IssuedCapability) (root : Bool) (key text : List Char) : Prop :=
  ¬(root = true ∧ issued = .guestInvitation ∧ key ∈ invitationKeys) ∧
    (sensitiveKey key issued = true ∨ sensitiveUrl text = true)

theorem sanitizeField_string {issued : IssuedCapability} {root : Bool} {key text : List Char} :
    (Hidden issued root key text ∧
        sanitizeField issued root (key, (.string text : Value Number)) = .string redacted) ∨
      (¬Hidden issued root key text ∧
        sanitizeField issued root (key, (.string text : Value Number)) = .string text) := by
  have hcondition : (root && issuedGuestInvitationUrl key (.string text : Value Number) issued) =
      true ↔ root = true ∧ issued = .guestInvitation ∧ key ∈ invitationKeys := by
    rw [Bool.and_eq_true, issuedGuestInvitationUrl_eq]
    exact ⟨fun h => ⟨h.1, h.2.1, h.2.2.1⟩, fun h => ⟨h.1, h.2.1, h.2.2, text, rfl⟩⟩
  rw [sanitizeField]
  by_cases hkept : root = true ∧ issued = .guestInvitation ∧ key ∈ invitationKeys
  · exact Or.inr ⟨fun hhidden => hhidden.1 hkept, if_pos (hcondition.mpr hkept)⟩
  · rw [if_neg fun h => hkept (hcondition.mp h)]
    by_cases hsensitive : sensitiveKey key issued = true
    · exact Or.inl ⟨⟨hkept, Or.inl hsensitive⟩, if_pos hsensitive⟩
    · rw [if_neg hsensitive, sanitizeValue]
      by_cases hurl : sensitiveUrl text = true
      · exact Or.inl ⟨⟨hkept, Or.inr hurl⟩, by rw [if_pos hurl]⟩
      · exact Or.inr ⟨fun hhidden => hhidden.2.elim hsensitive hurl, by rw [if_neg hurl]⟩

/-- A value that is no string never stays as an invitation. -/
theorem sanitizeField_of_not_string {issued : IssuedCapability} {root : Bool} {key : List Char}
    {value : Value Number} (h : ∀ text, value ≠ .string text) :
    sanitizeField issued root (key, value) =
      if sensitiveKey key issued then .string redacted else sanitizeValue issued false value := by
  rw [sanitizeField, if_neg]
  rw [Bool.and_eq_true, issuedGuestInvitationUrl_eq]
  rintro ⟨-, -, -, text, htext⟩
  exact h text htext

/-- And it does not become a string on its own. -/
theorem forget_ne_string {issued : IssuedCapability} {value : Value Number}
    (h : ∀ text, value ≠ .string text) (text : List Char) :
    forget (sanitizeValue issued false value) ≠ .string text := by
  cases value with
  | string text => exact absurd rfl (h text)
  | _ =>
    intro heq
    cases heq

/-- Two spellings of a field with a string. -/
theorem sanitizeField_string_iff {issued : IssuedCapability} {root : Bool} {key : Spelled}
    {text : List Char} :
    sanitizeField issued root (key.left, (.string text : Value Number)) =
        sanitizeField issued root (key.right, .string text) ↔
      (key.Ambiguous issued → text = redacted ∨ sensitiveUrl text = true) ∧
        (root = true → issued = .guestInvitation → key.HalfInvitation →
          ¬sensitiveUrl text = true) := by
  -- the marker and a string with a sensitive query exclude each other
  have hmarker : text = redacted → ¬sensitiveUrl text = true := by
    rintro rfl
    rw [sensitiveUrl_redacted]
    exact Bool.false_ne_true
  have hleft : key.left ∈ invitationKeys → sensitiveKey key.left issued = false :=
    fun h => sensitiveKey_invitation h issued
  have hright : key.right ∈ invitationKeys → sensitiveKey key.right issued = false :=
    fun h => sensitiveKey_invitation h issued
  have hclear : key.left ∈ invitationKeys ∨ key.right ∈ invitationKeys →
      sensitiveKey key.left issued = sensitiveKey key.right issued := by
    intro h
    by_contra hdiffer
    exact Spelled.not_ambiguous h (Spelled.ambiguous_iff.mpr hdiffer)
  -- two spellings show one string when both hide it, or when hiding changes nothing
  have hsame : sanitizeField issued root (key.left, (.string text : Value Number)) =
      sanitizeField issued root (key.right, .string text) ↔
        text = redacted ∨
          (Hidden issued root key.left text ↔ Hidden issued root key.right text) := by
    rcases @sanitizeField_string Number issued root key.left text with
      ⟨hl, hshownl⟩ | ⟨hl, hshownl⟩
    · rcases @sanitizeField_string Number issued root key.right text with
        ⟨hr, hshownr⟩ | ⟨hr, hshownr⟩
      · exact iff_of_true (hshownl.trans hshownr.symm) (Or.inr (iff_of_true hl hr))
      · rw [hshownl, hshownr, JsonTree.string.injEq]
        exact ⟨fun h => Or.inl h.symm, fun h => (h.resolve_right fun h => hr (h.mp hl)).symm⟩
    · rcases @sanitizeField_string Number issued root key.right text with
        ⟨hr, hshownr⟩ | ⟨hr, hshownr⟩
      · rw [hshownl, hshownr, JsonTree.string.injEq]
        exact ⟨Or.inl, fun h => h.resolve_right fun h => hl (h.mpr hr)⟩
      · exact iff_of_true (hshownl.trans hshownr.symm) (Or.inr (iff_of_false hl hr))
  rw [hsame, Spelled.ambiguous_iff, Spelled.HalfInvitation, Hidden, Hidden]
  grind

/-- A field of two spellings of a value is redacted in both or in none. -/
theorem sanitizeField_eq_iff {issued : IssuedCapability} {root : Bool} {key : Spelled}
    {item : JsonTree Number Spelled}
    (ih : forget (sanitizeValue issued false (item.mapKeys Spelled.left)) =
        forget (sanitizeValue issued false (item.mapKeys Spelled.right)) ↔
      Uniform issued false item) :
    forget (sanitizeField issued root (key.left, item.mapKeys Spelled.left)) =
        forget (sanitizeField issued root (key.right, item.mapKeys Spelled.right)) ↔
      (key.Ambiguous issued → ShownAsMarker item) ∧
        (root = true → issued = .guestInvitation → key.HalfInvitation → ¬HasSensitiveUrl item) ∧
        (sensitiveKey key.left issued = false → Uniform issued false item) := by
  by_cases hstring : ∃ text, item = .string text
  -- a string is decided by the lemma above
  case pos =>
    obtain ⟨text, rfl⟩ := hstring
    have hshown : ∀ key, ∃ shown,
        sanitizeField issued root (key, (.string text : Value Number)) = .string shown := by
      intro key
      rcases @sanitizeField_string Number issued root key text with ⟨-, h⟩ | ⟨-, h⟩
      · exact ⟨redacted, h⟩
      · exact ⟨text, h⟩
    have hiff := @sanitizeField_string_iff Number issued root key text
    obtain ⟨left, hleft⟩ := hshown key.left
    obtain ⟨right, hright⟩ := hshown key.right
    rw [hleft, hright, JsonTree.string.injEq] at hiff
    rw [mapKeys, mapKeys, hleft, hright, forget, forget, mapKeys, mapKeys, JsonTree.string.injEq,
      hiff]
    exact and_congr_right fun _ => (and_iff_left fun _ => .string text).symm
  -- anything else is hidden or looked into, by its key only
  case neg =>
    have hleft : ∀ text, item.mapKeys Spelled.left ≠ .string text := by
      intro text htext
      cases item with
      | string text => exact absurd ⟨text, rfl⟩ hstring
      | _ => cases htext
    have hright : ∀ text, item.mapKeys Spelled.right ≠ .string text := by
      intro text htext
      cases item with
      | string text => exact absurd ⟨text, rfl⟩ hstring
      | _ => cases htext
    have hmarker : ¬ShownAsMarker item ∧ ¬HasSensitiveUrl item := by
      cases item with
      | string text => exact absurd ⟨text, rfl⟩ hstring
      | _ => exact ⟨id, id⟩
    rw [sanitizeField_of_not_string hleft, sanitizeField_of_not_string hright,
      Spelled.ambiguous_iff]
    cases hl : sensitiveKey key.left issued with
    | false =>
      cases hr : sensitiveKey key.right issued with
      | false =>
        rw [if_neg Bool.false_ne_true, if_neg Bool.false_ne_true, ih]
        exact ⟨fun h => ⟨fun hdiffer => absurd rfl hdiffer, fun _ _ _ => hmarker.2, fun _ => h⟩,
          fun h => h.2.2 rfl⟩
      | true =>
        rw [if_neg Bool.false_ne_true, if_pos (rfl : true = true)]
        exact iff_of_false (forget_ne_string hleft redacted)
          fun h => hmarker.1 (h.1 Bool.false_ne_true)
    -- hidden under one spelling only, or under both
    | true =>
      cases hr : sensitiveKey key.right issued with
      | false =>
        rw [if_neg Bool.false_ne_true, if_pos (rfl : true = true)]
        exact iff_of_false (forget_ne_string hright redacted).symm
          fun h => hmarker.1 (h.1 Bool.false_ne_true.symm)
      | true =>
        rw [if_pos (rfl : true = true), if_pos (rfl : true = true)]
        exact iff_of_true rfl ⟨fun hdiffer => absurd rfl hdiffer, fun _ _ _ => hmarker.2,
          fun hplain => absurd hplain.symm Bool.false_ne_true⟩

theorem forget_eq_iff {issued : IssuedCapability} {root : Bool}
    {value : JsonTree Number Spelled} :
    forget (sanitizeValue issued root (value.mapKeys Spelled.left)) =
        forget (sanitizeValue issued root (value.mapKeys Spelled.right)) ↔
      Uniform issued root value := by
  induction value using JsonTree.induct generalizing root with
  | null => exact iff_of_true rfl .null
  | bool value => exact iff_of_true rfl (.bool value)
  | number value => exact iff_of_true rfl (.number value)
  | string text => exact iff_of_true rfl (.string text)
  -- an array is uniform when its items are
  | array items ih =>
    have hitems : Uniform issued root (.array items) ↔
        ∀ item ∈ items, Uniform issued false item := by
      refine ⟨fun h => ?_, .array⟩
      cases h with
      | array h => exact h
    rw [hitems, mapKeys_array, mapKeys_array, sanitizeValue_array, sanitizeValue_array, forget,
      forget, mapKeys_array, mapKeys_array, JsonTree.array.injEq, List.map_map, List.map_map,
      List.map_map, List.map_map, List.map_inj_left]
    exact forall₂_congr fun item hitem => ih item hitem
  -- an object is uniform when each of its fields is
  | object fields ih =>
    have hfields : Uniform issued root (.object fields) ↔
        ∀ field ∈ fields, (field.1.Ambiguous issued → ShownAsMarker field.2) ∧
          (root = true → issued = .guestInvitation → field.1.HalfInvitation →
            ¬HasSensitiveUrl field.2) ∧
          (sensitiveKey field.1.left issued = false → Uniform issued false field.2) := by
      refine ⟨fun h => ?_, fun h => ?_⟩
      · cases h with
        | object hkeys hinvitation hrest =>
          exact fun field hfield => ⟨hkeys field hfield,
            fun hroot hissued => hinvitation hroot hissued field hfield, hrest field hfield⟩
      · exact .object (fun field hfield => (h field hfield).1)
          (fun hroot hissued field hfield => (h field hfield).2.1 hroot hissued)
          (fun field hfield => (h field hfield).2.2)
    rw [hfields, mapKeys_object, mapKeys_object, sanitizeValue_object, sanitizeValue_object, forget,
      forget, mapKeys_object, mapKeys_object, JsonTree.object.injEq, List.map_map, List.map_map,
      List.map_map, List.map_map, List.map_inj_left]
    refine forall₂_congr fun field hfield => ?_
    refine Iff.trans ?_ (sanitizeField_eq_iff (ih field hfield))
    exact ⟨fun heq => (Prod.mk.inj heq).2, fun heq => Prod.ext rfl heq⟩

/-! ### The law -/

/-- Two spellings of a value are redacted as they should be: each on its own, and both at the same
places. -/
structure Sanitized (issued : IssuedCapability) (value : JsonTree Number Spelled) : Prop where
  left : Redacted issued (value.mapKeys Spelled.left)
  right : Redacted issued (value.mapKeys Spelled.right)
  places : forget (sanitize issued (value.mapKeys Spelled.left)) =
    forget (sanitize issued (value.mapKeys Spelled.right))

/-- **Redacted results.**  Every result is redacted as it should be, and two spellings of a value
are redacted at the same places if and only if the style decides nowhere. -/
theorem sanitize_law (issued : IssuedCapability) (value : JsonTree Number Spelled) :
    Sanitized issued value ↔ Uniform issued true value := by
  refine ⟨fun h => forget_eq_iff.mp h.places, fun h => ?_⟩
  exact ⟨sanitize_redacted issued _, sanitize_redacted issued _, forget_eq_iff.mpr h⟩

/-! ### A sample -/

def oauthCode : Spelled :=
  .styled [⟨"oauth".toList, by decide, by decide⟩, ⟨"code".toList, by decide, by decide⟩] .camel
    .snake

/-- The code of a login is shown under its key in camel case. -/
theorem oauthCode_differs :
    sanitize .none (.object [("oauthCode".toList, .string "4f1c".toList)] : Value ℕ) =
        .object [("oauthCode".toList, .string "4f1c".toList)] ∧
      sanitize .none (.object [("oauth_code".toList, .string "4f1c".toList)] : Value ℕ) =
        .object [("oauth_code".toList, .string redacted)] ∧
      ¬Sanitized .none (.object [(oauthCode, .string "4f1c".toList)] : JsonTree ℕ Spelled) := by
  refine ⟨rfl, rfl, fun h => ?_⟩
  have hplaces : (.object [((), .string "4f1c".toList)] : JsonTree ℕ Unit) =
      .object [((), .string redacted)] := h.places
  have hfield := (List.cons.inj (JsonTree.object.inj hplaces)).1
  exact absurd (JsonTree.string.inj (Prod.mk.inj hfield).2) (by decide)

end Sanitize

end BlobYard
