/-
Published names.

The expressions of the schema without lookahead denote languages, and the predicates of the
manifest are brought to the same languages: a class of characters with its edges, or parts
between separators.  All classes are ASCII, so that bytes and characters count the same.

* `set_cons` … `Ascii` — the classes of the schema in the words of the program;
* `edged`, `headed`, `mem_parts` — the languages;
* `Agrees` — a predicate and a pattern give the same answer;
* `dnsLabel_agrees` … `duration_agrees` — names, targets, routes, sizes and durations.
-/
import BlobYard.Core.ManifestPatterns
import BlobYard.Core.PublishedSchema
import Mathlib.Tactic.Tauto

namespace BlobYard

namespace PublishedSchema

open Regex
open String (utf8Len)

/-! ### Classes -/

section Classes

variable {ranges : List (Char × Char)} {others : List Char} {c : Char}

theorem set_cons (first last : Char) :
    set ((first, last) :: ranges) others c = (first ≤ c && c ≤ last || set ranges others c) := by
  simp [set, Bool.or_assoc]

theorem set_nil : set [] others c = others.contains c := by
  simp [set]

theorem isLower_eq : ('a' ≤ c && c ≤ 'z') = c.isLower := rfl

theorem isUpper_eq : ('A' ≤ c && c ≤ 'Z') = c.isUpper := by
  refine Bool.eq_iff_iff.mpr ?_
  rw [Bool.and_eq_true, decide_eq_true_eq, decide_eq_true_eq]
  exact decide_eq_true_iff.symm

theorem isAlpha_eq : c.isAlpha = (c.isUpper || c.isLower) := rfl

theorem isDigit_eq : ('0' ≤ c && c ≤ '9') = c.isDigit := rfl

theorem lower_eq : lower c = c.isLower := by
  simp [lower, set_cons, set_nil, isLower_eq]

theorem upper_eq : upper c = c.isUpper := by
  simp [upper, set_cons, set_nil, isUpper_eq]

theorem digit_eq : digit c = c.isDigit := by
  simp [digit, set_cons, set_nil, isDigit_eq]

theorem labelEdge_eq : labelEdge c = (c.isLower || c.isDigit) := by
  simp [labelEdge, set_cons, set_nil, isLower_eq, isDigit_eq]

theorem labelInner_eq : labelInner c = Patterns.isLabelByte c := by
  simp only [labelInner, set_cons, set_nil, isLower_eq, isDigit_eq, Patterns.isLabelByte,
    List.contains_cons, List.contains_nil, Bool.or_false, Bool.or_assoc]

theorem identifierRest_eq : identifierRest c = Patterns.isIdentifierByte c := by
  simp only [identifierRest, set_cons, set_nil, isLower_eq, isDigit_eq, Patterns.isIdentifierByte,
    List.contains_cons, List.contains_nil, Bool.or_false, Bool.or_assoc]

theorem secretRest_eq : secretRest c = (c.isUpper || c.isDigit || c == '_') := by
  simp only [secretRest, set_cons, set_nil, isUpper_eq, isDigit_eq, List.contains_cons,
    List.contains_nil, Bool.or_false, Bool.or_assoc]

theorem pathCharacter_eq :
    pathCharacter c = (isAsciiAlphanumeric c || c == '.' || c == '_' || c == '-') := by
  simp only [pathCharacter, set_cons, set_nil, isAsciiAlphanumeric, List.contains_cons,
    List.contains_nil, Bool.or_false]
  ac_rfl

theorem routeCharacter_eq : routeCharacter c =
    (isAsciiAlphanumeric c || c == '.' || c == '_' || c == '~' || c == '-') := by
  simp only [routeCharacter, set_cons, set_nil, isAsciiAlphanumeric, List.contains_cons,
    List.contains_nil, Bool.or_false]
  ac_rfl

theorem areaCharacter_eq : areaCharacter c = (c.isAlpha || c == '_') := by
  simp only [areaCharacter, set_cons, set_nil, isUpper_eq, isLower_eq, isAlpha_eq,
    List.contains_cons, List.contains_nil, Bool.or_false, Bool.or_assoc]

theorem zoneCharacter_eq : zoneCharacter c = Patterns.isZoneByte c := by
  simp only [zoneCharacter, set_cons, set_nil, isAsciiAlphanumeric, Patterns.isZoneByte,
    List.contains_cons, List.contains_nil, Bool.or_false]
  ac_rfl

theorem isAsciiAlphanumeric_eq :
    isAsciiAlphanumeric c = (c.isDigit || c.isLower || c.isUpper) := by
  simp [isAsciiAlphanumeric, isDigit_eq, isLower_eq, isUpper_eq]

/-- No character of the set is beyond ASCII. -/
def Ascii (class_ : Char → Bool) : Prop := ∀ c, class_ c = true → c.toNat < 128

theorem ascii_set (hranges : ∀ range ∈ ranges, range.2.toNat < 128)
    (hothers : ∀ other ∈ others, other.toNat < 128) : Ascii (set ranges others) := by
  intro c h
  simp only [set, Bool.or_eq_true, List.any_eq_true, Bool.and_eq_true, decide_eq_true_eq,
    List.contains_iff_mem] at h
  rcases h with ⟨range, hrange, -, hle⟩ | hmem
  · have hle : c.toNat ≤ range.2.toNat := UInt32.le_iff_toNat_le.mp (Char.le_def.mp hle)
    exact lt_of_le_of_lt hle (hranges range hrange)
  · exact hothers c hmem

theorem ascii_lower : Ascii lower := ascii_set (by decide) (by decide)

theorem ascii_digit : Ascii digit := ascii_set (by decide) (by decide)

theorem ascii_labelInner : Ascii labelInner := ascii_set (by decide) (by decide)

theorem ascii_identifierRest : Ascii identifierRest := ascii_set (by decide) (by decide)

theorem ascii_secretRest : Ascii secretRest := ascii_set (by decide) (by decide)

theorem ascii_pathCharacter : Ascii pathCharacter := ascii_set (by decide) (by decide)

theorem ascii_routeCharacter : Ascii routeCharacter := ascii_set (by decide) (by decide)

theorem ascii_zoneCharacter : Ascii zoneCharacter := ascii_set (by decide) (by decide)

theorem Ascii.length_eq {class_ : Char → Bool} (h : Ascii class_) {text : List Char}
    (htext : ∀ c ∈ text, class_ c = true) : utf8Len text = text.length :=
  utf8Len_eq_length fun c hc => h c (htext c hc)

end Classes

/-! ### Labels and names -/

/-- The first and the last character are of one class and all are of another. -/
def edged (edge inner : Char → Bool) (most : Option ℕ) : Language Char :=
  letter edge * (1 + run inner 0 most * letter edge)

theorem mem_edged {edge inner : Char → Bool} (h : ∀ c, edge c = true → inner c = true)
    {most : Option ℕ} {text : List Char} :
    text ∈ edged edge inner most ↔
      text.head?.any edge = true ∧ text.getLast?.any edge = true ∧
        (∀ c ∈ text, inner c = true) ∧ ∀ m, most = some m → text.length ≤ m + 2 := by
  simp only [edged, Language.mem_mul, Language.mem_add, Language.mem_one, mem_letter]
  constructor
  -- a single character is both ends; otherwise something stands between them
  · rintro ⟨_, ⟨first, rfl, hfirst⟩, _,
      rfl | ⟨middle, ⟨hmiddle, hlen⟩, _, ⟨last, rfl, hlast⟩, rfl⟩, rfl⟩
    · simp [hfirst, h first hfirst]
    · refine ⟨hfirst, ?_, ?_, ?_⟩
      · rw [← List.append_assoc, List.getLast?_concat]
        exact hlast
      · intro c hc
        simp only [List.cons_append, List.nil_append, List.mem_cons, List.mem_append,
          List.not_mem_nil, or_false] at hc
        rcases hc with rfl | hc | rfl
        · exact h _ hfirst
        · exact hmiddle c hc
        · exact h _ hlast
      -- the bound counts the characters between the ends
      · intro m hm
        have hle : middle.length ≤ m := hlen.2 m hm
        simp only [List.cons_append, List.nil_append, List.length_cons, List.length_append,
          List.length_nil]
        omega
  · rintro ⟨hfirst, hlast, hall, hlen⟩
    cases text with
    | nil => simp at hfirst
    | cons first rest =>
      refine ⟨[first], ⟨first, rfl, hfirst⟩, rest, ?_, rfl⟩
      -- the other way round, the text is taken apart at its last character
      rcases List.eq_nil_or_concat' rest with rfl | ⟨middle, last, rfl⟩
      · exact Or.inl rfl
      · refine Or.inr ⟨middle, ⟨?_, ⟨Nat.zero_le _, ?_⟩⟩, [last], ⟨last, rfl, ?_⟩, rfl⟩
        · exact fun c hc => hall c (by simp [hc])
        · intro m hm
          have := hlen m hm
          simp only [List.length_cons, List.length_append, List.length_nil] at this
          omega
        · rw [← List.cons_append, List.getLast?_concat] at hlast
          exact hlast

/-- The first character is of one class and all are of another. -/
def headed (first inner : Char → Bool) (most : Option ℕ) : Language Char :=
  letter first * run inner 0 most

theorem mem_headed {first inner : Char → Bool} (h : ∀ c, first c = true → inner c = true)
    {most : Option ℕ} {text : List Char} :
    text ∈ headed first inner most ↔
      text.head?.any first = true ∧ (∀ c ∈ text, inner c = true) ∧
        ∀ m, most = some m → text.length ≤ m + 1 := by
  simp only [headed, Language.mem_mul, mem_letter]
  constructor
  · rintro ⟨_, ⟨c, rfl, hc⟩, rest, ⟨hrest, hlen⟩, rfl⟩
    refine ⟨hc, ?_, fun m hm => Nat.succ_le_succ (hlen.2 m hm)⟩
    exact List.forall_mem_cons.mpr ⟨h c hc, hrest⟩
  · rintro ⟨hfirst, hall, hlen⟩
    cases text with
    | nil => simp at hfirst
    | cons c rest =>
      rw [List.forall_mem_cons] at hall
      exact ⟨[c], ⟨c, rfl, hfirst⟩, rest,
        ⟨hall.2, Nat.zero_le _, fun m hm => Nat.le_of_succ_le_succ (hlen m hm)⟩, rfl⟩

theorem edge_inner (c : Char) (h : labelEdge c = true) : labelInner c = true := by
  rw [labelEdge_eq] at h
  rw [labelInner_eq, Patterns.isLabelByte, h]
  rfl

theorem alphanumeric_and_inner {c : Char} (h : labelInner c = true) :
    isAsciiAlphanumeric c = labelEdge c := by
  rw [labelInner_eq, Patterns.isLabelByte] at h
  rw [isAsciiAlphanumeric_eq, labelEdge_eq]
  by_cases hdash : c = '-'
  · rw [hdash]
    rfl
  · have hedge : (c.isLower || c.isDigit) = true := by simpa [hdash] using h
    rw [Bool.or_comm] at hedge
    rw [hedge, Bool.or_comm c.isLower, hedge]
    rfl

/-- Among label bytes the alphanumeric edges are lower-case letters and digits. -/
theorem edgeAlphanumeric_iff {text : List Char} (h : ∀ c ∈ text, labelInner c = true) :
    Patterns.edgeAlphanumeric text = true ↔
      text.head?.any labelEdge = true ∧ text.getLast?.any labelEdge = true := by
  have hany : ∀ o : Option Char, (∀ c, o = some c → c ∈ text) →
      o.any isAsciiAlphanumeric = o.any labelEdge := by
    intro o ho
    cases o with
    | none => rfl
    | some c => exact alphanumeric_and_inner (h c (ho c rfl))
  rw [Patterns.edgeAlphanumeric, Bool.and_eq_true, hany _ fun c hc => List.mem_of_head? hc,
    hany _ fun c hc => List.mem_of_getLast? hc]

theorem all_labelInner {text : List Char} :
    text.all Patterns.isLabelByte = true ↔ ∀ c ∈ text, labelInner c = true := by
  simp only [List.all_eq_true, labelInner_eq]

theorem ne_nil_of_head {text : List Char} {first : Char → Bool}
    (h : text.head?.any first = true) : text ≠ [] := by
  rintro rfl
  cases h

theorem hostLabel_iff {text : List Char} :
    Patterns.hostLabel text = true ↔ text ∈ edged labelEdge labelInner none := by
  simp only [Patterns.hostLabel, Bool.and_eq_true, all_labelInner, mem_edged edge_inner,
    Bool.not_eq_true', List.isEmpty_eq_false_iff]
  constructor
  · rintro ⟨⟨hne, hedges⟩, hall⟩
    obtain ⟨hfirst, hlast⟩ := (edgeAlphanumeric_iff hall).mp hedges
    exact ⟨hfirst, hlast, hall, by simp⟩
  · rintro ⟨hfirst, hlast, hall, -⟩
    exact ⟨⟨ne_nil_of_head hfirst, (edgeAlphanumeric_iff hall).mpr ⟨hfirst, hlast⟩⟩, hall⟩

theorem dnsLabel_iff {text : List Char} :
    Patterns.dnsLabel text = true ↔ text ∈ edged labelEdge labelInner (some 61) := by
  simp only [Patterns.dnsLabel, Bool.and_eq_true, all_labelInner, mem_edged edge_inner,
    Bool.not_eq_true', List.isEmpty_eq_false_iff, decide_eq_true_eq]
  constructor
  · rintro ⟨⟨⟨hne, hlen⟩, hedges⟩, hall⟩
    obtain ⟨hfirst, hlast⟩ := (edgeAlphanumeric_iff hall).mp hedges
    rw [ascii_labelInner.length_eq hall] at hlen
    refine ⟨hfirst, hlast, hall, fun m hm => ?_⟩
    obtain rfl := Option.some.inj hm
    exact hlen
  · rintro ⟨hfirst, hlast, hall, hlen⟩
    refine ⟨⟨⟨ne_nil_of_head hfirst, ?_⟩, (edgeAlphanumeric_iff hall).mpr ⟨hfirst, hlast⟩⟩, hall⟩
    rw [ascii_labelInner.length_eq hall]
    exact hlen 61 rfl

theorem denotes_label (most : Option ℕ) :
    Denotes (label most) (edged labelEdge labelInner most) :=
  (denotes_one _).seq (((denotes_run _ 0 most).seq (denotes_one _)).optional)

/-- The predicate and the pattern of the schema agree on the text. -/
def Agrees (predicate : List Char → Bool) (pattern : Pattern) (text : List Char) : Prop :=
  predicate text = true ↔ pattern.Accepts text

variable {text : List Char}

theorem accepts_whole {r : Regex Char} {L : Language Char} (h : Denotes r L) :
    Pattern.Accepts ⟨whole r, none⟩ text ↔ text ∈ L := by
  simp [Pattern.Accepts, h.found_whole]

theorem accepts_whole_short {r : Regex Char} {L : Language Char} (h : Denotes r L)
    {maximum : ℕ} :
    Pattern.Accepts ⟨whole r, some maximum⟩ text ↔ text ∈ L ∧ text.length ≤ maximum := by
  simp [Pattern.Accepts, h.found_whole]

theorem dnsLabel_agrees : Agrees Patterns.dnsLabel dnsLabel text :=
  dnsLabel_iff.trans (accepts_whole (denotes_label _)).symm

/-- A name: its first character, the others, and the length. -/
theorem headed_iff {first inner : Char → Bool} (hinner : ∀ c, first c = true → inner c = true)
    (hascii : Ascii inner) {m : ℕ} :
    text ≠ [] ∧ utf8Len text ≤ m + 1 ∧ text.head?.any first = true ∧
        (∀ c ∈ text, inner c = true) ↔ text ∈ headed first inner (some m) := by
  rw [mem_headed hinner]
  constructor
  · rintro ⟨-, hlen, hfirst, hall⟩
    rw [hascii.length_eq hall] at hlen
    refine ⟨hfirst, hall, fun k hk => ?_⟩
    obtain rfl := Option.some.inj hk
    exact hlen
  · rintro ⟨hfirst, hall, hlen⟩
    refine ⟨ne_nil_of_head hfirst, ?_, hfirst, hall⟩
    rw [hascii.length_eq hall]
    exact hlen m rfl

theorem roleName_agrees : Agrees Patterns.roleName roleName text := by
  have hinner : ∀ c, lower c = true → labelInner c = true := by
    intro c h
    rw [lower_eq] at h
    rw [labelInner_eq, Patterns.isLabelByte, h]
    rfl
  refine Iff.trans ?_ (accepts_whole ((denotes_one _).seq (denotes_run _ 0 (some 31)))).symm
  rw [← headed, ← headed_iff hinner ascii_labelInner]
  simp only [Patterns.roleName, Bool.and_eq_true, all_labelInner, Bool.not_eq_true',
    List.isEmpty_eq_false_iff, decide_eq_true_eq, and_assoc]
  rw [show lower = Char.isLower from funext fun _ => lower_eq]

theorem secretName_agrees : Agrees Patterns.secretName secretName text := by
  have hinner : ∀ c, upper c = true → secretRest c = true := by
    intro c h
    rw [upper_eq] at h
    rw [secretRest_eq, h]
    rfl
  refine Iff.trans ?_ (accepts_whole ((denotes_one _).seq (denotes_run _ 0 (some 63)))).symm
  rw [← headed, ← headed_iff hinner ascii_secretRest]
  simp only [Patterns.secretName, Bool.and_eq_true, List.all_eq_true, Bool.not_eq_true',
    List.isEmpty_eq_false_iff, decide_eq_true_eq, and_assoc, secretRest_eq]
  rw [show upper = Char.isUpper from funext fun _ => upper_eq]

/-! ### Parts between separators -/

/-- A part and then others behind separators. -/
theorem mem_parts {separator : Char} {K L : Language Char} {least : ℕ} {most : Option ℕ} :
    text ∈ K * parted separator L least most ↔
      ∃ first rest, text = joined separator first rest ∧ first ∈ K ∧ (∀ part ∈ rest, part ∈ L) ∧
        Within least most rest.length := by
  rw [Language.mem_mul]
  constructor
  · rintro ⟨first, hfirst, _, ⟨rest, rfl, hwithin, hrest⟩, rfl⟩
    exact ⟨first, rest, rfl, hfirst, hrest, hwithin⟩
  · rintro ⟨first, rest, rfl, hfirst, hrest, hwithin⟩
    exact ⟨first, hfirst, _, ⟨rest, rfl, hwithin, hrest⟩, rfl⟩

/-- Splitting a text into parts of a language whose texts are free of the separator. -/
theorem splitOn_iff {separator : Char} {L : Language Char} (h : ∀ part ∈ L, separator ∉ part)
    {Q : List (List Char) → Prop} :
    ((∀ part ∈ text.splitOn separator, part ∈ L) ∧ Q (text.splitOn separator)) ↔
      ∃ first rest, text = joined separator first rest ∧ first ∈ L ∧ (∀ part ∈ rest, part ∈ L) ∧
        Q (first :: rest) := by
  constructor
  · rintro ⟨hall, hQ⟩
    obtain ⟨first, rest, rfl, hfree⟩ := exists_joined separator text
    rw [splitOn_joined hfree] at hall hQ
    rw [List.forall_mem_cons] at hall
    exact ⟨first, rest, rfl, hall.1, hall.2, hQ⟩
  · rintro ⟨first, rest, rfl, hfirst, hrest, hQ⟩
    have hall : ∀ part ∈ first :: rest, part ∈ L := List.forall_mem_cons.mpr ⟨hfirst, hrest⟩
    rw [splitOn_joined fun part hpart => h part (hall part hpart)]
    exact ⟨hall, hQ⟩

theorem splitOn_all_iff {separator : Char} {L : Language Char}
    (h : ∀ part ∈ L, separator ∉ part) :
    (∀ part ∈ text.splitOn separator, part ∈ L) ↔ text ∈ L * parted separator L 0 none := by
  have hsplit := @splitOn_iff text separator L h fun parts => Within 0 none (parts.length - 1)
  have hwithin : ∀ n, Within 0 none n := fun n => ⟨Nat.zero_le n, by simp⟩
  simp only [hwithin, and_true] at hsplit
  rw [hsplit, mem_parts]
  simp only [hwithin, and_true]

/-- The characters of joined parts are those of the parts and the separator. -/
theorem mem_joined {separator c : Char} {first : List Char} {rest : List (List Char)}
    (h : c ∈ joined separator first rest) : c = separator ∨ ∃ part ∈ first :: rest, c ∈ part := by
  rw [joined, List.mem_append, List.mem_flatMap] at h
  rcases h with h | ⟨part, hpart, h⟩
  · exact Or.inr ⟨first, List.mem_cons_self, h⟩
  · rcases List.mem_cons.mp h with h | h
    · exact Or.inl h
    · exact Or.inr ⟨part, List.mem_cons_of_mem first hpart, h⟩

theorem ascii_joined {separator : Char} (hseparator : separator.toNat < 128)
    {class_ : Char → Bool} (hascii : Ascii class_) {first : List Char} {rest : List (List Char)}
    (h : ∀ part ∈ first :: rest, ∀ c ∈ part, class_ c = true) :
    ∀ c ∈ joined separator first rest, c.toNat < 128 := by
  intro c hc
  rcases mem_joined hc with rfl | ⟨part, hpart, hmem⟩
  · exact hseparator
  · exact hascii c (h part hpart c hmem)

theorem lower_identifierRest (c : Char) (h : lower c = true) : identifierRest c = true := by
  rw [lower_eq] at h
  rw [identifierRest_eq, Patterns.isIdentifierByte, h]
  rfl

theorem identifierPart_iff {part : List Char} :
    Patterns.identifierPart part = true ↔ part ∈ headed lower identifierRest none := by
  simp only [Patterns.identifierPart, Bool.and_eq_true, Bool.not_eq_true', List.all_eq_true,
    List.isEmpty_eq_false_iff, mem_headed lower_identifierRest, identifierRest_eq]
  rw [show lower = Char.isLower from funext fun _ => lower_eq]
  constructor
  · rintro ⟨⟨-, hfirst⟩, hall⟩
    exact ⟨hfirst, hall, by simp⟩
  · rintro ⟨hfirst, hall, -⟩
    exact ⟨⟨ne_nil_of_head hfirst, hfirst⟩, hall⟩

theorem identifier_free {part : List Char} (h : part ∈ headed lower identifierRest none) :
    '.' ∉ part := by
  intro hmem
  have hdot := ((mem_headed lower_identifierRest).mp h).2.1 '.' hmem
  revert hdot
  decide

theorem denotes_identifier : Denotes identifier (headed lower identifierRest none) :=
  (denotes_one _).seq (denotes_run _ 0 none)

theorem permission_agrees : Agrees Patterns.permission permission text := by
  refine Iff.trans ?_
    (accepts_whole_short (denotes_identifier.seq (denotes_identifier.parted '.' 1 (some 3)))).symm
  rw [mem_parts]
  -- the predicate splits at the dots where the pattern repeats a dotted part
  have hdotted : Patterns.dottedIdentifier text = true ↔
      ∃ first rest, text = joined '.' first rest ∧ first ∈ headed lower identifierRest none ∧
        (∀ part ∈ rest, part ∈ headed lower identifierRest none) ∧
          Within 1 (some 3) rest.length := by
    have hwithin : ∀ n, Within 1 (some 3) n ↔ 2 ≤ n + 1 ∧ n + 1 ≤ 4 := by
      intro n
      simp only [Within, Option.some.injEq, forall_eq']
      omega
    simp only [Patterns.dottedIdentifier, Bool.and_eq_true, decide_eq_true_eq, List.all_eq_true,
      identifierPart_iff, hwithin]
    rw [and_comm, splitOn_iff (fun part => identifier_free)
      (Q := fun parts => 2 ≤ parts.length ∧ parts.length ≤ 4)]
    rfl
  -- what is left is the length, which is in bytes in the one and in characters in the other
  rw [Patterns.permission, Bool.and_eq_true, decide_eq_true_eq, and_comm, hdotted]
  refine and_congr_right ?_
  rintro ⟨first, rest, rfl, hfirst, hrest, -⟩
  have hall : ∀ part ∈ first :: rest, part ∈ headed lower identifierRest none :=
    List.forall_mem_cons.mpr ⟨hfirst, hrest⟩
  rw [utf8Len_eq_length (ascii_joined (by decide) ascii_identifierRest fun part hpart =>
    ((mem_headed lower_identifierRest).mp (hall part hpart)).2.1)]

theorem not_mem_of_all {class_ : Char → Bool} {c : Char} (hc : class_ c = false)
    (h : ∀ d ∈ text, class_ d = true) : c ∉ text := by
  intro hmem
  rw [h c hmem] at hc
  cases hc

theorem bucketGrant_agrees : Agrees Patterns.bucketGrant bucketGrant text := by
  refine Iff.trans ?_ (accepts_whole ((denotes_label (some 61)).seq ((denotes_literal [':']).seq
    ((denotes_literal "read".toList).alt ((denotes_literal "write".toList).alt
      (denotes_literal "read-write".toList)))))).symm
  simp only [Patterns.bucketGrant, Option.any_eq_true, Prod.exists, Bool.and_eq_true, dnsLabel_iff,
    splitOnce_eq_some, List.contains_iff_mem, List.mem_cons, List.not_mem_nil, or_false,
    Language.mem_mul, Language.mem_add, mem_exactly]
  constructor
  · rintro ⟨name, access, ⟨rfl, -⟩, hname, haccess⟩
    exact ⟨name, hname, _, ⟨_, rfl, access, haccess, rfl⟩, rfl⟩
  · rintro ⟨name, hname, _, ⟨_, rfl, access, haccess, rfl⟩, rfl⟩
    have hfree : ':' ∉ name :=
      not_mem_of_all (by decide) ((mem_edged edge_inner).mp hname).2.2.1
    exact ⟨name, access, ⟨rfl, hfree⟩, hname, haccess⟩

theorem lower_labelEdge (c : Char) (h : lower c = true) : labelEdge c = true := by
  rw [lower_eq] at h
  rw [labelEdge_eq, h]
  rfl

/-- The top-level domain is also a label. -/
theorem label_of_run {tld : List Char} (h : tld ∈ run lower 2 (some 63)) :
    tld ∈ edged labelEdge labelInner none := by
  obtain ⟨hall, hle, -⟩ := h
  have hedge : ∀ c ∈ tld, labelEdge c = true := fun c hc => lower_labelEdge c (hall c hc)
  have hne : tld ≠ [] := by
    rintro rfl
    simp at hle
  rw [mem_edged edge_inner]
  refine ⟨?_, ?_, fun c hc => edge_inner c (hedge c hc), by simp⟩
  · rw [List.head?_eq_some_head hne]
    exact hedge _ (List.head_mem hne)
  · rw [List.getLast?_eq_some_getLast hne]
    exact hedge _ (List.getLast_mem hne)

theorem label_free {part : List Char} (h : part ∈ edged labelEdge labelInner none) :
    '.' ∉ part :=
  not_mem_of_all (by decide) ((mem_edged edge_inner).mp h).2.2.1

/-- A host: labels that end in dots, and a top-level domain. -/
theorem host_iff {host : List Char} :
    (∃ labels ∈ repeats (edged labelEdge labelInner none * exactly ['.']) 1 none,
        ∃ tld ∈ run lower 2 (some 63), labels ++ tld = host) ↔
      (∀ part ∈ host.splitOn '.', part ∈ edged labelEdge labelInner none) ∧
        2 ≤ (host.splitOn '.').length ∧
          ∃ tld, (host.splitOn '.').getLast? = some tld ∧ tld ∈ run lower 2 (some 63) := by
  rw [splitOn_iff (fun part => label_free) (Q := fun parts => 2 ≤ parts.length ∧
    ∃ tld, parts.getLast? = some tld ∧ tld ∈ run lower 2 (some 63))]
  constructor
  · rintro ⟨_, ⟨words, rfl, ⟨hone, -⟩, hwords⟩, tld, htld, rfl⟩
    -- every word of the repetition is a label and its dot
    obtain ⟨labels, rfl, hlabels⟩ : ∃ labels : List (List Char), words = labels.map (· ++ ['.']) ∧
        ∀ l ∈ labels, l ∈ edged labelEdge labelInner none := by
      refine ⟨words.map List.dropLast, ?_, ?_⟩
      · have hsame : ∀ w ∈ words, w.dropLast ++ ['.'] = w := by
          intro w hw
          obtain ⟨l, -, _, rfl, rfl⟩ := Language.mem_mul.mp (hwords w hw)
          simp
        rw [List.map_map]
        exact ((List.map_congr_left hsame).trans (List.map_id' words)).symm
      · intro l hl
        obtain ⟨w, hw, rfl⟩ := List.mem_map.mp hl
        obtain ⟨label, hlabel, _, rfl, rfl⟩ := Language.mem_mul.mp (hwords w hw)
        simpa using hlabel
    cases labels with
    | nil => simp at hone
    | cons first rest =>
      rw [← List.flatMap_def, flatMap_terminated]
      rw [List.forall_mem_cons] at hlabels
      -- the last part is the top-level domain, which has the form of a label too
      refine ⟨first, rest ++ [tld], rfl, hlabels.1, ?_, by simp, tld, ?_, htld⟩
      · intro part hpart
        rcases List.mem_append.mp hpart with hpart | hpart
        · exact hlabels.2 part hpart
        · exact List.mem_singleton.mp hpart ▸ label_of_run htld
      · rw [← List.cons_append, List.getLast?_concat]
  · rintro ⟨first, rest, rfl, hfirst, hrest, htwo, tld, hlast, htld⟩
    rcases List.eq_nil_or_concat' rest with rfl | ⟨middle, last, rfl⟩
    · simp at htwo
    · rw [← List.cons_append, List.getLast?_concat] at hlast
      obtain rfl := Option.some.inj hlast
      -- the last part is set apart, the others get their dots back
      rw [← flatMap_terminated]
      have hlabels : ∀ l ∈ first :: middle, l ∈ edged labelEdge labelInner none :=
        List.forall_mem_cons.mpr ⟨hfirst, fun l hl => hrest l (List.mem_append_left _ hl)⟩
      refine ⟨_, ⟨(first :: middle).map (· ++ ['.']), by rw [List.flatMap_def], ?_, ?_⟩, _, htld,
        rfl⟩
      -- at least two parts, so at least one of them is a label
      · exact ⟨by simp, by simp⟩
      · intro w hw
        obtain ⟨l, hl, rfl⟩ := List.mem_map.mp hw
        exact Language.mem_mul.mpr ⟨l, hlabels l hl, _, rfl, rfl⟩

theorem ascii_labels {labels : List Char}
    (h : labels ∈ repeats (edged labelEdge labelInner none * exactly ['.']) 1 none) :
    ∀ c ∈ labels, c.toNat < 128 := by
  obtain ⟨words, rfl, -, hwords⟩ := h
  intro c hc
  obtain ⟨w, hw, hcw⟩ := List.mem_flatten.mp hc
  obtain ⟨label, hlabel, _, rfl, rfl⟩ := Language.mem_mul.mp (hwords w hw)
  rcases List.mem_append.mp hcw with hc | hc
  · exact ascii_labelInner c (((mem_edged edge_inner).mp hlabel).2.2.1 c hc)
  · obtain rfl := List.mem_singleton.mp hc
    decide

theorem topLevel_iff {tld : List Char} :
    (2 ≤ utf8Len tld ∧ utf8Len tld ≤ 63 ∧ tld.all Char.isLower = true) ↔
      tld ∈ run lower 2 (some 63) := by
  have hall : tld.all Char.isLower = true ↔ ∀ c ∈ tld, lower c = true := by
    simp only [List.all_eq_true, lower_eq]
  rw [hall]
  constructor
  · rintro ⟨hleast, hmost, hlower⟩
    rw [ascii_lower.length_eq hlower] at hleast hmost
    exact ⟨hlower, hleast, fun m hm => Option.some.inj hm ▸ hmost⟩
  · rintro ⟨hlower, hleast, hmost⟩
    rw [ascii_lower.length_eq hlower]
    exact ⟨hleast, hmost 63 rfl, hlower⟩

theorem egressTarget_agrees : Agrees Patterns.egressTarget egressTarget text := by
  refine Iff.trans ?_ (accepts_whole_short ((((denotes_label none).seq
    (denotes_literal ['.'])).rep 1 none).seq ((denotes_run lower 2 (some 63)).seq
      ((denotes_literal [':']).seq ((denotes_literal "443".toList).alt
        (denotes_literal "80".toList)))))).symm
  -- the host and the port of the predicate, each as the pattern has it
  have hhost : ∀ host : List Char, (2 ≤ (host.splitOn '.').length ∧
      (∃ tld, (host.splitOn '.').getLast? = some tld ∧ 2 ≤ utf8Len tld ∧ utf8Len tld ≤ 63 ∧
        tld.all Char.isLower = true) ∧ (host.splitOn '.').all Patterns.hostLabel = true) ↔
        ∃ labels ∈ repeats (edged labelEdge labelInner none * exactly ['.']) 1 none,
          ∃ tld ∈ run lower 2 (some 63), labels ++ tld = host := by
    intro host
    rw [host_iff]
    simp only [topLevel_iff]
    simp only [List.all_eq_true, hostLabel_iff]
    tauto
  have hport : ∀ port : List Char, ["80".toList, "443".toList].contains port = true ↔
      port = "443".toList ∨ port = "80".toList := by
    intro port
    simp [or_comm]
  simp only [Patterns.egressTarget, Option.any_eq_true, Prod.exists, Bool.and_eq_true,
    decide_eq_true_eq, rsplitOnce_eq_some, and_assoc, hport, hhost, Language.mem_mul,
    Language.mem_add, mem_exactly]
  constructor
  · rintro ⟨hlen, host, port, rfl, -, hp, labels, hlabels, tld, htld, rfl⟩
    refine ⟨⟨labels, hlabels, _, ⟨tld, htld, _, ⟨_, rfl, port, hp, rfl⟩, rfl⟩, by simp⟩, ?_⟩
    exact (length_le_utf8Len _).trans hlen
  -- the pattern admits nothing but ASCII, so the lengths agree
  · rintro ⟨⟨labels, hlabels, _, ⟨tld, htld, _, ⟨_, rfl, port, hp, rfl⟩, rfl⟩, rfl⟩, hlen⟩
    have hport_ascii : ∀ c ∈ port, c.toNat < 128 ∧ c ≠ ':' := by
      rcases hp with rfl | rfl <;> decide
    have hascii : ∀ c ∈ labels ++ (tld ++ ([':'] ++ port)), c.toNat < 128 := by
      intro c hc
      simp only [List.mem_append, List.mem_singleton] at hc
      rcases hc with hc | hc | rfl | hc
      · exact ascii_labels hlabels c hc
      · exact ascii_lower c (htld.1 c hc)
      · decide
      · exact (hport_ascii c hc).1
    rw [utf8Len_eq_length hascii]
    exact ⟨hlen, labels ++ tld, port, by simp, fun h => (hport_ascii _ h).2 rfl, hp, labels,
      hlabels, tld, htld, rfl⟩

/-! ### Routes, sizes and durations -/

/-- A part of a path or of a time zone: some characters of a class. -/
theorem mem_run_one {class_ : Char → Bool} {part : List Char} :
    part ∈ run class_ 1 none ↔ part ≠ [] ∧ ∀ c ∈ part, class_ c = true := by
  constructor
  · rintro ⟨hall, hlen, -⟩
    exact ⟨List.ne_nil_of_length_pos hlen, hall⟩
  · rintro ⟨hne, hall⟩
    exact ⟨hall, List.length_pos_of_ne_nil hne, by simp⟩

theorem routeSegment_iff {part : List Char} :
    Patterns.routeSegment part = true ↔ part ∈ run routeCharacter 1 none := by
  simp only [Patterns.routeSegment, Bool.and_eq_true, Bool.not_eq_true', List.all_eq_true,
    List.isEmpty_eq_false_iff, mem_run_one, routeCharacter_eq]

theorem routePath_agrees : Agrees Patterns.routePath routePath text := by
  have hroute : Denotes (chars routeCharacter 1 none) (run routeCharacter 1 none) :=
    denotes_run _ 1 none
  refine Iff.trans ?_ (accepts_whole_short ((denotes_literal ['/']).seq
    (hroute.seq (hroute.parted '/' 0 none)).optional)).symm
  -- a segment has no separator in it
  have hfree : ∀ part ∈ run routeCharacter 1 none, '/' ∉ part :=
    fun part hpart => not_mem_of_all (by decide) (mem_run_one.mp hpart).2
  have hparts : ∀ tail : List Char, (tail.splitOn '/').all Patterns.routeSegment = true ↔
      tail ∈ run routeCharacter 1 none * parted '/' (run routeCharacter 1 none) 0 none := by
    intro tail
    rw [← splitOn_all_iff hfree, List.all_eq_true]
    simp only [routeSegment_iff]
  -- and nothing but ASCII
  have hascii : ∀ tail : List Char,
      tail ∈ 1 + run routeCharacter 1 none * parted '/' (run routeCharacter 1 none) 0 none →
        ∀ c ∈ ['/'] ++ tail, c.toNat < 128 := by
    intro tail htail c hc
    rcases List.mem_append.mp hc with hc | hc
    · obtain rfl := List.mem_singleton.mp hc
      decide
    · rcases (Language.mem_add _ _ _).mp htail with hnil | htail
      · rw [(Language.mem_one tail).mp hnil] at hc
        cases hc
      · obtain ⟨first, rest, rfl, hfirst, hrest, -⟩ := mem_parts.mp htail
        have hall : ∀ part ∈ first :: rest, part ∈ run routeCharacter 1 none :=
          List.forall_mem_cons.mpr ⟨hfirst, hrest⟩
        exact ascii_joined (by decide) ascii_routeCharacter
          (fun part hpart => (mem_run_one.mp (hall part hpart)).2) c hc
  simp only [Patterns.routePath, Bool.and_eq_true, Bool.or_eq_true, decide_eq_true_eq, beq_iff_eq,
    hparts, List.isEmpty_iff]
  rw [Language.mem_mul]
  constructor
  · rintro ⟨⟨hlen, hhead⟩, htail⟩
    -- the predicate strips the separator that the pattern demands
    obtain ⟨tail, rfl⟩ : ∃ tail, text = '/' :: tail := by
      cases text with
      | nil => simp at hhead
      | cons c tail => exact ⟨tail, by simpa using hhead⟩
    exact ⟨⟨['/'], rfl, tail, htail, rfl⟩, (length_le_utf8Len _).trans hlen⟩
  · rintro ⟨⟨_, rfl, tail, htail, rfl⟩, hlen⟩
    rw [utf8Len_eq_length (hascii tail htail)]
    exact ⟨⟨hlen, rfl⟩, htail⟩

theorem nonzero_iff {c : Char} : nonzero c = true ↔ digit c = true ∧ c ≠ '0' := by
  simp only [nonzero, digit, set_cons, set_nil, List.contains_nil, Bool.or_false,
    Bool.and_eq_true, decide_eq_true_eq, Char.le_def, UInt32.le_iff_toNat_le, ne_eq,
    Char.ext_iff, ← UInt32.toNat_inj]
  have hone : '1'.val.toNat = 49 := rfl
  have hzero : '0'.val.toNat = 48 := rfl
  omega

/-- A number without leading zeros, and a unit. -/
theorem unitNumber_iff {units : List (List Char)} {m : ℕ} :
    Patterns.unitNumber text units (m + 1) = true ↔
      ∃ number ∈ headed nonzero digit (some m), ∃ unit ∈ units, number ++ unit = text := by
  -- the number alone: one digit that is not zero, and at most `m` after it
  have hnumber : ∀ number : List Char, (number ≠ [] ∧ utf8Len number ≤ m + 1 ∧
      (∃ c, number.head? = some c ∧ c.isDigit = true) ∧ number.head? ≠ some '0' ∧
        ∀ c ∈ number, c.isDigit = true) ↔ number ∈ headed nonzero digit (some m) := by
    intro number
    rw [← headed_iff (fun c h => (nonzero_iff.mp h).1) ascii_digit]
    simp only [digit_eq]
    refine and_congr_right fun _ => and_congr_right fun _ => ?_
    rw [← and_assoc]
    refine and_congr_left fun _ => ?_
    cases number.head? with
    | none => simp
    | some c => simp only [Option.some.injEq, exists_eq_left', Option.any_some, nonzero_iff,
        digit_eq, ne_eq]
  simp only [Patterns.unitNumber, List.any_eq_true, Option.any_eq_true, stripSuffix?_eq_some,
    Bool.and_eq_true, Bool.not_eq_true', List.isEmpty_eq_false_iff, decide_eq_true_eq, bne_iff_ne,
    List.all_eq_true, and_assoc, hnumber]
  constructor
  · rintro ⟨unit, hunit, number, rfl, hnumber⟩
    exact ⟨number, hnumber, unit, hunit, rfl⟩
  · rintro ⟨number, hnumber, unit, hunit, rfl⟩
    exact ⟨unit, hunit, number, rfl, hnumber⟩

/-- The expression of a number without leading zeros, and a unit. -/
theorem accepts_unitNumber {m : ℕ} {unit : Regex Char} {L : Language Char} (h : Denotes unit L) :
    Pattern.Accepts ⟨whole (.seq (.one nonzero) (.seq (chars digit 0 (some m)) unit)), none⟩ text ↔
      ∃ number ∈ headed nonzero digit (some m), ∃ u ∈ L, number ++ u = text := by
  have hdigits : Denotes (chars digit 0 (some m)) (run digit 0 (some m)) := denotes_run _ _ _
  rw [accepts_whole ((denotes_one _).seq (hdigits.seq h)), ← mul_assoc, Language.mem_mul]
  rfl

theorem byteSize_agrees : Agrees Patterns.byteSize byteSize text := by
  refine unitNumber_iff.trans (Iff.trans ?_ (accepts_unitNumber ((denotes_literal "KiB".toList).alt
    ((denotes_literal "MiB".toList).alt (denotes_literal "GiB".toList)))).symm)
  simp [Language.mem_add]

theorem duration_agrees : Agrees Patterns.duration duration text := by
  refine unitNumber_iff.trans (Iff.trans ?_ (accepts_unitNumber ((denotes_literal "ms".toList).alt
    ((denotes_literal "s".toList).alt (denotes_literal "m".toList)))).symm)
  simp [Language.mem_add]

end PublishedSchema

end BlobYard
