/-
The spellings of a key.

A key of several words is written with its words run together, each but the first with a capital, or
with separators between them.  The classifier lowers the letters and takes every separator for an
underscore, so it sees the words run together or with underscores between them, and compares these
two texts with different terms.

* `writeWords` — the words in a style;
* `normalizeKey_camel`, `normalizeKey_separated` — what the classifier sees;
* `RunTogether`, `Separate` — the words that make a key sensitive, in the one case and in the other;
* `sensitiveKey_writeWords` — the keys of words that are sensitive;
* `StyleDecides` — the words that are sensitive in the one case only.
-/
import BlobYard.Mcp.Sanitize

namespace BlobYard

namespace Sanitize

/-! ### Words -/

/-- A character of a word: no capital of ASCII and no separator. -/
def wordCharacter (c : Char) : Bool :=
  toAsciiLowercase c == c && c != '-' && c != '.' && c != '_'

structure Word where
  text : List Char
  nonempty : text ≠ []
  plain : ∀ c ∈ text, wordCharacter c = true

inductive Style where
  | camel
  | snake
  | kebab
  | dotted
  deriving DecidableEq

def capitalize : List Char → List Char
  | [] => []
  | c :: rest => toAsciiUppercase c :: rest

/-- The words in a style. -/
def writeWords (style : Style) (words : List (List Char)) : List Char :=
  match style, words with
  | .camel, [] => []
  | .camel, first :: rest => first ++ rest.flatMap capitalize
  | .snake, words => ['_'].intercalate words
  | .kebab, words => ['-'].intercalate words
  | .dotted, words => ['.'].intercalate words

/-- Texts that are words. -/
def PlainWords (words : List (List Char)) : Prop :=
  ∀ word ∈ words, word ≠ [] ∧ ∀ c ∈ word, wordCharacter c = true

theorem plainWords (words : List Word) : PlainWords (words.map Word.text) := by
  intro text htext
  obtain ⟨word, -, rfl⟩ := List.mem_map.mp htext
  exact ⟨word.nonempty, word.plain⟩

/-! ### What the classifier sees -/

/-- What becomes of a character. -/
def normalizeCharacter (c : Char) : Char :=
  if toAsciiLowercase c = '-' ∨ toAsciiLowercase c = '.' then '_' else toAsciiLowercase c

theorem normalizeKey_eq (key : List Char) : normalizeKey key = key.map normalizeCharacter := by
  rw [normalizeKey, List.map_map]
  rfl

theorem normalizeCharacter_word {c : Char} (h : wordCharacter c = true) :
    normalizeCharacter c = c := by
  simp only [wordCharacter, Bool.and_eq_true, beq_iff_eq, bne_iff_ne] at h
  obtain ⟨⟨⟨hlower, hdash⟩, hdot⟩, -⟩ := h
  rw [normalizeCharacter, hlower, if_neg (not_or.mpr ⟨hdash, hdot⟩)]

/-- A capital is lowered again. -/
theorem lowercase_uppercase {c : Char} (h : toAsciiLowercase c = c) :
    toAsciiLowercase (toAsciiUppercase c) = c := by
  have hletters : ∀ code < 123, 97 ≤ code →
      toAsciiLowercase (Char.ofNat (code - 32)) = Char.ofNat code := by decide
  rw [toAsciiUppercase]
  split
  case isTrue hletter =>
    rw [hletters c.toNat (by omega) hletter.1, Char.ofNat_toNat]
  case isFalse => exact h

theorem normalizeCharacter_uppercase {c : Char} (h : wordCharacter c = true) :
    normalizeCharacter (toAsciiUppercase c) = c := by
  have hlower : toAsciiLowercase (toAsciiUppercase c) = c := by
    simp only [wordCharacter, Bool.and_eq_true, beq_iff_eq] at h
    exact lowercase_uppercase h.1.1.1
  have hplain := normalizeCharacter_word h
  rw [normalizeCharacter] at hplain ⊢
  rw [hlower]
  have hself : toAsciiLowercase c = c := by
    simp only [wordCharacter, Bool.and_eq_true, beq_iff_eq] at h
    exact h.1.1.1
  rwa [hself] at hplain

theorem map_word {word : List Char} (h : ∀ c ∈ word, wordCharacter c = true) :
    word.map normalizeCharacter = word := by
  rw [List.map_congr_left fun c hc => normalizeCharacter_word (h c hc), List.map_id']

theorem map_capitalize {word : List Char} (h : ∀ c ∈ word, wordCharacter c = true) :
    (capitalize word).map normalizeCharacter = word := by
  cases word with
  | nil => rfl
  | cons c rest =>
    rw [capitalize, List.map_cons, normalizeCharacter_uppercase (h c List.mem_cons_self),
      map_word fun d hd => h d (List.mem_cons_of_mem c hd)]

/-- In camel case the classifier sees the words run together. -/
theorem normalizeKey_camel {words : List (List Char)} (h : PlainWords words) :
    normalizeKey (writeWords .camel words) = words.flatten := by
  rw [normalizeKey_eq]
  cases words with
  | nil => rfl
  | cons first rest =>
    rw [writeWords, List.map_append, map_word (h first List.mem_cons_self).2, List.flatten_cons]
    congr 1
    induction rest with
    | nil => rfl
    | cons next rest ih =>
      rw [List.flatMap_cons, List.map_append, map_capitalize (h next (by simp)).2,
        List.flatten_cons, ih fun word hword => h word ?_]
      rcases List.mem_cons.mp hword with rfl | hword
      · exact List.mem_cons_self
      · exact List.mem_cons_of_mem first (List.mem_cons_of_mem next hword)

/-- With separators it sees them with underscores. -/
theorem map_intercalate {separator : Char} {words : List (List Char)} (h : PlainWords words)
    (hseparator : normalizeCharacter separator = '_') :
    ([separator].intercalate words).map normalizeCharacter = ['_'].intercalate words := by
  cases words with
  | nil => rfl
  | cons first rest =>
    rw [intercalate_eq_joined, intercalate_eq_joined]
    induction rest generalizing first with
    | nil =>
      rw [joined, joined, List.flatMap_nil, List.flatMap_nil, List.append_nil]
      exact map_word (h first List.mem_cons_self).2
    | cons next rest ih =>
      rw [joined_cons, joined_cons, List.map_append, List.map_cons, hseparator,
        map_word (h first List.mem_cons_self).2,
        ih next fun word hword => h word (List.mem_cons_of_mem first hword)]

theorem normalizeKey_separated {style : Style} {words : List (List Char)} (h : PlainWords words)
    (hstyle : style ≠ .camel) :
    normalizeKey (writeWords style words) = ['_'].intercalate words := by
  rw [normalizeKey_eq]
  cases style with
  | camel => exact absurd rfl hstyle
  | snake => exact map_intercalate h (by decide)
  | kebab => exact map_intercalate h (by decide)
  | dotted => exact map_intercalate h (by decide)

theorem filter_word {word : List Char} (h : ∀ c ∈ word, wordCharacter c = true) :
    word.filter (· ≠ '_') = word := by
  refine List.filter_eq_self.mpr fun c hc => ?_
  have hplain := h c hc
  simp only [wordCharacter, Bool.and_eq_true, bne_iff_ne] at hplain
  exact decide_eq_true hplain.2

theorem filter_flatten {words : List (List Char)} (h : PlainWords words) :
    words.flatten.filter (· ≠ '_') = words.flatten := by
  rw [List.filter_flatten, List.map_congr_left fun word hword => filter_word (h word hword).2,
    List.map_id']

/-- Without the underscores words with separators run together. -/
theorem filter_intercalate {words : List (List Char)} (h : PlainWords words) :
    (['_'].intercalate words).filter (· ≠ '_') = words.flatten := by
  cases words with
  | nil => rfl
  | cons first rest =>
    rw [intercalate_eq_joined, joined, List.filter_append,
      filter_word (h first List.mem_cons_self).2, List.flatten_cons, List.filter_flatMap]
    congr 1
    rw [List.flatten_eq_flatMap]
    refine List.flatMap_congr fun word hmem => ?_
    rw [List.filter_cons_of_neg (by decide),
      filter_word (h word (List.mem_cons_of_mem first hmem)).2]
    rfl

/-- The letters that the classifier sees are the same in every style. -/
theorem normalizeKey_letters {style : Style} {words : List (List Char)} (h : PlainWords words) :
    (normalizeKey (writeWords style words)).filter (· ≠ '_') = words.flatten := by
  by_cases hstyle : style = .camel
  · rw [hstyle, normalizeKey_camel h, filter_flatten h]
  · rw [normalizeKey_separated h hstyle, filter_intercalate h]

/-! ### The terms -/

/-- The names that a call can issue, in words. -/
def capabilityNames : List (List (List Char) × IssuedCapability) :=
  [(["share", "url"].map String.toList, .share), (["preview", "url"].map String.toList, .preview),
    (["inbox", "url"].map String.toList, .inbox)]

/-- The sensitive names, in words. -/
def secretNames : List (List (List Char)) :=
  [["download", "url"].map String.toList, ["upload", "url"].map String.toList,
    ["otp"].map String.toList]

/-- The terms that are listed in one piece. -/
def joinedTerms : List (List Char) :=
  ["token", "secret", "password", "authorization", "cookie", "confirmationcode",
    "capability"].map String.toList

/-- The terms that are listed with an underscore. -/
def pairTerms : List (List Char × List Char) :=
  [("oauth".toList, "code".toList), ("confirmation".toList, "code".toList),
    ("signed".toList, "url".toList)]

/-- A name as the classifier lists it, in one piece and with underscores. -/
def IsName (name : List (List Char)) (key : List Char) : Prop :=
  key = name.flatten ∨ key = ['_'].intercalate name

theorem publicCapability_eq {key : List Char} {capability : IssuedCapability} :
    publicCapability key = some capability ↔
      ∃ name ∈ capabilityNames, IsName name.1 key ∧ name.2 = capability := by
  constructor
  · intro h
    rw [publicCapability] at h
    split_ifs at h with hshare hpreview hinbox
    · exact ⟨(["share", "url"].map String.toList, .share), by decide, hshare, Option.some.inj h⟩
    · exact ⟨(["preview", "url"].map String.toList, .preview), by decide, hpreview,
        Option.some.inj h⟩
    · exact ⟨(["inbox", "url"].map String.toList, .inbox), by decide, hinbox, Option.some.inj h⟩
  · rintro ⟨name, hname, hkey, rfl⟩
    have hlisted : ∀ name ∈ capabilityNames, publicCapability name.1.flatten = some name.2 ∧
        publicCapability (['_'].intercalate name.1) = some name.2 := by decide
    rcases hkey with rfl | rfl
    · exact (hlisted name hname).1
    · exact (hlisted name hname).2

theorem mem_sensitiveNames {key : List Char} :
    key ∈ sensitiveNames ↔ ∃ name ∈ secretNames, IsName name key := by
  constructor
  · have hlisted : ∀ key ∈ sensitiveNames, ∃ name ∈ secretNames,
        key = name.flatten ∨ key = ['_'].intercalate name := by decide
    exact hlisted key
  · rintro ⟨name, hname, hkey⟩
    have hlisted : ∀ name ∈ secretNames, name.flatten ∈ sensitiveNames ∧
        ['_'].intercalate name ∈ sensitiveNames := by decide
    rcases hkey with rfl | rfl
    · exact (hlisted name hname).1
    · exact (hlisted name hname).2

/-- The last term says no more than a shorter one. -/
theorem exists_sensitiveTerm {key : List Char} :
    (∃ term ∈ sensitiveTerms, term <:+: key) ↔
      (∃ term ∈ joinedTerms, term <:+: key) ∨
        ∃ pair ∈ pairTerms, pair.1 ++ '_' :: pair.2 <:+: key := by
  constructor
  · rintro ⟨term, hterm, hkey⟩
    have hlisted : ∀ term ∈ sensitiveTerms, term ∈ joinedTerms ∨
        ∃ pair ∈ pairTerms, (pair.1 ++ '_' :: pair.2).isSuffixOf term = true := by decide
    rcases hlisted term hterm with hjoined | ⟨pair, hpair, hsuffix⟩
    · exact Or.inl ⟨term, hjoined, hkey⟩
    · exact Or.inr ⟨pair, hpair, (List.isSuffixOf_iff_suffix.mp hsuffix).isInfix.trans hkey⟩
  · have hjoined : ∀ term ∈ joinedTerms, term ∈ sensitiveTerms := by decide
    have hpairs : ∀ pair ∈ pairTerms, pair.1 ++ '_' :: pair.2 ∈ sensitiveTerms := by decide
    rintro (⟨term, hterm, hkey⟩ | ⟨pair, hpair, hkey⟩)
    · exact ⟨term, hjoined term hterm, hkey⟩
    · exact ⟨_, hpairs pair hpair, hkey⟩

theorem sensitiveText_eq {key : List Char} :
    sensitiveText key = true ↔
      (∃ name ∈ secretNames, IsName name key) ∨ (∃ term ∈ joinedTerms, term <:+: key) ∨
        ∃ pair ∈ pairTerms, pair.1 ++ '_' :: pair.2 <:+: key := by
  rw [sensitiveText, Bool.or_eq_true, List.contains_iff_mem, mem_sensitiveNames, List.any_eq_true,
    ← exists_sensitiveTerm]
  simp only [containsText_iff]

/-- No name that a call can issue is sensitive for another reason. -/
theorem sensitiveKey_eq {key : List Char} {issued : IssuedCapability} :
    sensitiveKey key issued = true ↔
      (∃ name ∈ capabilityNames, IsName name.1 (normalizeKey key) ∧ name.2 ≠ issued) ∨
        sensitiveText (normalizeKey key) = true := by
  rw [sensitiveKey]
  cases hpublic : publicCapability (normalizeKey key) with
  | none =>
    refine (or_iff_right ?_).symm
    rintro ⟨name, hname, hkey, -⟩
    rw [publicCapability_eq.mpr ⟨name, hname, hkey, rfl⟩] at hpublic
    exact absurd hpublic nofun
  | some capability =>
    obtain ⟨name, hname, hkey, rfl⟩ := publicCapability_eq.mp hpublic
    have hlisted : ∀ name ∈ capabilityNames, sensitiveText name.1.flatten = false ∧
        sensitiveText (['_'].intercalate name.1) = false := by decide
    have htext : sensitiveText (normalizeKey key) = false := by
      rcases hkey with hkey | hkey
      · rw [hkey]
        exact (hlisted name hname).1
      · rw [hkey]
        exact (hlisted name hname).2
    rw [htext, or_iff_left Bool.false_ne_true]
    simp only [decide_eq_true_eq]
    refine ⟨fun hissued => ⟨name, hname, hkey, hissued⟩, ?_⟩
    rintro ⟨other, hother, hkey, hissued⟩
    rw [publicCapability_eq.mpr ⟨other, hother, hkey, rfl⟩, Option.some.injEq] at hpublic
    rwa [← hpublic]

/-! ### Sensitive words -/

instance (words : List (List Char)) : Decidable (PlainWords words) :=
  inferInstanceAs (Decidable (∀ word ∈ words, _ ∧ _))

/-- The words that are sensitive when they run together. -/
def RunTogether (issued : IssuedCapability) (words : List (List Char)) : Prop :=
  (∃ name ∈ capabilityNames, words.flatten = name.1.flatten ∧ name.2 ≠ issued) ∨
    (∃ name ∈ secretNames, words.flatten = name.flatten) ∨
    ∃ term ∈ joinedTerms, term <:+: words.flatten

/-- The words that are sensitive with separators between them: they are a name, one of them has a
term, or two next to each other make one. -/
def Separate (issued : IssuedCapability) (words : List (List Char)) : Prop :=
  (∃ name ∈ capabilityNames, (words = [name.1.flatten] ∨ words = name.1) ∧ name.2 ≠ issued) ∨
    (∃ name ∈ secretNames, words = [name.flatten] ∨ words = name) ∨
    (∃ term ∈ joinedTerms, ∃ word ∈ words, term <:+: word) ∨
    ∃ pair ∈ pairTerms, Adjacent pair.1 pair.2 words

/-- The words that make a key sensitive in a style. -/
def Sensitive (issued : IssuedCapability) (style : Style) (words : List (List Char)) : Prop :=
  if style = .camel then RunTogether issued words else Separate issued words

theorem underscore_notMem {words : List (List Char)} (h : PlainWords words) :
    ∀ word ∈ words, '_' ∉ word := by
  intro word hword hmem
  exact absurd ((h word hword).2 '_' hmem) (by decide)

theorem intercalate_inj {words others : List (List Char)} (h : PlainWords words)
    (h' : PlainWords others) :
    ['_'].intercalate words = ['_'].intercalate others ↔ words = others := by
  refine ⟨fun heq => ?_, congrArg _⟩
  have hne : ∀ {first : List Char} {rest : List (List Char)}, PlainWords (first :: rest) →
      ['_'].intercalate (first :: rest) ≠ [] := by
    intro first rest hplain hnil
    rw [intercalate_eq_joined, joined, List.append_eq_nil_iff] at hnil
    exact (hplain first List.mem_cons_self).1 hnil.1
  cases words with
  | nil =>
    cases others with
    | nil => rfl
    | cons first rest => exact absurd heq.symm (hne h')
  | cons first rest =>
    cases others with
    | nil => exact absurd heq (hne h)
    | cons first' rest' =>
      rw [intercalate_eq_joined, intercalate_eq_joined] at heq
      rw [← splitOn_joined (underscore_notMem h), heq, splitOn_joined (underscore_notMem h')]

/-- Words with separators are a name in one piece or word by word. -/
theorem isName_intercalate {words name : List (List Char)} (h : PlainWords words)
    (hname : PlainWords name ∧ PlainWords [name.flatten]) :
    IsName name (['_'].intercalate words) ↔ words = [name.flatten] ∨ words = name := by
  have hjoined : ['_'].intercalate words = name.flatten ↔ words = [name.flatten] := by
    rw [← intercalate_inj h hname.2, List.intercalate_singleton]
  rw [IsName, intercalate_inj h hname.1, hjoined]

/-- Words that run together are a name in one piece. -/
theorem isName_flatten {words name : List (List Char)} (h : PlainWords words)
    (hname : PlainWords name) : IsName name words.flatten ↔ words.flatten = name.flatten := by
  refine ⟨fun hkey => ?_, Or.inl⟩
  rcases hkey with hkey | hkey
  · exact hkey
  · rw [← filter_flatten h, hkey, filter_intercalate hname]

theorem capabilityNames_plain {name : List (List Char) × IssuedCapability}
    (h : name ∈ capabilityNames) : PlainWords name.1 ∧ PlainWords [name.1.flatten] := by
  revert name
  decide

theorem secretNames_plain {name : List (List Char)} (h : name ∈ secretNames) :
    PlainWords name ∧ PlainWords [name.flatten] := by
  revert name
  decide

theorem joinedTerms_plain {term : List Char} (h : term ∈ joinedTerms) :
    '_' ∉ term ∧ term ≠ [] := by
  revert term
  decide

theorem pairTerms_plain {pair : List Char × List Char} (h : pair ∈ pairTerms) :
    '_' ∉ pair.1 ∧ '_' ∉ pair.2 := by
  revert pair
  decide

/-- A term lies within one of the words. -/
theorem infix_intercalate {term : List Char} {words : List (List Char)} (h : '_' ∉ term)
    (hne : term ≠ []) :
    term <:+: ['_'].intercalate words ↔ ∃ word ∈ words, term <:+: word := by
  cases words with
  | nil =>
    rw [List.intercalate_nil, List.infix_nil]
    exact ⟨fun hnil => absurd hnil hne, fun ⟨_, hword, _⟩ => absurd hword List.not_mem_nil⟩
  | cons first rest => rw [intercalate_eq_joined, infix_joined h hne]

/-- A term with an underscore lies across two words. -/
theorem infix_intercalate_pair {ending beginning : List Char} {words : List (List Char)}
    (h : PlainWords words) (hending : '_' ∉ ending) (hbeginning : '_' ∉ beginning) :
    ending ++ '_' :: beginning <:+: ['_'].intercalate words ↔ Adjacent ending beginning words := by
  cases words with
  | nil =>
    rw [List.intercalate_nil, List.infix_nil]
    exact ⟨fun hnil => absurd (List.append_eq_nil_iff.mp hnil).2 nofun, False.elim⟩
  | cons first rest =>
    rw [intercalate_eq_joined, infix_joined_pair hending hbeginning (underscore_notMem h)]

/-- The keys of words that are sensitive. -/
theorem sensitiveKey_writeWords {issued : IssuedCapability} {style : Style}
    {words : List (List Char)} (h : PlainWords words) :
    sensitiveKey (writeWords style words) issued = true ↔ Sensitive issued style words := by
  rw [sensitiveKey_eq, sensitiveText_eq, Sensitive]
  split
  case isTrue hstyle =>
    have hunderscore : '_' ∉ words.flatten := by
      rw [← filter_flatten h]
      simp
    rw [hstyle, normalizeKey_camel h, RunTogether]
    refine or_congr (exists_congr fun name => and_congr_right fun hname =>
      and_congr_left' (isName_flatten h (capabilityNames_plain hname).1)) (or_congr
        (exists_congr fun name => and_congr_right fun hname =>
          isName_flatten h (secretNames_plain hname).1) (or_iff_left ?_))
    -- there is no underscore for a pair to lie across
    rintro ⟨pair, -, hpair⟩
    exact hunderscore (hpair.subset (List.mem_append_right pair.1 List.mem_cons_self))
  case isFalse hstyle =>
    rw [normalizeKey_separated h hstyle, Separate]
    refine or_congr (exists_congr fun name => and_congr_right fun hname =>
      and_congr_left' (isName_intercalate h (capabilityNames_plain hname))) (or_congr
        (exists_congr fun name => and_congr_right fun hname =>
          isName_intercalate h (secretNames_plain hname)) (or_congr
            (exists_congr fun term => and_congr_right fun hterm =>
              infix_intercalate (joinedTerms_plain hterm).1 (joinedTerms_plain hterm).2)
            (exists_congr fun pair => and_congr_right fun hpair =>
              infix_intercalate_pair h (pairTerms_plain hpair).1 (pairTerms_plain hpair).2)))

/-! ### Words for which the style decides -/

/-- Two words next to each other that make a term which is listed with an underscore only. -/
def HasSplitTerm (words : List (List Char)) : Prop :=
  Adjacent "oauth".toList "code".toList words ∨ Adjacent "signed".toList "url".toList words

/-- The style decides: the words have a term that is listed with an underscore only and nothing else
that is sensitive, or they have a name or a term only when they run together. -/
def StyleDecides (issued : IssuedCapability) (words : List (List Char)) : Prop :=
  (HasSplitTerm words ∧ ¬RunTogether issued words) ∨
    (RunTogether issued words ∧ ¬Separate issued words)

theorem infix_flatten {term word : List Char} {words : List (List Char)} (h : term <:+: word)
    (hword : word ∈ words) : term <:+: words.flatten := by
  obtain ⟨before, after, rfl⟩ := List.append_of_mem hword
  rw [List.flatten_append, List.flatten_cons]
  exact h.trans ((List.prefix_append word _).isInfix.trans (List.suffix_append _ _).isInfix)

/-- With separators no more words are sensitive but for the terms listed with an underscore. -/
theorem Separate.runTogether_or {issued : IssuedCapability} {words : List (List Char)}
    (h : Separate issued words) : RunTogether issued words ∨ HasSplitTerm words := by
  rcases h with ⟨name, hname, hwords, hissued⟩ | ⟨name, hname, hwords⟩ |
    ⟨term, hterm, word, hword, hinfix⟩ | ⟨pair, hpair, hadjacent⟩
  · refine Or.inl (Or.inl ⟨name, hname, ?_, hissued⟩)
    rcases hwords with rfl | rfl
    · exact List.flatten_singleton
    · rfl
  · refine Or.inl (Or.inr (Or.inl ⟨name, hname, ?_⟩))
    rcases hwords with rfl | rfl
    · exact List.flatten_singleton
    · rfl
  · exact Or.inl (Or.inr (Or.inr ⟨term, hterm, infix_flatten hinfix hword⟩))
  · simp only [pairTerms, List.mem_cons, List.not_mem_nil, or_false] at hpair
    rcases hpair with rfl | rfl | rfl
    · exact Or.inr (Or.inl hadjacent)
    -- the confirmation code is listed in one piece too
    · exact Or.inl (Or.inr (Or.inr ⟨"confirmationcode".toList, by decide,
        hadjacent.infix_flatten⟩))
    · exact Or.inr (Or.inr hadjacent)

theorem HasSplitTerm.separate {words : List (List Char)} (h : HasSplitTerm words)
    (issued : IssuedCapability) : Separate issued words := by
  rcases h with h | h
  · exact Or.inr (Or.inr (Or.inr ⟨("oauth".toList, "code".toList), by decide, h⟩))
  · exact Or.inr (Or.inr (Or.inr ⟨("signed".toList, "url".toList), by decide, h⟩))

theorem styleDecides_iff {issued : IssuedCapability} {words : List (List Char)} :
    StyleDecides issued words ↔ ¬(RunTogether issued words ↔ Separate issued words) := by
  constructor
  · rintro (⟨hsplit, hjoined⟩ | ⟨hjoined, hseparate⟩) hsame
    · exact hjoined (hsame.mpr (hsplit.separate issued))
    · exact hseparate (hsame.mp hjoined)
  · intro hdiffer
    by_cases hjoined : RunTogether issued words
    · exact Or.inr ⟨hjoined, fun hseparate => hdiffer (iff_of_true hjoined hseparate)⟩
    · have hseparate : Separate issued words := by
        by_contra hnot
        exact hdiffer (iff_of_false hjoined hnot)
      exact Or.inl ⟨hseparate.runTogether_or.resolve_left hjoined, hjoined⟩

end Sanitize

end BlobYard
