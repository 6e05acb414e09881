/-
Predicates and published patterns.

Each predicate of the manifest rewrites one expression of the schema as loops.  Ten of them
agree with their expressions on every text; the other three differ on texts that can be named.

* `NamelessArea`, `timezone_agrees` — time zones without an area;
* `OddSchedule`, `cron_agrees` — schedules counted in bytes and in characters, and two
  characters that are white space to one side;
* `Field.Exception`, `pattern_law` — for each field, the texts on which the two agree.
-/
import BlobYard.Laws.PublishedPaths

namespace BlobYard

namespace PublishedSchema

open Regex
open String (utf8Len)

variable {text : List Char}

/-! ### Time zones and schedules -/

/-- One or two zone names, each behind a slash, with no area before them. -/
def NamelessArea (text : List Char) : Prop :=
  text.length ≤ 64 ∧ ∃ names : List (List Char), text = names.flatMap ('/' :: ·) ∧
    1 ≤ names.length ∧ names.length ≤ 2 ∧
      ∀ name ∈ names, name ≠ [] ∧ ∀ c ∈ name, Patterns.isZoneByte c = true

theorem zones_free {area : List Char} {names : List (List Char)}
    (harea : ∀ c ∈ area, areaCharacter c = true)
    (hnames : ∀ name ∈ names, name ∈ run zoneCharacter 1 none) :
    ∀ part ∈ area :: names, '/' ∉ part :=
  List.forall_mem_cons.mpr ⟨not_mem_of_all (by decide) harea, fun name hmem =>
    not_mem_of_all (by decide) (hnames name hmem).1⟩

theorem timezoneShape_iff :
    Patterns.timezoneShape text = true ↔ text = "UTC".toList ∨ utf8Len text ≤ 64 ∧
      ∃ area names, text = joined '/' area names ∧ (∀ c ∈ area, areaCharacter c = true) ∧
        (∀ name ∈ names, name ∈ run zoneCharacter 1 none) ∧ Within 1 (some 2) names.length := by
  have harea : ∀ area : List Char, (area.all fun c => c.isAlpha || c == '_') = true ↔
      ∀ c ∈ area, areaCharacter c = true := by
    intro area
    simp only [List.all_eq_true, areaCharacter_eq]
  have hname : ∀ name : List Char, (!name.isEmpty && name.all Patterns.isZoneByte) = true ↔
      name ∈ run zoneCharacter 1 none := by
    intro name
    simp only [Bool.and_eq_true, Bool.not_eq_true', List.isEmpty_eq_false_iff, List.all_eq_true,
      mem_run_one, zoneCharacter_eq]
  have hwithin : ∀ n, Within 1 (some 2) n ↔ 2 ≤ n + 1 ∧ n + 1 ≤ 3 := by
    intro n
    simp only [Within, Option.some.injEq, forall_eq']
    omega
  simp only [Patterns.timezoneShape, Bool.or_eq_true, Bool.and_eq_true, beq_iff_eq,
    decide_eq_true_eq]
  refine or_congr_right (and_congr_right fun _ => ?_)
  constructor
  · rintro ⟨⟨⟨hleast, hmost⟩, hhead⟩, htail⟩
    obtain ⟨area, names, rfl, hfree⟩ := exists_joined '/' text
    rw [splitOn_joined hfree] at hleast hmost hhead htail
    refine ⟨area, names, rfl, (harea area).mp hhead, ?_, (hwithin _).mpr ⟨hleast, hmost⟩⟩
    exact fun name hmem => (hname name).mp (List.all_eq_true.mp htail name hmem)
  · rintro ⟨area, names, rfl, hall, hnames, hlen⟩
    rw [splitOn_joined (zones_free hall hnames)]
    refine ⟨⟨(hwithin _).mp hlen, (harea area).mpr hall⟩, List.all_eq_true.mpr fun name hmem => ?_⟩
    exact (hname name).mpr (hnames name hmem)

theorem accepts_timezone :
    timezone.Accepts text ↔ (text = "UTC".toList ∨ ∃ area names, text = joined '/' area names ∧
      area ∈ run areaCharacter 1 none ∧ (∀ name ∈ names, name ∈ run zoneCharacter 1 none) ∧
        Within 1 (some 2) names.length) ∧ text.length ≤ 64 := by
  have harea : Denotes (chars areaCharacter 1 none) (run areaCharacter 1 none) :=
    denotes_run _ 1 none
  have hzone : Denotes (chars zoneCharacter 1 none) (run zoneCharacter 1 none) :=
    denotes_run _ 1 none
  rw [Pattern.Accepts, timezone, found_alt]
  simp only [Option.some.injEq, forall_eq']
  refine and_congr_left fun _ => ?_
  rw [or_comm]
  exact or_congr (denotes_literal _).found_whole
    ((harea.seq (hzone.parted '/' 1 (some 2))).found_whole.trans mem_parts)

theorem area_zone (c : Char) (h : areaCharacter c = true) : zoneCharacter c = true := by
  rw [areaCharacter_eq, isAlpha_eq] at h
  rw [zoneCharacter_eq, Patterns.isZoneByte, isAsciiAlphanumeric_eq]
  simp only [Bool.or_eq_true, beq_iff_eq] at h ⊢
  tauto

/-- The predicate also takes time zones without an area. -/
theorem timezone_agrees : Agrees Patterns.timezoneShape timezone text ↔ ¬ NamelessArea text := by
  rw [Agrees, timezoneShape_iff, accepts_timezone]
  constructor
  · rintro h ⟨hlen, names, rfl, hleast, hmost, hnames⟩
    have hrun : ∀ name ∈ names, name ∈ run zoneCharacter 1 none := by
      intro name hmem
      simpa only [mem_run_one, zoneCharacter_eq] using hnames name hmem
    have hempty : ∀ c ∈ ([] : List Char), areaCharacter c = true := by simp
    have hascii : ∀ c ∈ joined '/' [] names, c.toNat < 128 :=
      ascii_joined (by decide) ascii_zoneCharacter
        (List.forall_mem_cons.mpr ⟨by simp, fun name hmem => (hrun name hmem).1⟩)
    have hjoined : names.flatMap ('/' :: ·) = joined '/' [] names := rfl
    rw [hjoined] at h hlen
    obtain ⟨hutc | ⟨area, names', hsame, harea, hnames', -⟩, -⟩ := h.mp (Or.inr
      ⟨by rw [utf8Len_eq_length hascii]; exact hlen, [], names, rfl, hempty, hrun, hleast,
        fun m hm => Option.some.inj hm ▸ hmost⟩)
    -- the text begins with a slash
    · cases names with
      | nil => simp at hleast
      | cons name names => exact absurd (List.cons.inj hutc).1 (by decide)
    · have hsplit := congrArg (List.splitOn '/') hsame
      rw [splitOn_joined (zones_free hempty hrun), splitOn_joined (zones_free harea.1 hnames')]
        at hsplit
      exact (mem_run_one.mp harea).1 (List.cons.inj hsplit).1.symm
  · intro hnot
    constructor
    · rintro (rfl | ⟨hlen, area, names, rfl, harea, hnames, hwithin⟩)
      · exact ⟨Or.inl rfl, by decide⟩
      · have hshort := (length_le_utf8Len _).trans hlen
        refine ⟨Or.inr ⟨area, names, rfl, mem_run_one.mpr ⟨?_, harea⟩, hnames, hwithin⟩, hshort⟩
        rintro rfl
        refine hnot ⟨hshort, names, rfl, hwithin.1, hwithin.2 2 rfl, fun name hmem => ?_⟩
        simpa only [mem_run_one, zoneCharacter_eq] using hnames name hmem
    · rintro ⟨hutc | ⟨area, names, rfl, harea, hnames, hwithin⟩, hlen⟩
      · exact Or.inl hutc
      · have hascii : ∀ c ∈ joined '/' area names, c.toNat < 128 := by
          refine ascii_joined (by decide) ascii_zoneCharacter (List.forall_mem_cons.mpr ⟨?_, ?_⟩)
          · exact fun c hc => area_zone c (harea.1 c hc)
          · exact fun name hmem => (hnames name hmem).1
        refine Or.inr ⟨?_, area, names, rfl, harea.1, hnames, hwithin⟩
        rw [utf8Len_eq_length hascii]
        exact hlen

/-- The control character that is white space to the program only. -/
def nextLine : Char := '\u0085'

/-- The mark that is white space to the schema only. -/
def byteOrderMark : Char := '\ufeff'

/-- Five fields behind single spaces, none with a character that is white space to both. -/
def FiveFields (text : List Char) : Prop :=
  (text.splitOn ' ').length = 5 ∧ ∀ field ∈ text.splitOn ' ', field ≠ [] ∧
    ∀ c ∈ field, isWhitespace c = true → c = nextLine

/-- A schedule that one side takes and the other does not: the program measures it in bytes and
forbids the next-line character, the schema counts characters and forbids the byte order mark. -/
def OddSchedule (text : List Char) : Prop :=
  FiveFields text ∧
    ¬ (utf8Len text ≤ 64 ∧ nextLine ∉ text ↔ text.length ≤ 64 ∧ byteOrderMark ∉ text)

theorem space_iff {c : Char} :
    space c = true ↔ isWhitespace c = true ∧ c ≠ nextLine ∨ c = byteOrderMark := by
  have hof : ∀ d : Char, c = d ↔ c.toNat = d.toNat := fun d =>
    ⟨congrArg Char.toNat, fun h => Char.ext (UInt32.toNat_inj.mp h)⟩
  have hle : ∀ d e : Char, d ≤ e ↔ d.toNat ≤ e.toNat := fun d e => by
    rw [Char.le_def, UInt32.le_iff_toNat_le]
    rfl
  simp only [space, set_cons, set_nil, List.contains_cons, List.contains_nil, Bool.or_false,
    Bool.or_eq_true, Bool.and_eq_true, decide_eq_true_eq, beq_iff_eq, isWhitespace, hof, hle,
    nextLine, byteOrderMark, ne_eq, Char.reduceToNat]
  omega

/-- The characters of a text other than the separator are those of its parts. -/
theorem mem_splitOn_iff {separator c : Char} (hc : c ≠ separator) :
    c ∈ text ↔ ∃ part ∈ text.splitOn separator, c ∈ part := by
  obtain ⟨first, rest, rfl, hfree⟩ := exists_joined separator text
  rw [splitOn_joined hfree]
  constructor
  · intro h
    exact (mem_joined h).resolve_left hc
  · rintro ⟨part, hpart, hmem⟩
    rw [joined, List.mem_append, List.mem_flatMap]
    rcases List.mem_cons.mp hpart with rfl | hpart
    · exact Or.inl hmem
    · exact Or.inr ⟨part, hpart, List.mem_cons_of_mem separator hmem⟩

theorem cronShape_iff :
    Patterns.cronShape text = true ↔ FiveFields text ∧ utf8Len text ≤ 64 ∧ nextLine ∉ text := by
  have hwhite : isWhitespace nextLine = true := by decide
  rw [@mem_splitOn_iff text ' ' nextLine (by decide)]
  simp only [Patterns.cronShape, FiveFields, Bool.and_eq_true, decide_eq_true_eq, beq_iff_eq,
    List.all_eq_true, Bool.not_eq_true', List.isEmpty_eq_false_iff, List.any_eq_false]
  constructor
  · rintro ⟨hlen, hfive, hall⟩
    refine ⟨⟨hfive, fun field hfield => ⟨(hall field hfield).1, fun c hc hspace => ?_⟩⟩, hlen, ?_⟩
    · exact absurd hspace ((hall field hfield).2 c hc)
    · rintro ⟨field, hfield, hmem⟩
      exact (hall field hfield).2 _ hmem hwhite
  · rintro ⟨⟨hfive, hall⟩, hlen, hnot⟩
    refine ⟨hlen, hfive, fun field hfield => ⟨(hall field hfield).1, fun c hc hspace => ?_⟩⟩
    exact hnot ⟨field, hfield, (hall field hfield).2 c hc hspace ▸ hc⟩

/-- Five runs of characters with spaces between them. -/
theorem five_runs {L : Language Char} (h : ∀ part ∈ L, ' ' ∉ part) :
    text ∈ L * (exactly [' '] * (L * (exactly [' '] * (L * (exactly [' '] * (L * (exactly [' '] *
        L))))))) ↔
      (text.splitOn ' ').length = 5 ∧ ∀ part ∈ text.splitOn ' ', part ∈ L := by
  rw [and_comm, @splitOn_iff text ' ' L h fun parts => parts.length = 5]
  simp only [Language.mem_mul, mem_exactly]
  constructor
  · rintro ⟨a, ha, _, ⟨_, rfl, _, ⟨b, hb, _, ⟨_, rfl, _, ⟨c, hc, _, ⟨_, rfl, _, ⟨d, hd, _,
      ⟨_, rfl, e, he, rfl⟩, rfl⟩, rfl⟩, rfl⟩, rfl⟩, rfl⟩, rfl⟩, rfl⟩
    exact ⟨a, [b, c, d, e], by simp [joined], ha, by simp [hb, hc, hd, he], rfl⟩
  · rintro ⟨a, rest, rfl, ha, hrest, hlen⟩
    obtain ⟨b, c, d, e, rfl⟩ : ∃ b c d e, rest = [b, c, d, e] := by
      rcases rest with _ | ⟨b, _ | ⟨c, _ | ⟨d, _ | ⟨e, _ | ⟨f, rest⟩⟩⟩⟩⟩ <;> simp at hlen
      exact ⟨b, c, d, e, rfl⟩
    simp only [List.forall_mem_cons] at hrest
    exact ⟨a, ha, _, ⟨_, rfl, _, ⟨b, hrest.1, _, ⟨_, rfl, _, ⟨c, hrest.2.1, _, ⟨_, rfl, _,
      ⟨d, hrest.2.2.1, _, ⟨_, rfl, e, hrest.2.2.2.1, rfl⟩, rfl⟩, rfl⟩, rfl⟩, rfl⟩, rfl⟩, rfl⟩,
      by simp [joined]⟩

theorem accepts_cron :
    cron.Accepts text ↔ FiveFields text ∧ text.length ≤ 64 ∧ byteOrderMark ∉ text := by
  have hrun : Denotes (chars nonspace 1 none) (run nonspace 1 none) := denotes_run _ 1 none
  have hspace := denotes_literal [' ']
  have hfree : ∀ part ∈ run nonspace 1 none, ' ' ∉ part :=
    fun part hpart => not_mem_of_all (by decide) hpart.1
  rw [cron, accepts_whole_short (hrun.seq (hspace.seq (hrun.seq (hspace.seq (hrun.seq (hspace.seq
    (hrun.seq (hspace.seq hrun)))))))), five_runs hfree,
    @mem_splitOn_iff text ' ' byteOrderMark (by decide)]
  have hnonspace : ∀ c, nonspace c = true ↔
      (isWhitespace c = true → c = nextLine) ∧ c ≠ byteOrderMark := by
    intro c
    rw [nonspace, Bool.not_eq_true', ← Bool.not_eq_true, space_iff]
    tauto
  simp only [FiveFields, mem_run_one, hnonspace]
  constructor
  · rintro ⟨⟨hfive, hall⟩, hlen⟩
    refine ⟨⟨hfive, fun field hfield => ⟨(hall field hfield).1, fun c hc =>
      ((hall field hfield).2 c hc).1⟩⟩, hlen, ?_⟩
    rintro ⟨field, hfield, hmem⟩
    exact ((hall field hfield).2 _ hmem).2 rfl
  · rintro ⟨⟨hfive, hall⟩, hlen, hnot⟩
    refine ⟨⟨hfive, fun field hfield => ⟨(hall field hfield).1, fun c hc =>
      ⟨(hall field hfield).2 c hc, ?_⟩⟩⟩, hlen⟩
    rintro rfl
    exact hnot ⟨field, hfield, hc⟩

theorem cron_agrees : Agrees Patterns.cronShape cron text ↔ ¬ OddSchedule text := by
  rw [Agrees, cronShape_iff, accepts_cron, OddSchedule]
  tauto

/-! ### All predicates -/

/-- The restricted texts of a manifest. -/
inductive Field where
  | dnsLabel
  | roleName
  | permission
  | secretName
  | bucketGrant
  | egressTarget
  | relativePath
  | modulePath
  | routePath
  | byteSize
  | duration
  | cronShape
  | timezoneShape
  deriving DecidableEq

/-- The predicate of the program. -/
def Field.predicate : Field → List Char → Bool
  | dnsLabel => Patterns.dnsLabel
  | roleName => Patterns.roleName
  | permission => Patterns.permission
  | secretName => Patterns.secretName
  | bucketGrant => Patterns.bucketGrant
  | egressTarget => Patterns.egressTarget
  | relativePath => Patterns.relativePath
  | modulePath => Patterns.modulePath
  | routePath => Patterns.routePath
  | byteSize => Patterns.byteSize
  | duration => Patterns.duration
  | cronShape => Patterns.cronShape
  | timezoneShape => Patterns.timezoneShape

/-- The pattern of the schema. -/
def Field.pattern : Field → Pattern
  | dnsLabel => PublishedSchema.dnsLabel
  | roleName => PublishedSchema.roleName
  | permission => PublishedSchema.permission
  | secretName => PublishedSchema.secretName
  | bucketGrant => PublishedSchema.bucketGrant
  | egressTarget => PublishedSchema.egressTarget
  | relativePath => PublishedSchema.relativePath
  | modulePath => PublishedSchema.modulePath
  | routePath => PublishedSchema.routePath
  | byteSize => PublishedSchema.byteSize
  | duration => PublishedSchema.duration
  | cronShape => PublishedSchema.cron
  | timezoneShape => PublishedSchema.timezone

/-- The texts that a predicate and its pattern do not agree on; only three fields have any. -/
def Field.Exception : Field → List Char → Prop
  | modulePath => HiddenDots
  | cronShape => OddSchedule
  | timezoneShape => NamelessArea
  | _ => fun _ => False

/-- A predicate agrees with its pattern on every text but the exceptions of its own field, and on
none of these. -/
theorem pattern_law (field : Field) (text : String) :
    Agrees field.predicate field.pattern text.toList ↔ ¬field.Exception text.toList := by
  -- ten fields have no exception
  have hnever {p : Prop} (h : p) : p ↔ ¬False := iff_of_true h not_false
  cases field with
  | dnsLabel => exact hnever dnsLabel_agrees
  | roleName => exact hnever roleName_agrees
  | permission => exact hnever permission_agrees
  | secretName => exact hnever secretName_agrees
  | bucketGrant => exact hnever bucketGrant_agrees
  | egressTarget => exact hnever egressTarget_agrees
  | relativePath => exact hnever relativePath_agrees
  | modulePath => exact modulePath_agrees
  | routePath => exact hnever routePath_agrees
  | byteSize => exact hnever byteSize_agrees
  | duration => exact hnever duration_agrees
  | cronShape => exact cron_agrees
  | timezoneShape => exact timezone_agrees

/-- Thirty-three letters with accents, and four stars. -/
def longSchedule : List Char := List.replicate 33 'é' ++ " * * * *".toList

/-- A module that is only dots and an extension, a zone without an area, and a schedule of few
characters and many bytes. -/
theorem predicates_disagree :
    ¬ Agrees Patterns.modulePath modulePath "..ts".toList ∧
      ¬ Agrees Patterns.timezoneShape timezone "/Paris".toList ∧
      ¬ Agrees Patterns.cronShape cron longSchedule := by
  refine ⟨fun h => modulePath_agrees.mp h ?_, fun h => timezone_agrees.mp h ?_,
    fun h => cron_agrees.mp h ?_⟩
  · exact ⟨by decide, [], ['.'], Or.inl rfl, by simp, ".ts".toList, by decide, rfl⟩
  · exact ⟨by decide, ["Paris".toList], rfl, by decide, by decide, by decide⟩
  · refine ⟨⟨by decide, by decide⟩, fun hiff => ?_⟩
    have hlong : ¬ utf8Len longSchedule ≤ 64 := by decide
    exact hlong (hiff.mpr ⟨by decide, by decide⟩).1

end PublishedSchema

end BlobYard
