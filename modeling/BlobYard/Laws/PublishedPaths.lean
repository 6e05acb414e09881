/-
Published paths.

The schema forbids dots as a segment by a lookahead at the start of each segment, the program
by splitting the path.  On relative paths the two agree.  A module path is a relative path with
an extension, and there the lookahead sees the extension, too: the segment `..ts` is no dots.

* `dots_ahead`, `segments_matches` — what the expressions with lookahead match;
* `relativePath_agrees` — relative paths;
* `HiddenDots`, `modulePath_agrees` — module paths, and where the two differ.
-/
import BlobYard.Laws.PublishedNames

namespace BlobYard

namespace PublishedSchema

open Regex
open String (utf8Len)

variable {text : List Char}

/-! ### Paths -/

/-- One or two dots. -/
def Dots (part : List Char) : Prop := part = ['.'] ∨ part = ['.', '.']

/-- The text up to the first slash. -/
def firstPart (rest : List Char) : List Char := rest.takeWhile (· != '/')

theorem firstPart_append {part rest : List Char} (h : '/' ∉ part) :
    firstPart (part ++ rest) = part ++ firstPart rest := by
  refine List.takeWhile_append_of_pos fun c hc => ?_
  rw [bne_iff_ne]
  rintro rfl
  exact h hc

/-- The expression `\.\.?(?:/|$)` matches at the start of the rest. -/
theorem dots_ahead {before rest : List Char} :
    (∃ u v, rest = u ++ v ∧ dots.Matches before u v) ↔ Dots (firstPart rest) := by
  have hslash : ∀ b u v, (Regex.alt (literal ['/']) .stop).Matches b u v ↔
      u = ['/'] ∨ u = [] ∧ v = [] := by
    intro b u v
    exact or_congr (denotes_literal ['/'] b u v) Iff.rfl
  -- one dot or two, then a slash or the end
  have hmatches : ∀ b u v, dots.Matches b u v ↔ ∃ w, (w = [] ∨ w = ['.']) ∧
      (u = '.' :: (w ++ ['/']) ∨ u = '.' :: w ∧ v = []) := by
    intro b u v
    constructor
    · rintro ⟨_, _, rfl, hdot, w, slash, rfl, hw, hslash'⟩
      obtain rfl := (denotes_literal ['.'] _ _ _).mp hdot
      have hw := ((denotes_literal ['.']).optional _ _ _).mp hw
      refine ⟨w, hw, ?_⟩
      rcases (hslash _ _ _).mp hslash' with rfl | ⟨rfl, rfl⟩
      · exact Or.inl rfl
      · exact Or.inr ⟨by simp, rfl⟩
    · rintro ⟨w, hw, rfl | ⟨rfl, rfl⟩⟩
      · exact ⟨['.'], w ++ ['/'], rfl, (denotes_literal ['.'] _ _ _).mpr rfl, w, ['/'], rfl,
          ((denotes_literal ['.']).optional _ _ _).mpr hw, (hslash _ _ _).mpr (Or.inl rfl)⟩
      · exact ⟨['.'], w, rfl, (denotes_literal ['.'] _ _ _).mpr rfl, w, [], by simp,
          ((denotes_literal ['.']).optional _ _ _).mpr hw, (hslash _ _ _).mpr (Or.inr ⟨rfl, rfl⟩)⟩
  simp only [hmatches]
  constructor
  · rintro ⟨u, v, rfl, w, rfl | rfl, rfl | ⟨rfl, rfl⟩⟩ <;> simp [firstPart, Dots]
  · intro h
    -- the rest is its first part, then nothing or a slash
    have hsplit : rest = firstPart rest ++ rest.dropWhile (· != '/') :=
      (List.takeWhile_append_dropWhile).symm
    have hhead : rest.dropWhile (· != '/') = [] ∨
        ∃ v, rest.dropWhile (· != '/') = '/' :: v := by
      cases hrest : rest.dropWhile (· != '/') with
      | nil => exact Or.inl rfl
      | cons c v =>
        have hne : rest.dropWhile (· != '/') ≠ [] := by simp [hrest]
        have hc := List.head_dropWhile_not (· != '/') hne
        simp only [hrest, List.head_cons, bne_eq_false_iff_eq] at hc
        exact Or.inr ⟨v, by rw [hc]⟩
    obtain ⟨w, hw, hfirst⟩ : ∃ w, (w = [] ∨ w = ['.']) ∧ firstPart rest = '.' :: w := by
      rcases h with h | h
      · exact ⟨[], Or.inl rfl, h⟩
      · exact ⟨['.'], Or.inr rfl, h⟩
    rw [hfirst] at hsplit
    rcases hhead with hnil | ⟨v, hv⟩
    · exact ⟨'.' :: w, [], by rw [hnil] at hsplit; exact hsplit, w, hw, Or.inr ⟨rfl, rfl⟩⟩
    · refine ⟨'.' :: (w ++ ['/']), v, ?_, w, hw, Or.inl rfl⟩
      rw [hv] at hsplit
      simpa using hsplit

theorem segment_matches {before here after : List Char} :
    segment.Matches before here after ↔
      here ∈ run pathCharacter 1 none ∧ ¬ Dots (firstPart (here ++ after)) := by
  constructor
  · rintro ⟨_, v, rfl, ⟨rfl, hahead⟩, hv⟩
    exact ⟨(denotes_run _ 1 none _ _ _).mp hv, fun h => hahead (dots_ahead.mpr h)⟩
  · rintro ⟨hrun, hdots⟩
    exact ⟨[], here, rfl, ⟨rfl, fun h => hdots (dots_ahead.mp h)⟩,
      (denotes_run _ 1 none _ _ _).mpr hrun⟩

/-- No part of the path, as it stands before what follows, looks like dots. -/
def Clear : List (List Char) → List Char → Prop
  | [], _ => True
  | part :: rest, after =>
    ¬ Dots (firstPart (part ++ (rest.flatMap ('/' :: ·) ++ after))) ∧ Clear rest after

theorem repeated_segments {n : ℕ} {before here after : List Char} :
    Repeated (Regex.seq (literal ['/']) segment).Matches n before here after ↔
      ∃ parts : List (List Char), parts.length = n ∧ here = parts.flatMap ('/' :: ·) ∧
        (∀ part ∈ parts, part ∈ run pathCharacter 1 none) ∧ Clear parts after := by
  induction n generalizing before here with
  | zero =>
    constructor
    · rintro rfl
      exact ⟨[], rfl, rfl, by simp, trivial⟩
    · rintro ⟨parts, hlen, rfl, -⟩
      rw [List.length_eq_zero_iff.mp hlen]
      rfl
  | succ n ih =>
    constructor
    · rintro ⟨_, v, rfl, ⟨_, part, rfl, hslash, hpart⟩, hrest⟩
      obtain rfl := (denotes_literal ['/'] _ _ _).mp hslash
      obtain ⟨hrun, hdots⟩ := segment_matches.mp hpart
      obtain ⟨parts, rfl, rfl, hparts, hclear⟩ := ih.mp hrest
      exact ⟨part :: parts, rfl, by simp, List.forall_mem_cons.mpr ⟨hrun, hparts⟩, hdots, hclear⟩
    · rintro ⟨parts, hlen, rfl, hparts, hclear⟩
      cases parts with
      | nil => simp at hlen
      | cons part parts =>
        rw [List.forall_mem_cons] at hparts
        refine ⟨'/' :: part, parts.flatMap ('/' :: ·), by simp, ⟨['/'], part, rfl, ?_, ?_⟩, ?_⟩
        · exact (denotes_literal ['/'] _ _ _).mpr rfl
        · exact segment_matches.mpr ⟨hparts.1, hclear.1⟩
        · exact ih.mpr ⟨parts, by simpa using hlen, rfl, hparts.2, hclear.2⟩

theorem part_free {part : List Char} (h : part ∈ run pathCharacter 1 none) : '/' ∉ part :=
  not_mem_of_all (by decide) (mem_run_one.mp h).2

/-- Only the last part stands before something other than a slash. -/
theorem clear_concat {directories : List (List Char)} {last after : List Char}
    (h : ∀ part ∈ directories ++ [last], '/' ∉ part) :
    Clear (directories ++ [last]) after ↔
      (∀ part ∈ directories, ¬ Dots part) ∧ ¬ Dots (last ++ firstPart after) := by
  induction directories with
  | nil =>
    have hlast : '/' ∉ last := h last (by simp)
    simp [Clear, firstPart_append hlast]
  | cons part directories ih =>
    rw [List.cons_append, List.forall_mem_cons] at h
    have hnext : firstPart (part ++ ((directories ++ [last]).flatMap ('/' :: ·) ++ after)) =
        part := by
      have hstart : ∃ tail, (directories ++ [last]).flatMap ('/' :: ·) ++ after = '/' :: tail := by
        cases directories with
        | nil => exact ⟨_, by simp; rfl⟩
        | cons next directories => exact ⟨_, by simp; rfl⟩
      obtain ⟨tail, htail⟩ := hstart
      rw [htail, firstPart_append h.1]
      simp [firstPart]
    rw [List.cons_append, Clear, hnext, ih h.2, List.forall_mem_cons, and_assoc]

/-- A path before `after`: directories and a last part. -/
theorem segments_matches {here after : List Char} :
    segments.Matches [] here after ↔
      ∃ directories last, here = directories.flatMap (· ++ ['/']) ++ last ∧
        (∀ part ∈ directories ++ [last], part ∈ run pathCharacter 1 none) ∧
        (∀ part ∈ directories, ¬ Dots part) ∧ ¬ Dots (last ++ firstPart after) := by
  have hjoined : segments.Matches [] here after ↔ ∃ first rest, here = joined '/' first rest ∧
      (∀ part ∈ first :: rest, part ∈ run pathCharacter 1 none) ∧ Clear (first :: rest) after := by
    constructor
    · rintro ⟨_, _, rfl, ⟨rfl, -⟩, first, _, rfl, hfirst, n, -, hrest⟩
      obtain ⟨hrun, hdots⟩ := segment_matches.mp hfirst
      obtain ⟨rest, -, rfl, hparts, hclear⟩ := repeated_segments.mp hrest
      exact ⟨first, rest, rfl, List.forall_mem_cons.mpr ⟨hrun, hparts⟩, hdots, hclear⟩
    · rintro ⟨first, rest, rfl, hall, hdots, hclear⟩
      rw [List.forall_mem_cons] at hall
      refine ⟨[], _, rfl, ⟨rfl, ?_⟩, first, _, rfl, segment_matches.mpr ⟨hall.1, hdots⟩,
        rest.length, ⟨Nat.zero_le _, by simp⟩,
        repeated_segments.mpr ⟨rest, rfl, rfl, hall.2, hclear⟩⟩
      -- the path does not begin with a slash
      rintro ⟨u, v, hsplit, hu⟩
      obtain rfl := (denotes_literal ['/'] _ _ _).mp hu
      obtain ⟨hne, hpath⟩ := mem_run_one.mp hall.1
      obtain ⟨c, first, rfl⟩ := List.exists_cons_of_ne_nil hne
      have hc : c = '/' := by
        simp only [List.cons_append, List.nil_append] at hsplit
        exact (List.cons.inj hsplit).1
      exact part_free hall.1 (hc ▸ List.mem_cons_self)
  rw [hjoined, exists_joined_iff (P := fun parts =>
    (∀ part ∈ parts, part ∈ run pathCharacter 1 none) ∧ Clear parts after)]
  refine exists_congr fun directories => exists_congr fun last => and_congr_right fun _ => ?_
  refine and_congr_right fun hall => ?_
  exact clear_concat fun part hpart => part_free (hall part hpart)

/-- The parts that `pathSegment` takes. -/
def cleanPart : Language Char := {part | part ∈ run pathCharacter 1 none ∧ ¬ Dots part}

theorem pathSegment_iff {part : List Char} :
    Patterns.pathSegment part = true ↔ part ∈ cleanPart := by
  have hall : (part.all fun c => isAsciiAlphanumeric c || c == '.' || c == '_' || c == '-') = true ↔
      ∀ c ∈ part, pathCharacter c = true := by
    simp only [List.all_eq_true, pathCharacter_eq]
  have hdots : ¬ Dots part ↔ part ≠ ['.'] ∧ part ≠ ['.', '.'] := by
    rw [Dots, not_or]
  change _ ↔ part ∈ run pathCharacter 1 none ∧ ¬ Dots part
  rw [mem_run_one, hdots, Patterns.pathSegment, Bool.and_eq_true, hall]
  simp only [Bool.and_eq_true, Bool.not_eq_true', List.isEmpty_eq_false_iff, bne_iff_ne]
  tauto

/-- Directories and a last part, none of them dots. -/
theorem relativePath_iff :
    Patterns.relativePath text = true ↔ utf8Len text ≤ 256 ∧
      ∃ directories last, text = directories.flatMap (· ++ ['/']) ++ last ∧
        ∀ part ∈ directories ++ [last], part ∈ cleanPart := by
  have hfree : ∀ part ∈ cleanPart, '/' ∉ part := fun part hpart => part_free hpart.1
  have hsplit := @splitOn_iff text '/' cleanPart hfree fun _ => True
  have hdirectories := @exists_joined_iff Char '/' text fun parts =>
    ∀ part ∈ parts, part ∈ cleanPart
  simp only [List.forall_mem_cons, and_true] at hsplit hdirectories
  simp only [Patterns.relativePath, Bool.and_eq_true, Bool.not_eq_true', List.isEmpty_eq_false_iff,
    decide_eq_true_eq, bne_iff_ne, List.all_eq_true, pathSegment_iff, and_assoc]
  refine and_congr_right fun _ => ?_
  rw [← hdirectories, ← hsplit]
  refine ⟨fun h => h.2.2, fun h => ?_⟩
  obtain ⟨first, rest, rfl, hfirst, -⟩ := hsplit.mp h
  obtain ⟨hne, hall⟩ := mem_run_one.mp hfirst.1
  obtain ⟨c, first, rfl⟩ := List.exists_cons_of_ne_nil hne
  have hc : c ≠ '/' := by
    rintro rfl
    exact part_free hfirst.1 List.mem_cons_self
  exact ⟨by simp [joined], by simpa [joined] using hc, h⟩

theorem ascii_path {directories : List (List Char)} {last : List Char}
    (h : ∀ part ∈ directories ++ [last], part ∈ run pathCharacter 1 none) :
    ∀ c ∈ directories.flatMap (· ++ ['/']) ++ last, c.toNat < 128 := by
  intro c hc
  simp only [List.mem_append, List.mem_flatMap, List.mem_singleton] at hc
  rcases hc with ⟨part, hpart, hc | rfl⟩ | hc
  · exact ascii_pathCharacter c ((h part (List.mem_append_left _ hpart)).1 c hc)
  · decide
  · exact ascii_pathCharacter c ((h last (by simp)).1 c hc)

theorem relativePath_agrees : Agrees Patterns.relativePath relativePath text := by
  rw [Agrees, relativePath_iff, Pattern.Accepts, relativePath, found_whole, segments_matches]
  simp only [Option.some.injEq, forall_eq']
  rw [and_comm]
  constructor
  · rintro ⟨⟨directories, last, rfl, hall⟩, hlen⟩
    refine ⟨⟨directories, last, rfl, fun part hpart => (hall part hpart).1,
      fun part hpart => (hall part (List.mem_append_left _ hpart)).2, ?_⟩,
      (length_le_utf8Len _).trans hlen⟩
    simpa [firstPart] using (hall last (by simp)).2
  · rintro ⟨⟨directories, last, rfl, hrun, hdirectories, hlast⟩, hlen⟩
    refine ⟨⟨directories, last, rfl, fun part hpart => ⟨hrun part hpart, ?_⟩⟩, ?_⟩
    · rcases List.mem_append.mp hpart with hpart | hpart
      · exact hdirectories part hpart
      · obtain rfl := List.mem_singleton.mp hpart
        simpa [firstPart] using hlast
    · rw [utf8Len_eq_length (ascii_path hrun)]
      exact hlen

/-- The file of a module is its extension behind one or two dots. -/
def HiddenDots (text : List Char) : Prop :=
  text.length ≤ 256 ∧ ∃ (directories : List (List Char)) (name : List Char), Dots name ∧
    (∀ directory ∈ directories, Patterns.pathSegment directory = true) ∧
      ∃ suffix ∈ Patterns.moduleSuffixes, text = directories.flatMap (· ++ ['/']) ++ name ++ suffix

theorem suffix_iff {before after suffix : List Char} :
    (Regex.seq (literal ['.']) extension).Matches before suffix after ↔
      suffix ∈ Patterns.moduleSuffixes := by
  have hextension : Denotes (.seq (literal ['.']) extension) (exactly ['.'] * (exactly "ts".toList +
      (exactly "js".toList + (exactly "mts".toList + exactly "mjs".toList)))) :=
    (denotes_literal _).seq ((denotes_literal _).alt ((denotes_literal _).alt
      ((denotes_literal _).alt (denotes_literal _))))
  rw [hextension, Language.mem_mul]
  simp only [Language.mem_add, mem_exactly, Patterns.moduleSuffixes, List.mem_cons,
    List.not_mem_nil, or_false]
  constructor
  · rintro ⟨_, rfl, _, rfl | rfl | rfl | rfl, rfl⟩
    exacts [Or.inl rfl, Or.inr (Or.inl rfl), Or.inr (Or.inr (Or.inl rfl)),
      Or.inr (Or.inr (Or.inr rfl))]
  · rintro (rfl | rfl | rfl | rfl)
    exacts [⟨_, rfl, _, Or.inl rfl, rfl⟩, ⟨_, rfl, _, Or.inr (Or.inl rfl), rfl⟩,
      ⟨_, rfl, _, Or.inr (Or.inr (Or.inl rfl)), rfl⟩,
      ⟨_, rfl, _, Or.inr (Or.inr (Or.inr rfl)), rfl⟩]

/-- Every suffix ends the part before it, whatever that is. -/
theorem not_dots_suffix {last suffix : List Char} (h : suffix ∈ Patterns.moduleSuffixes) :
    ¬ Dots (last ++ firstPart suffix) := by
  have hsame : firstPart suffix = suffix ∧ ∃ c, suffix.getLast? = some c ∧ c ≠ '.' := by
    simp only [Patterns.moduleSuffixes, List.mem_cons, List.not_mem_nil, or_false] at h
    rcases h with rfl | rfl | rfl | rfl
    · exact ⟨by decide, 's', rfl, by decide⟩
    · exact ⟨by decide, 's', rfl, by decide⟩
    · exact ⟨by decide, 's', rfl, by decide⟩
    · exact ⟨by decide, 's', rfl, by decide⟩
  obtain ⟨hfirst, c, hc, hne⟩ := hsame
  have hlast : (last ++ suffix).getLast? = some c := by
    rw [List.getLast?_append, hc]
    rfl
  rw [hfirst]
  rintro (h | h) <;> rw [h] at hlast <;> exact hne (by simpa using hlast.symm)

theorem accepts_modulePath :
    modulePath.Accepts text ↔ text.length ≤ 256 ∧ ∃ suffix ∈ Patterns.moduleSuffixes,
      ∃ directories last, text = directories.flatMap (· ++ ['/']) ++ last ++ suffix ∧
        (∀ part ∈ directories ++ [last], part ∈ run pathCharacter 1 none) ∧
        ∀ part ∈ directories, ¬ Dots part := by
  rw [Pattern.Accepts, modulePath, found_whole]
  simp only [Option.some.injEq, forall_eq']
  rw [and_comm]
  refine and_congr_right fun _ => ?_
  constructor
  · rintro ⟨_, suffix, rfl, hsegments, hsuffix⟩
    obtain ⟨directories, last, rfl, hrun, hclear, -⟩ := segments_matches.mp hsegments
    exact ⟨suffix, suffix_iff.mp hsuffix, directories, last, rfl, hrun, hclear⟩
  · rintro ⟨suffix, hsuffix, directories, last, rfl, hrun, hclear⟩
    refine ⟨_, suffix, rfl, segments_matches.mpr ⟨directories, last, rfl, hrun, hclear, ?_⟩,
      suffix_iff.mpr hsuffix⟩
    rw [List.append_nil]
    exact not_dots_suffix hsuffix

theorem modulePath_iff :
    Patterns.modulePath text = true ↔ utf8Len text ≤ 256 ∧ ∃ suffix ∈ Patterns.moduleSuffixes,
      ∃ directories last, text = directories.flatMap (· ++ ['/']) ++ last ++ suffix ∧
        ∀ part ∈ directories ++ [last], part ∈ cleanPart := by
  simp only [Patterns.modulePath, Bool.and_eq_true, decide_eq_true_eq, List.any_eq_true,
    Option.any_eq_true, stripSuffix?_eq_some, relativePath_iff]
  refine and_congr_right fun hlen => exists_congr fun suffix => and_congr_right fun _ => ?_
  constructor
  · rintro ⟨body, rfl, -, directories, last, rfl, hall⟩
    exact ⟨directories, last, rfl, hall⟩
  · rintro ⟨directories, last, rfl, hall⟩
    refine ⟨_, rfl, ?_, directories, last, rfl, hall⟩
    rw [String.utf8Len_append] at hlen
    omega

theorem ascii_suffix : ∀ suffix ∈ Patterns.moduleSuffixes, ∀ c ∈ suffix, c.toNat < 128 := by
  decide

/-- No suffix ends another. -/
theorem suffix_unique {body body' suffix suffix' : List Char}
    (hsuffix : suffix ∈ Patterns.moduleSuffixes) (hsuffix' : suffix' ∈ Patterns.moduleSuffixes)
    (h : body ++ suffix = body' ++ suffix') : body = body' ∧ suffix = suffix' := by
  have hsuffixes : Patterns.moduleSuffixes =
      [['.', 't', 's'], ['.', 'j', 's'], ['.', 'm', 't', 's'], ['.', 'm', 'j', 's']] := rfl
  have hreverse := congrArg List.reverse h
  clear h
  rw [hsuffixes] at hsuffix hsuffix'
  simp only [List.mem_cons, List.not_mem_nil, or_false] at hsuffix hsuffix'
  rcases hsuffix with rfl | rfl | rfl | rfl <;> rcases hsuffix' with rfl | rfl | rfl | rfl <;>
    simp_all

/-- The predicate refuses what the schema takes where the file of the module is hidden dots, and
nowhere else. -/
theorem modulePath_agrees : Agrees Patterns.modulePath modulePath text ↔ ¬ HiddenDots text := by
  rw [Agrees, modulePath_iff, accepts_modulePath]
  constructor
  · rintro h ⟨hlen, directories, name, hname, hdirectories, suffix, hsuffix, htext⟩
    have hclean : ∀ part ∈ directories, part ∈ cleanPart :=
      fun part hpart => pathSegment_iff.mp (hdirectories part hpart)
    have hrun : ∀ part ∈ directories ++ [name], part ∈ run pathCharacter 1 none := by
      intro part hpart
      rcases List.mem_append.mp hpart with hpart | hpart
      · exact (hclean part hpart).1
      · obtain rfl := List.mem_singleton.mp hpart
        rcases hname with rfl | rfl <;> exact mem_run_one.mpr (by decide)
    obtain ⟨-, suffix', hsuffix', directories', last, htext', hall⟩ :=
      h.mpr ⟨hlen, suffix, hsuffix, directories, name, htext, hrun, fun part hpart =>
        (hclean part hpart).2⟩
    obtain ⟨hbody, -⟩ := suffix_unique hsuffix hsuffix' (htext.symm.trans htext')
    -- the last parts of the two readings are the same
    have hsame : directories ++ [name] = directories' ++ [last] := by
      rw [← splitOn_terminated fun part hpart => part_free (hrun part hpart), hbody,
        splitOn_terminated fun part hpart => part_free (hall part hpart).1]
    obtain ⟨-, hlast⟩ := List.append_inj' hsame rfl
    obtain rfl : name = last := by simpa using hlast
    exact (hall name (by simp)).2 hname
  · intro hnot
    constructor
    · rintro ⟨hlen, suffix, hsuffix, directories, last, rfl, hall⟩
      exact ⟨(length_le_utf8Len _).trans hlen, suffix, hsuffix, directories, last, rfl,
        fun part hpart => (hall part hpart).1,
        fun part hpart => (hall part (List.mem_append_left _ hpart)).2⟩
    · rintro ⟨hlen, suffix, hsuffix, directories, last, rfl, hrun, hclear⟩
      have hclean : ∀ part ∈ directories, part ∈ cleanPart :=
        fun part hpart => ⟨hrun part (List.mem_append_left _ hpart), hclear part hpart⟩
      have hascii : ∀ c ∈ directories.flatMap (· ++ ['/']) ++ last ++ suffix, c.toNat < 128 := by
        intro c hc
        rcases List.mem_append.mp hc with hc | hc
        · exact ascii_path hrun c hc
        · exact ascii_suffix suffix hsuffix c hc
      refine ⟨by rw [utf8Len_eq_length hascii]; exact hlen, suffix, hsuffix, directories, last,
        rfl, ?_⟩
      intro part hpart
      rcases List.mem_append.mp hpart with hpart | hpart
      · exact hclean part hpart
      · obtain rfl := List.mem_singleton.mp hpart
        refine ⟨hrun part (by simp), fun hdots => hnot ?_⟩
        exact ⟨hlen, directories, part, hdots, fun d hd => pathSegment_iff.mpr (hclean d hd),
          suffix, hsuffix, rfl⟩

end PublishedSchema

end BlobYard
