/-
The paths of public requests name the files of a manifest.

* `PathSpelled` — the URL paths that a path may be written as, with any percent-encoding;
* `publicPath_spelled` — a spelled path is read as that path, and with a slash behind it as the
  directory;
* `SafePath` — a relative path that leads out of nothing;
* `publicPaths_law` — every file of a manifest is found under its spellings, and whatever a
  request resolves to is safe.
-/
import BlobYard.Server.Sites

namespace BlobYard

open Outcome

namespace PublicPaths

open Server Server.Sites

/-! ### Paths and their segments -/

/-- A path with no empty segment and no dots for one, no backslash and no control character. -/
def SafePath (path : String) : Prop :=
  (∀ segment ∈ segments path, segment ≠ [] ∧ segment ≠ ['.'] ∧ segment ≠ ['.', '.']) ∧
    '\\' ∉ path.toList ∧ ∀ c ∈ path.toList, isControl c = false

instance (path : String) : Decidable (SafePath path) :=
  inferInstanceAs (Decidable (_ ∧ _ ∧ _))

theorem safe_of_validRelativePath {path : String} {maximumBytes : ℕ}
    (h : ValidRelativePath path maximumBytes) : SafePath path := by
  obtain ⟨-, -, -, -, hslash, hcontrol, hsegments⟩ := h
  exact ⟨hsegments, hslash, hcontrol⟩

/-- The segments of a path with a slash in it. -/
theorem segments_append (before after : String) :
    segments (before ++ "/" ++ after) = segments before ++ segments after := by
  rw [segments, String.toList_append, String.toList_append, List.append_assoc]
  exact List.splitOn_append_cons_self _ _

/-- The segments of a valid path are the ones that a request may name. -/
theorem publicSegment_of_validRelativePath {path : String} {maximumBytes : ℕ}
    (h : ValidRelativePath path maximumBytes) :
    ∀ segment ∈ segments path, PublicSegment segment := by
  obtain ⟨-, -, -, -, hslash, hcontrol, hsegments⟩ := h
  intro segment hsegment
  obtain ⟨hempty, hdot, hdots⟩ := hsegments segment hsegment
  have hsubset : segment ⊆ path.toList := subset_of_mem_splitOn hsegment
  exact ⟨hempty, hdot, hdots, PathOrder.not_mem_of_mem_splitOn hsegment,
    fun hmem => hslash (hsubset hmem), fun c hc => hcontrol c (hsubset hc)⟩

/-- The parts before a slash in a valid path make a valid path. -/
theorem validRelativePath_of_append {before after : String} {maximumBytes : ℕ}
    (h : ValidRelativePath (before ++ "/" ++ after) maximumBytes) :
    ValidRelativePath before maximumBytes := by
  obtain ⟨-, hsize, -, -, hslash, hcontrol, hsegments⟩ := h
  rw [segments_append] at hsegments
  rw [String.toList_append, String.toList_append] at hslash hcontrol
  have hbefore : ∀ segment ∈ segments before,
      segment ≠ [] ∧ segment ≠ ['.'] ∧ segment ≠ ['.', '.'] :=
    fun segment hsegment => hsegments segment (List.mem_append_left _ hsegment)
  have hsub : ∀ c ∈ before.toList, c ∈ before.toList ++ "/".toList ++ after.toList :=
    fun c hc => List.mem_append_left _ (List.mem_append_left _ hc)
  refine ⟨?_, ?_, ?_, ?_, fun hmem => hslash (hsub _ hmem), fun c hc => hcontrol c (hsub c hc),
    hbefore⟩
  · rintro rfl
    exact (hbefore [] List.mem_cons_self).1 rfl
  · rw [String.utf8ByteSize_append, String.utf8ByteSize_append] at hsize
    omega
  · intro hhead
    obtain ⟨rest, hrest⟩ := List.head?_eq_some_iff.mp hhead
    refine (hbefore [] ?_).1 rfl
    rw [segments, hrest]
    exact List.mem_append_left _ (List.mem_singleton_self [])
  · intro hlast
    obtain ⟨start, hstart⟩ := List.getLast?_eq_some_iff.mp hlast
    refine (hbefore [] ?_).1 rfl
    rw [segments, hstart, List.splitOn_append_cons_self]
    exact List.mem_append_right _ (List.mem_singleton_self [])

theorem validYardPath_of_append {before after : String}
    (h : ValidYardPath (before ++ "/" ++ after)) : ValidYardPath before := by
  obtain ⟨hpath, hfirst⟩ := h
  refine ⟨validRelativePath_of_append hpath, ?_⟩
  obtain ⟨first, rest, hsegments⟩ := List.exists_cons_of_ne_nil
    (List.splitOn_ne_nil '/' before.toList)
  rw [segments_append, segments, hsegments] at hfirst
  rw [segments, hsegments]
  exact hfirst

/-! ### Spellings -/

/-- The bytes that may stand for themselves in a segment of a URL path. -/
def PlainByte (byte : UInt8) : Prop :=
  byte.toNat < 128 ∧ Char.ofNat byte.toNat ∉ ['%', '/', '\\', '?', '#']

instance (byte : UInt8) : Decidable (PlainByte byte) := inferInstanceAs (Decidable (_ ∧ _))

theorem plainByte_sign {byte : UInt8} (h : PlainByte byte) :
    byte.toNat < 128 ∧ byte ≠ percentSign := by
  refine ⟨h.1, ?_⟩
  rintro rfl
  exact absurd h (by decide)

/-- The URL paths that a path may be written as: each segment behind a slash, with any of its bytes
as escapes, and with those that are no plain bytes as escapes. -/
def PathSpelled (path url : String) : Prop :=
  ∃ spelled : List (List Char),
    List.Forall₂ (fun segment written => Spelled PlainByte (utf8Bytes segment) written)
      (segments path) spelled ∧
    url.toList = spelled.flatMap ('/' :: ·)

/-- The path as an encoder writes it. -/
def encodedPath [PercentEncoding] (escaped : UInt8 → Bool) (path : String) : String :=
  String.ofList ((segments path).flatMap fun segment => '/' :: utf8PercentEncode escaped segment)

/-- What an encoder writes that escapes the special bytes is a spelling. -/
theorem pathSpelled_encodedPath [PercentEncoding] {escaped : UInt8 → Bool}
    (hplain : ∀ byte, escaped byte = false → PlainByte byte) (path : String) :
    PathSpelled path (encodedPath escaped path) := by
  refine ⟨(segments path).map (utf8PercentEncode escaped), ?_, ?_⟩
  · rw [List.forall₂_map_right_iff, List.forall₂_same]
    have hascii : ∀ byte, escaped byte = false → byte.toNat < 128 :=
      fun byte hbyte => (hplain byte hbyte).1
    exact fun segment _ => (spelled_utf8PercentEncode escaped hascii segment).mono hplain
  · rw [encodedPath, String.toList_ofList, List.flatMap_map]

/-- What the parts of a spelled path are like. -/
structure WrittenSegment (written : List Char) : Prop where
  ne_nil : written ≠ []
  slash : '/' ∉ written
  backslash : '\\' ∉ written
  query : '?' ∉ written
  fragment : '#' ∉ written

section Segments

variable {segment written : List Char}

theorem writtenSegment (hsegment : PublicSegment segment)
    (h : Spelled PlainByte (utf8Bytes segment) written) : WrittenSegment written := by
  have hascii : ∀ byte, PlainByte byte → byte.toNat < 128 := fun _ hbyte => hbyte.1
  refine ⟨h.ne_nil ?_, ?_, ?_, ?_, ?_⟩
  · intro hnil
    have hlength := length_utf8Bytes segment
    rw [hnil] at hlength
    have hle := length_le_utf8Len segment
    exact hsegment.1 (List.length_eq_zero_iff.mp (by rw [List.length_nil] at hlength; omega))
  · exact h.not_mem hascii (by decide) (by decide) (by decide) (by decide)
  · exact h.not_mem hascii (by decide) (by decide) (by decide) (by decide)
  · exact h.not_mem hascii (by decide) (by decide) (by decide) (by decide)
  · exact h.not_mem hascii (by decide) (by decide) (by decide) (by decide)

theorem decodeSegment_spelled [PercentEncoding] (hsegment : PublicSegment segment)
    (h : Spelled PlainByte (utf8Bytes segment) written) : decodeSegment written = .ok segment := by
  have htext : utf8Text? (percentDecodeStr written) = some segment := by
    rw [percentDecodeStr_spelled _ (fun _ => plainByte_sign) _ _ h]
    exact utf8Text?_eq_some.mpr rfl
  simp only [decodeSegment, bind_eq_ok, ofOption_eq_ok, ensure_eq_ok, pure_eq_ok]
  exact ⟨segment, htext, (), hsegment, rfl⟩

/-- Spelled segments are decoded one by one. -/
theorem mapM_decodeSegment [PercentEncoding] {parts spelled : List (List Char)}
    (hparts : ∀ segment ∈ parts, PublicSegment segment)
    (h : List.Forall₂ (fun segment written => Spelled PlainByte (utf8Bytes segment) written) parts
      spelled) :
    spelled.mapM decodeSegment = .ok parts ∧ ∀ written ∈ spelled, WrittenSegment written := by
  induction h with
  | nil => exact ⟨rfl, fun _ hwritten => absurd hwritten List.not_mem_nil⟩
  | cons hfirst hrest ih =>
    obtain ⟨hmap, hall⟩ := ih fun segment hsegment =>
      hparts segment (List.mem_cons_of_mem _ hsegment)
    have hpart := hparts _ List.mem_cons_self
    refine ⟨mapM_cons_eq_ok.mpr ⟨_, _, decodeSegment_spelled hpart hfirst, hmap, rfl⟩, ?_⟩
    intro written hwritten
    rcases List.mem_cons.mp hwritten with rfl | hwritten
    · exact writtenSegment hpart hfirst
    · exact hall written hwritten

end Segments

/-! ### Written paths -/

theorem doubleSlash_append {part : List Char} (hslash : '/' ∉ part) (rest : List Char) :
    doubleSlash (part ++ rest) = doubleSlash rest := by
  induction part with
  | nil => rfl
  | cons c part ih =>
    rw [List.mem_cons, not_or] at hslash
    rw [← ih hslash.2, List.cons_append]
    cases part ++ rest with
    | nil => rfl
    | cons d tail =>
      rw [doubleSlash, beq_false_of_ne (Ne.symm hslash.1), Bool.false_and, Bool.false_or]

/-- There is no double slash in parts that are not empty. -/
theorem doubleSlash_flatMap {spelled : List (List Char)}
    (h : ∀ written ∈ spelled, WrittenSegment written) (rest : List Char)
    (hrest : rest = [] ∨ rest = ['/']) :
    doubleSlash (spelled.flatMap ('/' :: ·) ++ rest) = false := by
  induction spelled with
  | nil =>
    rcases hrest with rfl | rfl
    · rfl
    · rfl
  | cons written spelled ih =>
    have hwritten := h written List.mem_cons_self
    obtain ⟨c, tail, rfl⟩ := List.exists_cons_of_ne_nil hwritten.ne_nil
    have hc : c ≠ '/' := fun hc => hwritten.slash (hc ▸ List.mem_cons_self)
    have htail := ih fun written hmem => h written (List.mem_cons_of_mem _ hmem)
    rw [← doubleSlash_append hwritten.slash] at htail
    rw [List.flatMap_cons, List.append_assoc]
    show (('/' == '/' && c == '/') || doubleSlash ((c :: tail) ++ _)) = false
    rw [htail, beq_false_of_ne hc, Bool.and_false, Bool.false_or]

theorem not_mem_flatMap {spelled : List (List Char)} {c : Char} (hc : c ≠ '/')
    (h : ∀ written ∈ spelled, c ∉ written) : c ∉ spelled.flatMap ('/' :: ·) := by
  intro hmem
  obtain ⟨written, hwritten, hmem⟩ := List.mem_flatMap.mp hmem
  rcases List.mem_cons.mp hmem with rfl | hmem
  · exact hc rfl
  · exact h written hwritten hmem

/-- Parts that are not empty have a first and a last character, neither a slash. -/
theorem joined_ends {first : List Char} {rest : List (List Char)}
    (h : ∀ written ∈ first :: rest, WrittenSegment written) :
    (∃ c tail, joined '/' first rest = c :: tail ∧ c ≠ '/') ∧
      ∃ init c, joined '/' first rest = init ++ [c] ∧ c ≠ '/' := by
  constructor
  · have hfirst := h first List.mem_cons_self
    obtain ⟨c, tail, rfl⟩ := List.exists_cons_of_ne_nil hfirst.ne_nil
    exact ⟨c, _, rfl, fun hc => hfirst.slash (hc ▸ List.mem_cons_self)⟩
  · rcases List.eq_nil_or_concat' rest with rfl | ⟨middle, last, rfl⟩
    · have hfirst := h first List.mem_cons_self
      obtain ⟨init, c, rfl⟩ := (List.eq_nil_or_concat' first).resolve_left hfirst.ne_nil
      refine ⟨init, c, ?_, fun hc => hfirst.slash (hc ▸ List.mem_append_right _ List.mem_cons_self)⟩
      rw [joined, List.flatMap_nil, List.append_nil]
    · have hlast := h last (List.mem_cons_of_mem _ (List.mem_append_right _ List.mem_cons_self))
      obtain ⟨init, c, rfl⟩ := (List.eq_nil_or_concat' last).resolve_left hlast.ne_nil
      refine ⟨joined '/' first middle ++ '/' :: init, c, ?_,
        fun hc => hlast.slash (hc ▸ List.mem_append_right _ List.mem_cons_self)⟩
      rw [joined_concat, List.append_assoc, List.cons_append]

theorem trimStartMatches_slash {c : Char} {tail : List Char} (hc : c ≠ '/') :
    trimStartMatches ('/' :: c :: tail) = c :: tail := by
  rw [trimStartMatches, List.dropWhile_cons_of_pos (by rfl),
    List.dropWhile_cons_of_neg (by rw [beq_iff_eq]; exact hc)]

/-! ### Spelled paths are read -/

/-- The path is what the request names, if it is valid. -/
def named (validPath : String → Prop) [DecidablePred validPath] (path : String) :
    Except PublicPathError String := do
  ensure (validPath path) .invalidPath
  return path

section Reading

variable [PercentEncoding] {path url : String} {validPath : String → Prop}
  [DecidablePred validPath]

/-- A path without special characters is read segment by segment. -/
theorem publicPath_eq {rootPath directorySuffix : String} {raw : List Char}
    {parts : List (List Char)} {directory : Bool}
    (hopen : url.toList.head? = some '/' ∧ doubleSlash url.toList = false ∧ '\\' ∉ url.toList ∧
      '?' ∉ url.toList ∧ '#' ∉ url.toList)
    (hdirectory : url.toList.getLast? = some '/' ↔ directory = true)
    (hraw : (if directory = true then trimMatches url.toList
      else trimStartMatches url.toList) = raw)
    (hne : raw ≠ []) (hparts : (raw.splitOn '/').mapM decodeSegment = .ok parts) :
    publicPath url rootPath directorySuffix validPath =
      named validPath (if directory = true then
        String.ofList (['/'].intercalate parts) ++ directorySuffix
      else String.ofList (['/'].intercalate parts)) := by
  rw [← if_congr hdirectory rfl rfl] at hraw
  rw [← if_congr hdirectory rfl rfl, publicPath, (ensure_eq_ok (u := ())).mpr hopen]
  show (if (if url.toList.getLast? = some '/' then trimMatches url.toList
      else trimStartMatches url.toList) = []
    then _ else _) = _
  rw [hraw, if_neg hne, hparts]
  rfl

/-- A spelled path is read as the path, and with a slash behind it as the directory. -/
theorem publicPath_spelled (hpath : ∀ segment ∈ segments path, PublicSegment segment)
    (h : PathSpelled path url) (rootPath directorySuffix : String) :
    publicPath url rootPath directorySuffix validPath = named validPath path ∧
      publicPath (url ++ "/") rootPath directorySuffix validPath =
        named validPath (path ++ directorySuffix) := by
  obtain ⟨spelled, hspelled, hurl⟩ := h
  obtain ⟨hdecode, hwritten⟩ := mapM_decodeSegment hpath hspelled
  have hne : spelled ≠ [] := by
    rintro rfl
    exact List.splitOn_ne_nil '/' path.toList (List.forall₂_nil_right_iff.mp hspelled)
  obtain ⟨first, rest, rfl⟩ := List.exists_cons_of_ne_nil hne
  have hbackslash := not_mem_flatMap (by decide : '\\' ≠ '/') fun w hw => (hwritten w hw).backslash
  have hquery := not_mem_flatMap (by decide : '?' ≠ '/') fun w hw => (hwritten w hw).query
  have hfragment := not_mem_flatMap (by decide : '#' ≠ '/') fun w hw => (hwritten w hw).fragment
  have hsplit : (joined '/' first rest).splitOn '/' = first :: rest :=
    splitOn_joined fun w hw => (hwritten w hw).slash
  have hpathText : String.ofList (['/'].intercalate (segments path)) = path := by
    rw [segments, List.intercalate_splitOn, String.ofList_toList]
  obtain ⟨⟨c, tail, hstart, hc⟩, init, d, hend, hd⟩ := joined_ends hwritten
  have hnonempty : joined '/' first rest ≠ [] := by
    rw [hstart]
    exact List.cons_ne_nil c tail
  rw [← hsplit] at hdecode
  constructor
  · have hdouble := doubleSlash_flatMap hwritten [] (Or.inl rfl)
    rw [List.append_nil] at hdouble
    have hread := @publicPath_eq _ url validPath _ rootPath directorySuffix (joined '/' first rest)
      (segments path) false ?_ ?_ ?_ hnonempty hdecode
    · rw [hread, if_neg Bool.false_ne_true, hpathText]
    · rw [hurl]
      exact ⟨rfl, hdouble, hbackslash, hquery, hfragment⟩
    · have hlast : ('/' :: joined '/' first rest).getLast? = some d := by
        rw [hend, ← List.cons_append, List.getLast?_concat]
      rw [hurl]
      show ('/' :: joined '/' first rest).getLast? = some '/' ↔ _
      rw [hlast, Option.some.injEq]
      exact iff_of_false hd Bool.false_ne_true
    · rw [hurl, if_neg Bool.false_ne_true]
      show trimStartMatches ('/' :: joined '/' first rest) = _
      rw [hstart, trimStartMatches_slash hc]
  · have hdouble := doubleSlash_flatMap hwritten ['/'] (Or.inr rfl)
    have hslashed : (url ++ "/").toList = (first :: rest).flatMap ('/' :: ·) ++ ['/'] := by
      rw [String.toList_append, hurl]
      rfl
    have hnew : ∀ x ∉ (first :: rest).flatMap ('/' :: ·), x ≠ '/' →
        x ∉ (first :: rest).flatMap ('/' :: ·) ++ ['/'] := by
      intro x hx hslash
      rw [List.mem_append, List.mem_singleton, not_or]
      exact ⟨hx, hslash⟩
    have hread := @publicPath_eq _ (url ++ "/") validPath _ rootPath directorySuffix
      (joined '/' first rest) (segments path) true ?_ ?_ ?_ hnonempty hdecode
    · rw [hread, if_pos rfl, hpathText]
    · rw [hslashed]
      exact ⟨rfl, hdouble, hnew _ hbackslash (by decide), hnew _ hquery (by decide),
        hnew _ hfragment (by decide)⟩
    · rw [hslashed, List.getLast?_concat]
      exact iff_of_true rfl rfl
    · rw [hslashed, if_pos rfl, trimMatches]
      show (trimStartMatches ('/' :: joined '/' first rest ++ ['/'])).rdropWhile _ = _
      rw [hstart, List.cons_append, List.cons_append, trimStartMatches_slash hc, ← List.cons_append,
        ← hstart, List.rdropWhile_concat_pos _ _ _ (by rfl), hend,
        List.rdropWhile_concat_neg _ _ _ (by rw [beq_iff_eq]; exact hd)]

/-- What a path resolves to is the root or valid. -/
theorem publicPath_cases {rootPath directorySuffix : String}
    (h : publicPath url rootPath directorySuffix validPath = .ok path) :
    path = rootPath ∨ validPath path := by
  simp only [publicPath, bind_eq_ok, ensure_eq_ok, exists_const] at h
  obtain ⟨-, h⟩ := h
  by_cases hempty :
      (if url.toList.getLast? = some '/' then trimMatches url.toList
        else trimStartMatches url.toList) = []
  · rw [if_pos hempty, pure_eq_ok] at h
    exact Or.inl h.symm
  · rw [if_neg hempty] at h
    simp only [bind_eq_ok, ensure_eq_ok, pure_eq_ok, exists_const] at h
    obtain ⟨parts, -, hvalid, rfl⟩ := h
    exact Or.inr hvalid

end Reading

/-! ### Files and directories -/

theorem named_of_valid {validPath : String → Prop} [DecidablePred validPath] {path : String}
    (h : validPath path) : named validPath path = .ok path := by
  rw [named, (ensure_eq_ok (u := ())).mpr h]
  rfl

theorem trimSlash_cases (value : String) :
    value = trimSlash value ∨ value = trimSlash value ++ "/" := by
  rw [trimSlash]
  split
  · rename_i hlast
    obtain ⟨init, hinit⟩ := List.getLast?_eq_some_iff.mp hlast
    right
    rw [hinit, List.dropLast_concat, ← String.toList_inj, String.toList_append,
      String.toList_ofList, hinit]
    rfl
  · exact Or.inl rfl

theorem trimSlash_append (value : String) : trimSlash (value ++ "/") = value := by
  have htext : (value ++ "/").toList = value.toList ++ ['/'] := String.toList_append
  rw [trimSlash, htext, List.getLast?_concat, if_pos rfl, List.dropLast_concat,
    String.ofList_toList]

theorem trimSlash_of_valid {value : String} {maximumBytes : ℕ}
    (h : ValidRelativePath value maximumBytes) : trimSlash value = value := by
  obtain ⟨-, -, -, hlast, -⟩ := h
  rw [trimSlash, if_neg hlast]

section Yards

variable [PercentEncoding] {path url directory : String}

/-- A file of a yard is found under every spelling of its path. -/
theorem yardFile_found (hpath : ValidYardPath path) (h : PathSpelled path url) :
    Yards.publicRequestPath url = .ok path ∧
      ∀ deploy, (resolutionCandidates path deploy).head? = some (path, false) := by
  have hsegments := publicSegment_of_validRelativePath hpath.1
  have htrimmed := trimSlash_of_valid hpath.1
  have hne : path ≠ "" := hpath.1.1
  have hvalid : ValidYardRequestPath path := by
    refine Or.inr ?_
    rw [htrimmed]
    exact ⟨hne, hpath⟩
  refine ⟨?_, fun deploy => ?_⟩
  · rw [Yards.publicRequestPath, (publicPath_spelled hsegments h "" "/").1, named_of_valid hvalid]
    rfl
  · rw [resolutionCandidates, if_neg hne, htrimmed, if_pos rfl]
    rfl

/-- The index document of a directory of a yard is found under the spellings of the directory. -/
theorem yardIndex_found (hpath : ValidYardPath (directory ++ "/index.html"))
    (h : PathSpelled directory url) :
    Yards.publicRequestPath (url ++ "/") = .ok (directory ++ "/") ∧
      ∀ deploy, (resolutionCandidates (directory ++ "/") deploy).head? =
        some (directory ++ "/index.html", false) := by
  have hdirectory : ValidYardPath directory := by
    refine @validYardPath_of_append directory "index.html" ?_
    rwa [String.append_assoc]
  have hsegments := publicSegment_of_validRelativePath hdirectory.1
  have hvalid : ValidYardRequestPath (directory ++ "/") := by
    refine Or.inr ?_
    rw [trimSlash_append]
    exact ⟨hdirectory.1.1, hdirectory⟩
  have hlonger : directory ++ "/" ≠ directory := by
    intro heq
    have hsize := congrArg String.utf8ByteSize heq
    rw [String.utf8ByteSize_append] at hsize
    exact absurd hsize (by show directory.utf8ByteSize + 1 ≠ directory.utf8ByteSize; omega)
  have hne : directory ++ "/" ≠ "" := by
    intro heq
    have htext := congrArg String.toList heq
    rw [String.toList_append] at htext
    exact absurd htext (List.append_ne_nil_of_right_ne_nil _ (List.cons_ne_nil _ _))
  refine ⟨?_, fun deploy => ?_⟩
  · rw [Yards.publicRequestPath, (publicPath_spelled hsegments h "" "/").2, named_of_valid hvalid]
    rfl
  · rw [resolutionCandidates, if_neg hne, trimSlash_append, if_neg hlonger]
    rfl

/-- What a request to a yard resolves to is the root, a safe path, or one with a slash behind it. -/
theorem yardPath_safe (h : Yards.publicRequestPath url = .ok path) :
    path = "" ∨ ∃ relative, SafePath relative ∧ (path = relative ∨ path = relative ++ "/") := by
  rw [Yards.publicRequestPath, mapError_eq_ok] at h
  rcases publicPath_cases h with rfl | rfl | ⟨-, hvalid⟩
  · exact Or.inl rfl
  · exact Or.inl rfl
  · exact Or.inr ⟨trimSlash path, safe_of_validRelativePath hvalid.1, trimSlash_cases path⟩

end Yards

section Previews

variable [PercentEncoding] {path url directory : String}

/-- A file of a preview is found under every spelling of its path. -/
theorem previewFile_found (hpath : Previews.ValidPreviewPath path) (h : PathSpelled path url) :
    Previews.publicPreviewPath url = .ok path := by
  have hsegments := publicSegment_of_validRelativePath hpath
  rw [Previews.publicPreviewPath, (publicPath_spelled hsegments h "index.html" "/index.html").1,
    named_of_valid hpath]
  rfl

/-- The index document of a directory of a preview is found under the spellings of the
directory. -/
theorem previewIndex_found (hpath : Previews.ValidPreviewPath (directory ++ "/index.html"))
    (h : PathSpelled directory url) :
    Previews.publicPreviewPath (url ++ "/") = .ok (directory ++ "/index.html") := by
  have hdirectory : ValidRelativePath directory 1024 := by
    refine @validRelativePath_of_append directory "index.html" _ ?_
    rwa [String.append_assoc]
  have hsegments := publicSegment_of_validRelativePath hdirectory
  rw [Previews.publicPreviewPath, (publicPath_spelled hsegments h "index.html" "/index.html").2,
    named_of_valid hpath]
  rfl

/-- What a request to a preview resolves to is safe. -/
theorem previewPath_safe (h : Previews.publicPreviewPath url = .ok path) : SafePath path := by
  rw [Previews.publicPreviewPath, mapError_eq_ok] at h
  rcases publicPath_cases h with rfl | hvalid
  · decide
  · exact safe_of_validRelativePath hvalid

end Previews

/-! ### The law -/

/-- Requests find the file of a hosted yard: under its own spellings, as an index document under
the spellings of its directory, and as the index document of the yard under the root. -/
structure FoundInYard [PercentEncoding] (path : String) : Prop where
  file : ∀ url, PathSpelled path url → Yards.publicRequestPath url = .ok path ∧
    ∀ deploy, (resolutionCandidates path deploy).head? = some (path, false)
  index : ∀ directory url, path = directory ++ "/index.html" → PathSpelled directory url →
    Yards.publicRequestPath (url ++ "/") = .ok (directory ++ "/") ∧
      ∀ deploy, (resolutionCandidates (directory ++ "/") deploy).head? = some (path, false)
  root : path = "index.html" → Yards.publicRequestPath "/" = .ok "" ∧
    ∀ deploy, (resolutionCandidates "" deploy).head? = some (path, false)

/-- Requests find the file of a preview in the same places, where the index documents have their
own paths. -/
structure FoundInPreview [PercentEncoding] (path : String) : Prop where
  file : ∀ url, PathSpelled path url → Previews.publicPreviewPath url = .ok path
  index : ∀ directory url, path = directory ++ "/index.html" → PathSpelled directory url →
    Previews.publicPreviewPath (url ++ "/") = .ok path
  root : path = "index.html" → Previews.publicPreviewPath "/" = .ok path

theorem foundInYard [PercentEncoding] {path : String} (hpath : ValidYardPath path) :
    FoundInYard path where
  file _ h := yardFile_found hpath h
  index directory url hindex h := by
    subst hindex
    exact yardIndex_found hpath h
  root hindex := by
    subst hindex
    exact ⟨by rfl, fun _ => by rfl⟩

theorem foundInPreview [PercentEncoding] {path : String} (hpath : Previews.ValidPreviewPath path) :
    FoundInPreview path where
  file _ h := previewFile_found hpath h
  index directory url hindex h := by
    subst hindex
    exact previewIndex_found hpath h
  root hindex := by
    subst hindex
    rfl

/-- Every file that a manifest may have is found by the requests for it, whatever their
percent-encoding, and what any request resolves to is safe. -/
theorem publicPaths_law [PercentEncoding] :
    ((∀ root objects snapshot, Yards.snapshotManifest root objects = .ok snapshot →
        ∀ file ∈ snapshot.files, ValidYardPath file.normalizedPath) ∧
      ∀ path, ValidYardPath path → FoundInYard path) ∧
    ((∀ root objects files, Previews.snapshotManifest root objects = .ok files →
        ∀ file ∈ files, Previews.ValidPreviewPath file.normalizedPath) ∧
      ∀ path, Previews.ValidPreviewPath path → FoundInPreview path) ∧
    (∀ escaped : UInt8 → Bool, (∀ byte, escaped byte = false → PlainByte byte) →
      ∀ path, PathSpelled path (encodedPath escaped path)) ∧
    (∀ url path, Yards.publicRequestPath url = .ok path →
      path = "" ∨ ∃ relative, SafePath relative ∧ (path = relative ∨ path = relative ++ "/")) ∧
    ∀ url path, Previews.publicPreviewPath url = .ok path → SafePath path := by
  refine ⟨⟨?_, fun path hpath => foundInYard hpath⟩, ⟨?_, fun path hpath => foundInPreview hpath⟩,
    fun escaped hplain path => pathSpelled_encodedPath hplain path, fun url path => yardPath_safe,
    fun url path => previewPath_safe⟩
  · intro root objects snapshot h file hfile
    exact (Yards.snapshotManifest_spec h).1 file hfile
  · intro root objects files h file hfile
    exact Previews.snapshotManifest_spec h file hfile

/-- The bytes that are escaped in a guide with a blank, a percent sign and a letter of two bytes. -/
def escapedInGuide (byte : UInt8) : Bool := byte == 32 || !decide (PlainByte byte)

attribute [local instance] percentEscapes

/-- The guide is found under its escapes. -/
theorem guide_found :
    encodedPath escapedInGuide "docs/100% né.html" = "/docs/100%25%20n%C3%A9.html" ∧
      Yards.publicRequestPath "/docs/100%25%20n%C3%A9.html" = .ok "docs/100% né.html" ∧
      SafePath "docs/100% né.html" := by
  obtain ⟨⟨-, hyard⟩, ⟨-, hpreview⟩, hencoded, -, hsafe⟩ := publicPaths_law
  have hwritten :
      encodedPath escapedInGuide "docs/100% né.html" = "/docs/100%25%20n%C3%A9.html" := by
    decide
  have hspelled := hencoded escapedInGuide (fun byte h => ?_) "docs/100% né.html"
  · rw [hwritten] at hspelled
    exact ⟨hwritten, ((hyard _ (by decide)).file _ hspelled).1,
      hsafe _ _ ((hpreview _ (by decide)).file _ hspelled)⟩
  · rw [escapedInGuide, Bool.or_eq_false_iff, Bool.not_eq_false', decide_eq_true_eq] at h
    exact h.2

end PublicPaths

end BlobYard
