/-
The file names of inbox uploads.

A guest of an inbox chooses a file name, and `sanitizeFilename` makes one path segment of it.

* `Filename` — the names that come out;
* `sanitize_spec` — a fold over the characters leaves safe ones, at most 128 of them;
* `sanitize_of_filename` — nothing is changed in a name that is safe already;
* `sanitizeFilename_law` — every name becomes a safe one, the path made of it is accepted
  everywhere, and a second pass changes nothing.
-/
import BlobYard.Laws.UriRoundTrip
import BlobYard.Lib.Splitting
import BlobYard.Lib.Utf8
import BlobYard.Server.UploadGrants
import Mathlib.Data.List.DropRight

namespace BlobYard

open Outcome

namespace InboxFilenames

open Server

/-! ### Safe names -/

/-- The characters that are kept. -/
def SafeCharacter (c : Char) : Prop := isAsciiAlphanumeric c = true ∨ c = '.' ∨ c = '-' ∨ c = '_'

instance (c : Char) : Decidable (SafeCharacter c) := inferInstanceAs (Decidable (_ ∨ _ ∨ _ ∨ _))

/-- 1 to 128 ASCII letters, digits, dots, hyphens or underscores, the first and the last of them
letters or digits. -/
structure Filename (value : String) : Prop where
  nonempty : value.toList ≠ []
  length_le : value.toList.length ≤ 128
  safe : ∀ c ∈ value.toList, SafeCharacter c
  first : ∀ c, value.toList.head? = some c → isAsciiAlphanumeric c = true
  last : ∀ c, value.toList.getLast? = some c → isAsciiAlphanumeric c = true

/-- Letters, digits and the three others lie between the hyphen and the letter z. -/
theorem SafeCharacter.bounds {c : Char} (h : SafeCharacter c) : 45 ≤ c.toNat ∧ c.toNat ≤ 122 := by
  rcases h with h | rfl | rfl | rfl
  · have hbounds := isAsciiAlphanumeric_bounds h
    omega
  all_goals decide

theorem SafeCharacter.not_control {c : Char} (h : SafeCharacter c) : isControl c = false := by
  have hbounds := h.bounds
  simp only [isControl, Bool.or_eq_false_iff, Bool.and_eq_false_iff, decide_eq_false_iff_not]
  omega

theorem SafeCharacter.not_slash {c : Char} (h : SafeCharacter c) : c ≠ '/' ∧ c ≠ '\\' := by
  constructor
  · rintro rfl
    exact absurd h (by decide)
  · rintro rfl
    exact absurd h (by decide)

/-! ### The fold over the characters -/

section Fold

variable {state : List Char × Bool} {c : Char}

/-- The characters kept so far are safe and at most 128. -/
def Kept (safe : List Char) : Prop := (∀ c ∈ safe, SafeCharacter c) ∧ safe.length ≤ 128

theorem Kept.push {safe : List Char} (h : Kept safe) (hc : SafeCharacter c) :
    Kept (if safe.length < 128 then safe ++ [c] else safe) := by
  split
  case isTrue hlt =>
    refine ⟨fun d hd => ?_, by rw [List.length_append, List.length_singleton]; omega⟩
    rcases List.mem_append.mp hd with hd | hd
    · exact h.1 d hd
    · rw [List.mem_singleton.mp hd]
      exact hc
  case isFalse => exact h

theorem kept_sanitizeCharacter (h : Kept state.1) : Kept (sanitizeCharacter state c).1 := by
  rw [sanitizeCharacter]
  split
  case isTrue hc =>
    refine Kept.push ?_ hc
    split
    case isTrue hpush =>
      have hunderscore := h.push (Or.inr (Or.inr (Or.inr rfl)) : SafeCharacter '_')
      rwa [if_pos hpush.2.2] at hunderscore
    case isFalse => exact h
  case isFalse => exact h

theorem kept_foldl (characters : List Char) (h : Kept state.1) :
    Kept (characters.foldl sanitizeCharacter state).1 := by
  induction characters generalizing state with
  | nil => exact h
  | cons c characters ih => exact ih (kept_sanitizeCharacter h)

/-- Safe characters are kept as they are while there is room. -/
theorem foldl_of_safe {safe characters : List Char} (h : ∀ c ∈ characters, SafeCharacter c)
    (hlength : safe.length + characters.length ≤ 128) :
    characters.foldl sanitizeCharacter (safe, false) = (safe ++ characters, false) := by
  induction characters generalizing safe with
  | nil => rw [List.foldl_nil, List.append_nil]
  | cons c characters ih =>
    obtain ⟨hc, hrest⟩ := List.forall_mem_cons.mp h
    rw [List.length_cons] at hlength
    have hstep : sanitizeCharacter (safe, false) c = (safe ++ [c], false) := by
      have hlt : safe.length < 128 := by omega
      have hsafe : isAsciiAlphanumeric c = true ∨ c = '.' ∨ c = '-' ∨ c = '_' := hc
      rw [sanitizeCharacter, if_pos hsafe]
      simp [hlt]
    rw [List.foldl_cons, hstep, ih hrest, List.append_assoc, List.singleton_append]
    rw [List.length_append, List.length_singleton]
    omega

end Fold

/-! ### The trimmed characters -/

/-- `trim_matches(['.', '-', '_'])` cuts these characters off. -/
def isSeparator (c : Char) : Bool := c == '.' || c == '-' || c == '_'

theorem trimSeparators_eq (characters : List Char) :
    trimSeparators characters = (characters.dropWhile isSeparator).rdropWhile isSeparator := rfl

theorem SafeCharacter.alphanumeric {c : Char} (h : SafeCharacter c) (hc : isSeparator c = false) :
    isAsciiAlphanumeric c = true := by
  rcases h with h | rfl | rfl | rfl
  · exact h
  all_goals cases hc

theorem infix_trimSeparators (characters : List Char) :
    trimSeparators characters <:+: characters :=
  ((List.rdropWhile_prefix _ _).isInfix).trans (List.dropWhile_suffix _).isInfix

/-- What is cut to stands between characters that are no separators. -/
theorem edges_trimSeparators {characters : List Char} {c : Char} :
    ((trimSeparators characters).head? = some c → isSeparator c = false) ∧
      ((trimSeparators characters).getLast? = some c → isSeparator c = false) := by
  rw [trimSeparators_eq]
  constructor
  · intro hhead
    obtain ⟨rest, hrest⟩ := List.rdropWhile_prefix isSeparator (characters.dropWhile isSeparator)
    have hfirst : (characters.dropWhile isSeparator).head? = some c := by
      rw [← hrest, List.head?_append, hhead]
      rfl
    have hnot := List.head?_dropWhile_not isSeparator characters
    rw [hfirst] at hnot
    exact hnot
  · intro hlast
    have hne : (characters.dropWhile isSeparator).rdropWhile isSeparator ≠ [] := by
      intro hnil
      rw [hnil] at hlast
      cases hlast
    rw [List.getLast?_eq_some_getLast hne, Option.some.injEq] at hlast
    rw [← hlast]
    exact Bool.eq_false_iff.mpr (List.rdropWhile_last_not isSeparator _ hne)

/-- Letters and digits at both ends are not cut off. -/
theorem trimSeparators_of_filename {value : String} (h : Filename value) :
    trimSeparators value.toList = value.toList := by
  have hno : ∀ {c : Char}, isAsciiAlphanumeric c = true → isSeparator c = false := by
    intro c hc
    rw [Bool.eq_false_iff]
    intro hseparator
    simp only [isSeparator, Bool.or_eq_true, beq_iff_eq] at hseparator
    rcases hseparator with (rfl | rfl) | rfl
    all_goals cases hc
  have hdrop : value.toList.dropWhile isSeparator = value.toList := by
    cases hlist : value.toList with
    | nil => exact absurd hlist h.nonempty
    | cons c rest =>
      have hc : isSeparator c = false := hno (h.first c (by rw [hlist]; rfl))
      exact List.dropWhile_cons_of_neg (by rw [hc]; exact Bool.false_ne_true)
  rw [trimSeparators_eq, hdrop, List.rdropWhile_eq_self_iff]
  intro hne
  have hlast : isSeparator (value.toList.getLast hne) = false :=
    hno (h.last _ (List.getLast?_eq_some_getLast hne))
  rw [hlast]
  exact Bool.false_ne_true

/-! ### Every name becomes safe -/

/-- The characters behind the last slash or backslash. -/
def basename (input : String) : List Char :=
  (input.toList.reverse.takeWhile fun c => c ≠ '/' && c ≠ '\\').reverse

theorem sanitizeFilename_eq (input : String) :
    sanitizeFilename input =
      if trimSeparators ((basename input).foldl sanitizeCharacter ([], false)).1 = [] then "file"
      else
        String.ofList (trimSeparators ((basename input).foldl sanitizeCharacter ([], false)).1) :=
  rfl

theorem filename_file : Filename "file" where
  nonempty := by decide
  length_le := by decide
  safe := by decide
  first c hc := by
    cases hc
    rfl
  last c hc := by
    cases hc
    rfl

/-- Safe characters without separators at the ends are a safe name. -/
theorem filename_trimSeparators {safe : List Char} (h : Kept safe)
    (hne : trimSeparators safe ≠ []) : Filename (String.ofList (trimSeparators safe)) := by
  have hwithin := infix_trimSeparators safe
  have hsafe : ∀ c ∈ trimSeparators safe, SafeCharacter c := fun c hc => h.1 c (hwithin.subset hc)
  constructor
  all_goals rw [String.toList_ofList]
  · exact hne
  · exact hwithin.length_le.trans h.2
  · exact hsafe
  · intro c hc
    exact (hsafe c (List.mem_of_head? hc)).alphanumeric (edges_trimSeparators.1 hc)
  · intro c hc
    exact (hsafe c (List.mem_of_getLast? hc)).alphanumeric (edges_trimSeparators.2 hc)

theorem filename_sanitizeFilename (input : String) : Filename (sanitizeFilename input) := by
  have hnil : Kept [] := ⟨fun c hc => absurd hc List.not_mem_nil, Nat.zero_le _⟩
  have hkept : Kept ((basename input).foldl sanitizeCharacter ([], false)).1 :=
    kept_foldl (basename input) hnil
  rw [sanitizeFilename_eq]
  split
  case isTrue => exact filename_file
  case isFalse hne => exact filename_trimSeparators hkept hne

/-- A safe name is left as it is. -/
theorem sanitize_of_filename {value : String} (h : Filename value) :
    sanitizeFilename value = value := by
  have hbase : basename value = value.toList := by
    rw [basename, List.takeWhile_eq_self_iff.mpr, List.reverse_reverse]
    intro c hc
    have hslash := (h.safe c (List.mem_reverse.mp hc)).not_slash
    rw [Bool.and_eq_true, decide_eq_true_eq, decide_eq_true_eq]
    exact hslash
  have hfold : value.toList.foldl sanitizeCharacter ([], false) = (value.toList, false) :=
    foldl_of_safe h.safe (by rw [List.length_nil, Nat.zero_add]; exact h.length_le)
  rw [sanitizeFilename_eq, hbase, hfold, trimSeparators_of_filename h, if_neg h.nonempty,
    String.ofList_toList]

/-! ### The path of the upload -/

/-- The path that `scoped_request` makes of a name. -/
def inboxPath (filename : String) : String := "inbox/" ++ filename

section Path

variable {value : String}

theorem toList_inboxPath (value : String) :
    (inboxPath value).toList = joined '/' "inbox".toList [value.toList] := by
  rw [inboxPath, String.toList_append, joined, List.flatMap_singleton]
  rfl

/-- The name is the second of two segments. -/
theorem segments_inboxPath (h : Filename value) :
    segments (inboxPath value) = ["inbox".toList, value.toList] := by
  rw [segments, toList_inboxPath, splitOn_joined]
  intro part hpart
  rcases List.mem_pair.mp hpart with rfl | rfl
  · decide
  · exact fun hslash => (h.safe _ hslash).not_slash.1 rfl

theorem mem_inboxPath (h : Filename value) {c : Char} (hc : c ∈ (inboxPath value).toList) :
    SafeCharacter c ∨ c = '/' := by
  rw [inboxPath, String.toList_append, List.mem_append] at hc
  rcases hc with hc | hc
  · have hinbox : ∀ c ∈ "inbox/".toList, SafeCharacter c ∨ c = '/' := by decide
    exact hinbox c hc
  · exact Or.inl (h.safe c hc)

theorem not_control_inboxPath (h : Filename value) :
    ∀ c ∈ (inboxPath value).toList, isControl c = false := by
  intro c hc
  rcases mem_inboxPath h hc with hsafe | rfl
  · exact hsafe.not_control
  · decide

theorem size_inboxPath (h : Filename value) : (inboxPath value).utf8ByteSize ≤ 134 := by
  have hascii : ∀ c ∈ (inboxPath value).toList, c.toNat < 128 := by
    intro c hc
    rcases mem_inboxPath h hc with hsafe | rfl
    · have hbounds := hsafe.bounds
      omega
    · decide
  have hlength := h.length_le
  rw [utf8ByteSize_eq, utf8Len_eq_length hascii, inboxPath, String.toList_append,
    List.length_append]
  have hinbox : "inbox/".toList.length = 6 := by decide
  omega

/-- A safe name is neither empty nor a dot segment. -/
theorem not_dots (h : Filename value) :
    value.toList ≠ [] ∧ value.toList ≠ ['.'] ∧ value.toList ≠ ['.', '.'] := by
  refine ⟨h.nonempty, fun hdot => ?_, fun hdots => ?_⟩
  · exact absurd (h.first '.' (by rw [hdot]; rfl)) (by decide)
  · exact absurd (h.first '.' (by rw [hdots]; rfl)) (by decide)

theorem segment_inboxPath (h : Filename value) :
    ∀ segment ∈ segments (inboxPath value),
      segment ≠ [] ∧ segment ≠ ['.'] ∧ segment ≠ ['.', '.'] := by
  intro segment hsegment
  rw [segments_inboxPath h] at hsegment
  rcases List.mem_pair.mp hsegment with rfl | rfl
  · decide
  · exact not_dots h

theorem not_mem_backslash (h : Filename value) : '\\' ∉ (inboxPath value).toList := by
  intro hc
  rcases mem_inboxPath h hc with hsafe | hslash
  · exact hsafe.not_slash.2 rfl
  · cases hslash

theorem validRelativePath_inboxPath (h : Filename value) :
    ValidRelativePath (inboxPath value) 512 := by
  have hsize := size_inboxPath h
  have hlist : (inboxPath value).toList = "inbox/".toList ++ value.toList :=
    String.toList_append
  refine ⟨?_, by omega, ?_, ?_, not_mem_backslash h, not_control_inboxPath h, segment_inboxPath h⟩
  · intro hempty
    rw [hempty] at hlist
    cases hlist
  · rw [hlist]
    intro hslash
    cases hslash
  · rw [hlist, List.getLast?_append]
    cases hlast : value.toList.getLast? with
    | none => exact absurd (List.getLast?_eq_none_iff.mp hlast) h.nonempty
    | some c =>
      rintro hslash
      cases hslash
      exact absurd (h.last '/' hlast) (by decide)

theorem validateDecodedPath_inboxPath (h : Filename value) :
    BlobyardUri.validateDecodedPath (inboxPath value) = .ok () := by
  have hsize := size_inboxPath h
  have hlimit : BlobyardUri.maxPathBytes = 2048 := rfl
  refine BlobyardUri.validateDecodedPath_eq_ok.mpr ⟨by omega, fun segment hsegment => ?_⟩
  rw [segments_inboxPath h] at hsegment
  rcases List.mem_pair.mp hsegment with rfl | rfl
  · decide
  · obtain ⟨hne, hdot, hdots⟩ := not_dots h
    rintro (hnil | hone | htwo | hslash | ⟨c, hc, hcontrol⟩)
    · exact hne hnil
    · exact hdot hone
    · exact hdots htwo
    · exact (h.safe _ hslash).not_slash.2 rfl
    · rw [(h.safe c hc).not_control] at hcontrol
      cases hcontrol

/-- A safe character stands for itself in a URI. -/
theorem SafeCharacter.not_encoded {c : Char} (h : SafeCharacter c) :
    c.toNat < 128 ∧ BlobyardUri.shouldEncode (UInt8.ofNat c.toNat) = false := by
  have hall : ∀ code < 128, SafeCharacter (Char.ofNat code) →
      BlobyardUri.shouldEncode (UInt8.ofNat code) = false := by decide +kernel
  have hbounds := h.bounds
  refine ⟨by omega, hall c.toNat (by omega) ?_⟩
  rwa [Char.ofNat_toNat]

/-- The constructor takes the path: the URI of the object stays far below its limit. -/
theorem new_inboxPath [PercentEncoding] (h : Filename value) (workspace project : Slug) :
    BlobyardUri.new workspace project (inboxPath value) none =
      .ok { workspace, project, logicalPath := inboxPath value, version := none } := by
  have hraw : ∀ segment ∈ segments (inboxPath value),
      (utf8PercentEncode BlobyardUri.shouldEncode segment).length = segment.length := by
    intro segment hsegment
    refine length_utf8PercentEncode_raw fun c hc => SafeCharacter.not_encoded ?_
    rw [segments_inboxPath h] at hsegment
    rcases List.mem_pair.mp hsegment with rfl | rfl
    · have hinbox : ∀ c ∈ "inbox".toList, SafeCharacter c := by decide
      exact hinbox c hc
    · exact h.safe c hc
  rw [segments_inboxPath h, List.forall_mem_cons, List.forall_mem_singleton] at hraw
  have hslug : ∀ slug : Slug, slug.asStr.toList.length ≤ 63 := fun slug => by
    have hsize := slug.valid.2.1
    have hle := length_le_utf8Len slug.asStr.toList
    rw [utf8ByteSize_eq] at hsize
    omega
  have hworkspace := hslug workspace
  have hproject := hslug project
  have hlength := h.length_le
  have hscheme : BlobyardUri.scheme.length = 11 := by decide
  have hinbox : "inbox".toList.length = 5 := by decide
  simp only [BlobyardUri.new, bind_eq_ok, ensure_eq_ok, pure_eq_ok]
  refine ⟨(), validateDecodedPath_inboxPath h, (), ?_, trivial⟩
  rw [BlobyardUri.utf8ByteSize_toString, BlobyardUri.maxUriBytes]
  simp only [BlobyardUri.display, BlobyardUri.displayVersion, segments_inboxPath h,
    List.flatMap_cons, List.flatMap_nil, List.length_append, List.length_cons, List.length_nil,
    hraw.1, hraw.2]
  omega

end Path

/-! ### The law -/

/-- What a guest names a file becomes one safe path segment; the path of the upload is accepted as an
object path and as a storage key; and a second pass changes nothing. -/
theorem sanitizeFilename_law [PercentEncoding] (input : String) :
    Filename (sanitizeFilename input) ∧
      (∀ request workspace project confined, request.filename = input →
        scopedRequest request workspace project = .ok confined →
          confined.filename = sanitizeFilename input ∧
            confined.path = inboxPath (sanitizeFilename input)) ∧
      segments (inboxPath (sanitizeFilename input)) =
        ["inbox".toList, (sanitizeFilename input).toList] ∧
      (∀ workspace project, ∃ uri,
        BlobyardUri.new workspace project (inboxPath (sanitizeFilename input)) none = .ok uri) ∧
      validateText (inboxPath (sanitizeFilename input)) = .ok () ∧
      (∃ key, StorageKey.new (inboxPath (sanitizeFilename input)) = .ok key) ∧
      sanitizeFilename (sanitizeFilename input) = sanitizeFilename input := by
  have h := filename_sanitizeFilename input
  have hvalid := validRelativePath_inboxPath h
  refine ⟨h, fun request workspace project confined hrequest hconfined => ?_, segments_inboxPath h,
    fun workspace project => ?_, ?_, ⟨⟨_, hvalid⟩, StorageKey.new_eq_ok.mpr rfl⟩,
    sanitize_of_filename h⟩
  · simp only [scopedRequest, bind_eq_ok, pure_eq_ok] at hconfined
    obtain ⟨-, -, rfl⟩ := hconfined
    rw [← hrequest]
    exact ⟨rfl, rfl⟩
  · exact ⟨_, new_inboxPath h workspace project⟩
  · exact validateText_eq_ok.mpr ⟨hvalid.1, hvalid.2.1, not_control_inboxPath h⟩

example : sanitizeFilename "../../release notes?.txt" = "release_notes_.txt" := by decide

end InboxFilenames

end BlobYard
