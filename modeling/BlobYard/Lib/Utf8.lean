/-
Texts as lists of characters, measured in bytes.

The code under verification counts and splits its texts in UTF-8 bytes; the models
look at characters.  The two agree on ASCII, and a byte position is a position
between two characters or inside of one.

* `utf8ByteSize_eq`, `utf8Len_eq_length` — the size of a text;
* `splitAt?` — the text before and after a byte position, if it is between two
  characters;
* `splitAt?_pred` — the position before the last byte;
* `utf8Bytes`, `utf8Text?` — the bytes themselves, which are read back;
* `decidableForallToList` — a condition on the characters of a text, decided on its bytes.
-/
import Mathlib.Data.String.Basic

namespace BlobYard

open String

theorem utf8ByteSize_eq (value : String) : value.utf8ByteSize = utf8Len value.toList := by
  rw [← utf8ByteSize_ofList, String.ofList_toList]

theorem utf8Size_eq_one_iff {c : Char} : c.utf8Size = 1 ↔ c.toNat < 128 := by
  rw [Char.utf8Size_eq_one_iff, UInt32.le_iff_toNat_le]
  change c.toNat ≤ 127 ↔ _
  omega

theorem utf8Len_eq_length {characters : List Char} (h : ∀ c ∈ characters, c.toNat < 128) :
    utf8Len characters = characters.length := by
  induction characters with
  | nil => rfl
  | cons c rest ih =>
    have hc : c.utf8Size = 1 := utf8Size_eq_one_iff.mpr (h c List.mem_cons_self)
    rw [utf8Len_cons, ih fun d hd => h d (List.mem_cons_of_mem c hd), hc, List.length_cons]

theorem length_le_utf8Len (characters : List Char) : characters.length ≤ utf8Len characters := by
  induction characters with
  | nil => exact Nat.le_refl 0
  | cons c rest ih =>
    have := c.utf8Size_pos
    rw [utf8Len_cons, List.length_cons]
    omega

/-- The characters before and after the byte position `mid`; there are none when the position is
inside a character or behind the end. -/
def splitAt? : List Char → ℕ → Option (List Char × List Char)
  | characters, 0 => some ([], characters)
  | [], _ + 1 => none
  | c :: rest, mid + 1 =>
    if c.utf8Size ≤ mid + 1 then
      (splitAt? rest (mid + 1 - c.utf8Size)).map fun (before, after) => (c :: before, after)
    else none

theorem splitAt?_append (before after : List Char) :
    splitAt? (before ++ after) (utf8Len before) = some (before, after) := by
  induction before with
  | nil => cases after <;> rfl
  | cons c rest ih =>
    have := c.utf8Size_pos
    obtain ⟨mid, hmid⟩ : ∃ mid, utf8Len (c :: rest) = mid + 1 :=
      ⟨utf8Len rest + c.utf8Size - 1, by rw [utf8Len_cons]; omega⟩
    have hrest : mid + 1 - c.utf8Size = utf8Len rest := by
      rw [utf8Len_cons] at hmid
      omega
    have hle : c.utf8Size ≤ mid + 1 := by
      rw [utf8Len_cons] at hmid
      omega
    rw [List.cons_append, hmid, splitAt?, if_pos hle, hrest, ih]
    rfl

/-- A split is found at the end of a part and nowhere else. -/
theorem splitAt?_eq_some {characters : List Char} {mid : ℕ} {before after : List Char} :
    splitAt? characters mid = some (before, after) ↔
      characters = before ++ after ∧ utf8Len before = mid := by
  refine ⟨fun h => ?_, fun ⟨h, hmid⟩ => h ▸ hmid ▸ splitAt?_append before after⟩
  induction characters, mid using splitAt?.induct generalizing before with
  | case1 characters =>
    simp only [splitAt?, Option.some.injEq, Prod.mk.injEq] at h
    obtain ⟨rfl, rfl⟩ := h
    exact ⟨rfl, rfl⟩
  | case2 mid => simp [splitAt?] at h
  | case3 c rest mid hle ih =>
    rw [splitAt?, if_pos hle, Option.map_eq_some_iff] at h
    obtain ⟨⟨before', after'⟩, hsplit, heq⟩ := h
    simp only [Prod.mk.injEq] at heq
    obtain ⟨rfl, rfl⟩ := heq
    obtain ⟨rfl, hlen⟩ := ih hsplit
    refine ⟨rfl, ?_⟩
    rw [utf8Len_cons, hlen]
    omega
  | case4 c rest mid hle => simp [splitAt?, hle] at h

/-- The position before the last byte is between two characters if the last of them is ASCII. -/
theorem splitAt?_pred (init : List Char) (last : Char) :
    splitAt? (init ++ [last]) (utf8Len (init ++ [last]) - 1) =
      if last.toNat < 128 then some (init, [last]) else none := by
  have hsize : utf8Len (init ++ [last]) = utf8Len init + last.utf8Size := by simp
  have hpos := last.utf8Size_pos
  split
  case isTrue hascii =>
    have hone := utf8Size_eq_one_iff.mpr hascii
    rw [hsize, hone, Nat.add_sub_cancel, splitAt?_append]
  case isFalse hascii =>
    refine Option.eq_none_iff_forall_ne_some.mpr fun (before, after) hsplit => ?_
    obtain ⟨hparts, hlen⟩ := splitAt?_eq_some.mp hsplit
    have hone : last.utf8Size ≠ 1 := fun h => hascii (utf8Size_eq_one_iff.mp h)
    -- the last part would be a single byte, but the last character is longer
    have hafter : utf8Len after = 1 := by
      have := congrArg utf8Len hparts
      rw [utf8Len_append before after] at this
      omega
    rcases List.eq_nil_or_concat after with rfl | ⟨middle, c, rfl⟩
    · exact absurd hafter (by decide)
    · rw [List.concat_eq_append] at hparts hafter
      rw [← List.append_assoc] at hparts
      obtain ⟨-, hc⟩ := List.append_inj' hparts rfl
      rw [List.cons.injEq] at hc
      rw [utf8Len_append, ← hc.1] at hafter
      simp only [utf8Len_cons, utf8Len_nil] at hafter
      omega

/-! ### Bytes -/

/-- The bytes of a text. -/
def utf8Bytes (text : List Char) : List UInt8 := text.flatMap utf8EncodeChar

/-- The text with the bytes, if they are one. -/
def utf8Text? (bytes : List UInt8) : Option (List Char) :=
  bytes.toByteArray.utf8Decode?.map Array.toList

@[simp] theorem utf8Bytes_append (before after : List Char) :
    utf8Bytes (before ++ after) = utf8Bytes before ++ utf8Bytes after :=
  List.flatMap_append

theorem utf8Bytes_cons (c : Char) (rest : List Char) :
    utf8Bytes (c :: rest) = utf8EncodeChar c ++ utf8Bytes rest :=
  List.flatMap_cons

/-- An ASCII character is the byte with its code. -/
theorem utf8Bytes_ascii {c : Char} (h : c.toNat < 128) (rest : List Char) :
    utf8Bytes (c :: rest) = UInt8.ofNat c.toNat :: utf8Bytes rest := by
  rw [utf8Bytes_cons, utf8EncodeChar_eq_singleton (utf8Size_eq_one_iff.mpr h)]
  rfl

theorem length_utf8Bytes (text : List Char) : (utf8Bytes text).length = utf8Len text := by
  induction text with
  | nil => rfl
  | cons c rest ih =>
    rw [utf8Bytes_cons, List.length_append, length_utf8EncodeChar, ih, utf8Len_cons, Nat.add_comm]

/-- Only the bytes of a text are read, and they are read as that text. -/
theorem utf8Text?_eq_some {bytes : List UInt8} {text : List Char} :
    utf8Text? bytes = some text ↔ utf8Bytes text = bytes := by
  constructor
  · intro h
    rw [utf8Text?, Option.map_eq_some_iff] at h
    obtain ⟨characters, hdecode, rfl⟩ := h
    have hencode := @ByteArray.utf8Encode_get_utf8Decode? bytes.toByteArray
      (Option.isSome_of_eq_some hdecode)
    simp only [hdecode, Option.get_some] at hencode
    have hlist := congrArg (fun array => array.data.toList) hencode
    simpa [List.utf8Encode, utf8Bytes] using hlist
  · rintro rfl
    have hdecode : (utf8Bytes text).toByteArray.utf8Decode? = some text.toArray :=
      List.utf8Decode?_utf8Encode
    rw [utf8Text?, hdecode]
    rfl

/-! ### Conditions on characters -/

/-- The bytes of a character outside ASCII are not all below 128. -/
theorem ascii_of_utf8EncodeChar {c : Char} (h : ∀ byte ∈ utf8EncodeChar c, byte.toNat < 128) :
    c.toNat < 128 := by
  by_contra hnot
  have hval : ¬c.val.toNat ≤ 127 := fun hle => hnot (by change c.val.toNat < 128; omega)
  unfold utf8EncodeChar at h
  simp only [hval, if_false] at h
  -- the last byte of two, three or four is at least 128
  split at h
  · simp at h
    omega
  split at h
  · simp at h
    omega
  · simp at h
    omega

/-- The characters of a text whose bytes are all below 128. -/
theorem toList_of_ascii {value : String}
    (h : ∀ byte ∈ value.toByteArray.data.toList, byte.toNat < 128) :
    value.toList = value.toByteArray.data.toList.map fun byte => Char.ofNat byte.toNat := by
  have hbytes : value.toByteArray.data.toList = utf8Bytes value.toList := by
    rw [← String.utf8Encode_toList]
    simp [List.utf8Encode, utf8Bytes]
  rw [hbytes] at h ⊢
  generalize value.toList = text at h
  induction text with
  | nil => rfl
  | cons c rest ih =>
    have hc : c.toNat < 128 := by
      refine ascii_of_utf8EncodeChar fun byte hbyte => h byte ?_
      rw [utf8Bytes_cons]
      exact List.mem_append_left _ hbyte
    rw [utf8Bytes_ascii hc] at h ⊢
    rw [List.forall_mem_cons] at h
    rw [List.map_cons, ← ih h.2, UInt8.toNat_ofNat_of_lt' (hc.trans (by decide)), Char.ofNat_toNat]

/-- A condition on the characters of a text is decided on its bytes, where these are ASCII: to read
the characters back takes the kernel ten times as long. -/
instance (priority := high) decidableForallToList (value : String) (p : Char → Prop)
    [DecidablePred p] : Decidable (∀ c ∈ value.toList, p c) :=
  if h : (value.toByteArray.data.toList.all fun byte => decide (byte.toNat < 128)) = true then
    decidable_of_iff
      ((value.toByteArray.data.toList.all fun byte => decide (p (Char.ofNat byte.toNat))) = true)
      (by
        rw [List.all_eq_true] at h
        rw [toList_of_ascii fun byte hbyte => of_decide_eq_true (h byte hbyte), List.forall_mem_map,
          List.all_eq_true]
        simp only [decide_eq_true_eq])
  else List.decidableBAll p value.toList

end BlobYard
