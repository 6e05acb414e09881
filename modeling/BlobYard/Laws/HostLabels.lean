/-
Host labels are DNS labels, and are read back from the URLs of an origin.

* `LabelOf`, `hostLabel_labelOf` — the whole hash between parts of the two slugs, and when that is
  a label;
* `authorityOf` — the authority of a URL;
* `publicHostLabel_eq_some` — which authorities have a label under an origin;
* `hostLabels_law` — the labels, their URLs and the authorities of other origins.
-/
import BlobYard.Lib.Decimal
import BlobYard.Server.HostLabels

namespace BlobYard

open Outcome

namespace HostLabels

open Server Server.Yards

/-! ### Labels -/

/-- A character that a label may have. -/
def DnsCharacter (c : Char) : Prop := ('a' ≤ c ∧ c ≤ 'z') ∨ ('0' ≤ c ∧ c ≤ '9') ∨ c = '-'

instance (c : Char) : Decidable (DnsCharacter c) := inferInstanceAs (Decidable (_ ∨ _ ∨ _))

/-- A text of such characters. -/
def DnsText (text : String) : Prop := ∀ c ∈ text.toList, DnsCharacter c

instance (text : String) : Decidable (DnsText text) :=
  inferInstanceAs (Decidable (∀ c ∈ text.toList, DnsCharacter c))

/-- The label has the whole hash between parts of the two slugs, and is one exactly if these are of
the characters of labels. -/
structure LabelOf (name workspace : Slug) (hash label : String) (left right : String) : Prop where
  namePart : SlugPart name left
  workspacePart : SlugPart workspace right
  parts : label = left ++ "-" ++ hash ++ "-" ++ right
  valid : ValidHostLabel label ↔ DnsText left ∧ DnsText right

theorem dnsCharacter_of_isHexDigit {c : Char} (h : isHexDigit c = true) : DnsCharacter c := by
  rw [isHexDigit, Bool.or_eq_true, Bool.and_eq_true, Bool.and_eq_true, decide_eq_true_eq,
    decide_eq_true_eq, decide_eq_true_eq, decide_eq_true_eq] at h
  rcases h with hdigit | ⟨hlow, hhigh⟩
  · exact Or.inr (Or.inl hdigit)
  · exact Or.inl ⟨hlow, hhigh.trans (by decide)⟩

/-- A part of a slug of such characters is of such characters. -/
theorem DnsText.part {slug : Slug} {part : String} (h : DnsText slug.asStr)
    (hpart : SlugPart slug part) : DnsText part :=
  fun c hc => h c (hpart.start.subset hc)

section Parts

variable {name workspace : Slug} {left right hash : String}

/-- Whether parts of slugs and a hash make up a label depends on the characters of the parts. -/
theorem validHostLabel_parts (hleft : SlugPart name left) (hright : SlugPart workspace right)
    (hhash : ∀ c ∈ hash.toList, isHexDigit c = true)
    (hsize : left.utf8ByteSize + hash.toList.length + right.utf8ByteSize ≤ 61) :
    ValidHostLabel (left ++ "-" ++ hash ++ "-" ++ right) ↔ DnsText left ∧ DnsText right := by
  -- the label as a list: the two parts with the hash between hyphens
  have htext : (left ++ "-" ++ hash ++ "-" ++ right).toList =
      left.toList ++ '-' :: (hash.toList ++ '-' :: right.toList) := by
    simp only [String.toList_append, List.append_assoc]
    rfl
  have hhyphen : '-' ∈ (left ++ "-" ++ hash ++ "-" ++ right).toList := by
    rw [htext]
    exact List.mem_append_right _ List.mem_cons_self
  -- hyphens and digits belong to labels, so only the parts can leave the characters
  have hcharacters : (∀ c ∈ (left ++ "-" ++ hash ++ "-" ++ right).toList, DnsCharacter c) ↔
      DnsText left ∧ DnsText right := by
    rw [htext]
    constructor
    · intro h
      refine ⟨fun c hc => h c (List.mem_append_left _ hc), fun c hc => h c ?_⟩
      exact List.mem_append_right _ (List.mem_cons_of_mem _ (List.mem_append_right _
        (List.mem_cons_of_mem _ hc)))
    · rintro ⟨hdnsLeft, hdnsRight⟩ c hc
      rw [List.mem_append, List.mem_cons, List.mem_append, List.mem_cons] at hc
      rcases hc with hc | rfl | hc | rfl | hc
      · exact hdnsLeft c hc
      · exact Or.inr (Or.inr rfl)
      · exact dnsCharacter_of_isHexDigit (hhash c hc)
      · exact Or.inr (Or.inr rfl)
      · exact hdnsRight c hc
  -- at most 61 bytes and two hyphens
  have hbytes : (left ++ "-" ++ hash ++ "-" ++ right).utf8ByteSize ≤ 63 := by
    have hdash : "-".utf8ByteSize = 1 := rfl
    have hhashSize : hash.utf8ByteSize = hash.toList.length := by
      rw [utf8ByteSize_eq, utf8Len_eq_length fun c hc => isHexDigit_ascii (hhash c hc)]
    simp only [String.utf8ByteSize_append, hdash, hhashSize]
    omega
  -- it begins as its first part does, and ends as its last part
  have hfirst : (left ++ "-" ++ hash ++ "-" ++ right).toList.head? ≠ some '-' := by
    rw [htext, List.head?_append_of_ne_nil _ hleft.ne_nil]
    exact hleft.first
  have hlast : (left ++ "-" ++ hash ++ "-" ++ right).toList.getLast? ≠ some '-' := by
    obtain ⟨init, c, hc⟩ := (List.eq_nil_or_concat' right.toList).resolve_left hright.ne_nil
    have hend := hright.last
    rw [hc, List.getLast?_concat] at hend
    rw [htext, hc, ← List.cons_append, ← List.append_assoc, ← List.cons_append,
      ← List.append_assoc, List.getLast?_concat]
    exact hend
  -- it is not empty, because it has a hyphen
  have hne : left ++ "-" ++ hash ++ "-" ++ right ≠ "" := by
    intro hempty
    rw [hempty] at hhyphen
    cases hhyphen
  rw [← hcharacters]
  exact ⟨fun h => h.2.2.2.2.2, fun h => ⟨hhyphen, hne, hbytes, hfirst, hlast, h⟩⟩

end Parts

section Labels

variable [Digest] (name workspace : Slug) (kind id : String)

theorem hostLabel_labelOf {length : ℕ} (hlength : length ≤ 59) :
    ∃ left right, LabelOf name workspace (opaqueHash kind id length)
      (hostLabel name workspace kind id length) left right := by
  obtain ⟨hleft, hright, hsize⟩ := balancedParts_spec name workspace (by omega : 2 ≤ 61 - length)
  obtain ⟨hhash, hdigits⟩ := opaqueHash_spec kind id (by omega : length ≤ 64)
  exact ⟨_, _, hleft, hright, rfl, validHostLabel_parts hleft hright hdigits (by omega)⟩

/-- Slugs of the characters of labels make up a label. -/
theorem hostLabel_valid {length : ℕ} (hlength : length ≤ 59) (hname : DnsText name.asStr)
    (hworkspace : DnsText workspace.asStr) :
    ValidHostLabel (hostLabel name workspace kind id length) := by
  obtain ⟨left, right, hlabel⟩ := hostLabel_labelOf name workspace kind id hlength
  exact hlabel.valid.mpr ⟨hname.part hlabel.namePart, hworkspace.part hlabel.workspacePart⟩

end Labels

/-! ### URLs and their authorities -/

/-- The authority of a URL: what stands between its two slashes and the next one, a question mark
or a number sign. -/
def authorityOf (url : String) : Option String :=
  (splitOnce ':' url.toList).bind fun parts =>
    (stripPrefix? ['/', '/'] parts.2).map fun hierarchy =>
      String.ofList (hierarchy.takeWhile fun c => decide (c ∉ ['/', '?', '#']))

theorem serializeAuthority_label (label domain : String) (port : Option UInt16) :
    serializeAuthority (label ++ "." ++ domain) port =
      label ++ "." ++ serializeAuthority domain port := by
  cases port with
  | none => rfl
  | some port => simp only [serializeAuthority, String.append_assoc]

section Origins

variable {origin : WebYardOrigin}

/-- A character of the authority of an origin is one of a label, a dot, a colon or a digit. -/
theorem mem_authority {c : Char} (h : c ∈ origin.authority.toList) :
    DnsCharacter c ∨ c = '.' ∨ c = ':' := by
  -- the domain is made of labels and dots
  have hdomain : ∀ c ∈ origin.domain.toList, DnsCharacter c ∨ c = '.' := by
    intro c hc
    obtain ⟨first, rest, htext, hparts⟩ := exists_joined '.' origin.domain.toList
    have hlabels : ∀ part ∈ first :: rest, ∀ c ∈ part, DnsCharacter c := by
      intro part hpart c hc
      have hvalid := origin.validDomain.2 part (by rwa [htext, splitOn_joined hparts])
      exact hvalid.2.2.2.2 c (by rwa [String.toList_ofList])
    rw [htext, joined, List.mem_append, List.mem_flatMap] at hc
    rcases hc with hc | ⟨part, hpart, hc⟩
    · exact Or.inl (hlabels first List.mem_cons_self c hc)
    · rcases List.mem_cons.mp hc with rfl | hc
      · exact Or.inr rfl
      · exact Or.inl (hlabels part (List.mem_cons_of_mem _ hpart) c hc)
  -- without a port the authority is the domain, with one it ends in a colon and digits
  rw [WebYardOrigin.authority] at h
  cases hport : origin.port with
  | none =>
    rw [hport] at h
    exact (hdomain c h).imp_right Or.inl
  | some port =>
    rw [hport, serializeAuthority, String.toList_append, String.toList_append, List.mem_append,
      List.mem_append] at h
    rcases h with (hc | hc) | hc
    · exact (hdomain c hc).imp_right Or.inl
    · exact Or.inr (Or.inr (List.mem_singleton.mp hc))
    · rw [String.toList_ofList] at hc
      obtain ⟨hlow, hhigh⟩ := Char.isDigit_iff_toNat.mp ((isDecimal_toDigits port.toNat).2 c hc)
      refine Or.inl (Or.inr (Or.inl ⟨?_, ?_⟩))
      · rw [Char.le_def, UInt32.le_iff_toNat_le]
        exact hlow
      · rw [Char.le_def, UInt32.le_iff_toNat_le]
        exact hhigh

/-- The URL of a label has the label and the authority of the origin for its authority. -/
theorem authorityOf_urlFor {label url : String} (h : origin.urlFor label = .ok url) :
    ValidDnsLabel label ∧ authorityOf url = some (label ++ "." ++ origin.authority) := by
  simp only [WebYardOrigin.urlFor, bind_eq_ok, ensure_eq_ok, pure_eq_ok, exists_const] at h
  obtain ⟨hlabel, rfl⟩ := h
  refine ⟨hlabel, ?_⟩
  -- the URL is its scheme, then the authority behind two slashes
  have htext : (serialize origin.scheme (label ++ "." ++ origin.domain) origin.port).toList =
      origin.scheme.toList ++ ':' :: ('/' :: '/' :: (label ++ "." ++ origin.authority).toList) := by
    rw [serialize, serializeAuthority_label, String.toList_append, String.toList_append,
      List.append_assoc]
    rfl
  have hscheme : ':' ∉ origin.scheme.toList := by
    rcases origin.validScheme with hscheme | ⟨hscheme, -⟩
    · rw [hscheme]
      decide
    · rw [hscheme]
      decide
  -- no character of the authority ends it early
  have hcharacters : ∀ c ∈ (label ++ "." ++ origin.authority).toList,
      DnsCharacter c ∨ c = '.' ∨ c = ':' := by
    intro c hc
    rw [String.toList_append, String.toList_append, List.mem_append, List.mem_append] at hc
    rcases hc with (hc | hc) | hc
    · exact Or.inl (hlabel.2.2.2.2 c hc)
    · exact Or.inr (Or.inl (List.mem_singleton.mp hc))
    · exact mem_authority hc
  -- so all of it is read
  have htake : (label ++ "." ++ origin.authority).toList.takeWhile
      (fun c => decide (c ∉ ['/', '?', '#'])) = (label ++ "." ++ origin.authority).toList := by
    rw [List.takeWhile_eq_self_iff]
    intro c hc
    rw [decide_eq_true_eq]
    intro hspecial
    have hall : ∀ d ∈ ['/', '?', '#'], ¬(DnsCharacter d ∨ d = '.' ∨ d = ':') := by decide
    exact hall c hspecial (hcharacters c hc)
  have hhierarchy : stripPrefix? ['/', '/']
      ('/' :: '/' :: (label ++ "." ++ origin.authority).toList) =
        some (label ++ "." ++ origin.authority).toList :=
    stripPrefix?_eq_some.mpr rfl
  rw [authorityOf, htext, splitOnce_append hscheme, Option.bind_some, hhierarchy, Option.map_some,
    htake, String.ofList_toList]

/-- The authorities that have a label under an origin. -/
theorem publicHostLabel_eq_some [UrlParser] {value authority label : String}
    (horigin : WebYardOrigin.new value = .ok origin) :
    publicHostLabel value authority = some label ↔
      authority = label ++ "." ++ origin.authority ∧ ValidHostLabel label := by
  -- the reader strips the dot and the authority of the origin from the end
  have hread : publicHostLabel value authority =
      (stripSuffix? ("." ++ origin.authority).toList authority.toList).bind fun characters =>
        if ValidHostLabel (String.ofList characters) then some (String.ofList characters)
        else none := by
    rw [publicHostLabel, Sites.publicHostLabel, horigin]
    rfl
  -- and what is left has to be a label
  have hstrip : ∀ characters, stripSuffix? ("." ++ origin.authority).toList authority.toList =
      some characters ↔ authority = String.ofList characters ++ "." ++ origin.authority := by
    intro characters
    rw [stripSuffix?_eq_some, ← String.toList_inj]
    simp only [String.toList_append, String.toList_ofList, List.append_assoc]
  rw [hread, Option.bind_eq_some_iff]
  constructor
  · rintro ⟨characters, hcharacters, hlabel⟩
    rw [Option.ite_none_right_eq_some] at hlabel
    obtain ⟨hvalid, hlabel⟩ := hlabel
    obtain rfl := Option.some.inj hlabel
    exact ⟨(hstrip characters).mp hcharacters, hvalid⟩
  · rintro ⟨hauthority, hvalid⟩
    refine ⟨label.toList, (hstrip label.toList).mpr ?_, ?_⟩
    · rw [String.ofList_toList]
      exact hauthority
    · rw [String.ofList_toList, if_pos hvalid]

/-- Labels have no dots, so that an authority has one label and one origin. -/
theorem authority_unique {label label' authority authority' : String} (h : ValidDnsLabel label)
    (h' : ValidDnsLabel label') (heq : label ++ "." ++ authority = label' ++ "." ++ authority') :
    label = label' ∧ authority = authority' := by
  have hdot : ∀ {l : String}, ValidDnsLabel l → '.' ∉ l.toList := by
    intro l hl hmem
    have hcharacter : DnsCharacter '.' := hl.2.2.2.2 '.' hmem
    exact absurd hcharacter (by decide)
  have htext : label.toList ++ '.' :: authority.toList =
      label'.toList ++ '.' :: authority'.toList := by
    have htexts := congrArg String.toList heq
    simp only [String.toList_append, List.append_assoc] at htexts
    exact htexts
  have hsplit := splitOnce_append (hdot h) authority.toList
  rw [htext, splitOnce_append (hdot h'), Option.some.injEq, Prod.mk.injEq] at hsplit
  exact ⟨(String.toList_inj.mp hsplit.1).symm, (String.toList_inj.mp hsplit.2).symm⟩

end Origins

/-! ### The law -/

/-- Both labels of every yard have their whole hash, of digits, between parts of the slugs, and are
labels exactly if these parts are of the characters of labels; no deploy is started under anything
else.  The label of a URL of an origin is read back from the authority of the URL under the origin,
and nothing is read from it under an origin with another authority. -/
theorem hostLabels_law [UrlParser] [Digest] :
    (∀ name workspace id,
      (∃ left right, LabelOf name workspace (opaqueHash "yard" id 9)
        (stableHostLabel name workspace id) left right) ∧
      (∃ left right, LabelOf name workspace (opaqueHash "deployment" id 10)
        (deploymentHostLabel name workspace id) left right) ∧
      (DnsText name.asStr → DnsText workspace.asStr →
        ValidHostLabel (stableHostLabel name workspace id) ∧
          ValidHostLabel (deploymentHostLabel name workspace id))) ∧
    (∀ kind id, ∀ length ≤ 64, (opaqueHash kind id length).toList.length = length ∧
      ∀ c ∈ (opaqueHash kind id length).toList, isHexDigit c = true) ∧
    (∀ (s : Repository) yard deploy event result,
      s.startYardDeploy yard deploy event = .ok result →
        ValidHostLabel yard.hostLabel ∧ ValidHostLabel deploy.deploymentHostLabel) ∧
    (∀ value origin, WebYardOrigin.new value = .ok origin → ∀ label, ValidHostLabel label →
      ∃ url authority, origin.urlFor label = .ok url ∧ webYardUrl value label = .ok url ∧
        authorityOf url = some authority ∧ publicHostLabel value authority = some label) ∧
    (∀ value origin (other : WebYardOrigin) label url authority,
      WebYardOrigin.new value = .ok origin → other.authority ≠ origin.authority →
        other.urlFor label = .ok url → authorityOf url = some authority →
          publicHostLabel value authority = none) := by
  refine ⟨fun name workspace id => ⟨?_, ?_, fun hname hworkspace => ⟨?_, ?_⟩⟩,
    fun kind id length hlength => opaqueHash_spec kind id hlength, ?_, ?_, ?_⟩
  · exact hostLabel_labelOf name workspace "yard" id (by decide)
  · exact hostLabel_labelOf name workspace "deployment" id (by decide)
  · exact hostLabel_valid name workspace "yard" id (by decide) hname hworkspace
  · exact hostLabel_valid name workspace "deployment" id (by decide) hname hworkspace
  -- a start validates both labels
  · intro s yard deploy event result h
    rw [Repository.startYardDeploy, bind_eq_ok] at h
    obtain ⟨_, hstart, -⟩ := h
    simp only [validateYardStart, bind_eq_ok, validateTexts_eq_ok, ensure_eq_ok,
      exists_const] at hstart
    obtain ⟨-, ⟨-, -, -, hstable, himmutable, -⟩, -⟩ := hstart
    exact ⟨hstable, himmutable⟩
  -- the URL of a label, and the label read back from it
  · intro value origin horigin label hlabel
    have hurl : origin.urlFor label =
        .ok (serialize origin.scheme (label ++ "." ++ origin.domain) origin.port) := by
      rw [WebYardOrigin.urlFor, (ensure_eq_ok (u := ())).mpr hlabel.2]
      rfl
    refine ⟨_, _, hurl, ?_, (authorityOf_urlFor hurl).2,
      (publicHostLabel_eq_some horigin).mpr ⟨rfl, hlabel⟩⟩
    rw [webYardUrl, horigin]
    show (origin.urlFor label).mapError _ = _
    rw [hurl]
    rfl
  -- under another origin the ends of the authorities differ
  · intro value origin other label url authority horigin hother hurl hauthority
    obtain ⟨hlabel, hread⟩ := authorityOf_urlFor hurl
    rw [hread, Option.some.injEq] at hauthority
    refine Option.eq_none_iff_forall_ne_some.mpr fun found hfound => hother ?_
    obtain ⟨heq, hvalid⟩ := (publicHostLabel_eq_some horigin).mp hfound
    exact (authority_unique hlabel hvalid.2 (hauthority.trans heq)).2

/-! ### Letters that no label has, and two origins with one authority -/

section Samples

/-- The parser on two texts. -/
@[reducible] def localhostParser : UrlParser where
  parse value :=
    if value = "http://localhost" ∨ value = "https://localhost" then
      some { scheme := if value = "http://localhost" then "http" else "https", username := "",
             password := none, host := some (.domain "localhost"), port := none, path := "/",
             query := none, fragment := none }
    else none

/-- SHA-256 of the identifier `yard_1` of a yard, whatever is hashed. -/
@[reducible] def yardHash : Digest where
  sha256 _ :=
    ⟨"678a2abf88d2e2edafdb2b2bdd04d8f549422c433cc7e1d3d4b9042b5e85bcb2", by decide⟩

attribute [local instance] localhostParser yardHash

/-- The root of the machine, over either scheme. -/
def localhostOrigin (scheme : String) (h : ValidScheme scheme "localhost") : WebYardOrigin where
  scheme := scheme
  domain := "localhost"
  port := none
  validScheme := h
  validDomain := by decide

/-- A label under an origin of this machine is read back. -/
theorem docs_read :
    ValidHostLabel (stableHostLabel ⟨"docs", by decide⟩ ⟨"press", by decide⟩ "yard_1") ∧
      ∃ url authority,
        (localhostOrigin "https" (by decide)).urlFor "docs-678a2abf8-press" = .ok url ∧
        authorityOf url = some authority ∧
        publicHostLabel "https://localhost" authority = some "docs-678a2abf8-press" := by
  obtain ⟨hlabels, -, -, hread, -⟩ := hostLabels_law
  obtain ⟨-, -, hvalid⟩ := hlabels ⟨"docs", by decide⟩ ⟨"press", by decide⟩ "yard_1"
  obtain ⟨url, authority, hurl, -, hauthority, hlabel⟩ :=
    hread "https://localhost" (localhostOrigin "https" (by decide)) (by rfl)
      "docs-678a2abf8-press" (by decide)
  exact ⟨(hvalid (by decide) (by decide)).1, url, authority, hurl, hauthority, hlabel⟩

/-- A yard whose name has a capital letter gets no label, and a label under one origin of this
machine is read under the other. -/
theorem labels_unread :
    (¬∀ name workspace yardId, ValidDnsLabel (stableHostLabel name workspace yardId)) ∧
      ¬∀ value origin (other : WebYardOrigin) label url authority,
        WebYardOrigin.new value = .ok origin → other.asStr ≠ origin.asStr →
          other.urlFor label = .ok url → authorityOf url = some authority →
            publicHostLabel value authority = none := by
  constructor
  · intro h
    exact absurd (h ⟨"Docs", by decide⟩ ⟨"press", by decide⟩ "yard_1") (by decide)
  · intro h
    have hnone := h "https://localhost" (localhostOrigin "https" (by decide))
      (localhostOrigin "http" (by decide)) "docs-678a2abf8-press"
      "http://docs-678a2abf8-press.localhost" "docs-678a2abf8-press.localhost" (by rfl) (by decide)
      (by rfl) (by decide)
    exact absurd hnone (by decide)

end Samples

end HostLabels

end BlobYard
