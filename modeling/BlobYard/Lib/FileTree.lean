/-
Directory trees.

A directory is a `Forest`: its files and its sub-directories, each under a name.
A path is a list of names.  The operations are those of a POSIX file system, each
guarded by a `lookup` of its path and each changing the tree at that path alone.

* `lookup` — what stands at a path: nothing, a file, a directory, or a file in the way;
* `create`, `makeDirs`, `remove` — a new file with its parents, directories, and the
  removal of a file;
* `fileAt_create`, `isDir_create`, … — what every other path holds afterwards;
* `exists_parents`, `exists_file`, `exists_remove` — one path filled and emptied;
* `files`, `mem_files`, `files_nodup` — the paths of all files, each once.
-/
import Mathlib.Data.List.Basic
import Mathlib.Data.List.Nodup
import Mathlib.Data.List.Infix
import Mathlib.Algebra.GroupWithZero.Nat
import Mathlib.Algebra.Order.Group.Nat

namespace FileTree

/-- The contents of a directory with names `ν` and file contents `γ`. -/
inductive Forest (ν γ : Type)
  | nil
  | file (name : ν) (content : γ) (rest : Forest ν γ)
  | dir (name : ν) (children : Forest ν γ) (rest : Forest ν γ)
  deriving DecidableEq

/-- What a name in a directory stands for. -/
inductive Entry (ν γ : Type)
  | file (content : γ)
  | dir (children : Forest ν γ)

/-- What a path leads to. -/
inductive Lookup (γ : Type)
  | missing
  | blocked
  | file (content : γ)
  | directory
  deriving DecidableEq

/-- Why an operation on a path was refused. -/
inductive Failure
  | missing
  | blocked
  | occupied
  deriving DecidableEq

variable {ν γ : Type} [DecidableEq ν]

namespace Forest

/-- The names of a directory with what they stand for. -/
def entries : Forest ν γ → List (ν × Entry ν γ)
  | nil => []
  | file name content rest => (name, .file content) :: rest.entries
  | dir name children rest => (name, .dir children) :: rest.entries

def find? (name : ν) : Forest ν γ → Option (Entry ν γ)
  | nil => none
  | file n content rest => if n = name then some (.file content) else rest.find? name
  | dir n children rest => if n = name then some (.dir children) else rest.find? name

/-- One more entry in front. -/
def cons (name : ν) : Entry ν γ → Forest ν γ → Forest ν γ
  | .file content, rest => file name content rest
  | .dir children, rest => dir name children rest

/-- The entry under a name replaced, or a new one added. -/
def set (name : ν) (entry : Entry ν γ) : Forest ν γ → Forest ν γ
  | nil => cons name entry nil
  | file n content rest =>
    if n = name then cons name entry rest else file n content (rest.set name entry)
  | dir n children rest =>
    if n = name then cons name entry rest else dir n children (rest.set name entry)

def erase (name : ν) : Forest ν γ → Forest ν γ
  | nil => nil
  | file n content rest =>
    if n = name then rest.erase name else file n content (rest.erase name)
  | dir n children rest =>
    if n = name then rest.erase name else dir n children (rest.erase name)

/-- The directory under a name, empty when there is none. -/
def sub (name : ν) (t : Forest ν γ) : Forest ν γ :=
  match t.find? name with
  | some (.dir children) => children
  | _ => nil

def lookup : List ν → Forest ν γ → Lookup γ
  | [], _ => .directory
  | n :: p, t =>
    match t.find? n with
    | none => .missing
    | some (.file content) => if p = [] then .file content else .blocked
    | some (.dir children) => children.lookup p

/-- The entry at a path replaced, with the directories above it. -/
def place : List ν → Entry ν γ → Forest ν γ → Forest ν γ
  | [], _, t => t
  | [n], entry, t => t.set n entry
  | n :: m :: p, entry, t => t.set n (.dir (place (m :: p) entry (t.sub n)))

/-- The entry at a path taken away. -/
def drop : List ν → Forest ν γ → Forest ν γ
  | [], t => t
  | [n], t => t.erase n
  | n :: m :: p, t => t.set n (.dir (drop (m :: p) (t.sub n)))

/-- The content of the file at a path. -/
def fileAt (t : Forest ν γ) (p : List ν) : Option γ :=
  match t.lookup p with
  | .file content => some content
  | _ => none

def IsDir (t : Forest ν γ) (p : List ν) : Prop := t.lookup p = .directory

theorem fileAt_eq_some {t : Forest ν γ} {p : List ν} {c : γ} :
    t.fileAt p = some c ↔ t.lookup p = .file c := by
  unfold fileAt
  cases t.lookup p <;> simp

/-! ### One directory -/

@[simp] theorem find?_cons (n m : ν) (e : Entry ν γ) (t : Forest ν γ) :
    (cons n e t).find? m = if n = m then some e else t.find? m := by
  cases e <;> rfl

@[simp] theorem find?_set (n m : ν) (e : Entry ν γ) (t : Forest ν γ) :
    (t.set n e).find? m = if n = m then some e else t.find? m := by
  induction t with
  | nil => exact find?_cons n m e nil
  | file k content rest ih =>
    by_cases hk : k = n
    · subst hk
      rw [set, if_pos rfl, find?_cons]
      by_cases hm : k = m <;> simp [find?, hm]
    · by_cases hm : k = m
      · subst hm
        simp [set, find?, hk, Ne.symm hk]
      · simp [set, find?, hk, hm, ih]
  | dir k children rest _ ih =>
    by_cases hk : k = n
    · subst hk
      rw [set, if_pos rfl, find?_cons]
      by_cases hm : k = m <;> simp [find?, hm]
    · by_cases hm : k = m
      · subst hm
        simp [set, find?, hk, Ne.symm hk]
      · simp [set, find?, hk, hm, ih]

@[simp] theorem find?_erase (n m : ν) (t : Forest ν γ) :
    (t.erase n).find? m = if n = m then none else t.find? m := by
  induction t with
  | nil => simp [erase, find?]
  | file k content rest ih =>
    by_cases hk : k = n
    · subst hk
      rw [erase, if_pos rfl, ih]
      by_cases hm : k = m <;> simp [find?, hm]
    · by_cases hm : k = m
      · subst hm
        simp [erase, find?, hk, Ne.symm hk]
      · simp [erase, find?, hk, hm, ih]
  | dir k children rest _ ih =>
    by_cases hk : k = n
    · subst hk
      rw [erase, if_pos rfl, ih]
      by_cases hm : k = m <;> simp [find?, hm]
    · by_cases hm : k = m
      · subst hm
        simp [erase, find?, hk, Ne.symm hk]
      · simp [erase, find?, hk, hm, ih]

/-! ### Lookups after a change -/

/-- What stands at a path below an entry. -/
def entryLookup (p : List ν) : Entry ν γ → Lookup γ
  | .file content => if p = [] then .file content else .blocked
  | .dir children => children.lookup p

theorem lookup_cons (n : ν) (p : List ν) (t : Forest ν γ) :
    t.lookup (n :: p) = (t.find? n).elim .missing (entryLookup p) := by
  rw [lookup]
  cases t.find? n with
  | none => rfl
  | some e => cases e <;> rfl

/-- Looking below a name that is no file means looking in its directory. -/
theorem lookup_cons_sub {t : Forest ν γ} {n : ν} (h : ∀ c, t.find? n ≠ some (.file c))
    {p : List ν} (hp : p ≠ []) : t.lookup (n :: p) = (t.sub n).lookup p := by
  rw [lookup_cons, sub]
  rcases hf : t.find? n with _ | ⟨c⟩ | ⟨children⟩
  · cases p with
    | nil => exact absurd rfl hp
    | cons m p => rw [lookup_cons]; rfl
  · exact absurd hf (h c)
  · rfl

/-- A path that is not blocked passes no file. -/
theorem not_file_of_not_blocked {t : Forest ν γ} {n m : ν} {p : List ν}
    (h : t.lookup (n :: m :: p) ≠ .blocked) (c : γ) : t.find? n ≠ some (.file c) := by
  intro hf
  rw [lookup_cons, hf] at h
  exact h rfl

/-- Below a placed entry the entry itself is found. -/
theorem lookup_place_append {p : List ν} (hp : p ≠ []) (r : List ν) (e : Entry ν γ)
    (t : Forest ν γ) : (t.place p e).lookup (p ++ r) = entryLookup r e := by
  induction p generalizing t with
  | nil => exact absurd rfl hp
  | cons n p ih =>
    cases p with
    | nil => simp [place, lookup_cons]
    | cons m p =>
      rw [place, List.cons_append, lookup_cons, find?_set, if_pos rfl]
      exact ih (by simp) (t.sub n)

/-- Above a placed entry stand directories. -/
theorem lookup_place_above {p q : List ν} (hqp : q <+: p) (hne : q ≠ p) (e : Entry ν γ)
    (t : Forest ν γ) : (t.place p e).lookup q = .directory := by
  induction p generalizing t q with
  | nil => exact absurd (List.prefix_nil.mp hqp) hne
  | cons n p ih =>
    cases q with
    | nil => rfl
    | cons k q =>
      obtain ⟨rfl, htail⟩ := List.cons_prefix_cons.mp hqp
      have hne' : q ≠ p := fun heq => hne (by rw [heq])
      cases p with
      | nil => exact absurd (List.prefix_nil.mp htail) hne'
      | cons m p =>
        rw [place, lookup_cons, find?_set, if_pos rfl]
        exact ih htail hne' (t.sub k)

/-- Beside a placed entry nothing changes. -/
theorem lookup_place_beside {p q : List ν} {t : Forest ν γ} (h : t.lookup p ≠ .blocked)
    (hqp : ¬q <+: p) (hpq : ¬p <+: q) (e : Entry ν γ) :
    (t.place p e).lookup q = t.lookup q := by
  induction p generalizing t q with
  | nil => exact absurd List.nil_prefix hpq
  | cons n p ih =>
    cases q with
    | nil => exact absurd List.nil_prefix hqp
    | cons k q =>
      -- the two paths go on in one directory, or part here
      by_cases hnk : n = k
      · subst hnk
        have hqp' : ¬q <+: p := fun h => hqp (List.cons_prefix_cons.mpr ⟨rfl, h⟩)
        have hpq' : ¬p <+: q := fun h => hpq (List.cons_prefix_cons.mpr ⟨rfl, h⟩)
        cases p with
        | nil => exact absurd List.nil_prefix hpq'
        | cons m p =>
          have hfile := not_file_of_not_blocked h
          have hq : q ≠ [] := fun heq => hqp' (heq ▸ List.nil_prefix)
          rw [lookup_cons_sub hfile (by simp)] at h
          rw [place, lookup_cons, find?_set, if_pos rfl, lookup_cons_sub hfile hq]
          exact ih h hqp' hpq'
      · cases p with
        | nil => rw [place, lookup_cons, find?_set, if_neg hnk, lookup_cons]
        | cons m p => rw [place, lookup_cons, find?_set, if_neg hnk, lookup_cons]

/-- A path below a missing one is missing. -/
theorem lookup_below_missing {p q : List ν} {t : Forest ν γ} (h : t.lookup p = .missing)
    (hpq : p <+: q) : t.lookup q = .missing := by
  obtain ⟨r, rfl⟩ := hpq
  induction p generalizing t with
  | nil => cases h
  | cons n p ih =>
    rw [List.cons_append, lookup_cons]
    rw [lookup_cons] at h
    rcases hf : t.find? n with _ | ⟨c⟩ | ⟨children⟩
    · rfl
    · rw [hf] at h
      by_cases hp : p = [] <;> simp [entryLookup, hp] at h
    · rw [hf] at h
      exact ih h

/-- A path above a missing one is missing or a directory. -/
theorem lookup_above_missing {p q : List ν} {t : Forest ν γ} (h : t.lookup p = .missing)
    (hqp : q <+: p) : t.lookup q = .missing ∨ t.lookup q = .directory := by
  obtain ⟨r, rfl⟩ := hqp
  induction q generalizing t with
  | nil => exact .inr rfl
  | cons n q ih =>
    rw [lookup_cons]
    rw [List.cons_append, lookup_cons] at h
    rcases hf : t.find? n with _ | ⟨c⟩ | ⟨children⟩
    · exact .inl rfl
    · rw [hf] at h
      by_cases hq : q ++ r = [] <;> simp [entryLookup, hq] at h
    · rw [hf] at h
      exact ih h

/-- A path above a file is a directory, a path below it is blocked. -/
theorem lookup_above_file {p q : List ν} {c : γ} {t : Forest ν γ} (h : t.lookup p = .file c)
    (hqp : q <+: p) (hne : q ≠ p) : t.lookup q = .directory := by
  obtain ⟨r, rfl⟩ := hqp
  induction q generalizing t with
  | nil => rfl
  | cons n q ih =>
    rw [lookup_cons]
    rw [List.cons_append, lookup_cons] at h
    rcases hf : t.find? n with _ | ⟨c'⟩ | ⟨children⟩
    · rw [hf] at h
      cases h
    · rw [hf] at h
      have hnil : q ++ r ≠ [] := by
        intro heq
        obtain ⟨rfl, rfl⟩ := List.append_eq_nil_iff.mp heq
        exact hne rfl
      simp [entryLookup, hnil] at h
    · rw [hf] at h
      exact ih h fun heq => hne (by rw [List.cons_append, ← heq])

/-! ### Files, directories and missing paths -/

theorem ne_nil_of_missing {p : List ν} {t : Forest ν γ} (h : t.lookup p = .missing) : p ≠ [] := by
  rintro rfl
  cases h

/-- What stands above a directory is one. -/
theorem isDir_of_prefix {p q : List ν} {t : Forest ν γ} (h : IsDir t p) (hqp : q <+: p) :
    IsDir t q := by
  unfold IsDir at *
  obtain ⟨r, rfl⟩ := hqp
  induction q generalizing t with
  | nil => rfl
  | cons n q ih =>
    rw [lookup_cons]
    rw [List.cons_append, lookup_cons] at h
    rcases hf : t.find? n with _ | ⟨c⟩ | ⟨children⟩
    · rw [hf] at h
      cases h
    · rw [hf] at h
      by_cases hnil : q ++ r = [] <;> simp [entryLookup, hnil] at h
    · rw [hf] at h
      exact ih h

/-- Nothing stands at a path exactly when no file stands at it or above it and it is no
directory. -/
theorem missing_iff {p : List ν} {t : Forest ν γ} :
    t.lookup p = .missing ↔ (∀ q, q <+: p → t.fileAt q = none) ∧ ¬IsDir t p := by
  unfold IsDir
  induction p generalizing t with
  | nil => simp [lookup]
  | cons n p ih =>
    have hnil : t.fileAt [] = none := rfl
    rw [lookup_cons]
    -- nothing of the name, a file, or a directory
    rcases hf : t.find? n with _ | ⟨c⟩ | ⟨children⟩
    · simp only [Option.elim_none, true_iff, reduceCtorEq, not_false_eq_true, and_true]
      intro q hq
      rcases List.prefix_cons_iff.mp hq with rfl | ⟨q, rfl, -⟩
      · exact hnil
      · simp [fileAt, lookup_cons, hf]
    · have hfile : t.fileAt [n] = some c := by simp [fileAt, lookup_cons, hf, entryLookup]
      constructor
      · intro h
        by_cases hp : p = [] <;> simp [entryLookup, hp] at h
      · rintro ⟨hnone, -⟩
        have := hnone [n] (List.cons_prefix_cons.mpr ⟨rfl, List.nil_prefix⟩)
        rw [hfile] at this
        cases this
    · have hbelow : ∀ q, t.fileAt (n :: q) = children.fileAt q := fun q => by
        simp [fileAt, lookup_cons, hf, entryLookup]
      simp only [Option.elim_some, entryLookup]
      rw [ih]
      refine and_congr_left fun _ => ?_
      constructor
      · intro h q hq
        rcases List.prefix_cons_iff.mp hq with rfl | ⟨q', rfl, hq'⟩
        · exact hnil
        · rw [hbelow]
          exact h q' hq'
      · intro h q hq
        rw [← hbelow]
        exact h (n :: q) (List.cons_prefix_cons.mpr ⟨rfl, hq⟩)

/-- No file stands above another. -/
theorem eq_of_files {p q : List ν} {c c' : γ} {t : Forest ν γ} (hp : t.fileAt p = some c)
    (hq : t.fileAt q = some c') (hqp : q <+: p) : q = p := by
  by_contra hne
  have hdir := lookup_above_file (fileAt_eq_some.mp hp) hqp hne
  rw [fileAt_eq_some.mp hq] at hdir
  cases hdir

/-- Where an entry was taken away, nothing stands. -/
theorem lookup_drop_append {p : List ν} {c : γ} {t : Forest ν γ} (h : t.lookup p = .file c)
    (r : List ν) : (t.drop p).lookup (p ++ r) = .missing := by
  induction p generalizing t with
  | nil => cases h
  | cons n p ih =>
    cases p with
    | nil => simp [drop, lookup_cons]
    | cons m p =>
      have hfile := not_file_of_not_blocked (t := t) (n := n) (m := m) (p := p) (by simp [h])
      rw [lookup_cons_sub hfile (by simp)] at h
      rw [drop, List.cons_append, lookup_cons, find?_set, if_pos rfl]
      exact ih h

/-- Elsewhere nothing changes when a file is taken away. -/
theorem lookup_drop_of_not_below {p q : List ν} {c : γ} {t : Forest ν γ}
    (h : t.lookup p = .file c) (hpq : ¬p <+: q) : (t.drop p).lookup q = t.lookup q := by
  induction p generalizing t q with
  | nil => cases h
  | cons n p ih =>
    cases q with
    | nil => rfl
    | cons k q =>
      -- the file is taken away below this directory, or below another one
      by_cases hnk : n = k
      · subst hnk
        have hpq' : ¬p <+: q := fun hpre => hpq (List.cons_prefix_cons.mpr ⟨rfl, hpre⟩)
        cases p with
        | nil => exact absurd List.nil_prefix hpq'
        | cons m p =>
          have hfile := not_file_of_not_blocked (t := t) (n := n) (m := m) (p := p) (by simp [h])
          have hdir : t.lookup [n] = .directory := lookup_above_file h
            (List.cons_prefix_cons.mpr ⟨rfl, List.nil_prefix⟩) (by simp)
          rw [lookup_cons_sub hfile (by simp)] at h
          rw [drop, lookup_cons, find?_set, if_pos rfl]
          cases q with
          | nil => exact hdir.symm
          | cons j q =>
            rw [lookup_cons_sub hfile (by simp)]
            exact ih h hpq'
      · cases p with
        | nil => rw [drop, lookup_cons, find?_erase, if_neg hnk, lookup_cons]
        | cons m p => rw [drop, lookup_cons, find?_set, if_neg hnk, lookup_cons]

/-! ### Distinct names -/

/-- No directory holds one name twice. -/
def Distinct : Forest ν γ → Prop
  | nil => True
  | file name _ rest => rest.find? name = none ∧ rest.Distinct
  | dir name children rest => rest.find? name = none ∧ children.Distinct ∧ rest.Distinct

/-- An entry that brings no name twice. -/
def EntryDistinct : Entry ν γ → Prop
  | .file _ => True
  | .dir children => children.Distinct

theorem distinct_cons {n : ν} {e : Entry ν γ} {t : Forest ν γ} :
    (cons n e t).Distinct ↔ t.find? n = none ∧ EntryDistinct e ∧ t.Distinct := by
  cases e with
  | file c => simp [cons, Distinct, EntryDistinct]
  | dir children => simp [cons, Distinct, EntryDistinct]

theorem Distinct.set {n : ν} {e : Entry ν γ} {t : Forest ν γ} (h : t.Distinct)
    (he : EntryDistinct e) : (t.set n e).Distinct := by
  induction t with
  | nil => exact distinct_cons.mpr ⟨rfl, he, trivial⟩
  | file k content rest ih =>
    obtain ⟨hk, hrest⟩ := h
    by_cases hkn : k = n
    · subst hkn
      rw [Forest.set, if_pos rfl]
      exact distinct_cons.mpr ⟨hk, he, hrest⟩
    · rw [Forest.set, if_neg hkn]
      exact ⟨by rw [find?_set, if_neg (Ne.symm hkn), hk], ih hrest⟩
  | dir k children rest _ ih =>
    obtain ⟨hk, hchildren, hrest⟩ := h
    by_cases hkn : k = n
    · subst hkn
      rw [Forest.set, if_pos rfl]
      exact distinct_cons.mpr ⟨hk, he, hrest⟩
    · rw [Forest.set, if_neg hkn]
      exact ⟨by rw [find?_set, if_neg (Ne.symm hkn), hk], hchildren, ih hrest⟩

theorem Distinct.erase {n : ν} {t : Forest ν γ} (h : t.Distinct) : (t.erase n).Distinct := by
  induction t with
  | nil => trivial
  | file k content rest ih =>
    obtain ⟨hk, hrest⟩ := h
    by_cases hkn : k = n
    · rw [Forest.erase, if_pos hkn]
      exact ih hrest
    · rw [Forest.erase, if_neg hkn]
      exact ⟨by rw [find?_erase, hk, ite_self], ih hrest⟩
  | dir k children rest _ ih =>
    obtain ⟨hk, hchildren, hrest⟩ := h
    by_cases hkn : k = n
    · rw [Forest.erase, if_pos hkn]
      exact ih hrest
    · rw [Forest.erase, if_neg hkn]
      exact ⟨by rw [find?_erase, hk, ite_self], hchildren, ih hrest⟩

theorem Distinct.sub {n : ν} {t : Forest ν γ} (h : t.Distinct) : (t.sub n).Distinct := by
  induction t with
  | nil => trivial
  | file k content rest ih =>
    by_cases hkn : k = n
    · simp [Forest.sub, find?, hkn, Distinct]
    · simpa [Forest.sub, find?, hkn] using ih h.2
  | dir k children rest _ ih =>
    by_cases hkn : k = n
    · simpa [Forest.sub, find?, hkn] using h.2.1
    · simpa [Forest.sub, find?, hkn] using ih h.2.2

theorem Distinct.place {p : List ν} {e : Entry ν γ} {t : Forest ν γ} (h : t.Distinct)
    (he : EntryDistinct e) : (t.place p e).Distinct := by
  induction p generalizing t with
  | nil => exact h
  | cons n p ih =>
    cases p with
    | nil => exact h.set he
    | cons m p => exact h.set (ih h.sub)

theorem Distinct.drop {p : List ν} {t : Forest ν γ} (h : t.Distinct) : (t.drop p).Distinct := by
  induction p generalizing t with
  | nil => exact h
  | cons n p ih =>
    cases p with
    | nil => exact h.erase
    | cons m p => exact h.set (ih h.sub)

/-! ### All files -/

/-- The paths of all files. -/
def files : Forest ν γ → List (List ν)
  | nil => []
  | file name _ rest => [name] :: rest.files
  | dir name children rest => children.files.map (name :: ·) ++ rest.files

/-- The first name of a listed path stands in the directory. -/
theorem find?_of_mem_files {t : Forest ν γ} {n : ν} {p : List ν} (h : n :: p ∈ t.files) :
    t.find? n ≠ none := by
  induction t with
  | nil => cases h
  | file k c rest ih =>
    by_cases hk : k = n
    · simp [find?, hk]
    · simp only [files, List.mem_cons, List.cons.injEq] at h
      rcases h with ⟨rfl, -⟩ | h
      · exact absurd rfl hk
      · simpa [find?, hk] using ih h
  | dir k children rest _ ih =>
    by_cases hk : k = n
    · simp [find?, hk]
    · simp only [files, List.mem_append, List.mem_map, List.cons.injEq] at h
      rcases h with ⟨_, _, rfl, -⟩ | h
      · exact absurd rfl hk
      · simpa [find?, hk] using ih h

/-- The listed paths are those of the files. -/
theorem mem_files {t : Forest ν γ} (ht : t.Distinct) {p : List ν} :
    p ∈ t.files ↔ ∃ c, t.fileAt p = some c := by
  simp only [fileAt_eq_some]
  induction t generalizing p with
  | nil => cases p <;> simp [files, lookup, find?]
  | file n content rest ih =>
    cases p with
    | nil => simp [lookup, files, ih ht.2]
    | cons k p =>
      by_cases hnk : n = k
      · subst hnk
        have hrest : n :: p ∉ rest.files := fun h => find?_of_mem_files h ht.1
        by_cases hp : p = [] <;> simp [files, lookup, find?, hp, hrest]
      · simp [files, lookup, find?, hnk, Ne.symm hnk, ih ht.2]
  | dir n children rest ihc ih =>
    cases p with
    | nil => simp [lookup, files, ih ht.2.2]
    | cons k p =>
      by_cases hnk : n = k
      · subst hnk
        have hrest : n :: p ∉ rest.files := fun h => find?_of_mem_files h ht.1
        simp [files, lookup, find?, hrest, ihc ht.2.1]
      · simp [files, lookup, find?, hnk, ih ht.2.2]

theorem files_nodup {t : Forest ν γ} (ht : t.Distinct) : t.files.Nodup := by
  induction t with
  | nil => exact List.nodup_nil
  | file n content rest ih =>
    exact List.nodup_cons.mpr ⟨fun h => find?_of_mem_files h ht.1, ih ht.2⟩
  | dir n children rest ihc ih =>
    refine List.nodup_append.mpr ⟨?_, ih ht.2.2, ?_⟩
    · exact (ihc ht.2.1).map fun a b h => (List.cons.inj h).2
    · rintro p hp q hq rfl
      obtain ⟨r, -, rfl⟩ := List.mem_map.mp hp
      exact find?_of_mem_files hq ht.1

/-! ### Directories as lists of entries -/

/-- The number of entries of a directory and all its sub-directories, and of their ends. -/
def size : Forest ν γ → ℕ
  | nil => 1
  | file _ _ rest => 1 + rest.size
  | dir _ children rest => 1 + children.size + rest.size

/-- The sub-directories among entries. -/
def entryDirs (entries : List (ν × Entry ν γ)) : List (ν × Forest ν γ) :=
  entries.filterMap fun entry =>
    match entry.2 with
    | .dir children => some (entry.1, children)
    | .file _ => none

/-- The names of the files among entries. -/
def entryFiles (entries : List (ν × Entry ν γ)) : List ν :=
  entries.filterMap fun entry =>
    match entry.2 with
    | .dir _ => none
    | .file _ => some entry.1

omit [DecidableEq ν] in
/-- The sub-directories of a directory are smaller than it, even together. -/
theorem size_entryDirs_lt (t : Forest ν γ) :
    ((entryDirs t.entries).map fun d => d.2.size).sum < t.size := by
  induction t with
  | nil => simp [entries, entryDirs, size]
  | file name content rest ih =>
    simp only [entries, entryDirs, List.filterMap_cons] at ih ⊢
    simp only [size]
    omega
  | dir name children rest _ ih =>
    simp only [entries, entryDirs, List.filterMap_cons, List.map_cons, List.sum_cons] at ih ⊢
    simp only [size]
    omega

omit [DecidableEq ν] in
/-- The files of a directory are its own and those of its sub-directories. -/
theorem files_perm_entries (t : Forest ν γ) :
    t.files.Perm ((entryFiles t.entries).map (fun name => [name]) ++
      (entryDirs t.entries).flatMap fun d => d.2.files.map (d.1 :: ·)) := by
  induction t with
  | nil => exact List.Perm.nil
  | file name content rest ih => exact ih.cons [name]
  | dir name children rest _ ih =>
    exact (ih.append_left _).trans (List.perm_append_comm_assoc _ _ _)

end Forest

open Forest

/-- A directory tree: no directory of it holds one name twice. -/
structure Tree (ν γ : Type) [DecidableEq ν] where
  root : Forest ν γ
  distinct : root.Distinct

namespace Tree

/-- The tree without files. -/
def empty : Tree ν γ := ⟨nil, trivial⟩

def fileAt (t : Tree ν γ) (p : List ν) : Option γ := t.root.fileAt p

def IsDir (t : Tree ν γ) (p : List ν) : Prop := t.root.IsDir p

/-- `create_dir_all`. -/
def makeDirs (p : List ν) (t : Tree ν γ) : Except Failure (Tree ν γ) :=
  match t.root.lookup p with
  | .missing => .ok ⟨t.root.place p (.dir nil), t.distinct.place trivial⟩
  | .directory => .ok t
  | .blocked => .error .blocked
  | .file _ => .error .occupied

/-- A new file, with the directories above it. -/
def create (p : List ν) (content : γ) (t : Tree ν γ) : Except Failure (Tree ν γ) :=
  match t.root.lookup p with
  | .missing => .ok ⟨t.root.place p (.file content), t.distinct.place trivial⟩
  | .blocked => .error .blocked
  | .file _ => .error .occupied
  | .directory => .error .occupied

/-- The removal of a file; the directories above it stay. -/
def remove (p : List ν) (t : Tree ν γ) : Except Failure (Tree ν γ) :=
  match t.root.lookup p with
  | .file _ => .ok ⟨t.root.drop p, t.distinct.drop⟩
  | .missing => .error .missing
  | .blocked => .error .blocked
  | .directory => .error .blocked

/-- The paths of all files. -/
def files (t : Tree ν γ) : List (List ν) := t.root.files

theorem mem_files {t : Tree ν γ} {p : List ν} : p ∈ t.files ↔ ∃ c, t.fileAt p = some c :=
  Forest.mem_files t.distinct

theorem files_nodup (t : Tree ν γ) : t.files.Nodup := Forest.files_nodup t.distinct

/-! ### The operations, path by path -/

variable {p : List ν} {c : γ} {t t' : Tree ν γ}

theorem create_ok (h : t.create p c = .ok t') :
    t.root.lookup p = .missing ∧ t'.root = t.root.place p (.file c) := by
  unfold create at h
  cases hl : t.root.lookup p <;> rw [hl] at h <;> cases h
  exact ⟨rfl, rfl⟩

theorem makeDirs_ok (h : t.makeDirs p = .ok t') :
    (t.root.lookup p = .missing ∧ t'.root = t.root.place p (.dir nil)) ∨ (t.IsDir p ∧ t' = t) := by
  unfold makeDirs at h
  cases hl : t.root.lookup p <;> rw [hl] at h <;> cases h
  · exact .inl ⟨rfl, rfl⟩
  · exact .inr ⟨hl, rfl⟩

theorem remove_ok (h : t.remove p = .ok t') :
    (∃ c, t.fileAt p = some c) ∧ t'.root = t.root.drop p := by
  unfold remove at h
  cases hl : t.root.lookup p <;> rw [hl] at h <;> cases h
  exact ⟨⟨_, fileAt_eq_some.mpr hl⟩, rfl⟩

/-- A file is created where no file stands at or above the path and no directory at it. -/
theorem exists_create (hfile : ∀ q, q <+: p → t.fileAt q = none) (hdir : ¬t.IsDir p) (c : γ) :
    ∃ t', t.create p c = .ok t' := by
  have hmissing : t.root.lookup p = .missing := missing_iff.mpr ⟨hfile, hdir⟩
  unfold create
  rw [hmissing]
  exact ⟨_, rfl⟩

/-- Directories are made where no file stands at or above the path. -/
theorem exists_makeDirs (hfile : ∀ q, q <+: p → t.fileAt q = none) :
    ∃ t', t.makeDirs p = .ok t' := by
  unfold makeDirs
  by_cases hdir : t.IsDir p
  · rw [show t.root.lookup p = .directory from hdir]
    exact ⟨_, rfl⟩
  · rw [missing_iff.mpr ⟨hfile, hdir⟩]
    exact ⟨_, rfl⟩

/-- A new file stands at its path, and no other file changes. -/
theorem fileAt_create (h : t.create p c = .ok t') (q : List ν) :
    t'.fileAt q = if q = p then some c else t.fileAt q := by
  obtain ⟨hmissing, hroot⟩ := create_ok h
  have hp := ne_nil_of_missing hmissing
  unfold fileAt
  rw [hroot]
  by_cases heq : q = p
  · subst heq
    have hplace := lookup_place_append hp [] (.file c) t.root
    rw [List.append_nil] at hplace
    rw [if_pos rfl, fileAt_eq_some, hplace]
    rfl
  · rw [if_neg heq]
    unfold Forest.fileAt
    by_cases hqp : q <+: p
    · rw [lookup_place_above hqp heq]
      rcases lookup_above_missing hmissing hqp with hq | hq <;> rw [hq]
    · by_cases hpq : p <+: q
      · rw [lookup_below_missing hmissing hpq]
        obtain ⟨r, rfl⟩ := hpq
        have hr : r ≠ [] := fun hr => heq (by rw [hr, List.append_nil])
        rw [lookup_place_append hp, entryLookup, if_neg hr]
      · rw [lookup_place_beside (by rw [hmissing]; simp) hqp hpq]

/-- The directories of a tree with one more file are the old ones and those above the file. -/
theorem isDir_create (h : t.create p c = .ok t') (q : List ν) :
    t'.IsDir q ↔ t.IsDir q ∨ (q <+: p ∧ q ≠ p) := by
  obtain ⟨hmissing, hroot⟩ := create_ok h
  have hp := ne_nil_of_missing hmissing
  unfold IsDir Forest.IsDir
  rw [hroot]
  by_cases hpq : p <+: q
  · have hno : ¬(q <+: p ∧ q ≠ p) := fun hq => hq.2 (hq.1.eq_of_length_le hpq.length_le)
    rw [lookup_below_missing hmissing hpq]
    obtain ⟨r, rfl⟩ := hpq
    rw [lookup_place_append hp, entryLookup]
    by_cases hr : r = [] <;> simp [hr]
    intro hpr
    have hlen := hpr.length_le
    rw [List.length_append] at hlen
    exact absurd (List.length_eq_zero_iff.mp (by omega)) hr
  · by_cases hqp : q <+: p
    · have hne : q ≠ p := fun heq => hpq (heq ▸ List.prefix_refl q)
      simp [lookup_place_above hqp hne, hqp, hne]
    · simp [lookup_place_beside (e := Entry.file c) (by rw [hmissing]; simp) hqp hpq, hqp]

/-- Making directories changes no file. -/
theorem fileAt_makeDirs (h : t.makeDirs p = .ok t') (q : List ν) : t'.fileAt q = t.fileAt q := by
  rcases makeDirs_ok h with ⟨hmissing, hroot⟩ | ⟨-, rfl⟩
  · have hp := ne_nil_of_missing hmissing
    unfold fileAt Forest.fileAt
    rw [hroot]
    by_cases hpq : p <+: q
    · rw [lookup_below_missing hmissing hpq]
      obtain ⟨r, rfl⟩ := hpq
      rw [lookup_place_append hp]
      cases r with
      | nil => rfl
      | cons m r => rfl
    · by_cases hqp : q <+: p
      · have hne : q ≠ p := fun heq => hpq (heq ▸ List.prefix_refl q)
        rw [lookup_place_above hqp hne]
        rcases lookup_above_missing hmissing hqp with hq | hq <;> rw [hq]
      · rw [lookup_place_beside (by rw [hmissing]; simp) hqp hpq]
  · rfl

theorem isDir_makeDirs (h : t.makeDirs p = .ok t') (q : List ν) :
    t'.IsDir q ↔ t.IsDir q ∨ q <+: p := by
  rcases makeDirs_ok h with ⟨hmissing, hroot⟩ | ⟨hdir, rfl⟩
  · have hp := ne_nil_of_missing hmissing
    unfold IsDir Forest.IsDir
    rw [hroot]
    -- below the new directory there is nothing yet
    by_cases hpq : p <+: q
    · rw [lookup_below_missing hmissing hpq]
      obtain ⟨r, rfl⟩ := hpq
      rw [lookup_place_append hp]
      cases r with
      | nil => simp [entryLookup, lookup]
      | cons m r =>
        have hno : ¬p ++ m :: r <+: p := fun hpr => by
          have hlen := hpr.length_le
          simp only [List.length_append, List.length_cons] at hlen
          omega
        simp [entryLookup, lookup, find?, hno]
    · by_cases hqp : q <+: p
      · have hne : q ≠ p := fun heq => hpq (heq ▸ List.prefix_refl q)
        simp [lookup_place_above hqp hne, hqp]
      · simp [lookup_place_beside (e := Entry.dir nil) (by rw [hmissing]; simp) hqp hpq, hqp]
  · constructor
    · exact .inl
    · rintro (hq | hq)
      · exact hq
      · exact isDir_of_prefix hdir hq

/-- A removed file is gone, and no other file changes. -/
theorem fileAt_remove (h : t.remove p = .ok t') (q : List ν) :
    t'.fileAt q = if q = p then none else t.fileAt q := by
  obtain ⟨⟨c, hc⟩, hroot⟩ := remove_ok h
  have hfile : t.root.lookup p = .file c := fileAt_eq_some.mp hc
  unfold fileAt
  rw [hroot]
  by_cases hpq : p <+: q
  · have hmissing : (t.root.drop p).fileAt q = none := by
      obtain ⟨r, rfl⟩ := hpq
      rw [Forest.fileAt, lookup_drop_append hfile]
    rw [hmissing]
    by_cases heq : q = p
    · rw [if_pos heq]
    · rw [if_neg heq]
      -- a file stood at `p`, so none stood below it
      rcases hq : t.root.fileAt q with _ | c'
      · rfl
      · exact absurd (eq_of_files hq hc hpq).symm heq
  · have hne : q ≠ p := fun heq => hpq (heq ▸ List.prefix_refl q)
    rw [if_neg hne, Forest.fileAt, Forest.fileAt, lookup_drop_of_not_below hfile hpq]

/-! ### One place of a tree -/

/-- The directories above a path at which nothing stands can be made, and nothing stands there
still. -/
theorem exists_parents (h : t.root.lookup p = .missing) :
    ∃ t', t.makeDirs p.dropLast = .ok t' ∧ t'.root.lookup p = .missing := by
  obtain ⟨hfile, hdir⟩ := missing_iff.mp h
  obtain ⟨t', hparents⟩ := exists_makeDirs fun q hq => hfile q (hq.trans (List.dropLast_prefix p))
  refine ⟨t', hparents, missing_iff.mpr ⟨fun q hq => ?_, fun hnew => ?_⟩⟩
  · exact (fileAt_makeDirs hparents q).trans (hfile q hq)
  · rcases (isDir_makeDirs hparents p).mp hnew with hold | hprefix
    · exact hdir hold
    · have hlen := hprefix.length_le
      rw [List.length_dropLast] at hlen
      have hpos := List.length_pos_iff.mpr (ne_nil_of_missing h)
      omega

/-- A file is stored wherever nothing stands at its path or in its way. -/
theorem exists_file (h : t.root.lookup p = .missing) (c : γ) :
    ∃ t', t.create p c = .ok t' ∧ t'.root.lookup p = .file c := by
  obtain ⟨hfile, hdir⟩ := missing_iff.mp h
  obtain ⟨t', hcreate⟩ := Tree.exists_create hfile hdir c
  exact ⟨t', hcreate, fileAt_eq_some.mp ((fileAt_create hcreate p).trans (if_pos rfl))⟩

/-- Directories made elsewhere do not free a path. -/
theorem missing_of_makeDirs {q : List ν} (h : t.makeDirs q = .ok t')
    (hp : t'.root.lookup p = .missing) : t.root.lookup p = .missing := by
  obtain ⟨hfile, hdir⟩ := missing_iff.mp hp
  refine missing_iff.mpr ⟨fun r hr => ?_, fun hold => hdir ?_⟩
  · exact (fileAt_makeDirs h r).symm.trans (hfile r hr)
  · exact (isDir_makeDirs h p).mpr (Or.inl hold)

/-- The directories above a file are there. -/
theorem makeDirs_of_file (h : t.root.lookup p = .file c) : t.makeDirs p.dropLast = .ok t := by
  have hne : p.dropLast ≠ p := by
    intro heq
    cases p with
    | nil => cases h
    | cons n p =>
      have hlen := congrArg List.length heq
      rw [List.length_dropLast, List.length_cons] at hlen
      omega
  rw [makeDirs, lookup_above_file h (List.dropLast_prefix p) hne]

theorem create_of_file (h : t.root.lookup p = .file c) (c' : γ) :
    t.create p c' = .error .occupied := by
  rw [create, h]

theorem exists_remove (h : t.root.lookup p = .file c) :
    ∃ t', t.remove p = .ok t' ∧ t'.root.lookup p = .missing := by
  have hdrop := lookup_drop_append h []
  rw [List.append_nil] at hdrop
  refine ⟨⟨t.root.drop p, t.distinct.drop⟩, ?_, hdrop⟩
  rw [remove, h]

theorem remove_of_missing (h : t.root.lookup p = .missing) : t.remove p = .error .missing := by
  rw [remove, h]

/-! ### Trees without empty directories -/

/-- Below every directory but the root stands a file. -/
def Populated (t : Tree ν γ) : Prop :=
  ∀ p, p ≠ [] → t.IsDir p → ∃ q c, p <+: q ∧ t.fileAt q = some c

theorem populated_empty : (empty : Tree ν γ).Populated := by
  intro p hp hdir
  cases p with
  | nil => exact absurd rfl hp
  | cons n p => cases hdir

/-- A file created in directories made for it leaves the tree populated. -/
theorem Populated.create {t₁ t₂ : Tree ν γ} (ht : t.Populated)
    (h₁ : t.makeDirs p.dropLast = .ok t₁) (h₂ : t₁.create p c = .ok t₂) : t₂.Populated := by
  intro q hq hdir
  have hcases : t.IsDir q ∨ q <+: p := by
    rcases (isDir_create h₂ q).mp hdir with hdir₁ | ⟨hqp, -⟩
    · rcases (isDir_makeDirs h₁ q).mp hdir₁ with hold | hqp
      · exact .inl hold
      · exact .inr (hqp.trans (List.dropLast_prefix p))
    · exact .inr hqp
  rcases hcases with hold | hqp
  · obtain ⟨r, c', hqr, hr⟩ := ht q hq hold
    have hr₁ : t₁.fileAt r = some c' := by rw [fileAt_makeDirs h₁, hr]
    have hne : r ≠ p := by
      rintro rfl
      have hmissing := (missing_iff.mp (create_ok h₂).1).1 r (List.prefix_refl r)
      rw [show t₁.root.fileAt r = some c' from hr₁] at hmissing
      cases hmissing
    exact ⟨r, c', hqr, by rw [fileAt_create h₂, if_neg hne, hr₁]⟩
  · exact ⟨p, c, hqp, by rw [fileAt_create h₂, if_pos rfl]⟩

/-- No file stands at, above or below a path. -/
def Free (t : Tree ν γ) (p : List ν) : Prop :=
  ∀ q c, t.fileAt q = some c → ¬q <+: p ∧ ¬p <+: q

/-- In a populated tree a file is created wherever its path is free. -/
theorem Populated.exists_create (ht : t.Populated) (hp : p ≠ []) (hfree : t.Free p) (c : γ) :
    ∃ t₁ t₂, t.makeDirs p.dropLast = .ok t₁ ∧ t₁.create p c = .ok t₂ := by
  have hnone : ∀ q, q <+: p → t.fileAt q = none := by
    intro q hqp
    rcases hq : t.fileAt q with _ | c'
    · rfl
    · exact absurd hqp (hfree q c' hq).1
  have hdir : ¬t.IsDir p := by
    intro hdir
    obtain ⟨q, c', hpq, hq⟩ := ht p hp hdir
    exact (hfree q c' hq).2 hpq
  obtain ⟨t₁, h₁, hmissing⟩ := exists_parents (missing_iff.mpr ⟨hnone, hdir⟩)
  obtain ⟨t₂, h₂, -⟩ := exists_file hmissing c
  exact ⟨t₁, t₂, h₁, h₂⟩

end Tree
end FileTree
