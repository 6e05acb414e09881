/-
What a reconciliation report says.

Every record and every stored key of the two inventories is looked at once, so each discrepancy is
in exactly one list of the report.  A record whose key is no storage key counts as one in whatever
state it is, and so do bytes that the storage itself describes wrongly.

* `Consistent` — the two inventories agree;
* `Broken` — the discrepancies at the record of a version;
* `inspectRecord_adds`, `inspectMetadata_adds` — what one record and what all of them add to a
  report;
* `reconciliation_law` — a report lists the discrepancies, each once, and is clean without any;
* `reconciliation_strict` — bytes that are as recorded do not make a report clean.
-/
import BlobYard.Server.Reconciliation

namespace BlobYard

namespace Reconciliation

open Outcome

/-! ### Agreement -/

/-- What the schema admits. -/
structure Admitted (records : List ObjectVersionRecord) : Prop where
  ids : (records.map ObjectVersionRecord.id).Nodup
  keys : (records.map ObjectVersionRecord.storageKey).Nodup
  paths : (records.map fun r => (r.projectId, r.objectPath, r.version)).Nodup
  versions : ∀ record ∈ records, 0 < record.version
  integrity : ∀ record ∈ records,
    (record.state = .complete ∧ record.size.isSome ∧ record.checksum.isSome) ∨
      record.state ≠ .complete ∧ record.size = none ∧ record.checksum = none
  sizes : ∀ record ∈ records, ∀ size ∈ record.size, size ≤ i64Max

/-- The record's key is a key of the storage. -/
def Physical (physicalKeys : List StorageKey) (record : ObjectVersionRecord) : Prop :=
  ∃ key ∈ physicalKeys, record.storageKey = key.asStr

/-- The bytes are there and are those recorded. -/
def Recorded [Digest] (storage : RuntimeStorage) (physicalKeys : List StorageKey)
    (record : ObjectVersionRecord) : Prop :=
  ∃ key ∈ physicalKeys, record.storageKey = key.asStr ∧ ∃ content metadata,
    Gives storage key content metadata ∧ Promises record ⟨content.length, sha256 content⟩

/-- The key belongs to a complete version. -/
def Complete (records : List ObjectVersionRecord) (key : StorageKey) : Prop :=
  ∃ record ∈ records, record.state = .complete ∧ record.storageKey = key.asStr

/-- The bytes are as recorded, and the storage describes them as they are. -/
def Intact [Digest] (storage : RuntimeStorage) (physicalKeys : List StorageKey)
    (record : ObjectVersionRecord) : Prop :=
  ∃ key ∈ physicalKeys, record.storageKey = key.asStr ∧ ∃ content,
    Gives storage key content ⟨content.length, sha256 content⟩ ∧
      Promises record ⟨content.length, sha256 content⟩

/-- The inventories agree, whatever the keys of other records and whatever the storage says about
its bytes. -/
def Agrees [Digest] (storage : RuntimeStorage) (records : List ObjectVersionRecord)
    (physicalKeys : List StorageKey) : Prop :=
  (∀ key ∈ physicalKeys, Complete records key) ∧
    ∀ record ∈ records, record.state = .complete → Recorded storage physicalKeys record

/-- They agree strictly. -/
def Consistent [Digest] (storage : RuntimeStorage) (records : List ObjectVersionRecord)
    (physicalKeys : List StorageKey) : Prop :=
  (∀ record ∈ records, ValidRelativePath record.storageKey 512) ∧
    (∀ key ∈ physicalKeys, Complete records key) ∧
    ∀ record ∈ records, record.state = .complete → Intact storage physicalKeys record

/-- The record of a version that is not complete, with an object all the same. -/
def Orphaned (physicalKeys : List StorageKey) (record : ObjectVersionRecord) : Prop :=
  record.state ≠ .complete ∧ Physical physicalKeys record

/-- A record that the inventories do not agree on. -/
def Broken [Digest] (storage : RuntimeStorage) (physicalKeys : List StorageKey)
    (record : ObjectVersionRecord) : Prop :=
  ¬ValidRelativePath record.storageKey 512 ∨
    (record.state = .complete ∧ ¬Intact storage physicalKeys record) ∨
    Orphaned physicalKeys record

/-! ### What a report says -/

namespace ReconciliationReport

/-- The versions that a report names, with their keys. -/
def findings (report : ReconciliationReport) : List (String × String) :=
  report.missingBytes.map (fun finding => (finding.versionId, finding.storageKey)) ++
    report.integrityDisagreements.map (fun finding => (finding.versionId, finding.storageKey)) ++
    report.orphanedObjects.map (fun finding => (finding.versionId, finding.storageKey)) ++
    report.invalidMetadata.map fun finding => (finding.versionId, finding.storageKey)

/-- The keys of objects that belong to a version which is not complete. -/
def orphans (report : ReconciliationReport) : List String :=
  report.orphanedObjects.map MetadataFinding.storageKey

/-- The keys of objects without a record. -/
def strays (report : ReconciliationReport) : List String :=
  report.missingMetadata.map PhysicalFinding.storageKey

end ReconciliationReport

/-- The report after adding findings about records; nothing is said about other keys. -/
structure Adds (report report' : ReconciliationReport) (findings : List (String × String))
    (orphans : List String) : Prop where
  findings : report'.findings.Perm (report.findings ++ findings)
  orphans : report'.orphans = report.orphans ++ orphans
  strays : report'.strays = report.strays

section Adding

variable {report report' report'' : ReconciliationReport}
  {findings findings' : List (String × String)} {orphans orphans' : List String}

theorem Adds.refl (report : ReconciliationReport) : Adds report report [] [] where
  findings := by rw [List.append_nil]
  orphans := (List.append_nil _).symm
  strays := rfl

theorem Adds.trans (h : Adds report report' findings orphans)
    (h' : Adds report' report'' findings' orphans') :
    Adds report report'' (findings ++ findings') (orphans ++ orphans') where
  findings := by
    rw [← List.append_assoc]
    exact h'.findings.trans (h.findings.append_right findings')
  orphans := by rw [h'.orphans, h.orphans, List.append_assoc]
  strays := h'.strays.trans h.strays

theorem adds_missingBytes (finding : MetadataFinding) :
    Adds report (report.addMissingBytes finding) [(finding.versionId, finding.storageKey)] [] where
  findings := by
    refine List.perm_iff_count.mpr fun entry => ?_
    simp only [ReconciliationReport.findings, ReconciliationReport.addMissingBytes, List.map_append,
      List.map_cons, List.map_nil, List.count_append]
    omega
  orphans := (List.append_nil _).symm
  strays := rfl

theorem adds_integrityDisagreement (finding : IntegrityFinding) :
    Adds report (report.addIntegrityDisagreement finding)
      [(finding.versionId, finding.storageKey)] [] where
  findings := by
    refine List.perm_iff_count.mpr fun entry => ?_
    simp only [ReconciliationReport.findings, ReconciliationReport.addIntegrityDisagreement,
      List.map_append, List.map_cons, List.map_nil, List.count_append]
    omega
  orphans := (List.append_nil _).symm
  strays := rfl

theorem adds_orphanedObject (finding : MetadataFinding) :
    Adds report (report.addOrphanedObject finding) [(finding.versionId, finding.storageKey)]
      [finding.storageKey] where
  findings := by
    refine List.perm_iff_count.mpr fun entry => ?_
    simp only [ReconciliationReport.findings, ReconciliationReport.addOrphanedObject,
      List.map_append, List.map_cons, List.map_nil, List.count_append]
    omega
  orphans := List.map_append
  strays := rfl

theorem adds_invalidMetadata (finding : MetadataFinding) :
    Adds report (report.addInvalidMetadata finding) [(finding.versionId, finding.storageKey)]
      [] where
  findings := by
    refine List.perm_iff_count.mpr fun entry => ?_
    simp only [ReconciliationReport.findings, ReconciliationReport.addInvalidMetadata,
      List.map_append, List.map_cons, List.map_nil, List.count_append]
    omega
  orphans := (List.append_nil _).symm
  strays := rfl

end Adding

/-! ### One record -/

section Records

variable {storage : RuntimeStorage} {physical : List StorageKey} {key : StorageKey}
  {record : ObjectVersionRecord}

theorem promises_unique {expected expected' : ObservedObject} (h : Promises record expected)
    (h' : Promises record expected') : expected = expected' := by
  obtain ⟨size, checksum⟩ := expected
  obtain ⟨size', checksum'⟩ := expected'
  have hsize : size = size' := Option.some.inj (h.1.symm.trans h'.1)
  have hchecksum : checksum.asStr = checksum'.asStr := Option.some.inj (h.2.symm.trans h'.2)
  cases checksum
  cases checksum'
  cases hsize
  cases hchecksum
  rfl

theorem physical_iff (hkey : record.storageKey = key.asStr) :
    Physical physical record ↔ key ∈ physical := by
  constructor
  · rintro ⟨key', hmem, hkey'⟩
    rwa [StorageKey.ext (hkey.symm.trans hkey')]
  · exact fun hmem => ⟨key, hmem, hkey⟩

variable [Digest]

/-- An object is intact when it is in the inventory and observed as the record promises. -/
theorem intact_iff (hkey : record.storageKey = key.asStr)
    (hsize : ∀ size ∈ record.size, size ≤ u64Max) :
    Intact storage physical record ↔
      key ∈ physical ∧
        ∃ expected, Promises record expected ∧ observe storage key = .ok expected := by
  constructor
  · rintro ⟨key', hmem, hkey', content, hgives, hpromise⟩
    obtain rfl : key = key' := StorageKey.ext (hkey.symm.trans hkey')
    have hfits : content.length ≤ u64Max := hsize _ hpromise.1
    exact ⟨hmem, _, hpromise, observe_eq_ok.mpr ⟨content, hgives, hfits, rfl⟩⟩
  · rintro ⟨hmem, expected, hpromise, hobserve⟩
    obtain ⟨content, hgives, -, rfl⟩ := observe_eq_ok.mp hobserve
    exact ⟨key, hmem, hkey, content, hgives, hpromise⟩

/-- A record that promises nothing, or whose bytes are not observed as it promises, is filed. -/
theorem inspectComplete_adds {expected : ObservedObject} {report report' : ReconciliationReport}
    (h : inspectComplete storage key record expected report = .ok report') :
    (observe storage key = .ok expected ∧ report' = report) ∨
      observe storage key ≠ .ok expected ∧
        Adds report report' [(record.id, record.storageKey)] [] := by
  rw [inspectComplete] at h
  -- what the storage answers is as expected, different, or an error
  cases hobserve : observe storage key with
  | ok actual =>
    rw [hobserve] at h
    by_cases heq : actual = expected
    · have hsame : report = report' := Except.ok.inj ((if_pos heq).symm.trans h)
      exact Or.inl ⟨congrArg Except.ok heq, hsame.symm⟩
    · obtain rfl := Except.ok.inj ((if_neg heq).symm.trans h)
      exact Or.inr ⟨fun hok => heq (Except.ok.inj hok), adds_integrityDisagreement _⟩
  | error error =>
    rw [hobserve] at h
    refine Or.inr ⟨nofun, ?_⟩
    cases error with
    | notFound =>
      obtain rfl := Except.ok.inj h
      exact adds_missingBytes _
    | integrityMismatch =>
      obtain rfl := Except.ok.inj h
      exact adds_integrityDisagreement _
    -- the other errors end the whole inspection
    | conflict => exact absurd h nofun
    | invalidInput => exact absurd h nofun
    | unavailable => exact absurd h nofun

/-- A complete record is broken when it is not intact. -/
theorem broken_iff (hkey : record.storageKey = key.asStr) (hstate : record.state = .complete) :
    Broken storage physical record ↔ ¬Intact storage physical record := by
  constructor
  · rintro (hinvalid | ⟨-, hintact⟩ | ⟨hnot, -⟩)
    · exact absurd (hkey ▸ key.valid) hinvalid
    · exact hintact
    · exact absurd hstate hnot
  · exact fun hintact => Or.inr (Or.inl ⟨hstate, hintact⟩)

/-- Any other one is broken when its key has an object. -/
theorem broken_iff_orphaned (hkey : record.storageKey = key.asStr)
    (hstate : record.state ≠ .complete) :
    Broken storage physical record ↔ Orphaned physical record := by
  constructor
  · rintro (hinvalid | ⟨hcomplete, -⟩ | horphaned)
    · exact absurd (hkey ▸ key.valid) hinvalid
    · exact absurd hcomplete hstate
    · exact horphaned
  · exact fun horphaned => Or.inr (Or.inr horphaned)

open scoped Classical in
/-- One record adds itself when it is broken, and its key when the key is an orphan. -/
theorem inspectRecord_adds {report report' : ReconciliationReport}
    (hkey : record.storageKey = key.asStr) (hsize : ∀ size ∈ record.size, size ≤ u64Max)
    (h : inspectRecord storage physical report (key, record) = .ok report') :
    Adds report report'
      (if Broken storage physical record then [(record.id, record.storageKey)] else [])
      (if Orphaned physical record then [record.storageKey] else []) := by
  rw [inspectRecord] at h
  by_cases hstate : record.state = .complete
  -- a record that is not complete: its key must not be in the storage
  case neg =>
    rw [if_pos hstate] at h
    obtain rfl := Except.ok.inj h
    rw [broken_iff_orphaned hkey hstate]
    by_cases hmem : key ∈ physical
    · have horphaned : Orphaned physical record := ⟨hstate, (physical_iff hkey).mpr hmem⟩
      rw [if_pos hmem, if_pos horphaned, if_pos horphaned]
      exact adds_orphanedObject _
    · have horphaned : ¬Orphaned physical record := fun h => hmem ((physical_iff hkey).mp h.2)
      rw [if_neg hmem, if_neg horphaned, if_neg horphaned]
      exact Adds.refl _
  -- a complete record: what it promises must be observed under its key
  case pos =>
    have horphaned : ¬Orphaned physical record := fun h => h.1 hstate
    rw [if_neg (not_not.mpr hstate)] at h
    rw [if_neg horphaned, broken_iff hkey hstate, intact_iff hkey hsize]
    -- its columns promise an observation, or they are invalid
    rcases expectedMetadata_cases record report with
      ⟨expected, hpromise, hexpected⟩ | ⟨hnone, hexpected⟩
    · simp only [hexpected] at h
      by_cases hmem : key ∈ physical
      · rw [if_neg (not_not.mpr hmem)] at h
        rcases inspectComplete_adds h with ⟨hobserve, rfl⟩ | ⟨hobserve, hadds⟩
        · rw [if_neg (not_not.mpr ⟨hmem, expected, hpromise, hobserve⟩)]
          exact Adds.refl _
        · rw [if_pos]
          · exact hadds
          · rintro ⟨-, expected', hpromise', hobserve'⟩
            rw [promises_unique hpromise hpromise'] at hobserve
            exact hobserve hobserve'
      · rw [if_pos hmem] at h
        -- without the key in the storage nothing can be observed
        obtain rfl := Except.ok.inj h
        rw [if_pos fun hin => hmem hin.1]
        exact adds_missingBytes _
    · simp only [hexpected] at h
      obtain rfl := Except.ok.inj h
      rw [if_pos fun ⟨_, expected, hpromise, _⟩ => hnone expected hpromise]
      exact adds_invalidMetadata _

end Records

/-! ### All records -/

/-- The entry of a record in the map of the keys. -/
def keyed (record : ObjectVersionRecord) : Option (StorageKey × ObjectVersionRecord) :=
  if h : ValidRelativePath record.storageKey 512 then some (⟨record.storageKey, h⟩, record)
  else none

theorem keyed_eq_some {record : ObjectVersionRecord} {entry : StorageKey × ObjectVersionRecord} :
    keyed record = some entry ↔ entry.2 = record ∧ record.storageKey = entry.1.asStr := by
  obtain ⟨key, record'⟩ := entry
  rw [keyed]
  constructor
  · intro h
    split at h
    · obtain ⟨rfl, rfl⟩ := Prod.mk.inj (Option.some.inj h)
      exact ⟨rfl, rfl⟩
    · exact absurd h nofun
  · rintro ⟨rfl, hkey⟩
    have hvalid : ValidRelativePath record'.storageKey 512 := hkey ▸ key.valid
    rw [dif_pos hvalid, Option.some.injEq, Prod.mk.injEq]
    exact ⟨StorageKey.ext hkey, rfl⟩

theorem map_keyed (records : List ObjectVersionRecord) :
    (records.filterMap keyed).map Prod.snd =
      records.filter fun record => ValidRelativePath record.storageKey 512 := by
  induction records with
  | nil => rfl
  | cons record records ih =>
    by_cases hvalid : ValidRelativePath record.storageKey 512
    · rw [List.filterMap_cons_some (by rw [keyed, dif_pos hvalid]), List.map_cons, ih,
        List.filter_cons_of_pos (by simpa using hvalid)]
    · rw [List.filterMap_cons_none (by rw [keyed, dif_neg hvalid]), ih,
        List.filter_cons_of_neg (by simpa using hvalid)]

/-- The loop makes the map of the records with safe keys and files the others. -/
theorem foldl_collectRecord (records : List ObjectVersionRecord)
    (found : List (StorageKey × ObjectVersionRecord) × ReconciliationReport) :
    (records.foldl collectRecord found).1 =
        (records.filterMap keyed).foldl (fun map entry => insertEntry entry.1 entry.2 map) found.1 ∧
      Adds found.2 (records.foldl collectRecord found).2
        ((records.filter fun record => ¬ValidRelativePath record.storageKey 512).map
          fun record => (record.id, record.storageKey)) [] := by
  induction records generalizing found with
  | nil => exact ⟨rfl, Adds.refl _⟩
  | cons record records ih =>
    obtain ⟨hmap, hadds⟩ := ih (collectRecord found record)
    rw [List.foldl_cons, hmap]
    -- a safe key goes into the map, any other key into the report
    by_cases hvalid : ValidRelativePath record.storageKey 512
    · have hcollect : collectRecord found record =
          (insertEntry ⟨record.storageKey, hvalid⟩ record found.1, found.2) := by
        rw [collectRecord, StorageKey.new, dif_pos hvalid]
      rw [List.filterMap_cons_some (by rw [keyed, dif_pos hvalid]), List.foldl_cons,
        List.filter_cons_of_neg (by simpa using hvalid)]
      rw [hcollect] at hadds ⊢
      exact ⟨rfl, hadds⟩
    · have hcollect : collectRecord found record =
          (found.1, found.2.addInvalidMetadata (.fromRecord record "unsafe_storage_key")) := by
        rw [collectRecord, StorageKey.new, dif_neg hvalid]
      rw [List.filterMap_cons_none (by rw [keyed, dif_neg hvalid]),
        List.filter_cons_of_pos (by simpa using hvalid)]
      rw [hcollect] at hadds ⊢
      exact ⟨rfl, (adds_invalidMetadata _).trans hadds⟩

theorem mem_keySet {keys : List StorageKey} {key : StorageKey} :
    key ∈ keySet keys ↔ key ∈ keys := by
  rw [keySet, mem_keys_fromEntries, List.map_map]
  exact Iff.of_eq (congrArg _ (List.map_id keys))

theorem orphaned_keySet (keys : List StorageKey) : Orphaned (keySet keys) = Orphaned keys := by
  funext record
  simp only [Orphaned, Physical, mem_keySet]

theorem nodup_keySet (keys : List StorageKey) : (keySet keys).Nodup :=
  (ordered_fromEntries _).nodup

/-- The loop over the stored keys files those that no record has. -/
theorem inspectPhysical_eq (metadata : List (StorageKey × ObjectVersionRecord))
    (physical : List StorageKey) (report : ReconciliationReport) :
    (inspectPhysical metadata physical report).findings = report.findings ∧
      (inspectPhysical metadata physical report).orphans = report.orphans ∧
      (inspectPhysical metadata physical report).strays = report.strays ++
        (physical.filter fun key => key ∉ metadata.map Prod.fst).map StorageKey.asStr := by
  induction physical generalizing report with
  | nil => exact ⟨rfl, rfl, (List.append_nil _).symm⟩
  | cons key physical ih =>
    rw [inspectPhysical, List.foldl_cons]
    by_cases hmem : key ∈ metadata.map Prod.fst
    · rw [if_neg (not_not.mpr hmem), List.filter_cons_of_neg (by simpa using hmem)]
      exact ih report
    · obtain ⟨hfindings, horphans, hstrays⟩ :=
        ih (report.addMissingMetadata { storageKey := key.asStr })
      rw [if_pos hmem, List.filter_cons_of_pos (by simpa using hmem)]
      refine ⟨hfindings, horphans, hstrays.trans ?_⟩
      rw [ReconciliationReport.strays, ReconciliationReport.addMissingMetadata, List.map_append,
        List.append_assoc]
      rfl

theorem clean_finish (report : ReconciliationReport) :
    report.finish.clean = true ↔ report.findings = [] ∧ report.strays = [] := by
  simp only [ReconciliationReport.finish, ReconciliationReport.findings,
    ReconciliationReport.strays, decide_eq_true_eq, ← List.length_eq_zero_iff,
    List.length_append, List.length_map]
  omega

/-- Different records have different keys, so the map has an entry for each. -/
theorem metadata_perm {records : List ObjectVersionRecord} (h : Admitted records) :
    (fromEntries (records.filterMap keyed)).Perm (records.filterMap keyed) := by
  have hkeys : ((records.filterMap keyed).map Prod.fst).map StorageKey.asStr =
      ((records.filterMap keyed).map Prod.snd).map ObjectVersionRecord.storageKey := by
    rw [List.map_map, List.map_map]
    refine List.map_congr_left fun entry hentry => ?_
    obtain ⟨record, -, hrecord⟩ := List.mem_filterMap.mp hentry
    obtain ⟨rfl, hkey⟩ := keyed_eq_some.mp hrecord
    exact hkey.symm
  have hsublist : (((records.filterMap keyed).map Prod.snd).map
      ObjectVersionRecord.storageKey).Sublist (records.map ObjectVersionRecord.storageKey) := by
    rw [map_keyed]
    exact List.filter_sublist.map _
  refine fromEntries_perm (List.Nodup.of_map StorageKey.asStr ?_)
  rw [hkeys]
  exact h.keys.sublist hsublist

section Runs

variable [Digest] {storage : RuntimeStorage} {physical : List StorageKey}

open scoped Classical in
/-- The loop files the broken records. -/
theorem inspectMetadata_adds {metadata : List (StorageKey × ObjectVersionRecord)}
    {report report' : ReconciliationReport}
    (hkeys : ∀ entry ∈ metadata, entry.2.storageKey = entry.1.asStr)
    (hsizes : ∀ entry ∈ metadata, ∀ size ∈ entry.2.size, size ≤ u64Max)
    (h : inspectMetadata storage metadata physical report = .ok report') :
    Adds report report'
      (((metadata.map Prod.snd).filter fun record => Broken storage physical record).map
        fun record => (record.id, record.storageKey))
      (((metadata.map Prod.snd).filter fun record => Orphaned physical record).map
        ObjectVersionRecord.storageKey) := by
  induction metadata generalizing report with
  | nil =>
    obtain rfl := Except.ok.inj h
    exact Adds.refl _
  | cons entry metadata ih =>
    rw [inspectMetadata, List.foldlM_cons] at h
    obtain ⟨middle, hfirst, hrest⟩ := bind_eq_ok.mp h
    have hstep := inspectRecord_adds (hkeys entry List.mem_cons_self)
      (hsizes entry List.mem_cons_self) hfirst
    have hrun := ih (fun e he => hkeys e (List.mem_cons_of_mem _ he))
      (fun e he => hsizes e (List.mem_cons_of_mem _ he)) hrest
    have hboth := hstep.trans hrun
    rw [List.map_cons]
    -- the record is counted in each list or not, in four cases
    by_cases hbroken : Broken storage physical entry.2
    all_goals by_cases horphaned : Orphaned physical entry.2
    all_goals simpa [hbroken, horphaned] using hboth

theorem broken_keySet (keys : List StorageKey) :
    Broken storage (keySet keys) = Broken storage keys := by
  funext record
  simp only [Broken, Intact, Orphaned, Physical, mem_keySet]

open scoped Classical in
/-- The records with unsafe keys and the broken ones among the others are the broken records. -/
theorem broken_perm {records : List ObjectVersionRecord} {keys : List StorageKey}
    {others : List ObjectVersionRecord}
    (h : others.Perm (records.filter fun record => ValidRelativePath record.storageKey 512)) :
    ((records.filter fun record => ¬ValidRelativePath record.storageKey 512) ++
        others.filter fun record => Broken storage keys record).Perm
      (records.filter fun record => Broken storage keys record) := by
  refine ((h.filter _).append_left _).trans (List.perm_append_comm.trans ?_)
  refine List.Perm.trans (List.Perm.of_eq ?_) (List.filter_append_perm
    (fun record => decide (ValidRelativePath record.storageKey 512)) _)
  rw [List.filter_filter, List.filter_filter, List.filter_filter]
  congr 1
  · exact List.filter_congr fun record _ => Bool.and_comm _ _
  · refine List.filter_congr fun record _ => ?_
    by_cases hvalid : ValidRelativePath record.storageKey 512
    · simp [hvalid]
    · have hbroken : Broken storage keys record := Or.inl hvalid
      simp [hvalid, hbroken]

open scoped Classical in
/-- What a report says. -/
structure Lists (storage : RuntimeStorage) (records : List ObjectVersionRecord)
    (physicalKeys : List StorageKey) (report : ReconciliationReport) : Prop where
  findings : report.findings.Perm
    ((records.filter fun record => Broken storage physicalKeys record).map
      fun record => (record.id, record.storageKey))
  orphans : ∀ text, text ∈ report.orphans ↔
    ∃ record ∈ records, Orphaned physicalKeys record ∧ record.storageKey = text
  strays : ∀ text, text ∈ report.strays ↔
    ∃ key ∈ physicalKeys, key.asStr = text ∧ ∀ record ∈ records, record.storageKey ≠ text
  nodup : report.strays.Nodup
  clean : report.clean = true ↔ report.findings = [] ∧ report.strays = []

theorem reconcile_lists {repository : ReconciliationRepository}
    {records : List ObjectVersionRecord} {physicalKeys : List StorageKey}
    {report : ReconciliationReport} (hadmitted : Admitted records)
    (hrecords : repository.listObjectVersions = .ok records)
    (hkeys : storage.listObjectKeys = .ok physicalKeys)
    (h : reconcile repository storage = .ok report) :
    Lists storage records physicalKeys report := by
  simp only [reconcile, hrecords, hkeys, bind_eq_ok, mapError_eq_ok, Except.ok.injEq, pure_eq_ok,
    exists_eq_left'] at h
  obtain ⟨schema, -, inspected, hrun, rfl⟩ := h
  obtain ⟨hmap, hcollect⟩ := foldl_collectRecord records
    ([], .new schema records.length physicalKeys.length)
  -- the two results of the first loop, and the map in the order of its keys
  generalize (records.foldl collectRecord
    ([], .new schema records.length physicalKeys.length)) = found at hrun hmap hcollect ⊢
  obtain ⟨metadata, collected⟩ := found
  obtain rfl : metadata = fromEntries (records.filterMap keyed) := hmap
  have hperm := metadata_perm hadmitted
  generalize fromEntries (records.filterMap keyed) = metadata at hrun hperm ⊢
  -- the records of the map are those with a safe key
  have hsnd : (metadata.map Prod.snd).Perm
      (records.filter fun record => ValidRelativePath record.storageKey 512) :=
    (hperm.map Prod.snd).trans (List.Perm.of_eq (map_keyed records))
  -- and each is under its own key
  have hentries : ∀ entry ∈ metadata, entry.2 ∈ records ∧
      entry.2.storageKey = entry.1.asStr := by
    intro entry hentry
    obtain ⟨record, hrecord, hkeyed⟩ := List.mem_filterMap.mp (hperm.mem_iff.mp hentry)
    obtain ⟨rfl, hkey⟩ := keyed_eq_some.mp hkeyed
    exact ⟨hrecord, hkey⟩
  have hsizes : ∀ entry ∈ metadata, ∀ size ∈ entry.2.size, size ≤ u64Max := by
    intro entry hentry size hsize
    have hbound := hadmitted.sizes entry.2 (hentries entry hentry).1 size hsize
    exact hbound.trans (by decide)
  have hinspect := inspectMetadata_adds (fun entry hentry => (hentries entry hentry).2) hsizes hrun
  rw [broken_keySet, orphaned_keySet] at hinspect
  have hadds := hcollect.trans hinspect
  -- the last loop only adds the keys that no record of the map has
  obtain ⟨hfindings, horphans, hstrays⟩ :=
    inspectPhysical_eq metadata (keySet physicalKeys) inspected
  have hstrays' : (inspectPhysical metadata (keySet physicalKeys) inspected).strays =
      ((keySet physicalKeys).filter fun key => key ∉ metadata.map Prod.fst).map
        StorageKey.asStr := by
    rw [hstrays, hadds.strays]
    rfl
  refine ⟨?_, fun text => ?_, fun text => ?_, ?_, ?_⟩
  -- the findings of the two loops together
  · refine (List.Perm.of_eq hfindings).trans (hadds.findings.trans ?_)
    rw [← List.map_append]
    exact (broken_perm hsnd).map _
  -- the orphans are the keys of records, and such a key is safe
  · have hmem := List.Perm.mem_iff (a := text) (List.Perm.of_eq (horphans.trans hadds.orphans))
    refine hmem.trans ?_
    simp only [List.nil_append, List.mem_append, List.mem_map, List.mem_filter, hsnd.mem_iff,
      decide_eq_true_eq]
    constructor
    · rintro (hnew | ⟨record, ⟨⟨hrecord, -⟩, horphaned⟩, rfl⟩)
      · exact absurd hnew List.not_mem_nil
      · exact ⟨record, hrecord, horphaned, rfl⟩
    · rintro ⟨record, hrecord, horphaned, rfl⟩
      obtain ⟨key, -, hkey⟩ := horphaned.2
      exact Or.inr ⟨record, ⟨⟨hrecord, hkey ▸ key.valid⟩, horphaned⟩, rfl⟩
  -- the strays are the physical keys without a record
  · refine (List.Perm.mem_iff (List.Perm.of_eq hstrays')).trans ?_
    simp only [List.mem_map, List.mem_filter, mem_keySet, decide_eq_true_eq]
    constructor
    · rintro ⟨key, ⟨hkey, hnone⟩, rfl⟩
      refine ⟨key, hkey, rfl, fun record hrecord hsame => hnone ?_⟩
      exact ⟨(key, record), hperm.mem_iff.mpr (List.mem_filterMap.mpr
        ⟨record, hrecord, keyed_eq_some.mpr ⟨rfl, hsame⟩⟩), rfl⟩
    · rintro ⟨key, hkey, rfl, hnone⟩
      refine ⟨key, ⟨hkey, ?_⟩, rfl⟩
      rintro ⟨entry, hentry, rfl⟩
      exact hnone entry.2 (hentries entry hentry).1 (hentries entry hentry).2
  · refine (List.Perm.nodup_iff (List.Perm.of_eq hstrays')).mpr ?_
    exact ((nodup_keySet physicalKeys).filter _).map fun _ _ => StorageKey.ext
  · exact clean_finish _

end Runs

/-! ### The law -/

section Law

variable [Digest] {storage : RuntimeStorage} {records : List ObjectVersionRecord}
  {physicalKeys : List StorageKey} {report : ReconciliationReport}

theorem Lists.mem_findings (h : Lists storage records physicalKeys report) {id text : String} :
    (id, text) ∈ report.findings ↔ ∃ record ∈ records, record.id = id ∧
      record.storageKey = text ∧ Broken storage physicalKeys record := by
  classical
  rw [h.findings.mem_iff]
  simp only [List.mem_map, List.mem_filter, decide_eq_true_eq, Prod.mk.injEq]
  constructor
  · rintro ⟨record, ⟨hrecord, hbroken⟩, hid, htext⟩
    exact ⟨record, hrecord, hid, htext, hbroken⟩
  · rintro ⟨record, hrecord, hid, htext, hbroken⟩
    exact ⟨record, ⟨hrecord, hbroken⟩, hid, htext⟩

/-- An object whose key is not the key of a complete version is an orphan or a stray. -/
theorem Lists.not_complete (h : Lists storage records physicalKeys report)
    (hadmitted : Admitted records) {key : StorageKey} (hkey : key ∈ physicalKeys) :
    ¬Complete records key ↔ key.asStr ∈ report.orphans ++ report.strays := by
  rw [List.mem_append, h.orphans, h.strays]
  constructor
  · intro hnot
    by_cases howner : ∃ record ∈ records, record.storageKey = key.asStr
    · obtain ⟨record, hrecord, hsame⟩ := howner
      exact Or.inl ⟨record, hrecord,
        ⟨fun hstate => hnot ⟨record, hrecord, hstate, hsame⟩, key, hkey, hsame⟩, hsame⟩
    · exact Or.inr ⟨key, hkey, rfl, fun record hrecord hsame => howner ⟨record, hrecord, hsame⟩⟩
  · rintro (⟨record, hrecord, ⟨hstate, -⟩, hsame⟩ | ⟨-, -, -, hnone⟩)
      ⟨record', hrecord', hstate', hsame'⟩
    · have heq : record = record' :=
        List.inj_on_of_nodup_map hadmitted.keys hrecord hrecord' (hsame.trans hsame'.symm)
      exact hstate (heq ▸ hstate')
    · exact hnone record' hrecord' hsame'

/-- The inventories agree when nothing is broken and nothing is an orphan or a stray. -/
theorem Lists.consistent_iff (h : Lists storage records physicalKeys report)
    (hadmitted : Admitted records) :
    report.clean = true ↔ Consistent storage records physicalKeys := by
  rw [h.clean, List.eq_nil_iff_forall_not_mem, List.eq_nil_iff_forall_not_mem]
  constructor
  · rintro ⟨hfindings, hstrays⟩
    -- nothing found means that no record is broken
    have hsound : ∀ record ∈ records, ¬Broken storage physicalKeys record :=
      fun record hrecord hbroken => hfindings (record.id, record.storageKey)
        (h.mem_findings.mpr ⟨record, hrecord, rfl, rfl, hbroken⟩)
    refine ⟨fun record hrecord => ?_, fun key hkey => ?_, fun record hrecord hstate => ?_⟩
    · exact not_not.mp fun hinvalid => hsound record hrecord (Or.inl hinvalid)
    · refine not_not.mp fun hnot => ?_
      rcases List.mem_append.mp ((h.not_complete hadmitted hkey).mp hnot) with horphan | hstray
      · obtain ⟨record, hrecord, horphaned, -⟩ := (h.orphans _).mp horphan
        exact hsound record hrecord (Or.inr (Or.inr horphaned))
      · exact hstrays _ hstray
    · exact not_not.mp fun hbad => hsound record hrecord (Or.inr (Or.inl ⟨hstate, hbad⟩))
  · rintro ⟨hvalid, hcomplete, hintact⟩
    -- conversely each physical key has its complete record
    have hnone : ∀ key ∈ physicalKeys, key.asStr ∉ report.orphans ++ report.strays :=
      fun key hkey hmem => (h.not_complete hadmitted hkey).mpr hmem (hcomplete key hkey)
    constructor
    · rintro ⟨id, text⟩ hmem
      obtain ⟨record, hrecord, -, -, hinvalid | ⟨hstate, hbad⟩ | horphaned⟩ :=
        h.mem_findings.mp hmem
      · exact hinvalid (hvalid record hrecord)
      · exact hbad (hintact record hrecord hstate)
      · obtain ⟨key, hkey, hsame⟩ := horphaned.2
        exact hnone key hkey (List.mem_append_left _
          ((h.orphans _).mpr ⟨record, hrecord, horphaned, hsame⟩))
    · intro text hmem
      obtain ⟨key, hkey, rfl, -⟩ := (h.strays text).mp hmem
      exact hnone key hkey (List.mem_append_right _ hmem)

/-- The versions named by a report are different ones. -/
theorem Lists.nodup_ids (h : Lists storage records physicalKeys report)
    (hadmitted : Admitted records) : (report.findings.map Prod.fst).Nodup := by
  classical
  refine (h.findings.map Prod.fst).nodup_iff.mpr ?_
  rw [List.map_map]
  exact hadmitted.ids.sublist (List.filter_sublist.map _)

/-- And so are the keys. -/
theorem Lists.nodup_keys (h : Lists storage records physicalKeys report)
    (hadmitted : Admitted records) :
    (report.findings.map Prod.snd ++ report.strays).Nodup := by
  classical
  refine List.Nodup.append ?_ h.nodup ?_
  · refine (h.findings.map Prod.snd).nodup_iff.mpr ?_
    rw [List.map_map]
    exact hadmitted.keys.sublist (List.filter_sublist.map _)
  · intro text hfinding hstray
    obtain ⟨⟨id, text'⟩, hmem, rfl⟩ := List.mem_map.mp hfinding
    obtain ⟨record, hrecord, -, hsame, -⟩ := h.mem_findings.mp hmem
    obtain ⟨-, -, -, hnone⟩ := (h.strays _).mp hstray
    exact hnone record hrecord hsame

/-- **What a reconciliation report says.**  For all records that the schema admits and all keys of
the storage, a report is clean exactly when every record has a safe key, every stored key is the key
of a complete version and the bytes of every complete version are as recorded and as the storage
describes them.  Otherwise its lists name exactly the records and the stored keys that break this,
and no version and no key twice. -/
theorem reconciliation_law {repository : ReconciliationRepository} (hadmitted : Admitted records)
    (hrecords : repository.listObjectVersions = .ok records)
    (hkeys : storage.listObjectKeys = .ok physicalKeys)
    (h : reconcile repository storage = .ok report) :
    (report.clean = true ↔ Consistent storage records physicalKeys) ∧
      (∀ id text, (id, text) ∈ report.findings ↔ ∃ record ∈ records, record.id = id ∧
        record.storageKey = text ∧ Broken storage physicalKeys record) ∧
      (∀ text, text ∈ report.strays ↔ ∃ key ∈ physicalKeys, key.asStr = text ∧
        ∀ record ∈ records, record.storageKey ≠ text) ∧
      (∀ key ∈ physicalKeys, ¬Complete records key ↔
        key.asStr ∈ report.orphans ++ report.strays) ∧
      (report.findings.map Prod.fst).Nodup ∧
      (report.findings.map Prod.snd ++ report.strays).Nodup := by
  have hlists := reconcile_lists hadmitted hrecords hkeys h
  exact ⟨hlists.consistent_iff hadmitted, fun _ _ => hlists.mem_findings, hlists.strays,
    fun _ => hlists.not_complete hadmitted, hlists.nodup_ids hadmitted, hlists.nodup_keys hadmitted⟩

end Law

/-! ### One record of each kind -/

attribute [local instance] abcDigest

/-- A version whose bytes are `abc` if it is complete. -/
def abcRecord (id storageKey : String) (state : UploadState) : ObjectVersionRecord where
  id := id
  projectId := "project"
  objectPath := id
  version := 1
  storageKey := storageKey
  state := state
  size := if state = .complete then some 3 else none
  checksum := if state = .complete then some (sha256 abc).asStr else none
  createdAtMs := 0
  source := .cli
  gitRepository := none
  gitCommit := none
  gitBranch := none

/-- One version as recorded, one without its bytes, one with other bytes, one that is pending with
bytes, one with an unsafe key, and one that was aborted. -/
def mixedRecords : List ObjectVersionRecord :=
  [abcRecord "kept" "versions/kept" .complete, abcRecord "lost" "versions/lost" .complete,
   abcRecord "emptied" "versions/emptied" .complete, abcRecord "early" "versions/early" .pending,
   abcRecord "unsafe" "../unsafe" .pending, abcRecord "aborted" "versions/aborted" .aborted]

def mixedRepository : ReconciliationRepository where
  schemaVersion := .ok 15
  listObjectVersions := .ok mixedRecords

def keptKey : StorageKey := ⟨"versions/kept", by decide⟩

def emptiedKey : StorageKey := ⟨"versions/emptied", by decide⟩

def earlyKey : StorageKey := ⟨"versions/early", by decide⟩

def strayKey : StorageKey := ⟨"versions/stray", by decide⟩

/-- The storage of these, with an object of no version; one object is empty. -/
def mixedStorage : RuntimeStorage where
  listObjectKeys := .ok [keptKey, emptiedKey, earlyKey, strayKey]
  get key :=
    if key = emptiedKey then .ok ⟨⟨0, sha256 []⟩, []⟩
    else if key ∈ [keptKey, earlyKey, strayKey] then .ok ⟨⟨3, sha256 abc⟩, [.bytes abc]⟩
    else .error .notFound

theorem mixedRecords_admitted : Admitted mixedRecords where
  ids := by decide
  keys := by decide
  paths := by decide
  versions := by decide
  integrity := by decide
  sizes := by decide

/-- Each of them is in its list. -/
theorem reconciliation_mixed :
    ∃ report, reconcile mixedRepository mixedStorage = .ok report ∧
      (report.missingBytes.map MetadataFinding.versionId = ["lost"] ∧
        report.integrityDisagreements.map IntegrityFinding.versionId = ["emptied"] ∧
        report.orphanedObjects.map MetadataFinding.versionId = ["early"] ∧
        report.invalidMetadata.map MetadataFinding.versionId = ["unsafe"] ∧
        report.missingMetadata.map PhysicalFinding.storageKey = ["versions/stray"]) ∧
      (report.clean = true ↔
        Consistent mixedStorage mixedRecords [keptKey, emptiedKey, earlyKey, strayKey]) ∧
      (∀ id text, (id, text) ∈ report.findings ↔ ∃ record ∈ mixedRecords, record.id = id ∧
        record.storageKey = text ∧
          Broken mixedStorage [keptKey, emptiedKey, earlyKey, strayKey] record) := by
  -- the report is evaluated once; `clean` and `findings` then follow from the law
  have hlists : (reconcile mixedRepository mixedStorage).toOption.map (fun report =>
      (report.missingBytes.map MetadataFinding.versionId,
        report.integrityDisagreements.map IntegrityFinding.versionId,
        report.orphanedObjects.map MetadataFinding.versionId,
        report.invalidMetadata.map MetadataFinding.versionId,
        report.missingMetadata.map PhysicalFinding.storageKey)) =
      some (["lost"], ["emptied"], ["early"], ["unsafe"], ["versions/stray"]) := by
    decide +kernel
  cases h : reconcile mixedRepository mixedStorage with
  | error e =>
    rw [h] at hlists
    cases hlists
  | ok report =>
    rw [h] at hlists
    simp only [Except.toOption, Option.map_some, Option.some.injEq, Prod.mk.injEq] at hlists
    obtain ⟨hclean, hfindings, -⟩ := reconciliation_law mixedRecords_admitted rfl rfl h
    exact ⟨report, rfl, hlists, hclean, hfindings⟩

/-! ### Bytes that are as recorded -/

/-- A pending version with an unsafe key, and a complete version without bytes. -/
def sampleRecord (id storageKey : String) (state : UploadState) : ObjectVersionRecord where
  id := id
  projectId := "project"
  objectPath := "object.bin"
  version := 1
  storageKey := storageKey
  state := state
  size := if state = .complete then some 0 else none
  checksum := if state = .complete then some (sha256 []).asStr else none
  createdAtMs := 0
  source := .cli
  gitRepository := none
  gitCommit := none
  gitBranch := none

def sampleRepository (record : ObjectVersionRecord) : ReconciliationRepository where
  schemaVersion := .ok 15
  listObjectVersions := .ok [record]

def sampleKey : StorageKey where
  asStr := "object-key"
  valid := by decide

/-- A storage of empty objects with the same metadata. -/
def sampleStorage (keys : List StorageKey) (size : ℕ) : RuntimeStorage where
  listObjectKeys := .ok keys
  get key := if key ∈ keys then .ok ⟨⟨size, sha256 []⟩, []⟩ else .error .notFound

theorem sampleRecord_admitted (id storageKey : String) (state : UploadState) :
    Admitted [sampleRecord id storageKey state] where
  ids := List.nodup_singleton _
  keys := List.nodup_singleton _
  paths := List.nodup_singleton _
  versions := by
    intro record hrecord
    obtain rfl := List.mem_singleton.mp hrecord
    exact Nat.one_pos
  integrity := by
    intro record hrecord
    obtain rfl := List.mem_singleton.mp hrecord
    cases state
    case complete => exact Or.inl ⟨rfl, rfl, rfl⟩
    all_goals exact Or.inr ⟨nofun, rfl, rfl⟩
  sizes := by
    intro record hrecord size hsize
    obtain rfl := List.mem_singleton.mp hrecord
    cases state
    case complete => exact Option.some.inj hsize ▸ Nat.zero_le _
    all_goals exact absurd hsize nofun

/-- Bytes that are as recorded do not make a report clean: neither when the key of a pending version
is unsafe nor when the storage describes the bytes wrongly. -/
theorem reconciliation_strict :
    (Admitted [sampleRecord "version" "../unsafe" .pending] ∧
      Agrees (sampleStorage [] 0) [sampleRecord "version" "../unsafe" .pending] [] ∧
      (reconcile (sampleRepository (sampleRecord "version" "../unsafe" .pending))
        (sampleStorage [] 0)).toOption.map ReconciliationReport.clean = some false) ∧
    Admitted [sampleRecord "version" "object-key" .complete] ∧
      Agrees (sampleStorage [sampleKey] 4) [sampleRecord "version" "object-key" .complete]
        [sampleKey] ∧
      (reconcile (sampleRepository (sampleRecord "version" "object-key" .complete))
        (sampleStorage [sampleKey] 4)).toOption.map ReconciliationReport.clean = some false := by
  refine ⟨⟨sampleRecord_admitted _ _ _, ⟨nofun, ?_⟩, by decide⟩, sampleRecord_admitted _ _ _,
    ⟨?_, ?_⟩, by decide⟩
  · intro record hrecord hstate
    obtain rfl := List.mem_singleton.mp hrecord
    exact absurd hstate nofun
  · intro key hkey
    obtain rfl := List.mem_singleton.mp hkey
    exact ⟨_, List.mem_singleton_self _, rfl, rfl⟩
  · intro record hrecord _
    obtain rfl := List.mem_singleton.mp hrecord
    exact ⟨sampleKey, List.mem_singleton_self _, rfl, [], ⟨4, sha256 []⟩,
      ⟨⟨⟨4, sha256 []⟩, []⟩, rfl, rfl, rfl⟩, rfl, rfl⟩

end Reconciliation

end BlobYard
