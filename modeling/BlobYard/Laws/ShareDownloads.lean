/-
Share downloads.

Every grant that a share gives out is entered in a ledger next to the repository.  The counter of
the share agrees with the ledger in every state, whatever happens to the object behind it.

* `DropsVersion`, `sharesStep_of_run` — deletions take the version away from a share and nothing
  else;
* `Accounts.step` — a step keeps the books in order;
* `share_law` — what holds over runs.
-/
import BlobYard.Lib.Run
import BlobYard.Repository.Requests
import BlobYard.Repository.Sharing

namespace BlobYard

open Outcome Repository

namespace ShareDownloads

/-! ### Deletions -/

section Deletions

variable {s s' : Repository}

/-- The rewriting may take the version away from a share, and does nothing else. -/
def DropsVersion (f : ShareRow → ShareRow) : Prop :=
  ∀ row, f row = row ∨ f row = { row with share := { row.share with versionId := none } }

/-- The shares of `s'` are those of `s`, but for versions taken away. -/
def SameShares (s s' : Repository) : Prop :=
  ∃ f, s.shares.Mapped s'.shares f ∧ DropsVersion f

theorem SameShares.refl (s : Repository) : SameShares s s :=
  ⟨id, Table.Mapped.refl _, fun _ => Or.inl rfl⟩

theorem SameShares.of_eq (h : s'.shares = s.shares) : SameShares s s' :=
  ⟨id, h ▸ Table.Mapped.refl _, fun _ => Or.inl rfl⟩

theorem SameShares.trans {s'' : Repository} (h : SameShares s s') (h' : SameShares s' s'') :
    SameShares s s'' := by
  obtain ⟨f, hf, hdrops⟩ := h
  obtain ⟨g, hg, hdrops'⟩ := h'
  refine ⟨fun row => g (f row), hf.trans hg, fun row => ?_⟩
  rcases hdrops row with hrow | hrow <;> rcases hdrops' (f row) with hrow' | hrow'
  · exact Or.inl (hrow'.trans hrow)
  · exact Or.inr (hrow'.trans (by rw [hrow]))
  · exact Or.inr (hrow'.trans hrow)
  · exact Or.inr (hrow'.trans (by rw [hrow]))

theorem deleteVersions_shares (s : Repository) (p : ObjectVersionRecord → Prop)
    [DecidablePred p] : SameShares s (s.deleteVersions p) := by
  refine ⟨_, Table.mapped_update, fun row => ?_⟩
  split
  · exact Or.inr rfl
  · exact Or.inl rfl

theorem deleteSelectedMetadata_shares (s : Repository) (o : DeletionOperationRow) :
    SameShares s (s.deleteSelectedMetadata o) := by
  have hplanned : ∀ (ids : List String) (t : Repository),
      SameShares t (ids.foldl deleteVersionMetadata t) := by
    intro ids
    induction ids with
    | nil => exact SameShares.refl
    | cons id ids ih =>
      intro t
      rw [List.foldl_cons]
      have hone : SameShares t (t.deleteVersionMetadata id) :=
        (SameShares.of_eq rfl).trans (deleteVersions_shares _ _)
      exact hone.trans (ih _)
  unfold deleteSelectedMetadata
  by_cases hreason : o.reason = .objectDelete
  · rw [if_pos hreason]
    have haborted : ∀ t : Repository, SameShares t (t.deleteAbortedTarget o) :=
      fun t => (SameShares.of_eq rfl).trans (deleteVersions_shares _ _)
    exact (hplanned _ s).trans (haborted _)
  · rw [if_neg hreason]
    exact hplanned _ s

theorem finishDeletion_shares {operationId : String} {completedAtMs : ℕ} {event : NewAuditEvent}
    (h : s.finishDeletion operationId completedAtMs event = .ok s') : SameShares s s' := by
  simp only [finishDeletion, bind_eq_ok] at h
  obtain ⟨-, -, -, -, o, -, h⟩ := h
  split at h
  · obtain rfl := pure_eq_ok.mp h
    exact SameShares.refl s
  · simp only [bind_eq_ok] at h
    obtain ⟨-, -, h⟩ := h
    obtain ⟨auditEvents, rfl⟩ := insertAudit_spec h
    obtain ⟨runs, hruns⟩ := completeRun_spec
      ((s.deleteSelectedMetadata o).completeOperation operationId completedAtMs) o completedAtMs
    rw [hruns]
    exact (deleteSelectedMetadata_shares s o).trans (SameShares.of_eq rfl)

/-- A request on plans does no more to the shares. -/
theorem sameShares_of_run {request : DeletionRequest} (h : request.run s = .ok s') :
    SameShares s s' := by
  cases request with
  -- a plan is about objects, not about shares
  | beginObjectDeletion value =>
    obtain ⟨⟨_, _⟩, hrun, rfl⟩ := map_eq_ok.mp h
    rcases beginObjectDeletion_spec hrun with rfl | ⟨_, _, _, rfl, -⟩
    · exact SameShares.refl _
    · exact SameShares.of_eq rfl
  | beginRetention projectId runId actor requestId startedAtMs =>
    obtain ⟨⟨_, _⟩, hrun, rfl⟩ := map_eq_ok.mp h
    rcases beginRetention_spec hrun with ⟨_, rfl⟩ | ⟨_, _, _, _, _, rfl, -⟩
    · exact SameShares.of_eq rfl
    · exact SameShares.of_eq rfl
  | planYardCleanup deployId createdAtMs =>
    rcases planYardCleanup_spec h with rfl | ⟨_, _, _, _, rfl, -⟩
    · exact SameShares.refl _
    · exact SameShares.of_eq rfl
  -- the versions that go take their shares with them
  | finishDeletion operationId completedAtMs event => exact finishDeletion_shares h
  | setRetention policy event =>
    obtain ⟨_, _, rfl⟩ := setRetention_frame h
    exact SameShares.of_eq rfl
  | clearRetention projectId updatedAtMs event =>
    obtain ⟨⟨_, _⟩, hrun, rfl⟩ := map_eq_ok.mp h
    obtain ⟨_, _, rfl⟩ := clearRetention_frame hrun
    exact SameShares.of_eq rfl
  | failRetention runId completedAtMs =>
    obtain ⟨_, rfl⟩ := failRetention_frame h
    exact SameShares.of_eq rfl

end Deletions

/-! ### Requests and runs -/

/-- A grant that a share gave out. -/
structure LedgerEntry where
  shareId : String
  grant : NewDownloadGrant

/-- The repository, and the grants given out so far. -/
structure Books where
  repository : Repository
  issued : List LedgerEntry

/-- The requests on shares, the requests on plans, or any change of the tables that hold no
shares. -/
inductive Request where
  | createShare (share : NewShare) (event : NewAuditEvent)
  | issueShareDownload (capabilityHash : String) (nowMs : ℕ) (grant : NewDownloadGrant)
    (event : NewAuditEvent)
  | revokeShare (shareId workspaceId : String) (revokedAtMs : ℕ) (event : NewAuditEvent)
  | deletion (request : DeletionRequest)
  | environment (other : Repository)

/-- Executes a request; one that fails changes nothing, and a grant that is given out is entered in
the ledger. -/
def exec (b : Books) : Request → Books
  | .createShare share event =>
    match b.repository.createShare share event with
    | .ok (_, s') => { b with repository := s' }
    | .error _ => b
  | .issueShareDownload capabilityHash nowMs grant event =>
    match b.repository.issueShareDownload capabilityHash nowMs grant event with
    | .ok (target, s') =>
      { repository := s', issued := { shareId := target.share.id, grant } :: b.issued }
    | .error _ => b
  | .revokeShare shareId workspaceId revokedAtMs event =>
    match b.repository.revokeShare shareId workspaceId revokedAtMs event with
    | .ok (_, s') => { b with repository := s' }
    | .error _ => b
  | .deletion request =>
    match request.run b.repository with
    | .ok s' => { b with repository := s' }
    | .error _ => b
  | .environment other => { b with repository := { other with shares := b.repository.shares } }

/-- Requests in any order, from an empty repository and an empty ledger. -/
def system : System Books Request where
  init := ⟨Repository.empty, []⟩
  step b request b' := b' = exec b request

/-! ### The books are in order -/

/-- The number of grants that a share gave out. -/
def issuedOf (issued : List LedgerEntry) (shareId : String) : ℕ :=
  issued.countP fun entry => decide (entry.shareId = shareId)

/-- A share that agrees with the ledger. -/
structure Balanced (issued : List LedgerEntry) (share : ShareRecord) : Prop where
  consumed : issuedOf issued share.id = share.consumedCount
  bounded : ∀ maximum ∈ share.maximumDownloads, share.consumedCount ≤ maximum
  exhausted : share.status ≠ .revoked →
    (share.status = .exhausted ↔ share.maximumDownloads = some share.consumedCount)
  within : ∀ entry ∈ issued, entry.shareId = share.id →
    entry.grant.expiresAtMs ≤ share.expiresAtMs

structure Accounts (b : Books) : Prop where
  balanced : ∀ row ∈ b.repository.shares, Balanced b.issued row.share
  /-- Every grant in the ledger was given out by a share. -/
  owned : ∀ entry ∈ b.issued, ∃ row ∈ b.repository.shares, row.share.id = entry.shareId

variable {b b' : Books}

theorem accounts_init : Accounts system.init where
  balanced _ h := absurd h Table.not_mem_empty
  owned _ h := absurd h List.not_mem_nil

theorem balanced_dropped {issued : List LedgerEntry} {row : ShareRow}
    {f : ShareRow → ShareRow} (hf : DropsVersion f) (h : Balanced issued row.share) :
    Balanced issued (f row).share := by
  rcases hf row with hrow | hrow <;> rw [hrow]
  · exact h
  · exact ⟨h.consumed, h.bounded, h.exhausted, h.within⟩

/-- A share is rewritten, and the others stay. -/
theorem Accounts.replaced (h : Accounts b) {issued : List LedgerEntry} {row row' : ShareRow}
    (hsame : ∀ x ∈ b.repository.shares, x ≠ row → Balanced issued x.share)
    (hreplaced : b.repository.shares.Replaced b'.repository.shares row row')
    (hissued : b'.issued = issued) (hbalanced : Balanced issued row'.share)
    (hentry : ∀ entry ∈ issued, entry ∈ b.issued ∨ entry.shareId = row.share.id) :
    Accounts b' := by
  have hkey : row'.share.id = row.share.id := hreplaced.key_eq
  refine ⟨fun x hx => ?_, fun entry hmem => ?_⟩
  · rw [hissued]
    rcases (hreplaced.mem x).mp hx with ⟨hx, hne⟩ | rfl
    · exact hsame x hx hne
    · exact hbalanced
  · rw [hissued] at hmem
    have hold : ∃ x ∈ b.repository.shares, x.share.id = entry.shareId := by
      rcases hentry entry hmem with hmem | hid
      · exact h.owned entry hmem
      · exact ⟨row, hreplaced.mem_old, hid.symm⟩
    obtain ⟨x, hx, hid⟩ := hold
    by_cases hxr : x = row
    · subst hxr
      exact ⟨row', hreplaced.mem_new, hkey.trans hid⟩
    · exact ⟨x, (hreplaced.mem x).mpr (Or.inl ⟨hx, hxr⟩), hid⟩

theorem Accounts.same (h : Accounts b) (hsame : SameShares b.repository b'.repository)
    (hissued : b'.issued = b.issued) : Accounts b' := by
  obtain ⟨f, hmapped, hdrops⟩ := hsame
  refine ⟨fun x hx => ?_, fun entry hmem => ?_⟩
  · obtain ⟨row, hrow, rfl⟩ := hmapped.mem_iff.mp hx
    rw [hissued]
    exact balanced_dropped hdrops (h.balanced row hrow)
  · rw [hissued] at hmem
    obtain ⟨row, hrow, hid⟩ := h.owned entry hmem
    exact ⟨f row, hmapped.mem_of_mem hrow, (hmapped.key_eq row hrow).trans hid⟩

theorem Accounts.created (h : Accounts b) {share : NewShare}
    (hmaximum : share.maximumDownloads ≠ some 0)
    (hinserted : b.repository.shares.Inserted b'.repository.shares (newShareRow share))
    (hissued : b'.issued = b.issued) : Accounts b' := by
  -- a share that is not there has given out nothing
  have hnone : ∀ entry ∈ b.issued, entry.shareId ≠ share.id := by
    rintro entry hmem hid
    obtain ⟨row, hrow, hrowid⟩ := h.owned entry hmem
    exact hinserted.fresh row hrow (hrowid.trans hid)
  refine ⟨fun x hx => ?_, fun entry hmem => ?_⟩
  · rw [hissued]
    rcases (hinserted.mem x).mp hx with hx | rfl
    · exact h.balanced x hx
    -- so the new share starts with nothing consumed and something left
    · refine ⟨?_, fun _ _ => Nat.zero_le _, fun _ => ?_, fun entry hmem hid => ?_⟩
      · refine List.countP_eq_zero.mpr fun entry hmem => ?_
        show ¬decide (entry.shareId = share.id) = true
        simpa using hnone entry hmem
      · constructor
        · intro hexhausted
          cases hexhausted
        · exact fun hzero => absurd hzero hmaximum
      · exact absurd hid (hnone entry hmem)
  · rw [hissued] at hmem
    obtain ⟨row, hrow, hid⟩ := h.owned entry hmem
    exact ⟨row, hinserted.mem_of_mem hrow, hid⟩

/-- A share that gives out a grant counts it. -/
theorem balanced_counted {issued : List LedgerEntry} {share : ShareRecord}
    {grant : NewDownloadGrant} (h : Balanced issued share) (hactive : share.status = .active)
    (hwithin : grant.expiresAtMs ≤ share.expiresAtMs) :
    Balanced (⟨share.id, grant⟩ :: issued) (countDownload share) := by
  have hactive' : share.status ≠ .revoked := by simp [hactive]
  -- an active share has a download left
  have hopen : share.maximumDownloads ≠ some share.consumedCount := by
    intro hmaximum
    have hexhausted := (h.exhausted hactive').mpr hmaximum
    rw [hactive] at hexhausted
    cases hexhausted
  -- one more is given out and one more is counted; the last one exhausts the share
  refine ⟨?_, fun maximum hmaximum => ?_, fun _ => ?_, fun entry hmem hid => ?_⟩
  · have hcount := h.consumed
    rw [issuedOf] at hcount ⊢
    rw [List.countP_cons, countDownload, hcount]
    simp
  · have hle := h.bounded maximum hmaximum
    have hne : share.consumedCount ≠ maximum := by
      rintro rfl
      exact hopen hmaximum
    show share.consumedCount + 1 ≤ maximum
    omega
  · rw [countDownload]
    split
    · rename_i hmaximum
      exact ⟨fun _ => hmaximum, fun _ => rfl⟩
    · rename_i hmaximum
      exact ⟨fun hstatus => (by cases hstatus), fun hsame => absurd hsame hmaximum⟩
  · rcases List.mem_cons.mp hmem with rfl | hmem
    · exact hwithin
    · exact h.within entry hmem hid

theorem Accounts.issued (h : Accounts b) {row : ShareRow} {version : ObjectVersionRecord}
    {grant : NewDownloadGrant} {event : NewAuditEvent} {nowMs : ℕ} {shareId : String}
    (hissued : Issued b.repository b'.repository row version grant event nowMs)
    (hid : row.share.id = shareId) (hledger : b'.issued = ⟨shareId, grant⟩ :: b.issued) :
    Accounts b' := by
  subst hid
  have hrow := hissued.counted.mem_old
  refine h.replaced (fun x hx hne => ?_) hissued.counted hledger
    (balanced_counted (h.balanced row hrow) hissued.active hissued.within) fun entry hmem => ?_
  · have hother : x.share.id ≠ row.share.id := fun hsame =>
      hne (Table.eq_of_key hx hrow hsame)
    have hx := h.balanced x hx
    refine ⟨?_, hx.bounded, hx.exhausted, fun entry hmem hid => ?_⟩
    · have hcount := hx.consumed
      rw [issuedOf] at hcount ⊢
      rw [List.countP_cons, hcount, if_neg (by simpa using Ne.symm hother), Nat.add_zero]
    · rcases List.mem_cons.mp hmem with rfl | hmem
      · exact absurd hid.symm hother
      · exact hx.within entry hmem hid
  · rcases List.mem_cons.mp hmem with rfl | hmem
    · exact Or.inr rfl
    · exact Or.inl hmem

theorem accounts_step (h : Accounts b) (request : Request) : Accounts (exec b request) := by
  cases request with
  | createShare share event =>
    simp only [exec]
    split
    -- only a grant that was committed goes into the ledger
    · rename_i hrun
      obtain ⟨hmaximum, shares, auditEvents, rfl, hinserted⟩ := createShare_spec hrun
      exact h.created hmaximum hinserted rfl
    · exact h
  | issueShareDownload capabilityHash nowMs grant event =>
    simp only [exec]
    split
    · rename_i hrun
      obtain ⟨row, -, hid, hissued, -⟩ := issueShareDownload_spec hrun
      exact h.issued hissued hid rfl
    · exact h
  | revokeShare shareId workspaceId revokedAtMs event =>
    simp only [exec]
    split
    · rename_i hrun
      -- revoking is the one change of status that is not counted
      rcases revokeShare_spec hrun with rfl | ⟨row, shares, auditEvents, rfl, -, hreplaced⟩
      · exact h
      · have hrow := h.balanced row hreplaced.mem_old
        refine h.replaced (fun x hx _ => h.balanced x hx) hreplaced rfl ?_ fun _ hmem => Or.inl hmem
        exact ⟨hrow.consumed, hrow.bounded, fun hne => absurd rfl hne, hrow.within⟩
    · exact h
  | deletion request =>
    simp only [exec]
    split
    -- deletions drop shares, and never count
    · rename_i hrun
      exact h.same (sameShares_of_run hrun) rfl
    · exact h
  | environment other => exact h.same (SameShares.of_eq rfl) rfl

theorem accounts_run (h : Run system (fun _ _ => True) b) : Accounts b := by
  refine Run.inv (P := Accounts) accounts_init ?_ h
  rintro b request _ hb - rfl
  exact accounts_step hb request

/-! ### Revocation -/

/-- The share is revoked, since the given time. -/
def RevokedShare (s : Repository) (shareId : String) (revokedAtMs : Option ℕ) : Prop :=
  ∃ row ∈ s.shares, row.share.id = shareId ∧ row.share.status = .revoked ∧
    row.share.revokedAtMs = revokedAtMs

theorem revoked_replaced {s s' : Repository} {shareId : String} {revokedAtMs : Option ℕ}
    {row row' : ShareRow} (h : RevokedShare s shareId revokedAtMs)
    (hreplaced : s.shares.Replaced s'.shares row row') (hopen : row.share.status ≠ .revoked) :
    RevokedShare s' shareId revokedAtMs := by
  obtain ⟨x, hx, hid, hstatus, htime⟩ := h
  have hne : x ≠ row := by
    rintro rfl
    exact hopen hstatus
  exact ⟨x, (hreplaced.mem x).mpr (Or.inl ⟨hx, hne⟩), hid, hstatus, htime⟩

theorem revoked_same {s s' : Repository} {shareId : String} {revokedAtMs : Option ℕ}
    (h : RevokedShare s shareId revokedAtMs) (hsame : SameShares s s') :
    RevokedShare s' shareId revokedAtMs := by
  obtain ⟨x, hx, hid, hstatus, htime⟩ := h
  obtain ⟨f, hmapped, hdrops⟩ := hsame
  refine ⟨f x, hmapped.mem_of_mem hx, (hmapped.key_eq x hx).trans hid, ?_⟩
  rcases hdrops x with hrow | hrow <;> rw [hrow] <;> exact ⟨hstatus, htime⟩

theorem revoked_step {shareId : String} {revokedAtMs : Option ℕ}
    (h : RevokedShare b.repository shareId revokedAtMs) (request : Request) :
    RevokedShare (exec b request).repository shareId revokedAtMs := by
  cases request with
  | createShare share event =>
    simp only [exec]
    split
    · rename_i hrun
      -- a share of another id is created
      obtain ⟨-, shares, auditEvents, rfl, hinserted⟩ := createShare_spec hrun
      obtain ⟨x, hx, hrest⟩ := h
      exact ⟨x, hinserted.mem_of_mem hx, hrest⟩
    · exact h
  | issueShareDownload capabilityHash nowMs grant event =>
    simp only [exec]
    split
    · rename_i hrun
      -- only an active share gives out a grant, so the revoked one is not touched
      obtain ⟨row, -, -, hissued, -⟩ := issueShareDownload_spec hrun
      exact revoked_replaced h hissued.counted (by simp [hissued.active])
    · exact h
  | revokeShare shareId workspaceId revokedAtMs event =>
    simp only [exec]
    split
    · rename_i hrun
      -- the time of the first revocation stays
      rcases revokeShare_spec hrun with rfl | ⟨row, shares, auditEvents, rfl, hopen, hreplaced⟩
      · exact h
      · exact revoked_replaced h hreplaced hopen
    · exact h
  | deletion request =>
    simp only [exec]
    split
    · rename_i hrun
      exact revoked_same h (sameShares_of_run hrun)
    · exact h
  | environment other => exact revoked_same h (SameShares.of_eq rfl)

/-! ### The law over runs -/

structure Lawful (b : Books) : Prop where
  /-- As many grants as the share has counted, at most its maximum, and none of them outlives it; it
  is exhausted when the maximum is reached. -/
  accounts : Accounts b
  /-- A grant comes from a live share with downloads left, for a version that is complete. -/
  issued : ∀ capabilityHash nowMs grant event target s',
    b.repository.issueShareDownload capabilityHash nowMs grant event = .ok (target, s') →
    ∃ row, row.capabilityHash = capabilityHash ∧
      row.share.maximumDownloads ≠ some row.share.consumedCount ∧
      Issued b.repository s' row target.object.version grant event nowMs ∧
      exec b (.issueShareDownload capabilityHash nowMs grant event) =
        ⟨s', ⟨row.share.id, grant⟩ :: b.issued⟩
  /-- A refused download changes nothing. -/
  refused : ∀ capabilityHash nowMs grant event e,
    b.repository.issueShareDownload capabilityHash nowMs grant event = .error e →
    exec b (.issueShareDownload capabilityHash nowMs grant event) = b
  /-- What is revoked stays revoked. -/
  revoked : ∀ shareId revokedAtMs, RevokedShare b.repository shareId revokedAtMs →
    ∀ b', Steps system (fun _ _ => True) b b' → RevokedShare b'.repository shareId revokedAtMs

theorem share_law (h : Run system (fun _ _ => True) b) : Lawful b where
  accounts := accounts_run h
  issued capabilityHash nowMs grant event target s' hrun := by
    obtain ⟨row, hcapability, hid, hissued, -⟩ := issueShareDownload_spec hrun
    refine ⟨row, hcapability, fun hmaximum => ?_, hissued, ?_⟩
    · have hbalanced := (accounts_run h).balanced row hissued.counted.mem_old
      have hexhausted := (hbalanced.exhausted (by simp [hissued.active])).mpr hmaximum
      rw [hissued.active] at hexhausted
      cases hexhausted
    · simp only [exec, hrun, hid]
  refused capabilityHash nowMs grant event e hrun := by simp only [exec, hrun]
  revoked shareId revokedAtMs hrevoked b' hsteps := by
    refine hsteps.preserves (P := fun t : Books => RevokedShare t.repository shareId revokedAtMs) ?_
      hrevoked
    rintro t request _ ht - rfl
    exact revoked_step ht request

/-! ### A share for two downloads -/

/-- A repository with one complete version. -/
def stocked : Repository :=
  let requests : List UploadRequest :=
    [.createWorkspace { id := "w", name := "Bakery", slug := ⟨"bakery", by decide⟩ },
     .createProject
       { id := "p", workspaceId := "w", name := "Bread", slug := ⟨"bread", by decide⟩ },
     .reserveUpload
       { id := "u", projectId := "p", objectPath := "loaf.txt", filename := "loaf.txt"
         contentType := "text/plain", expectedSize := 1, expectedChecksum := repeatedDigit 'd'
         storageKey := "versions/p/u", capabilityHash := repeatedDigit '1', expiresAtMs := 60
         createdAtMs := 1, source := .cli, gitRepository := none, gitCommit := none
         gitBranch := none, strategy := .single, partSize := none, partCount := none },
     .recordUploadedBytes "u" 1 (repeatedDigit 'd'),
     .completeUpload "u"]
  requests.foldl
    (fun s request =>
      match request.run s with
      | .ok (_, s') => s'
      | .error _ => s)
    Repository.empty

/-- An event about the share. -/
def shareEvent (id action : String) (createdAtMs : ℕ) : NewAuditEvent where
  id := id
  workspaceId := "w"
  actor := "owner"
  action := action
  requestId := "r"
  targetType := "share"
  metadata := [("shareId", .string "h")]
  createdAtMs := createdAtMs

/-- One download of the share. -/
def download (digit : Char) (eventId : String) (nowMs : ℕ) : Request :=
  .issueShareDownload (repeatedDigit 'a') nowMs
    { versionId := "u", capabilityHash := repeatedDigit digit, expiresAtMs := nowMs + 10 }
    (shareEvent eventId "share.download_issued" nowMs)

/-- The share is opened for two downloads; three are asked for. -/
def shared : List Request :=
  [.environment stocked,
   .createShare
     { id := "h", workspaceId := "w", versionId := "u", capabilityHash := repeatedDigit 'a'
       expiresAtMs := 100, maximumDownloads := some 2, createdAtMs := 2 }
     (shareEvent "e1" "share.created" 2),
   download 'b' "e2" 3, download 'c' "e3" 4, download 'e' "e4" 5]

/-- Two grants are given out, and the books are in order. -/
theorem lawful_shared :
    (((shared.foldl exec system.init).issued.length = 2 ∧
      (shared.foldl exec system.init).repository.shares.rows.map
        (fun row => (row.share.consumedCount, row.share.status)) = [(2, .exhausted)])) ∧
      Lawful (shared.foldl exec system.init) :=
  ⟨by decide +kernel, share_law (Run.ofList_true (fun _ _ => rfl) Run.init _)⟩

end ShareDownloads

end BlobYard
