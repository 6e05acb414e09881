/-
The records of credentials and of continuous integration.

An API token is stored by the hash of its secret; a CLI session refers to the token of its
login.  A trust lets workflows of one repository exchange a signed assertion for a short-lived
machine session, whose bearer credential is an API token as well.

* `LocalApiTokenRecord`, `LocalCliSessionRecord` — credentials;
* `LocalCiTrustRecord`, `NewMachineSession`, `MachineSessionRow` — trusts and sessions;
* `ValidRepository`, `ValidWorkflowPath`, `ValidGitRef`, `ValidRefGlob` — the syntax of what a
  trust and an assertion name.
-/
import BlobYard.Contract.Records

namespace BlobYard

open Outcome

/-! ### Credentials -/

/-- A row of `api_tokens`; its column `revoked` says whether `revokedAtMs` is set. -/
structure LocalApiTokenRecord where
  id : String
  name : String
  tokenPrefix : String
  secretHash : String
  scopes : List String
  workspaceId : String
  projectId : Option String
  createdAtMs : ℕ
  expiresAtMs : ℕ
  lastUsedAtMs : Option ℕ
  revokedAtMs : Option ℕ
  deriving DecidableEq

/-- A session of the command line, behind which one API token stands. -/
structure LocalCliSessionRecord where
  id : String
  tokenId : String
  workspaceId : String
  name : String
  platform : String
  version : String
  createdAtMs : ℕ
  lastUsedAtMs : Option ℕ
  revokedAtMs : Option ℕ
  deriving DecidableEq

/-- The row of `bootstrap_authority`; the hash is there until the authority is consumed. -/
inductive BootstrapAuthority where
  | available (secretHash : String)
  | consumed
  deriving DecidableEq

/-! ### Trusts and machine sessions -/

/-- What a machine session may be allowed to do. -/
inductive CiAction where
  | download
  | share
  | upload
  | yardManage
  deriving DecidableEq

/-- The name of an action in requests and in stored rows. -/
def CiAction.asStr : CiAction → String
  | .download => "download"
  | .share => "share"
  | .upload => "upload"
  | .yardManage => "yard:manage"

/-- A trust in a workflow of a repository: which identities it takes, and for what. -/
structure LocalCiTrustRecord where
  id : String
  workspaceId : String
  projectId : Option String
  repository : String
  workflowPath : String
  workflowRef : String
  allowedRefGlob : String
  environment : Option String
  allowedActions : List CiAction
  audience : String
  createdAtMs : ℕ
  revokedAtMs : Option ℕ
  deriving DecidableEq

/-- What one verified assertion says. -/
structure GithubOidcIdentity where
  audience : String
  repository : String
  gitRef : String
  workflowPath : String
  workflowRef : String
  environment : Option String
  runId : String
  runAttempt : Option String
  sha : Option String
  expiresAtMs : ℕ
  deriving DecidableEq

/-- A request for a session, with the verified identity and the hash of its token. -/
structure NewMachineSession where
  id : String
  tokenPrefix : String
  secretHash : String
  identity : GithubOidcIdentity
  workspace : Option String
  project : String
  actions : List CiAction
  oidcTokenHash : String
  nowMs : ℕ
  deriving DecidableEq

/-- A machine session, under the trust and the project it was minted for. -/
structure LocalMachineSessionRecord where
  id : String
  trustId : String
  workspaceId : String
  projectId : String
  repository : String
  gitRef : String
  runId : String
  runAttempt : Option String
  actions : List CiAction
  createdAtMs : ℕ
  expiresAtMs : ℕ
  lastUsedAtMs : Option ℕ
  revokedAtMs : Option ℕ
  deriving DecidableEq

/-- A row of `machine_sessions`; its column `token_id` is the id of the session. -/
structure MachineSessionRow where
  session : LocalMachineSessionRecord
  oidcTokenHash : String
  deriving DecidableEq

/-- The four answers to a request for a session. -/
inductive MachineSessionMintResult where
  | replayed
  | forbidden
  | rateLimited (retryAfterSeconds : ℕ)
  | minted (record : LocalMachineSessionRecord)
  deriving DecidableEq

/-! ### The syntax of repositories, workflows and refs -/

/-- `char::is_ascii_uppercase`. -/
def isAsciiUppercase (c : Char) : Bool := 'A' ≤ c && c ≤ 'Z'

/-- `valid_github_repository_part`. -/
def ValidRepositoryPart (value : List Char) (maximum : ℕ) (extended : Bool) : Prop :=
  value ≠ [] ∧ value.length ≤ maximum ∧
    (∀ c ∈ value, isAsciiAlphanumeric c = true ∨ c = '-' ∨
      (extended = true ∧ (c = '.' ∨ c = '_'))) ∧
    value.head?.any isAsciiAlphanumeric = true ∧ value.getLast?.any isAsciiAlphanumeric = true

instance (value : List Char) (maximum : ℕ) (extended : Bool) :
    Decidable (ValidRepositoryPart value maximum extended) :=
  inferInstanceAs (Decidable (_ ∧ _ ∧ _ ∧ _ ∧ _))

/-- `valid_repository`: an owner and a name around the first `/`, in lower case. -/
def ValidRepository (value : String) : Prop :=
  '/' ∈ value.toList ∧ (∀ c ∈ value.toList, isAsciiUppercase c = false) ∧
    ValidRepositoryPart (value.toList.takeWhile (· ≠ '/')) 39 false ∧
    ValidRepositoryPart ((value.toList.dropWhile (· ≠ '/')).drop 1) 100 true

instance (value : String) : Decidable (ValidRepository value) :=
  inferInstanceAs (Decidable (_ ∧ _ ∧ _ ∧ _))

/-- `valid_github_workflow_path`: a YAML file right under the directory of workflows. -/
def ValidWorkflowPath (value : String) : Prop :=
  let name := value.toList.drop ".github/workflows/".length
  ".github/workflows/".toList <+: value.toList ∧
    (".yml".toList <:+ name ∨ ".yaml".toList <:+ name) ∧
    ∀ c ∈ name, isAsciiAlphanumeric c = true ∨ c = '.' ∨ c = '_' ∨ c = '-'

instance (value : String) : Decidable (ValidWorkflowPath value) :=
  inferInstanceAs (Decidable (_ ∧ _ ∧ _))

/-- `valid_github_ref_tail`. -/
def ValidRefTail (value : List Char) : Prop :=
  value ≠ [] ∧ ¬['.', '.'] <:+: value ∧
    ∀ c ∈ value, isAsciiAlphanumeric c = true ∨ c = '.' ∨ c = '_' ∨ c = '/' ∨ c = '-'

instance (value : List Char) : Decidable (ValidRefTail value) :=
  inferInstanceAs (Decidable (_ ∧ _ ∧ _))

/-- `valid_glob_tail`. -/
def ValidGlobTail (value : List Char) : Prop :=
  value ≠ [] ∧ ¬['.', '.'] <:+: value ∧ ¬['*', '*'] <:+: value ∧
    ∀ c ∈ value, isAsciiAlphanumeric c = true ∨ c = '.' ∨ c = '_' ∨ c = '/' ∨ c = '-' ∨ c = '*'

instance (value : List Char) : Decidable (ValidGlobTail value) :=
  inferInstanceAs (Decidable (_ ∧ _ ∧ _ ∧ _))

/-- The kinds of named refs. -/
def refKinds : List String := ["refs/heads/", "refs/tags/", "refs/pull/"]

/-- A hexadecimal digit of either case. -/
def isAsciiHexdigit (c : Char) : Bool :=
  ('0' ≤ c && c ≤ '9') || ('A' ≤ c && c ≤ 'F') || ('a' ≤ c && c ≤ 'f')

/-- `valid_git_ref`: a named ref or a commit. -/
def ValidGitRef (value : String) : Prop :=
  (∃ kind ∈ refKinds, kind.toList <+: value.toList ∧
      ValidRefTail (value.toList.drop kind.length)) ∨
    (value.utf8ByteSize = 40 ∧ ∀ c ∈ value.toList, isAsciiHexdigit c = true)

instance (value : String) : Decidable (ValidGitRef value) :=
  inferInstanceAs (Decidable ((∃ kind ∈ refKinds, _ ∧ _) ∨ _ ∧ _))

/-- `valid_ref_glob`. -/
def ValidRefGlob (value : String) : Prop :=
  ∃ kind ∈ refKinds, kind.toList <+: value.toList ∧
    ValidGlobTail (value.toList.drop kind.length)

instance (value : String) : Decidable (ValidRefGlob value) :=
  inferInstanceAs (Decidable (∃ kind ∈ refKinds, _ ∧ _))

/-- `validate_actions`: one to four different actions. -/
def ValidActions (actions : List CiAction) : Prop :=
  actions ≠ [] ∧ actions.length ≤ 4 ∧ actions.Nodup

instance (actions : List CiAction) : Decidable (ValidActions actions) :=
  inferInstanceAs (Decidable (_ ∧ _ ∧ _))

example : ValidRefGlob "refs/heads/release-*" ∧ ¬ValidRefGlob "refs/heads/**" := by
  decide +kernel

end BlobYard
