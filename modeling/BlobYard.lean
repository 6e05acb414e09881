import BlobYard.Laws.InboxCapacity
import BlobYard.Laws.VersionNumbers
import BlobYard.Laws.UploadRows
import BlobYard.Laws.UploadReplays
import BlobYard.Laws.YardDeploys
import BlobYard.Laws.YardServing
import BlobYard.Laws.YardSessions
import BlobYard.Laws.GrantReading
import BlobYard.Laws.GuestInvitations
import BlobYard.Laws.CiMint
import BlobYard.Laws.CiTrust
import BlobYard.Laws.ManagementRoles
import BlobYard.Laws.ObjectDeletion
import BlobYard.Laws.TwoPhaseDeletion
import BlobYard.Laws.WorkspaceGroups
import BlobYard.Laws.YardIdentities
import BlobYard.Lib.PathOrder
import BlobYard.Laws.RetentionRuns
import BlobYard.Laws.ShareDownloads
import BlobYard.Laws.StorageConvergence
import BlobYard.Storage.Inventory
import BlobYard.Laws.PreviewHosts
import BlobYard.Laws.DownloadRanges
import BlobYard.Server.Expiry
import BlobYard.Laws.ApplicationPolicies
import BlobYard.Laws.ManifestPolicies
import BlobYard.Laws.ManifestPatterns
import BlobYard.Laws.PartArithmetic
import BlobYard.Laws.UriRoundTrip
import BlobYard.Laws.GlobMeanings
import BlobYard.Laws.PolicyClosures
import BlobYard.Laws.PolicyAuthorities
import BlobYard.Laws.ManifestReferences
import BlobYard.Laws.CronSchedules
import BlobYard.Laws.InboxRates
import BlobYard.Laws.Pagination
import BlobYard.Laws.PublicPaths
import BlobYard.Laws.HostLabels
import BlobYard.Laws.InboxFilenames
import BlobYard.Laws.PublicKeys
import BlobYard.Laws.MultipartLocators
import BlobYard.Laws.Reconciliation
import BlobYard.Laws.YardContinuations
import BlobYard.Laws.CanonicalRequests
import BlobYard.Laws.Redaction
import BlobYard.Laws.YardPolicies
import BlobYard.Laws.YardSignIn
import BlobYard.Laws.Custody
import BlobYard.Laws.RecoveryRoundTrip
