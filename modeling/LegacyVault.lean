import LegacyVault.Database
import LegacyVault.Facts
import LegacyVault.Library.IdempotencyKey
import LegacyVault.Library.IsoTime
import LegacyVault.IdempotencyRecords
import LegacyVault.Households
import LegacyVault.PrivacyRequests
import LegacyVault.DeletionEffects
import LegacyVault.DeletionSafety
import LegacyVault.DocumentExtraction
import LegacyVault.PortableExports
import LegacyVault.OnceOperations
import LegacyVault.OneTransactionIdempotency
import LegacyVault.Consents
import LegacyVault.EmergencyAccess
import LegacyVault.ReportRequests
import LegacyVault.RecordedRoutes
import LegacyVault.TwoPhaseIdempotency
import LegacyVault.RecordedReplays
import LegacyVault.AiGateway
import LegacyVault.AiInterviewRuns
import LegacyVault.AiResults
import LegacyVault.AuditChain
import LegacyVault.AuditRoundTrip
import LegacyVault.Authorization
import LegacyVault.ConsentWithdrawal
import LegacyVault.DocumentChanges
import LegacyVault.DocumentContents
import LegacyVault.DocumentRoundTrip
import LegacyVault.DomainFacts
import LegacyVault.EmergencyReleases
import LegacyVault.EvidenceIntegrity
import LegacyVault.ExportAuthenticity
import LegacyVault.ExportableDocuments
import LegacyVault.HouseholdRoles
import LegacyVault.InvitationLifecycle
import LegacyVault.Library.RowInvariants
import LegacyVault.RecordedDigests
import LegacyVault.StaleExecutions
import LegacyVault.ReportConfidentiality
import LegacyVault.AiCachePurges
import LegacyVault.AiIdempotency
import LegacyVault.AiTelemetry
import LegacyVault.AnnualReview
import LegacyVault.Billing
import LegacyVault.BillingHistories
import LegacyVault.CardDetection
import LegacyVault.ConsentScope
import LegacyVault.EmbeddedScans
import LegacyVault.Envelopes
import LegacyVault.Library.GuardedRows
import LegacyVault.Library.ServedRequests
import LegacyVault.NotificationRuns
import LegacyVault.RequestTelemetry
import LegacyVault.UploadReplays
import LegacyVault.VersionedOperations
import LegacyVault.AuditPages
import LegacyVault.DeepSeekProvider
import LegacyVault.EmailDelivery
import LegacyVault.WorkflowSteps
import LegacyVault.SupportAccessLifecycle
import LegacyVault.AccessConfinement
import LegacyVault.AuditedRequests
import LegacyVault.ServedContents
import LegacyVault.Migrations
import LegacyVault.SealedFacts
import LegacyVault.ServedReports
import LegacyVault.MemberNames
import LegacyVault.DocumentScanning
import LegacyVault.BillingDeliveries
