import WaRuntime.TransitionRuns
import WaRuntime.RowVersions
import WaRuntime.MessageJobStatements
import WaRuntime.OpenWARequest
import WaRuntime.OutboundMessageExecution
import WaRuntime.MessageJobTransitions
import WaRuntime.OutboundSendAtMostOnce
import WaRuntime.DeliveryEvidence
import WaRuntime.TransportRepublication
import WaRuntime.CampaignRunStatements
import WaRuntime.CampaignExecution
import WaRuntime.CampaignRunTransitions
import WaRuntime.CampaignDeliveries
import WaRuntime.CampaignCancellation
import WaRuntime.PreflightFence
import WaRuntime.CampaignTransactions
import WaRuntime.CampaignLifecycle
import WaRuntime.GroupCapabilityStatements
import WaRuntime.OutboundSessionLeases
import WaRuntime.LiveSendPolicy
import WaRuntime.GroupIntentStatements
import WaRuntime.WebhookEvents
import WaRuntime.WebhookStatements
import WaRuntime.OwnedTables
import WaRuntime.WebhookTransaction
import WaRuntime.WebhookSessionIsolation
import WaRuntime.WebhookProcessing
import WaRuntime.WebhookExactlyOnce
import WaRuntime.GroupCapabilityRevision
import WaRuntime.SharedLeases
import WaRuntime.GatewayRateLimitStatements
import WaRuntime.GatewaySyncItemStatements
import WaRuntime.GatewayGroupReads
import WaRuntime.GatewayReadLeases
import WaRuntime.RateLimitAnswers
import WaRuntime.GroupReadHistory
import WaRuntime.GroupIntentCoalescing
import WaRuntime.StaleGroupReads
import WaRuntime.CampaignPreflight
import WaRuntime.CampaignRunDeliveries
import WaRuntime.ContactNormalization
import WaRuntime.GroupCapabilityBudget
import WaRuntime.KeyedCreation
import WaRuntime.WebhookLedgerAgreement
import WaRuntime.ContactEvidence
import WaRuntime.CreationReplay
import WaRuntime.ContactSnapshots
import WaRuntime.SnapshotPublication
import WaRuntime.ContactResolution
import WaRuntime.ContactClusters
import WaRuntime.ContactResolutionRuns
import WaRuntime.AggregateLocks
import WaRuntime.VersionHistory
import WaRuntime.RunOrigins
import WaRuntime.TargetProvenance
import WaRuntime.CampaignLaunches
import WaRuntime.DeletedCampaigns
import WaRuntime.CampaignJobLinks
import WaRuntime.CampaignDeliveryAccounting
import WaRuntime.SchedulerRunner
import WaRuntime.SchedulerShutdown
import WaRuntime.MessageStatusOrder
import WaRuntime.SendOutcomes
import WaRuntime.CampaignOutcomes
import WaRuntime.AttemptBudgets
import WaRuntime.PreparationAttempts
import WaRuntime.CampaignEdits
import WaRuntime.CanonicalOrders
import WaRuntime.SetReplacement
import WaRuntime.JoinedFields
import WaRuntime.MessageFingerprint
import WaRuntime.ConfirmationStreaks
import WaRuntime.GatewayDiscovery
import WaRuntime.SnapshotGuard
import WaRuntime.IncrementalSelection
import WaRuntime.InactiveGroups
import WaRuntime.DelimitedTexts
import WaRuntime.MemberReplacement
import WaRuntime.ContactProjection
import WaRuntime.ContactProjectionWork
import WaRuntime.KeysetPages
import WaRuntime.LastWriterRegisters
import WaRuntime.MemberDatasetRevision
import WaRuntime.ProjectionBudget
import WaRuntime.ProjectionPasses
import WaRuntime.SessionObservations
import WaRuntime.WebhookTimestamps
import WaRuntime.ContactMerges
import WaRuntime.EvidenceBackfill
import WaRuntime.FairRuns
import WaRuntime.GatewayWakes
import WaRuntime.PushNames
import WaRuntime.RetainedObservations
import WaRuntime.UpstreamPages
import WaRuntime.GatewaySyncCommits
import WaRuntime.GatewaySyncCompletion
import WaRuntime.ProjectionRequests
import WaRuntime.ResolutionDirtySet
import WaRuntime.SkippedObservations
import WaRuntime.GroupSearch
import WaRuntime.ObservationIntents
import WaRuntime.SchemaMigrations
import WaRuntime.FairActions
import WaRuntime.RegistrationConvergence
import WaRuntime.WebhookLiveness
import WaRuntime.DataRetention
import WaRuntime.GroupListCreation
import WaRuntime.RetentionPasses
