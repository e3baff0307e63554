import Workforce.Marketplace.Decisions
import Workforce.Scheduling.QueueSafety
import Workforce.Leave.Carryover
import Workforce.Scheduling.Locks
import Workforce.Compliance.DelayedActivation
import Workforce.Adherence.WeeklyMonthlyRollup
import Workforce.Compliance.Retention
import Workforce.Scheduling.Completion
import Workforce.Scheduling.RelaxationOrder
import Workforce.Compliance.ImpactPreview
import Workforce.Scheduling.MarketplaceConsumer
import Workforce.Auth.ClientBinding
import Workforce.Auth.SessionRevocation
import Workforce.Auth.Lockout
import Workforce.Auth.SigningKeys
import Workforce.Policy.ActiveLists
import Workforce.Policy.EmployeeScopes
import Workforce.Org.Hierarchy
import Workforce.Org.Reorganisation
import Workforce.Employee.Continuity
import Workforce.Employee.WorkRules
import Workforce.Employee.ImportReports
import Workforce.Analytics.Refreshes
import Workforce.Skill.DecayJob
import Workforce.Integration.Handover
import Workforce.Integration.BackpressureQueue
import Workforce.Integration.RateLimiters
import Workforce.Integration.AgentEventIds
import Workforce.Ai.LlmClient
import Workforce.Employee.Erasure
import Workforce.Audit.Batcher
import Workforce.Webhook.Fanout
import Workforce.Http.Idempotency
import Workforce.Ai.Recommendations
import Workforce.Integration.BackfillWorkers
import Workforce.Integration.StreamingRelay
import Workforce.Integration.SyncedFields
import Workforce.Forecasting.ScenarioHeadcount
import Workforce.Forecasting.MultiskillSimulation
import Workforce.Mobile.Conflicts
import Workforce.Intraday.Rollups
import Workforce.Intraday.AlertLifecycle
import Workforce.Intraday.ScheduledActivity
import Workforce.Scheduling.HardLimits
import Workforce.Scheduling.Headroom
import Workforce.Scheduling.SiteGroups
import Workforce.Marketplace.BidOrder
import Workforce.Leave.PeriodicJobs
import Workforce.Leave.ExpiryRace
import Workforce.Marketplace.StrandedClaims
import Workforce.Scheduling.Redelivery
import Workforce.Scheduling.FairnessAudit
import Workforce.Adherence.DaySegments
import Workforce.Marketplace.Engagement
import Workforce.Scim.Patches
