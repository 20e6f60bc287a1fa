import Deeting.Transition
import Deeting.Interruptible
import Deeting.Decimal
import Deeting.Cache.Keys
import Deeting.Cache.Invalidation
import Deeting.Calendar
import Deeting.Table
import Deeting.Digraph
import Deeting.SortedSet
import Deeting.Sorting
import Deeting.Counting
import Deeting.Savepoints
import Deeting.Texts
import Deeting.Expiry
import Deeting.Json
import Deeting.Transcript
import Deeting.Quota.Account
import Deeting.Quota.Script
import Deeting.Quota.Operations
import Deeting.Quota.Agreement
import Deeting.Quota.DailyCount
import Deeting.Quota.Replicas
import Deeting.Quota.Warming
import Deeting.Billing.Repository
import Deeting.Billing.Ledger
import Deeting.Billing.Pipeline
import Deeting.Billing.Replay
import Deeting.Billing.Deduct
import Deeting.Billing.CreditsProxy
import Deeting.Billing.Reverse
import Deeting.Orchestrator.Engine
import Deeting.Orchestrator.Layers
import Deeting.Orchestrator.Runs
import Deeting.Orchestrator.Serial
import Deeting.Workflow.Steps
import Deeting.Workflow.ExternalChat
import Deeting.Workflow.Rejection
import Deeting.Workflow.StreamBilling
import Deeting.RateLimit.SlidingWindow
import Deeting.RateLimit.ModelLimits
import Deeting.Recharge.Alipay
import Deeting.Recharge.Settlement
import Deeting.Signature.Verify
import Deeting.Lock.DistributedLock
import Deeting.Auth.Bans
import Deeting.Auth.DesktopLogin
import Deeting.Auth.Verification
import Deeting.Sessions.Tokens
import Deeting.Sessions.Moves
import Deeting.Sessions.Origins
import Deeting.Sessions.Exchanges
import Deeting.Sessions.Sweeps
import Deeting.Sessions.Acceptance
import Deeting.Sessions.Rotation
import Deeting.Sessions.Finality
import Deeting.Registration.Invites
import Deeting.Registration.Enrolments
import Deeting.Registration.Windows
import Deeting.Registration.Leaks
import Deeting.Registration.Slots
import Deeting.Registration.Overbooking
import Deeting.ApiKeys.Keys
import Deeting.ApiKeys.Rotation
import Deeting.ApiKeys.Revocation
import Deeting.ApiKeys.Budget
import Deeting.Stream.Accumulator
import Deeting.Stream.StoredOnce
import Deeting.Agent.ToolCalls
import Deeting.Agent.Assistants
import Deeting.Agent.ToolLoop
import Deeting.Agent.Protocol
import Deeting.Agent.Usage
import Deeting.CodeMode.BridgeToken
import Deeting.CodeMode.Ownership
import Deeting.CodeMode.Whitelist
import Deeting.SpecAgent.Executor
import Deeting.SpecAgent.Logs
import Deeting.SpecAgent.Tracking
import Deeting.SpecAgent.Completion
import Deeting.SpecAgent.Moves
import Deeting.SpecAgent.Resume
import Deeting.SpecAgent.Recreation
import Deeting.SpecAgent.Chronicle
import Deeting.SpecAgent.Recovery
import Deeting.SpecAgent.Gates
import Deeting.Upstream.CircuitBreaker
import Deeting.Routing.Affinity
import Deeting.Routing.AffinityRuns
import Deeting.Bandit.Feedback
import Deeting.Bandit.Runs
import Deeting.Conversation.Window
import Deeting.Conversation.Integrity
import Deeting.Conversation.TokenCounter
import Deeting.Conversation.TurnNumbers
import Deeting.Conversation.Summarization
import Deeting.Conversation.SummaryFlag
import Deeting.Conversation.Coverage
import Deeting.ImageGeneration.Tasks
import Deeting.ImageGeneration.LifeCycle
import Deeting.Monitor.Tasks
import Deeting.Monitor.Ticks
import Deeting.Monitor.Limits
import Deeting.Monitor.Breaker
import Deeting.Monitor.Service
import Deeting.Monitor.Schedules
import Deeting.Vector.Isolation
import Deeting.Knowledge.InStep
import Deeting.Celery.TransactionAware
import Deeting.Protocols.Bridge
import Deeting.Assets.Uploads
import Deeting.Memory.Apart
import Deeting.Routing.Scopes
import Deeting.McpBridge.Retirement
import Deeting.Billing.Pending
import Deeting.Quota.Conflicts
import Deeting.Stream.Usage
import Deeting.Upstream.Failover
import Deeting.Upstream.StreamRetry
import Deeting.Upstream.Polling
import Deeting.Upstream.Security
import Deeting.Assistants.Tags
import Deeting.Conversation.Blocks
import Deeting.MergePatch
import Deeting.Routing.Overrides
import Deeting.Routing.AffinityRecords
import Deeting.Billing.RechargeCrashes
import Deeting.Cache.SingleFlight
import Deeting.RateLimit.SerialFallback
import Deeting.Metering
import Deeting.RateLimit.TokenBucket
import Deeting.Routing.Strategies
import Deeting.Routing.StrategyLaws
import Deeting.Agent.ToolsOffered
import Deeting.Protocols.Templates
import Deeting.ApiKeys.QuotaCheck
import Deeting.ApiKeys.QuotaDeductions
import Deeting.Assistants.Ratings
import Deeting.Knowledge.Chunks
import Deeting.Monitor.CloudLimit
import Deeting.Monitor.Cron
import Deeting.Monitor.CronRuns
import Deeting.Monitor.Leases
import Deeting.Memory.Rollback
import Deeting.Fields
import Deeting.Monitor.NotifyConfig
import Deeting.Searching
import Deeting.SpecAgent.Conditions
import Deeting.SpecAgent.Readings
import Deeting.SpecAgent.Verdicts
import Deeting.Assistants.Installs
import Deeting.Dict
import Deeting.Indexing.Sync
import Deeting.Indexing.Rebuilt
import Deeting.Upserting
import Deeting.Providers.KeptSettings
import Deeting.Html.References
import Deeting.Html.Reader
import Deeting.Xss.Sanitizer
import Deeting.Html.Writing
import Deeting.Xss.Reading
import Deeting.Html.Schemes
import Deeting.Xss.Safety
import Deeting.Xss.Passes
import Deeting.Notifications.Delivery
import Deeting.Cursor
import Deeting.Notifications.Receipts
import Deeting.Notifications.Socket
import Deeting.Notifications.Shown
