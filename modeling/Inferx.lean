import Inferx.Lib.Keys
import Inferx.Lib.Runs
import Inferx.Lib.Url
import Inferx.Scheduler.IdlePool
import Inferx.Scheduler.Exclusive
import Inferx.Scheduler.Stopped
import Inferx.Scheduler.Marks
import Inferx.Scheduler.Capped
import Inferx.Scheduler.Duplicate
import Inferx.Scheduler.Reserving
import Inferx.Scheduler.Rollback
import Inferx.Scheduler.ResumeResource
import Inferx.Scheduler.Plans
import Inferx.Scheduler.Resolve
import Inferx.Scheduler.Restoring
import Inferx.Scheduler.SnapshotBilling
import Inferx.Scheduler.Sweeping
import Inferx.Scheduler.SnapshotRemoval
import Inferx.Scheduler.SnapshotTasks
import Inferx.Scheduler.StandbyBilling
import Inferx.Scheduler.Warmup
import Inferx.Etcd.Watch
import Inferx.Etcd.Paging
import Inferx.Etcd.Pages
import Inferx.Metastore.Informer
import Inferx.Metastore.Mirror
import Inferx.Metastore.Replay
import Inferx.Metastore.SvcDir
import Inferx.Metastore.Views
import Inferx.Metastore.Scoping
import Inferx.Metastore.Refresh
import Inferx.Metastore.Redelivery
import Inferx.Metastore.Difference
import Inferx.Gateway.FuncViews
import Inferx.StateSvc.Aggregate
import Inferx.StateSvc.Status
import Inferx.Gateway.Metered
import Inferx.Gateway.Minting
import Inferx.Gateway.ObjectAccess
import Inferx.Gateway.SkillDebug
import Inferx.Gateway.QuotaGuard
import Inferx.Gateway.Agents
import Inferx.Gateway.Retirement
import Inferx.Gateway.Revocation
import Inferx.Gateway.EndpointMirror
import Inferx.Gateway.Permits
import Inferx.Gateway.Ceiling
import Inferx.Gateway.Framing
import Inferx.Gateway.Listed
import Inferx.Gateway.TenantControl
import Inferx.Gateway.UsageOptions
import Inferx.Gateway.KnowledgeBase
import Inferx.Gateway.Leases
import Inferx.Gateway.LeaseBilling
import Inferx.Billing.Sync
import Inferx.Billing.Agreement
import Inferx.Billing.Reported
import Inferx.Gateway.ReqQueue
import Inferx.Gateway.WorkerLoad
import Inferx.Gateway.Affinity
import Inferx.Selector.Documented
import Inferx.Selector.Labels
import Inferx.Selector.Match
import Inferx.Selector.Predicate
import Inferx.Skill.Decode
import Inferx.Skill.Usage
import Inferx.Skill.ChildTrace
import Inferx.Skill.ChildCall
import Inferx.Skill.Response
import Inferx.Skill.History
import Inferx.Lib.Nested
import Inferx.Lib.Codes
import Inferx.Scheduler.TwoSided
import Inferx.Gateway.ToolNames
import Inferx.Gateway.Expiry
import Inferx.FuncPolicy
import Inferx.StateSvc.Conditional
import Inferx.Lib.Paths
import Inferx.Gateway.Storage
import Inferx.Lib.Sql
import Inferx.Gateway.RoleSql
import Inferx.Billing.Migration
import Inferx.Gateway.ActiveReqs
import Inferx.Lib.Cut
import Inferx.Gateway.Forward
import Inferx.Selector.Compare
import Inferx.Sessions.Stream
import Inferx.Sessions.Turns
