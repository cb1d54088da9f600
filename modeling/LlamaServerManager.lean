import LlamaServerManager.Admission.Fairness
import LlamaServerManager.Admission.Wakeup
import LlamaServerManager.Quota.Conservation
import LlamaServerManager.Quota.Limits
import LlamaServerManager.Quota.Order
import LlamaServerManager.Quota.Maintenance
import LlamaServerManager.Usage.Settlement
import LlamaServerManager.Checkpoint.Poison
import LlamaServerManager.Checkpoint.Restore
import LlamaServerManager.Management.Execution
import LlamaServerManager.LookupCache.Survival
import LlamaServerManager.Router.Breaker
import LlamaServerManager.Router.Delivery
import LlamaServerManager.Runtime.Convergence
import LlamaServerManager.Telemetry.Barrier
import LlamaServerManager.UsageStore.Accounts
import LlamaServerManager.References.Protection
import LlamaServerManager.LookupCache.Format
import LlamaServerManager.Requests.ToolHistory
import LlamaServerManager.Router.Failure
import LlamaServerManager.Router.Proportion
import LlamaServerManager.Usage.Accumulation
import LlamaServerManager.Requests.OutputLimit
import LlamaServerManager.Responses.Relay
import LlamaServerManager.UsageStore.Percentiles
import LlamaServerManager.Checkpoint.Pruned
import LlamaServerManager.UsageStore.Requests
import LlamaServerManager.Checkpoint.CustomArguments
import LlamaServerManager.Checkpoint.IdleSave
import LlamaServerManager.Launch.Security
import LlamaServerManager.Logs.Follower
import LlamaServerManager.Monitoring.Sessions
import LlamaServerManager.Monitoring.TaskIsolation
import LlamaServerManager.Runtime.Start
import LlamaServerManager.Frontend.CommandFormatting
import LlamaServerManager.Launch.Projection
import LlamaServerManager.References.WindowsPaths
import LlamaServerManager.Frontend.ConfigSaves
import LlamaServerManager.Frontend.InstanceLifecycle
import LlamaServerManager.Config.Recovery
import LlamaServerManager.Engines.Rescan
import LlamaServerManager.Logs.PerfRecorded
import LlamaServerManager.Gguf.Mapping
import LlamaServerManager.Qualification.Acceptance
import LlamaServerManager.ModelScan.Rescan
import LlamaServerManager.RouteTargets.Safety
import LlamaServerManager.Downloads.Resumption
import LlamaServerManager.Downloads.Slots
import LlamaServerManager.Launch.EngineProcess
import LlamaServerManager.Downloads.Restart
