import LlamaServerManager.Monitoring.Inference
import LlamaServerManager.Monitoring.VectorEvents
import LlamaServerManager.Router.Resolution
import Mathlib.Data.List.TakeDrop

/-!
What is kept of an instance for its monitoring, and the frame made of it every second
(`InstanceMonitoringState` of `commands/monitoring.rs`). Numbers are fractions; times are
milliseconds.
-/

namespace LlamaServerManager.Monitoring

open Router (ModelWorkload)

def frameIntervalMs : Int := 1000
def frameRetention : Nat := 3600
def maxVectorEvents : Nat := 10000
def taskFreshnessMs : Int := 5000
def metricFreshnessMs : Int := 8000
def systemFreshnessMs : Int := 15000
def vectorWindowMs : Int := 3000

def isVector (workload : ModelWorkload) : Bool := decide (workload ≠ .inference)

structure SystemMetrics where
  cpuPercent : ℚ
  memoryMb : ℚ
  uptimeSecs : Nat
  gpuPercent : Option ℚ
  vramUsedMb : Option ℚ
  vramTotalMb : Option ℚ
  systemCpuPercent : Option ℚ
  systemMemoryTotalMb : Option ℚ
  systemMemoryUsedMb : Option ℚ
  gpuVendor : Option String
  gpuName : Option String
deriving DecidableEq

/-- What frames read of a sample of the server's metrics. -/
structure LlamaMetricSample where
  tokensPerSec : ℚ
  promptTokensPerSec : ℚ
  requestsProcessing : Nat
  requestsDeferred : Nat
deriving DecidableEq

structure TaskSnapshot where
  active : Nat
  throughput : ℚ
deriving DecidableEq

structure SlotSnapshot where
  capacity : Nat
  busy : Nat
deriving DecidableEq

structure Timed (α : Type) where
  value : α
  ts : Int
deriving DecidableEq

def isFresh (timestamp now maximumAge : Int) : Bool :=
  decide (timestamp ≤ now) && decide (now - timestamp ≤ maximumAge)

/-- A value, if it is fresh. -/
def freshValue {α : Type} (item : Option (Timed α)) (now maximumAge : Int) : Option α :=
  (item.filter fun item => isFresh item.ts now maximumAge).map (·.value)

inductive FrameState where
  | active
  | idle
  | warming
  | unavailable
deriving DecidableEq, Repr

inductive FrameSource where
  | unavailable
  | idle
  | task
  | llama
  | vectorLog
deriving DecidableEq, Repr

structure MonitoringFrame where
  inference : Option InferenceTracker.InferenceThroughput
  instanceId : String
  sessionId : Option String
  sessionStartedAt : Int
  ts : Int
  workload : ModelWorkload
  state : FrameState
  throughput : Option ℚ
  throughputUnit : String
  outputTokensPerSecond : Option ℚ
  inputTokensPerSecond : Option ℚ
  itemsPerSecond : Option ℚ
  activeRequests : Nat
  queuedRequests : Nat
  slotCapacity : Option Nat
  busySlots : Option Nat
  averageLatencyMs : Option ℚ
  successRate : Option ℚ
  source : FrameSource
  dataAgeMs : Nat
  system : Option SystemMetrics
deriving DecidableEq

structure InstanceMonitoringState where
  inference : InferenceTracker
  instanceId : String
  sessionId : Option String
  workload : ModelWorkload
  registeredAt : Int
  frameLoopPid : Option Nat
  system : Option (Timed SystemMetrics)
  llama : Option (Timed LlamaMetricSample)
  tasks : Option (Timed TaskSnapshot)
  slots : Option (Timed SlotSnapshot)
  vectorEvents : List VectorLiveEvent
  timeline : List MonitoringFrame

namespace InstanceMonitoringState

/-- `new` -/
def create (instanceId : String) (sessionId : Option String) (workload : ModelWorkload)
    (now : Int) : InstanceMonitoringState where
  inference := {}
  instanceId
  sessionId
  workload
  registeredAt := now
  frameLoopPid := none
  system := none
  llama := none
  tasks := none
  slots := none
  vectorEvents := []
  timeline := []

/-- Another session, or the same one anew: nothing is kept but the frame loop. -/
def resetSession (state : InstanceMonitoringState) (sessionId : Option String)
    (workload : ModelWorkload) (now : Int) (force : Bool) : InstanceMonitoringState :=
  if !force ∧ state.sessionId = sessionId ∧ state.workload = workload then state
  else { state with
    sessionId
    workload
    registeredAt := max now (state.registeredAt + 1)
    system := none
    inference := {}
    llama := none
    tasks := none
    slots := none
    vectorEvents := []
    timeline := [] }

/-! ### Frames -/

/-- The frame before the last one keeps no tasks. -/
def withoutTasks (frame : MonitoringFrame) : MonitoringFrame :=
  { frame with inference := frame.inference.map fun inference => { inference with tasks := [] } }

def pushFrame (state : InstanceMonitoringState) (frame : MonitoringFrame) :
    InstanceMonitoringState :=
  let timeline :=
    if state.timeline.getLast?.map (·.ts) = some frame.ts then state.timeline.dropLast
    else state.timeline
  let timeline := timeline.dropLast ++ (timeline.getLast?.map withoutTasks).toList ++ [frame]
  { state with timeline := timeline.drop (timeline.length - frameRetention) }

def trimVectorEvents (state : InstanceMonitoringState) (now : Int) : InstanceMonitoringState :=
  { state with
    vectorEvents := state.vectorEvents.dropWhile fun event =>
      decide (event.completedAt < now - 60000) }

/-- `average_value` -/
def averageValue (values : List ℚ) : Option ℚ :=
  if values.isEmpty then none else some (values.sum / values.length)

/-- `aggregate_completed_input_tps`: tokens of the log events, by the time they span. -/
def aggregateCompletedInputTps (events : List VectorLiveEvent) : Option ℚ :=
  let counted := events.filter fun event =>
    event.inputTokens.any (0 < ·) && decide (0 < event.durationMs)
  let inputTokens := (counted.map fun event => event.inputTokens.getD 0).sum
  match (counted.map fun event => event.completedAt - ⌈event.durationMs⌉).min?,
      (counted.map (·.completedAt)).max? with
  | some earliestStart, some latestEnd =>
    let observedMs := latestEnd - earliestStart
    if 0 < inputTokens ∧ 0 < observedMs then some ((inputTokens : ℚ) / ((observedMs : ℚ) / 1000))
    else none
  | _, _ => none

/-- The output rate of an inference server, and where it is from. -/
def outputRate (activeRequests : Nat) (tasks : Option TaskSnapshot)
    (llama : Option LlamaMetricSample) : Option ℚ × FrameSource :=
  if activeRequests = 0 then (some 0, .idle)
  else
    match tasks.filter (0 < ·.throughput), llama with
    | some tasks, _ => (some tasks.throughput, .task)
    | none, some llama => (some (max llama.tokensPerSec 0), .llama)
    | none, none => (none, .unavailable)

/-- The input rate of a vector server, and where it is from. -/
def inputRate (activeRequests : Nat) (tasks : Option TaskSnapshot)
    (llama : Option LlamaMetricSample) (completed : Option ℚ) : Option ℚ × FrameSource :=
  if 0 < activeRequests then
    match llama, tasks.filter (0 < ·.throughput) with
    | some llama, _ => (some (max llama.promptTokensPerSec 0), .llama)
    | none, some tasks => (some tasks.throughput, .task)
    | none, none => (none, .unavailable)
  else
    match completed with
    | some value => (some value, .vectorLog)
    | none => (some 0, .idle)

/-- The events of the last three seconds, those of the log without the ones the proxy saw. -/
def rateEvents (events : List VectorLiveEvent) (now : Int) :
    List VectorLiveEvent × List VectorLiveEvent :=
  let recent := events.filter fun event => decide (now - vectorWindowMs ≤ event.completedAt)
  let logEvents := recent.filter (·.source = .log)
  (deduplicatedVectorRateEvents (recent.filter (·.source = .proxy)) logEvents, logEvents)

/-- The frame of a state without old vector events. -/
def frame (state : InstanceMonitoringState) (now : Int) : MonitoringFrame :=
  let tasks := freshValue state.tasks now taskFreshnessMs
  let llama := freshValue state.llama now metricFreshnessMs
  let slots := freshValue state.slots now metricFreshnessMs
  let system := freshValue state.system now systemFreshnessMs
  let vector := isVector state.workload
  let activeRequests :=
    ((tasks.map (·.active)).orElse fun _ => llama.map (·.requestsProcessing)).getD 0
  let (rates, logEvents) := rateEvents state.vectorEvents now
  let itemsPerSecond : Option ℚ :=
    if vector then some (((rates.map fun event => (event.itemCount : ℚ)).sum) / 3) else none
  let output := outputRate activeRequests tasks llama
  let input := inputRate activeRequests tasks llama (aggregateCompletedInputTps logEvents)
  let outputTokensPerSecond := if vector then none else output.1
  let inputTokensPerSecond :=
    if vector then input.1 else llama.map fun llama => max llama.promptTokensPerSec 0
  let vectorActivity :=
    vector && (decide (0 < itemsPerSecond.getD 0) || decide (0 < inputTokensPerSecond.getD 0))
  let hasFreshData := tasks.isSome || llama.isSome || slots.isSome || system.isSome
  let newest := ([state.system.map (·.ts), state.llama.map (·.ts), state.tasks.map (·.ts),
    state.slots.map (·.ts)].filterMap id).max?
  { inference :=
      if vector then none
      else some (state.inference.snapshot now (((slots.map (·.busy)).orElse fun _ =>
        tasks.map (·.active)).orElse fun _ => llama.map (·.requestsProcessing)))
    instanceId := state.instanceId
    sessionId := state.sessionId
    sessionStartedAt := state.registeredAt
    ts := now - now % frameIntervalMs
    workload := state.workload
    state :=
      if 0 < activeRequests ∨ vectorActivity then .active
      else if hasFreshData then .idle
      else if now - state.registeredAt < systemFreshnessMs then .warming
      else .unavailable
    throughput := if vector then inputTokensPerSecond else outputTokensPerSecond
    throughputUnit := if vector then "input tok/s" else "tok/s"
    outputTokensPerSecond
    inputTokensPerSecond
    itemsPerSecond
    activeRequests
    queuedRequests := (llama.map (·.requestsDeferred)).getD 0
    slotCapacity := slots.map (·.capacity)
    busySlots := slots.map (·.busy)
    averageLatencyMs := averageValue ((rates.map (·.durationMs)).filter (0 ≤ ·))
    successRate :=
      if rates.isEmpty then none
      else some (((rates.countP (·.succeeded) : Nat) : ℚ) / rates.length * 100)
    source := if vector then input.2 else output.2
    dataAgeMs := (now - newest.getD state.registeredAt).toNat
    system }

/-- `build_frame` -/
def buildFrame (state : InstanceMonitoringState) (now : Int) :
    InstanceMonitoringState × MonitoringFrame :=
  let state := state.trimVectorEvents now
  (state, state.frame now)

/-- `sample_frame`, on the state of the instance. -/
def sampleFrame (state : InstanceMonitoringState) (now : Int) : InstanceMonitoringState :=
  let (state, frame) := state.buildFrame now
  state.pushFrame frame

end InstanceMonitoringState

end LlamaServerManager.Monitoring
