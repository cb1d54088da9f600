import LlamaServerManager.Lib.Dict
import LlamaServerManager.Monitoring.CounterWindow
import Mathlib.Data.Finset.Card
import Mathlib.Data.List.Sort
import Mathlib.Data.Prod.Lex
import Mathlib.Data.Rat.Floor

/-!
The requests that a server works on, as its log and the samples of its slots report them
(`InferenceTracker` of `commands/inference_metrics.rs`). Times are whole milliseconds, also
those of the log lines, whose seconds have two places; rates are fractions.
-/

namespace LlamaServerManager.Monitoring

open Lib

/-! ### Readings -/

inductive ReadingState where
  | sampling
  | stale
  | unavailable
  | idle
  /-- `partial` in the source. -/
  | partly
  | live
deriving DecidableEq, Repr

inductive ReadingSource where
  | none
  | log
  | slots
  | mixed
deriving DecidableEq, Repr

structure RateReading where
  value : Option ℚ
  state : ReadingState
  source : ReadingSource
  sampledAt : Option Int
  windowMs : Option Nat
  covered : Nat
  expected : Nat
deriving DecidableEq

def RateReading.empty (state : ReadingState) : RateReading where
  value := none
  state
  source := .none
  sampledAt := none
  windowMs := none
  covered := 0
  expected := 1

def RateReading.idle : RateReading :=
  { RateReading.empty .idle with value := some 0, expected := 0 }

structure Signal where
  samples : List Sample := []
  updated : Option Int := none
  direct : Option (ℚ × Nat) := none
deriving DecidableEq

def Signal.reading (signal : Signal) (now : Int) (source : ReadingSource) : RateReading :=
  match signal.updated with
  | none => .empty .sampling
  | some ts =>
    if now < ts ∨ freshMs < now - ts then .empty .stale
    else
      match signal.direct.orElse fun _ => rate signal.samples with
      | none => .empty .sampling
      | some (rate, window) =>
        { value := some rate
          state := .live
          source
          sampledAt := some ts
          windowMs := some window
          covered := 1
          expected := 1 }

def Signal.push (signal : Signal) (now clock : Int) (count : Nat) : Signal :=
  let (accepted, samples) := Monitoring.push signal.samples ⟨clock, count⟩
  { signal with samples, updated := if accepted then some now else signal.updated }

/-! ### Tasks -/

inductive TaskPhase where
  | unknown
  | prefill
  | decode
deriving DecidableEq, Repr

structure SlotObservation where
  slot : Nat
  task : Option Nat
  processing : Bool
  processed : Option Nat
  generated : Option Nat
  cached : Option Nat
deriving DecidableEq, Repr

inductive LogObservation where
  | start
  | prefill (tokens : Nat) (elapsedMs : Int) (average : ℚ) (progress : Option ℚ)
  | decode (tokens : Nat) (average : ℚ) (recent : Option ℚ)
  | finish
deriving DecidableEq

structure Task where
  slot : Nat
  id : Nat
  started : Int
  observed : Int
  phase : TaskPhase := .unknown
  processed : Option Nat := none
  generated : Option Nat := none
  cached : Option Nat := none
  progress : Option ℚ := none
  prefillAverage : Option ℚ := none
  decodeAverage : Option ℚ := none
  decodeLogTokens : Option Nat := none
  slotsAvailable : Option Bool := none
  prefillLog : Signal := {}
  decodeLog : Signal := {}
  prefillSlots : Signal := {}
  decodeSlots : Signal := {}
deriving DecidableEq

/-- `Task::new`. -/
def Task.create (slot id : Nat) (now : Int) : Task := { slot, id, started := now, observed := now }

structure InferenceTask where
  slotId : Nat
  taskId : Nat
  phase : TaskPhase
  startedAt : Int
  processedTokens : Option Nat
  generatedTokens : Option Nat
  cachedTokens : Option Nat
  progress : Option ℚ
  prefillAverage : Option ℚ
  decodeAverage : Option ℚ
  prefill : RateReading
  decode : RateReading
deriving DecidableEq

/-- A task is fresh for five seconds. -/
def Task.fresh (task : Task) (now : Int) : Bool :=
  decide (task.observed ≤ now) && decide (now - task.observed ≤ freshMs)

/-- The rate of one phase, from the log or else from the slots. -/
def Task.reading (task : Task) (now : Int) (wanted : TaskPhase) (log slots : Signal) :
    RateReading :=
  let phase := if task.fresh now then task.phase else .unknown
  if !task.fresh now then .empty .stale
  else if phase = .unknown then
    .empty (if task.slotsAvailable = some false then .unavailable else .sampling)
  else if phase ≠ wanted then .idle
  else
    let fromLog := log.reading now .log
    let fromSlots := slots.reading now .slots
    if fromLog.value.isSome then fromLog
    else if fromSlots.value.isSome then fromSlots
    else if fromLog.state = .stale ∧ (fromSlots.state ≠ .sampling ∨ slots.updated = none) then
      fromLog
    else fromSlots

def Task.snapshot (task : Task) (now : Int) : InferenceTask where
  slotId := task.slot
  taskId := task.id
  phase := if task.fresh now then task.phase else .unknown
  startedAt := task.started
  processedTokens := task.processed
  generatedTokens := task.generated
  cachedTokens := task.cached
  progress := task.progress
  prefillAverage := task.prefillAverage
  decodeAverage := task.decodeAverage
  prefill := task.reading now .prefill task.prefillLog task.prefillSlots
  decode := task.reading now .decode task.decodeLog task.decodeSlots

def validRate (value : ℚ) : Option ℚ := if 0 ≤ value then some value else none

/-- The rate that a log line gives with the interval it must be about. -/
def directRate (tokens previous : Nat) (recent : Option ℚ) : Option (ℚ × Nat) := do
  let rate ← recent.bind validRate
  if tokens < previous then none
  else
    let ms := ((tokens - previous : Nat) : ℚ) * 1000 / rate
    if 0 < rate ∧ 100 ≤ ms ∧ ms ≤ freshMs then some (rate, (round ms).toNat) else none

/-- What a line of the log says about a task. -/
def Task.log (task : Task) (now : Int) : LogObservation → Task
  | .start => task
  | .prefill tokens elapsedMs average progress =>
    if task.phase = .decode then task
    else { task with
      phase := .prefill
      processed := some tokens
      progress := progress.filter fun value => decide (0 ≤ value) && decide (value ≤ 1)
      prefillAverage := validRate average
      prefillLog := task.prefillLog.push now elapsedMs tokens }
  | .decode tokens average recent =>
    let previous := task.decodeLogTokens.getD 0
    { task with
      phase := .decode
      generated := some tokens
      decodeAverage := validRate average
      decodeLogTokens := some tokens
      decodeLog :=
        if tokens ≠ previous then
          { task.decodeLog with direct := directRate tokens previous recent, updated := some now }
        else task.decodeLog }
  | .finish => task

/-- `slots_available`: the slot says how far it is. -/
def SlotObservation.available (slot : SlotObservation) : Bool :=
  slot.generated.isSome && (slot.generated.any (0 < ·) || slot.processed.isSome)

/-- The phase is not known from the slot, nor from a line of the last seconds. -/
def Task.unknownPhase (task : Task) (available : Bool) (sampledAt : Int) : Bool :=
  !available && !([task.prefillLog.updated, task.decodeLog.updated].any fun updated =>
    updated.any fun ts => decide (sampledAt - ts ≤ freshMs))

/-- What a slot sample says about generated tokens. -/
def Task.sampleGenerated (task : Task) (generated : Option Nat) (sampledAt : Int) : Task :=
  match generated with
  | none => task
  | some count =>
    if 0 < count then { task with
      generated := some count
      phase := .decode
      decodeSlots := task.decodeSlots.push sampledAt sampledAt count }
    else { task with generated := some count }

/-- What a slot sample says about processed tokens. -/
def Task.sampleProcessed (task : Task) (slot : SlotObservation) (sampledAt : Int) : Task :=
  match slot.processed with
  | none => task
  | some count => { task with
      processed := some count
      prefillSlots := task.prefillSlots.push sampledAt sampledAt count
      phase :=
        if task.phase ≠ .decode ∧ 0 < count ∧ slot.generated = some 0 then .prefill
        else task.phase }

/-- What a slot sample says about a task. -/
def Task.sample (task : Task) (slot : SlotObservation) (sampledAt : Int) : Task :=
  let task := { task with
    observed := sampledAt
    cached := slot.cached
    slotsAvailable := some slot.available
    phase := if task.unknownPhase slot.available sampledAt then .unknown else task.phase }
  (task.sampleGenerated slot.generated sampledAt).sampleProcessed slot sampledAt

/-! ### The tracker -/

/-- A slot and a task. -/
abbrev TaskKey := Nat × Nat

abbrev Tasks := Dict TaskKey Task

/-- The tasks that are followed, by slot and task, and when those that ended did; an
ended task is kept a while so that a late line does not bring it back. -/
structure InferenceTracker where
  tasks : Tasks := ∅
  finished : Dict TaskKey Int := ∅
  slotsAt : Option Int := none
  unidentifiedSlots : Finset Nat := ∅
  lastLog : Option Int := none

namespace InferenceTracker

def maxTasks : Nat := 512
def keptMs : Int := 60000
def finishedMs : Int := 30000

/-- The key of the first of the tasks that were observed longest ago. -/
def oldest : List ((_ : TaskKey) × Task) → Option (TaskKey × Int)
  | [] => none
  | ⟨key, task⟩ :: entries =>
    match oldest entries with
    | none => some (key, task.observed)
    | some (older, observed) =>
      if observed < task.observed then some (older, observed) else some (key, task.observed)

/-- A task observed longest ago goes; the source's map has no order of its own. -/
def evict (tasks : Tasks) : Tasks :=
  match oldest tasks.entries with
  | none => tasks
  | some (key, _) => tasks.erase key

/-- The other tasks of the slot go, and those not observed for a minute. -/
def retain (slot id : Nat) (now : Int) (tasks : Tasks) : Tasks :=
  Dict.filter (fun key task =>
    (decide (key.1 ≠ slot) || decide (key.2 = id)) && decide (now - task.observed ≤ keptMs)) tasks

def makeRoom (key : TaskKey) (tasks : Tasks) : Tasks :=
  if maxTasks ≤ tasks.size ∧ key ∉ tasks then evict tasks else tasks

/-- `task`: the task of a slot, created if there is none, and the others that stay. -/
def task (slot id : Nat) (now : Int) (tasks : Tasks) : Task × Tasks :=
  let tasks := makeRoom (slot, id) (retain slot id now tasks)
  match tasks.lookup (slot, id) with
  | some task => (task, tasks)
  | none =>
    let task := Task.create slot id now
    (task, tasks.insert (slot, id) task)

def log (tracker : InferenceTracker) (slot id : Nat) (observation : LogObservation) (now : Int) :
    InferenceTracker :=
  let tracker := { tracker with
    lastLog := some now
    finished := Dict.filter (fun _ ts => decide (now - ts ≤ finishedMs)) tracker.finished }
  if observation = .finish then
    -- Only a fresh sample of the slots can say whether another task has the slot by now.
    { tracker with
      tasks := tracker.tasks.erase (slot, id)
      finished := tracker.finished.insert (slot, id) now }
  -- A late line does not bring a released task back.
  else if (slot, id) ∈ tracker.finished then tracker
  else
    let (task, tasks) := task slot id now tracker.tasks
    { tracker with
      unidentifiedSlots := tracker.unidentifiedSlots.erase slot
      tasks := tasks.insert (slot, id) (({ task with observed := now } : Task).log now observation) }

/-- A task of the slot was observed after the sample was taken. -/
def newerTask (tasks : Tasks) (slot : Nat) (sampledAt : Int) : Bool :=
  tasks.entries.any fun entry =>
    decide (entry.2.slot = slot) && decide (sampledAt < entry.2.observed)

/-- One busy slot of a sample. -/
def takeSlot (sampledAt : Int) (tracker : InferenceTracker) (slot : SlotObservation) :
    InferenceTracker :=
  match slot.task with
  | none => tracker
  | some id =>
    if newerTask tracker.tasks slot.slot sampledAt then tracker
    else if (tracker.finished.lookup (slot.slot, id)).any fun ts => decide (sampledAt ≤ ts) then
      tracker
    else
      let (task, tasks) := task slot.slot id sampledAt tracker.tasks
      if sampledAt < task.observed then { tracker with tasks }
      else { tracker with tasks := tasks.insert (slot.slot, id) (task.sample slot sampledAt) }

/-- A sample has the task on its slot. -/
def reports (slots : List SlotObservation) (key : TaskKey) : Bool :=
  slots.any fun value =>
    decide (value.slot = key.1) && value.processing && decide (value.task = some key.2)

def slots (tracker : InferenceTracker) (slots : List SlotObservation) (sampledAt : Int) :
    InferenceTracker :=
  if tracker.slotsAt.any fun ts => decide (sampledAt ≤ ts) then tracker
  else
    let tracker := { tracker with
      slotsAt := some sampledAt
      unidentifiedSlots :=
        ((slots.filter fun slot => slot.processing && slot.task.isNone).map (·.slot)).toFinset
      tasks := Dict.filter (fun key task => decide (sampledAt < task.observed) || reports slots key)
        tracker.tasks }
    (slots.filter (·.processing)).foldl (takeSlot sampledAt) tracker

/-! ### Snapshots -/

structure InferenceThroughput where
  prefill : RateReading
  decode : RateReading
  tasks : List InferenceTask
deriving DecidableEq

/-- How many tasks there should be, if that is known. -/
def expected (tracker : InferenceTracker) (now : Int) (activeHint : Option Nat) : Option Nat :=
  let freshSlots := tracker.slotsAt.any fun ts => decide (ts ≤ now) && decide (now - ts ≤ freshMs)
  let logAfterSlots := tracker.lastLog.any fun ts =>
    tracker.slotsAt.all (fun at' => decide (at' < ts)) && decide (now - ts ≤ freshMs)
  if freshSlots then
    some (tracker.tasks.size + (tracker.unidentifiedSlots.filter fun slot =>
      tracker.tasks.entries.all fun entry => decide (entry.2.slot ≠ slot)).card)
  else if logAfterSlots then some tracker.tasks.size
  else activeHint

/-- The tasks, in the order of their slots. -/
def listed (tracker : InferenceTracker) (now : Int) : List InferenceTask :=
  (tracker.tasks.entries.map fun entry => entry.2.snapshot now).insertionSort
    fun a b => toLex (a.slotId, a.taskId) ≤ toLex (b.slotId, b.taskId)

/-- The state of an aggregate. -/
def aggregateState (readings : List RateReading) (covered expected : Nat) : ReadingState :=
  if 0 < covered then
    if covered < expected then .partly
    else if readings.all (·.state = .idle) then .idle
    else .live
  else if readings.any (·.state = .stale) then .stale
  else if readings.isEmpty || readings.any (·.state = .unavailable) then .unavailable
  else .sampling

def aggregateSource (readings : List RateReading) : ReadingSource :=
  let sources := (readings.filter (·.state = .live)).map (·.source)
  if sources.all (· = .log) then .log
  else if sources.all (· = .slots) then .slots
  else .mixed

/-- `aggregate`: one phase of all tasks. -/
def aggregate (expected : Option Nat) (readings : List RateReading) : RateReading :=
  if expected = some 0 then .idle
  else
    let expected := max (expected.getD readings.length) readings.length
    if expected = 0 then .empty .unavailable
    else
      let covered := readings.countP (·.value.isSome)
      let result := { RateReading.empty (aggregateState readings covered expected) with
        expected, covered }
      if 0 < covered then { result with
        value := some ((readings.filterMap (·.value)).sum)
        source := aggregateSource readings
        sampledAt := (readings.filterMap (·.sampledAt)).min?
        windowMs := (readings.filterMap (·.windowMs)).max? }
      else result

def snapshot (tracker : InferenceTracker) (now : Int) (activeHint : Option Nat) :
    InferenceThroughput :=
  let expected := tracker.expected now activeHint
  let tasks := if expected = some 0 then [] else tracker.listed now
  { prefill := aggregate expected (tasks.map (·.prefill))
    decode := aggregate expected (tasks.map (·.decode))
    tasks }

end InferenceTracker

end LlamaServerManager.Monitoring
