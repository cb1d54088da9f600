import LlamaServerManager.Checkpoint.Manifest
import Mathlib.Data.List.Sort

/-!
`CheckpointCoordinator` in `checkpoint.rs`: what it keeps of every instance and
what is done to it while its lock is held. Each function here is one such section.
-/

namespace LlamaServerManager.Checkpoint

open Lib

/-! ### What is kept -/

inductive CheckpointPhase where
  | disabled
  | ineligible
  | starting
  | engineHealthy
  | restoring
  | restartRequired
  | ready
  | readyCold
  | draining
  | saving
  | stopping
  | stopped
deriving DecidableEq, Repr

def CheckpointPhase.isRoutable : CheckpointPhase → Bool
  | .ready | .readyCold => true
  | _ => false

inductive CheckpointOperation where
  | none
  | save
  | restore
  | clear
deriving DecidableEq, Repr

inductive CheckpointOutcome where
  | none
  | success
  | skipped
  | failed
deriving DecidableEq, Repr

structure CheckpointReuseObservation where
  slotId : Nat
  taskId : Nat
  cachedTokens : Nat
  processedTokens : Nat
  observedAt : Nat
deriving DecidableEq, Repr

structure CheckpointStatus where
  instanceId : String
  expectedPid : Option Nat
  phase : CheckpointPhase
  routable : Bool
  lastOperation : CheckpointOperation
  lastOutcome : CheckpointOutcome
  reasonCode : ReasonCode
  message : String
  generationId : Option String
  checkpointSlots : List Nat
  slotCount : Option Nat
  promptTokens : Option Nat
  bytes : Option Nat
  durationMs : Option Nat
  reuseObservation : Option CheckpointReuseObservation
  updatedAt : Nat
deriving DecidableEq, Repr

def CheckpointStatus.disabled (instanceId : String) (updatedAt : Nat) : CheckpointStatus where
  instanceId
  expectedPid := none
  phase := .disabled
  routable := false
  lastOperation := .none
  lastOutcome := .none
  reasonCode := .disabled
  message := ""
  generationId := none
  checkpointSlots := []
  slotCount := none
  promptTokens := none
  bytes := none
  durationMs := none
  reuseObservation := none
  updatedAt

def CheckpointStatus.withPhase (status : CheckpointStatus) (phase : CheckpointPhase) :
    CheckpointStatus :=
  { status with phase, routable := phase.isRoutable }

structure KvCheckpointConfig where
  enabled : Bool := false
  autoSave : Bool := true
  autoRestore : Bool := true
  storageLimitGib : Nat := 8
  minimumPromptTokens : Nat := 256
  idleSaveSeconds : Nat := 0
  preserveLonger : Bool := false
  allowLocalValidation : Bool := false
deriving DecidableEq, Repr

/-- Times are milliseconds of a monotonic clock. -/
structure IdleSaveSchedule where
  dirty : Bool := false
  task : Option Nat := none
  completedTask : Option Nat := none
  quietSince : Option Nat := none
  attemptedAt : Option Nat := none
deriving DecidableEq, Repr

/-- What the coordinator keeps of an instance, in one map under one mutex. -/
structure CoordinatorEntry where
  gateActive : Bool
  stopRequested : Bool
  status : CheckpointStatus
  fingerprint : Option CheckpointFingerprint
  policy : KvCheckpointConfig
  coldRecovery : Bool
  slotCount : Nat
  /-- In the order of their slots. -/
  idleSlots : List (Nat × Option Nat)
  idle : IdleSaveSchedule
deriving DecidableEq, Repr

abbrev Entries := Dict String CoordinatorEntry

/-- What registration reads of `CheckpointEligibility`. -/
structure CheckpointEligibility where
  eligible : Bool
  reasonCode : ReasonCode
  slotCount : Nat
deriving DecidableEq, Repr

/-- What the coordinator reads of a `SlotSnapshotRecord` of the telemetry. -/
structure SlotSnapshotRecord where
  slotId : Nat
  isProcessing : Bool
  taskId : Option Nat
  cachedTokens : Option Nat
  processedTokens : Option Nat
deriving DecidableEq, Repr

structure CheckpointOperationUpdate where
  operation : CheckpointOperation
  outcome : CheckpointOutcome
  reasonCode : ReasonCode
  message : String
  generation : Option CheckpointManifest
  durationMs : Nat

def legalCheckpointTransition : CheckpointPhase → CheckpointPhase → Bool
  | .starting, .engineHealthy => true
  | .starting, .stopping => true
  | .engineHealthy, .restoring => true
  | .engineHealthy, .readyCold => true
  | .engineHealthy, .stopping => true
  | .restoring, .ready => true
  | .restoring, .readyCold => true
  | .restoring, .restartRequired => true
  | .restoring, .stopping => true
  | .restartRequired, .stopping => true
  | .ready, .draining => true
  | .readyCold, .draining => true
  | .ready, .stopping => true
  | .readyCold, .stopping => true
  | .draining, .saving => true
  | .draining, .stopping => true
  | .saving, .stopping => true
  | .stopping, .stopped => true
  | .stopping, .ready => true
  | .stopping, .readyCold => true
  | .disabled, .stopped => true
  | .ineligible, .stopped => true
  | _, _ => false

/-! ### Idle saving -/

/-- `observe`: whether an idle save is due now. -/
def IdleSaveSchedule.observe (idle : IdleSaveSchedule) (processing : Bool) (task : Option Nat)
    (now seconds : Nat) : IdleSaveSchedule × Bool :=
  let idle :=
    if processing ∨ (task.isSome ∧ task ≠ idle.task) then
      { idle with dirty := true, quietSince := none }
    else idle
  let idle := if task.isSome then { idle with task } else idle
  if processing then (idle, false)
  else
    let quiet := idle.quietSince.getD now
    let idle := { idle with quietSince := some quiet }
    if !idle.dirty ∨ now - quiet < seconds * 1000 ∨
        idle.attemptedAt.any (now - · < 60 * 1000) then (idle, false)
    else ({ idle with dirty := false, attemptedAt := some now }, true)

/-- The task of every slot, in the order of the slots; the last record of a slot counts. -/
def slotTasks (slots : List SlotSnapshotRecord) : List (Nat × Option Nat) :=
  ((slots.map (·.slotId)).dedup.insertionSort (· ≤ ·)).map fun id =>
    (id, (slots.reverse.find? (·.slotId == id)).bind (·.taskId))

/-! ### Sections -/

namespace Coordinator

def staleProcess (message : String) : StoreError := ⟨.staleProcessEvent, message⟩

/-- The entry of an instance, if it belongs to the process. -/
def ownEntry (instanceId : String) (expectedPid : Nat) (entries : Entries) :
    Except StoreError CoordinatorEntry :=
  match entries.lookup instanceId with
  | none => .error (staleProcess "checkpoint event has no active process")
  | some entry => do
    require (entry.status.expectedPid = some expectedPid)
      (staleProcess "checkpoint event belongs to a stale process")
    return entry

/-- A section that can fail leaves the entries alone when it does. -/
def replaceEntry {α : Type} (instanceId : String) (entries : Entries) :
    Except StoreError (α × CoordinatorEntry) → Except StoreError α × Entries
  | .error e => (.error e, entries)
  | .ok (a, entry) => (.ok a, entries.insert instanceId entry)

/-- A change of the entry of a process, if it passes the test. -/
def changeOwn (instanceId : String) (expectedPid : Nat) (entries : Entries)
    (test : CoordinatorEntry → Bool) (change : CoordinatorEntry → CoordinatorEntry) : Entries :=
  match entries.lookup instanceId with
  | none => entries
  | some entry =>
    if entry.status.expectedPid = some expectedPid ∧ test entry then
      entries.insert instanceId (change entry)
    else entries

def prepareColdRecovery (instanceId : String) (expectedPid : Nat) (entries : Entries) :
    Except StoreError Unit × Entries :=
  match entries.lookup instanceId with
  | none => (.error (staleProcess "cold recovery requires a fresh starting process"), entries)
  | some entry =>
    if entry.status.expectedPid = some expectedPid ∧ entry.status.phase = .starting then
      (.ok (), entries.insert instanceId
        { entry with coldRecovery := true, policy := { entry.policy with autoRestore := false } })
    else (.error (staleProcess "cold recovery requires a fresh starting process"), entries)

def registeredCheckpoint (instanceId : String) (expectedPid : Nat) (entries : Entries) :
    Except StoreError (Option (CheckpointFingerprint × KvCheckpointConfig)) := do
  let entry ← ownEntry instanceId expectedPid entries
  return entry.fingerprint.map fun fingerprint => (fingerprint, entry.policy)

def status (instanceId : String) (entries : Entries) : Option CheckpointStatus :=
  (entries.lookup instanceId).map (·.status)

def idleSaveDue (instanceId : String) (pid : Nat) (slots : List SlotSnapshotRecord)
    (activeRequests now : Nat) (entries : Entries) : Bool × Entries :=
  match entries.lookup instanceId with
  | none => (false, entries)
  | some entry =>
    if !entry.gateActive ∨ entry.stopRequested ∨ entry.status.expectedPid ≠ some pid ∨
        !entry.status.phase.isRoutable ∨ !entry.policy.autoSave ∨
        entry.policy.idleSaveSeconds = 0 then (false, entries)
    else
      let tasks := slotTasks slots
      if slots.length ≠ entry.slotCount ∨ tasks.length ≠ slots.length ∨
          tasks.map (·.1) ≠ List.range entry.slotCount then
        (false, entries.insert instanceId
          { entry with idle := { entry.idle with quietSince := none } })
      else
        let entry :=
          if entry.idleSlots ≠ tasks then
            { entry with
              idle := { entry.idle with dirty := true, quietSince := none }
              idleSlots := tasks }
          else entry
        let (idle, due) := entry.idle.observe (slots.any (·.isProcessing) || activeRequests > 0)
          none now entry.policy.idleSaveSeconds
        (due, entries.insert instanceId { entry with idle })

def slotCount (instanceId : String) (pid : Nat) (entries : Entries) : Except StoreError Nat :=
  match entries.lookup instanceId with
  | none => .error (staleProcess "stale checkpoint process")
  | some entry =>
    if entry.status.expectedPid = some pid then .ok entry.slotCount
    else .error (staleProcess "stale checkpoint process")

def observeCompletedRequest (instanceId : String) (pid task : Nat) (entries : Entries) : Entries :=
  changeOwn instanceId pid entries
    (fun entry => entry.gateActive && entry.status.phase.isRoutable &&
      entry.idle.completedTask != some task)
    fun entry => { entry with
      idle := { entry.idle with completedTask := some task, dirty := true, quietSince := none } }

def observeRestoredRequest (instanceId : String) (expectedPid : Nat) (slot : SlotSnapshotRecord)
    (now : Nat) (entries : Entries) : Entries :=
  match slot.taskId, slot.cachedTokens, slot.processedTokens with
  | some taskId, some cachedTokens, some processedTokens =>
    -- A pair of zeros is no measurement.
    if cachedTokens = 0 ∧ processedTokens = 0 then entries
    else
      changeOwn instanceId expectedPid entries
        (fun entry => entry.status.phase == .ready && slot.slotId < entry.slotCount &&
          !entry.status.reuseObservation.any fun value =>
            value.taskId == taskId && value.slotId == slot.slotId &&
              value.cachedTokens == cachedTokens && value.processedTokens == processedTokens)
        fun entry => { entry with status := { entry.status with
          reuseObservation := some ⟨slot.slotId, taskId, cachedTokens, processedTokens, now⟩ } }
  | _, _, _ => entries

/-- The entry of an instance whose data was cleared. -/
def clearedEntry (status : CheckpointStatus) : CoordinatorEntry where
  gateActive := false
  stopRequested := false
  status
  fingerprint := none
  policy := {}
  coldRecovery := false
  slotCount := 1
  idleSlots := []
  idle := {}

/-- `clear_instance`, the store being cleared while the lock is held: `cleared` says
what came of it. -/
def clearInstance (instanceId : String) (cleared : Except StoreError Bool) (now : Nat)
    (entries : Entries) : Except StoreError CheckpointStatus × Entries :=
  if (entries.lookup instanceId).any fun entry =>
      entry.status.expectedPid.isSome && entry.status.phase != .stopped then
    (.error ⟨.clearWhileRunning, "checkpoint cannot be cleared while the instance is running"⟩,
      entries)
  else
    match cleared with
    | .error e => (.error e, entries)
    | .ok removed =>
      let status := ((entries.lookup instanceId).map (·.status)).getD
        ((CheckpointStatus.disabled instanceId now).withPhase .stopped)
      let status : CheckpointStatus :=
        { status with
          expectedPid := none
          phase := .stopped
          routable := false
          lastOperation := .clear
          lastOutcome := if removed then .success else .skipped
          reasonCode := if removed then .none else .noCheckpoint
          message := if removed then "checkpoint data cleared" else "no checkpoint data was present"
          generationId := none
          promptTokens := none
          checkpointSlots := []
          slotCount := none
          bytes := none
          durationMs := some 0
          reuseObservation := none
          updatedAt := now }
      (.ok status, entries.insert instanceId (clearedEntry status))

def gateAllowsRouting (instanceId : String) (entries : Entries) : Bool :=
  ((entries.lookup instanceId).map fun entry =>
    !entry.stopRequested && (!entry.gateActive || entry.status.routable)).getD true

def gateActive (instanceId : String) (entries : Entries) : Bool :=
  ((entries.lookup instanceId).map (·.gateActive)).getD false

def requestStop (instanceId : String) (pid : Nat) (stopping : Bool) (entries : Entries) : Entries :=
  changeOwn instanceId pid entries (fun _ => true) fun entry =>
    { entry with
      stopRequested := stopping
      status := { entry.status with
        routable := !stopping && (!entry.gateActive || entry.status.phase.isRoutable) } }

def transition (instanceId : String) (expectedPid : Nat) (next : CheckpointPhase) (now : Nat)
    (entries : Entries) : Except StoreError CheckpointStatus × Entries :=
  replaceEntry instanceId entries do
    let entry ← ownEntry instanceId expectedPid entries
    require (legalCheckpointTransition entry.status.phase next)
      ⟨.invalidStateTransition, "checkpoint state transition is invalid"⟩
    let status := { entry.status with
      phase := next
      routable := !entry.stopRequested && next.isRoutable
      updatedAt := now }
    return (status, { entry with status })

def updateOperation (instanceId : String) (expectedPid : Nat) (update : CheckpointOperationUpdate)
    (now : Nat) (entries : Entries) : Except StoreError CheckpointStatus × Entries :=
  replaceEntry instanceId entries do
    let entry ← ownEntry instanceId expectedPid entries
    let status := { entry.status with
      lastOperation := update.operation
      lastOutcome := update.outcome
      reasonCode := update.reasonCode
      message := update.message
      durationMs := some update.durationMs
      updatedAt := now }
    let status := match update.generation with
      | none => status
      | some manifest => { status with
          generationId := some manifest.generationId
          promptTokens := some manifest.promptTokens
          checkpointSlots := manifest.slots.map (·.id)
          slotCount := some manifest.slotCount
          bytes := some manifest.payloadBytes }
    return (status, { entry with status })

def coldRecovery (instanceId : String) (entries : Entries) : Bool :=
  ((entries.lookup instanceId).map (·.coldRecovery)).getD false

/-- The section of `mark_stopped` for a process without a gate. -/
def stopUngated (instanceId : String) (expectedPid : Nat) (now : Nat) (entries : Entries) :
    Except StoreError CheckpointStatus × Entries :=
  replaceEntry instanceId entries do
    let entry ← ownEntry instanceId expectedPid entries
    let status := { entry.status with phase := .stopped, routable := false, updatedAt := now }
    return (status, { entry with status })

/-- The last section of `mark_stopped`: it does not ask whose entry it is. -/
def closeGate (instanceId : String) (entries : Entries) : Entries :=
  match entries.lookup instanceId with
  | none => entries
  | some entry => entries.insert instanceId { entry with gateActive := false }

def markUnexpectedExit (instanceId : String) (expectedPid : Nat) (now : Nat) (entries : Entries) :
    Except StoreError CheckpointStatus × Entries :=
  replaceEntry instanceId entries do
    let entry ← ownEntry instanceId expectedPid entries
    let status := { entry.status with phase := .stopped, routable := false, updatedAt := now }
    let status :=
      if entry.status.phase = .stopping then status
      else { status with
        lastOutcome := .skipped
        reasonCode := .unexpectedExit
        message := "process exited before checkpoint save" }
    return (status, { entry with gateActive := false, status })

end Coordinator

end LlamaServerManager.Checkpoint
