import LlamaServerManager.Checkpoint.Operations

/-!
Who calls the coordinator for a running process: the monitor once the engine is
healthy (`resolve_checkpoint_startup`), whoever stops it
(`checkpoint_before_termination` and what follows the attempt to kill it), and the
poll that saves an idle instance (`checkpoint_idle.rs`).
-/

namespace LlamaServerManager.Checkpoint

open Lib

namespace Coordinator

/-! ### The monitor -/

def restoreRestartRequired (instanceId : String) (expectedPid : Nat) : Fallible Bool := do
  let found : Option CheckpointStatus ← lock (.status instanceId)
  return found.any fun status =>
    status.expectedPid == some expectedPid && status.phase == .restartRequired &&
      status.lastOperation == .restore && status.lastOutcome == .failed

/-- What follows a lookup of the registration. -/
def restoreRegistered (instanceId : String) (expectedPid : Nat) :
    Option (CheckpointFingerprint × KvCheckpointConfig) → Fallible CheckpointStatus
  | none =>
    failRestoreSetup instanceId expectedPid
      ⟨.fingerprintUnavailable, "checkpoint fingerprint was not registered"⟩
  | some (fingerprint, policy) => do
    let client : Except StoreError Unit ← ask .slotClient
    match client with
    | .ok () => restoreOrCold instanceId expectedPid fingerprint policy.autoRestore
    | .error e => failRestoreSetup instanceId expectedPid e

/-- The part of the start that is for a process whose engine has just become healthy. -/
def resolveHealthy (instanceId : String) (expectedPid : Nat) : Fallible Bool := do
  let registered : Except StoreError (Option (CheckpointFingerprint × KvCheckpointConfig)) ←
    lock (.registeredCheckpoint instanceId expectedPid)
  match registered with
  | .error _ => lock (.gateAllowsRouting instanceId)
  | .ok registered => do
    let _ ← attempt (restoreRegistered instanceId expectedPid registered)
    lock (.gateAllowsRouting instanceId)

def resolveStarted (instanceId : String) (expectedPid : Nat) : Fallible Bool := do
  let healthy ← attempt (onEngineHealthy instanceId expectedPid)
  match healthy with
  | .error _ => lock (.gateAllowsRouting instanceId)
  | .ok _ => resolveHealthy instanceId expectedPid

/-- `resolve_checkpoint_startup` behind the gate. -/
def resolveGated (instanceId : String) (expectedPid : Nat) : Fallible Bool := do
  let required ← restoreRestartRequired instanceId expectedPid
  if required then pure false else resolveStarted instanceId expectedPid

def resolveCheckpointStartup (instanceId : String) (expectedPid : Nat) : Fallible Bool := do
  let active : Bool ← lock (.gateActive instanceId)
  if active then resolveGated instanceId expectedPid else pure true

/-! ### Stopping a process -/

/-- `CHECKPOINT_DRAIN_TIMEOUT`, in milliseconds. -/
def checkpointDrainTimeout : Nat := 15000

def failSave (instanceId : String) (expectedPid : Nat) (error : StoreError) :
    Fallible CheckpointStatus := do
  let elapsed : Nat ← ask .elapsed
  failSaveSetup instanceId expectedPid error elapsed

/-- Saving with a client of its own. -/
def saveWithClient (instanceId : String) (expectedPid : Nat) (fingerprint : CheckpointFingerprint)
    (policy : KvCheckpointConfig) : Fallible CheckpointStatus := do
  let client : Except StoreError Unit ← ask .slotClient
  match client with
  | .ok () => saveBeforeStop instanceId expectedPid fingerprint policy
  | .error e => failSave instanceId expectedPid e

/-- The loop that waits for the slots; `polls` bounds how often they are looked at
before the time is up. -/
def drain (instanceId : String) (expectedPid : Nat) (fingerprint : CheckpointFingerprint)
    (policy : KvCheckpointConfig) : Nat → Fallible CheckpointStatus
  | 0 => do
    let elapsed : Nat ← ask .elapsed
    skipSaveBusy instanceId expectedPid elapsed
  | polls + 1 => do
    let activeRequests : Nat ← ask .activeRequests
    let slots : Except StoreError (List SlotSnapshot) ← ask .slots
    match slots with
    | .error e => failSave instanceId expectedPid e
    | .ok slots =>
      if activeRequests = 0 ∧ ∀ slot ∈ slots, slot.isProcessing = false then
        saveWithClient instanceId expectedPid fingerprint policy
      else do
        let elapsed : Nat ← ask .elapsed
        if elapsed ≥ checkpointDrainTimeout then skipSaveBusy instanceId expectedPid elapsed
        else drain instanceId expectedPid fingerprint policy polls

/-- What is done with the registration of a draining process. -/
def saveRegistered (instanceId : String) (expectedPid : Nat) (launchConfig : Bool) (polls : Nat) :
    Option (CheckpointFingerprint × KvCheckpointConfig) → Fallible CheckpointStatus
  | none =>
    failSaveSetup instanceId expectedPid
      ⟨.fingerprintUnavailable, "checkpoint fingerprint was not registered"⟩ 0
  | some (fingerprint, policy) =>
    if launchConfig then do
      let client : Except StoreError Unit ← ask .slotClient
      match client with
      | .ok () => drain instanceId expectedPid fingerprint policy polls
      | .error e => failSave instanceId expectedPid e
    else
      failSaveSetup instanceId expectedPid
        ⟨.unsupportedConfiguration, "checkpoint launch configuration was unavailable"⟩ 0

/-- The save of a process that was in `phase`, which is the phase to go back to. -/
def saveDraining (instanceId : String) (expectedPid : Nat) (launchConfig : Bool) (polls : Nat)
    (phase : CheckpointPhase) : Fallible (Option CheckpointPhase) := do
  let draining ← attempt (beginDraining instanceId expectedPid)
  match draining with
  | .error _ => pure none
  | .ok _ => do
    let registered : Except StoreError (Option (CheckpointFingerprint × KvCheckpointConfig)) ←
      lock (.registeredCheckpoint instanceId expectedPid)
    match registered with
    | .error _ => pure (some phase)
    | .ok registered => do
      let _ ← attempt (saveRegistered instanceId expectedPid launchConfig polls registered)
      pure (some phase)

/-- What the phase allows a stop to do. -/
def saveInPhase (instanceId : String) (expectedPid : Nat) (launchConfig : Bool) (polls : Nat) :
    Option CheckpointPhase → Fallible (Option CheckpointPhase)
  | some .ready => saveDraining instanceId expectedPid launchConfig polls .ready
  | some .readyCold => saveDraining instanceId expectedPid launchConfig polls .readyCold
  | some .starting | some .engineHealthy | some .restoring | some .restartRequired => do
    let _ ← attempt (skipSaveNotReady instanceId expectedPid)
    pure none
  | _ => pure none

/-- The phase to go back to if the process cannot be killed. -/
def checkpointBeforeTermination (instanceId : String) (expectedPid : Nat) (launchConfig : Bool)
    (polls : Nat) : Fallible (Option CheckpointPhase) := do
  let _ ← lock (.requestStop instanceId expectedPid true)
  let active : Bool ← lock (.gateActive instanceId)
  if active then do
    let found : Option CheckpointStatus ← lock (.status instanceId)
    saveInPhase instanceId expectedPid launchConfig polls (found.map (·.phase))
  else pure none

def resumeAfter (instanceId : String) (expectedPid : Nat) :
    Option CheckpointPhase → Fallible Unit
  | some phase => do
    let _ ← attempt (resumeAfterStopFailure instanceId expectedPid phase)
    pure ()
  | none => pure ()

/-- Who stops the process. They differ in the order of what follows a failed kill, and
in what they report after a successful one. -/
inductive Stopper where
  | stopServer
  | appExit
  | supervisor
deriving DecidableEq, Repr

def afterKill (instanceId : String) (expectedPid : Nat) : Stopper → Fallible Unit
  | .stopServer | .appExit => do
    let _ ← attempt (markStopped instanceId expectedPid)
    pure ()
  | .supervisor => do
    let stopped ← attempt (markStopped instanceId expectedPid)
    match stopped with
    | .ok _ => pure ()
    | .error _ => do
      let _ ← lock (.markUnexpectedExit instanceId expectedPid)
      pure ()

def afterFailedKill (instanceId : String) (expectedPid : Nat) (phase : Option CheckpointPhase) :
    Stopper → Fallible Unit
  | .stopServer => do
    resumeAfter instanceId expectedPid phase
    let _ ← lock (.requestStop instanceId expectedPid false)
    pure ()
  | .appExit | .supervisor => do
    let _ ← lock (.requestStop instanceId expectedPid false)
    resumeAfter instanceId expectedPid phase

def stopInstance (instanceId : String) (expectedPid : Nat) (launchConfig : Bool) (polls : Nat)
    (stopper : Stopper) : Fallible Unit := do
  let phase ← checkpointBeforeTermination instanceId expectedPid launchConfig polls
  let killed : Bool ← ask .terminate
  if killed then afterKill instanceId expectedPid stopper
  else afterFailedKill instanceId expectedPid phase stopper

/-! ### Saving an idle instance -/

def saveIdleWith (instanceId : String) (expectedPid : Nat) (fingerprint : CheckpointFingerprint)
    (policy : KvCheckpointConfig) : Fallible CheckpointStatus := do
  let activeRequests : Nat ← ask .activeRequests
  if activeRequests > 0 then skipSaveBusy instanceId expectedPid 0
  else do
    let client : Except StoreError Unit ← ask .slotClient
    match client with
    | .ok () => saveBeforeStop instanceId expectedPid fingerprint policy
    | .error e => failSaveSetup instanceId expectedPid e 0

/-- The save of an idle process that was in `phase`. -/
def saveIdleRegistered (instanceId : String) (expectedPid : Nat) (phase : CheckpointPhase) :
    Option (CheckpointFingerprint × KvCheckpointConfig) → Fallible Unit
  | none => pure ()
  | some (fingerprint, policy) => do
    let draining ← attempt (beginDraining instanceId expectedPid)
    match draining with
    | .error _ => pure ()
    | .ok _ => do
      let _ ← attempt (saveIdleWith instanceId expectedPid fingerprint policy)
      let _ ← attempt (resumeAfterStopFailure instanceId expectedPid phase)
      pure ()

/-- What the status allows an idle save to do. -/
def saveIdleFound (instanceId : String) (expectedPid : Nat) :
    Option CheckpointStatus → Fallible Unit
  | none => pure ()
  | some before => do
    let registered : Except StoreError (Option (CheckpointFingerprint × KvCheckpointConfig)) ←
      lock (.registeredCheckpoint instanceId expectedPid)
    saveIdleRegistered instanceId expectedPid before.phase (registered.toOption.bind id)

def poll (instanceId : String) (expectedPid : Nat) (slots : List SlotSnapshotRecord) :
    Fallible Unit := do
  let activeRequests : Nat ← ask .activeRequests
  let due : Bool ← lock (.idleSaveDue instanceId expectedPid slots activeRequests)
  if due then do
    let found : Option CheckpointStatus ← lock (.status instanceId)
    saveIdleFound instanceId expectedPid found
  else pure ()

end Coordinator

/-! ### Interleavings -/

/-- Operations of a process that need no protocol. A restore belongs to the monitor,
and going back to a ready phase to whoever began to drain. -/
def Operation.free (instanceId : String) (pid : Nat) : Operation → Bool
  | .prepareColdRecovery i p | .registeredCheckpoint i p => i == instanceId && p == pid
  | .idleSaveDue i p _ _ | .observeCompletedRequest i p _ => i == instanceId && p == pid
  | .observeRestoredRequest i p _ | .requestStop i p _ => i == instanceId && p == pid
  | .onEngineHealthy i p | .beginDraining i p => i == instanceId && p == pid
  | .skipSaveBusy i p _ | .skipSaveNotReady i p => i == instanceId && p == pid
  | .failSaveSetup i p _ _ | .saveBeforeStop i p _ _ => i == instanceId && p == pid
  | .markStopped i p | .markUnexpectedExit i p => i == instanceId && p == pid
  | .status _ | .gateAllowsRouting _ | .gateActive _ | .clearInstance _ => true
  | .registerStartWithContext .. | .failRestoreSetup .. | .restoreOrCold .. => false
  | .resumeAfterStopFailure .. => false

/-- What a thread is doing for the process. -/
inductive Caller where
  | monitor
  | stop (stopper : Coordinator.Stopper) (launchConfig : Bool) (polls : Nat)
  | poll (slots : List SlotSnapshotRecord)
  | operation (op : Operation)

def Caller.steps (instanceId : String) (pid : Nat) : Caller → Steps Unit
  | .monitor => finish (Coordinator.resolveCheckpointStartup instanceId pid)
  | .stop stopper launchConfig polls =>
    finish (Coordinator.stopInstance instanceId pid launchConfig polls stopper)
  | .poll slots => finish (Coordinator.poll instanceId pid slots)
  | .operation op => op.steps

def Caller.admits (instanceId : String) (pid : Nat) : Caller → Bool
  | .operation op => op.free instanceId pid
  | _ => true

inductive CallerAction where
  | start (caller : Caller)
  | advance (thread : Nat) (env : Environment)

/-- Any number of callers for one process of the instance, one section at a time. -/
def callers (instanceId : String) (pid : Nat) :
    Machine (Pool Entries Caller Call Call.Answer) CallerAction where
  init := ⟨∅, []⟩
  next world
    | .start caller =>
      if caller.admits instanceId pid then some (world.spawn ⟨caller, caller.steps instanceId pid⟩)
      else none
    | .advance thread env => world.advance (Call.run env) thread

end LlamaServerManager.Checkpoint
