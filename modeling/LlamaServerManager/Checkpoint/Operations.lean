import LlamaServerManager.Checkpoint.Coordinator
import LlamaServerManager.Checkpoint.Store
import LlamaServerManager.Lib.Machine
import LlamaServerManager.Lib.Threads

/-!
The operations of `CheckpointCoordinator` as sequences of sections.

An operation holds the lock for one section at a time; between two sections it
asks the store, the backend and the clock. Who else takes the lock in between is
left open here.
-/

namespace LlamaServerManager.Checkpoint

open Lib

/-! ### Calls -/

/-- A section, with its arguments. -/
inductive Section where
  | register (instanceId : String) (entry : CoordinatorEntry)
  | prepareColdRecovery (instanceId : String) (expectedPid : Nat)
  | registeredCheckpoint (instanceId : String) (expectedPid : Nat)
  | status (instanceId : String)
  | idleSaveDue (instanceId : String) (pid : Nat) (slots : List SlotSnapshotRecord)
      (activeRequests : Nat)
  | slotCount (instanceId : String) (pid : Nat)
  | observeCompletedRequest (instanceId : String) (pid task : Nat)
  | observeRestoredRequest (instanceId : String) (expectedPid : Nat) (slot : SlotSnapshotRecord)
  | clearInstance (instanceId : String)
  | gateAllowsRouting (instanceId : String)
  | gateActive (instanceId : String)
  | requestStop (instanceId : String) (pid : Nat) (stopping : Bool)
  | transition (instanceId : String) (expectedPid : Nat) (next : CheckpointPhase)
  | updateOperation (instanceId : String) (expectedPid : Nat) (update : CheckpointOperationUpdate)
  | coldRecovery (instanceId : String)
  | stopUngated (instanceId : String) (expectedPid : Nat)
  | closeGate (instanceId : String)
  | markUnexpectedExit (instanceId : String) (expectedPid : Nat)

def Section.Answer : Section → Type
  | .register .. | .observeCompletedRequest .. | .observeRestoredRequest .. => Unit
  | .requestStop .. | .closeGate _ => Unit
  | .prepareColdRecovery .. => Except StoreError Unit
  | .registeredCheckpoint .. => Except StoreError (Option (CheckpointFingerprint × KvCheckpointConfig))
  | .status _ => Option CheckpointStatus
  | .idleSaveDue .. | .gateAllowsRouting _ | .gateActive _ | .coldRecovery _ => Bool
  | .slotCount .. => Except StoreError Nat
  | .clearInstance _ | .transition .. | .updateOperation .. => Except StoreError CheckpointStatus
  | .stopUngated .. | .markUnexpectedExit .. => Except StoreError CheckpointStatus

structure SlotSnapshot where
  id : Nat
  isProcessing : Bool
  nCtx : Nat
deriving DecidableEq, Repr

structure SlotSaveResult where
  idSlot : Nat
  filename : String
  nSaved : Nat
  nWritten : Nat
deriving DecidableEq, Repr

structure SlotRestoreResult where
  idSlot : Nat
  filename : String
  nRestored : Nat
  nRead : Nat
deriving DecidableEq, Repr

/-- What is asked outside of the lock: of the clocks, of the store, of the backend and, by
the callers, of the engine process. -/
inductive Query where
  | now
  /-- Milliseconds since the operation started. -/
  | elapsed
  | loadLatest (instanceId fingerprint : String)
  | hasOtherFingerprintGeneration (instanceId fingerprint : String)
  | copySlotToScratch (instanceId : String) (pid : Nat) (generation : LoadedGeneration)
      (slot : CheckpointSlotManifest)
  | removeScratchPayload (instanceId : String) (path : Path)
  | ensureScratchCapacity (instanceId : String) (bytes : Nat)
  | newScratchSlotPathFor (instanceId : String) (pid slot : Nat)
  | verifyScratchPayload (instanceId : String) (path : Path) (bytes : Nat)
  | rejectGeneration (instanceId : String) (generation : LoadedGeneration)
  /-- A fresh generation id and its time of creation. -/
  | newGeneration
  | commitSlots (manifest : CheckpointManifest) (payloads : List Path) (storageLimitBytes : Nat)
  | pruneInstance (instanceId : String) (storageLimitBytes : Nat) (kept : List (String × String))
  | health
  | slots
  | saveSlot (id : Nat) (filename : String)
  | restoreSlot (id : Nat) (filename : String)
  /-- `LlamaSlotClient::new`. -/
  | slotClient
  /-- The requests the router has open for the instance. -/
  | activeRequests
  /-- `terminate_running_instance`. -/
  | terminate

def Query.Answer : Query → Type
  | .now | .elapsed | .activeRequests => Nat
  | .slotClient => Except StoreError Unit
  | .terminate => Bool
  | .loadLatest .. => Except StoreError (Option LoadedGeneration)
  | .hasOtherFingerprintGeneration .. => Except StoreError Bool
  | .copySlotToScratch .. | .newScratchSlotPathFor .. => Except StoreError Path
  | .removeScratchPayload .. | .ensureScratchCapacity .. => Except StoreError Unit
  | .rejectGeneration .. | .pruneInstance .. | .health => Except StoreError Unit
  | .verifyScratchPayload .. => Except StoreError String
  | .newGeneration => String × String
  | .commitSlots .. => Except StoreError CommittedGeneration
  | .slots => Except StoreError (List SlotSnapshot)
  | .saveSlot .. => Except StoreError SlotSaveResult
  | .restoreSlot .. => Except StoreError SlotRestoreResult

inductive Call where
  | lock (s : Section)
  | ask (q : Query)

def Call.Answer : Call → Type
  | .lock s => s.Answer
  | .ask q => q.Answer

/-- What the world answers to one call. -/
structure Environment where
  /-- `checkpoint_now_millis`. -/
  now : Nat
  /-- `Instant::now`, in milliseconds. -/
  instant : Nat
  /-- What comes of clearing the data of an instance. -/
  cleared : Except StoreError Bool
  answer : (q : Query) → q.Answer

def Section.run (env : Environment) : (s : Section) → Entries → s.Answer × Entries
  | .register instanceId entry, entries => ((), entries.insert instanceId entry)
  | .prepareColdRecovery instanceId pid, entries =>
    Coordinator.prepareColdRecovery instanceId pid entries
  | .registeredCheckpoint instanceId pid, entries =>
    (Coordinator.registeredCheckpoint instanceId pid entries, entries)
  | .status instanceId, entries => (Coordinator.status instanceId entries, entries)
  | .idleSaveDue instanceId pid slots activeRequests, entries =>
    Coordinator.idleSaveDue instanceId pid slots activeRequests env.instant entries
  | .slotCount instanceId pid, entries => (Coordinator.slotCount instanceId pid entries, entries)
  | .observeCompletedRequest instanceId pid task, entries =>
    ((), Coordinator.observeCompletedRequest instanceId pid task entries)
  | .observeRestoredRequest instanceId pid slot, entries =>
    ((), Coordinator.observeRestoredRequest instanceId pid slot env.now entries)
  | .clearInstance instanceId, entries =>
    Coordinator.clearInstance instanceId env.cleared env.now entries
  | .gateAllowsRouting instanceId, entries =>
    (Coordinator.gateAllowsRouting instanceId entries, entries)
  | .gateActive instanceId, entries => (Coordinator.gateActive instanceId entries, entries)
  | .requestStop instanceId pid stopping, entries =>
    ((), Coordinator.requestStop instanceId pid stopping entries)
  | .transition instanceId pid next, entries =>
    Coordinator.transition instanceId pid next env.now entries
  | .updateOperation instanceId pid update, entries =>
    Coordinator.updateOperation instanceId pid update env.now entries
  | .coldRecovery instanceId, entries => (Coordinator.coldRecovery instanceId entries, entries)
  | .stopUngated instanceId pid, entries =>
    Coordinator.stopUngated instanceId pid env.now entries
  | .closeGate instanceId, entries => ((), Coordinator.closeGate instanceId entries)
  | .markUnexpectedExit instanceId pid, entries =>
    Coordinator.markUnexpectedExit instanceId pid env.now entries

def Call.run (env : Environment) : (call : Call) → Entries → call.Answer × Entries
  | .lock s, entries => s.run env entries
  | .ask q, entries => (env.answer q, entries)

/-! ### Operations -/

abbrev Steps := Script Call Call.Answer

/-- Operations can fail; they remember the scratch files they have to remove, also
when they fail. -/
abbrev Fallible := ExceptT StoreError (StateT (List Path) Steps)

namespace Coordinator

/-- A section that takes the lock. -/
def lock (s : Section) : Fallible s.Answer :=
  liftM (Script.ask (Call.lock s) : Steps s.Answer)

def ask (q : Query) : Fallible q.Answer :=
  liftM (Script.ask (Call.ask q) : Steps q.Answer)

/-- `?`. -/
def orFail {α : Type} : Except StoreError α → Fallible α
  | .ok a => pure a
  | .error e => throw e

def demand (c : Prop) [Decidable c] (e : StoreError) : Fallible Unit := orFail (require c e)

/-- The result of a part of an operation, an error included. -/
def attempt {α : Type} (x : Fallible α) : Fallible (Except StoreError α) :=
  ExceptT.lift x.run

def remember (path : Path) : Fallible Unit := modify (· ++ [path])

/-- What an operation does when the instance has no gate. -/
def currentStatus (instanceId : String) : Fallible CheckpointStatus := do
  let found : Option CheckpointStatus ← lock (.status instanceId)
  orFail (found.elim (.error (staleProcess "checkpoint event has no active process")) .ok)

/-- `transition`, as a part of an operation. -/
def enter (instanceId : String) (expectedPid : Nat) (next : CheckpointPhase) :
    Fallible CheckpointStatus := do
  orFail (← lock (.transition instanceId expectedPid next))

/-- `update_operation`, as a part of an operation. -/
def record (instanceId : String) (expectedPid : Nat) (update : CheckpointOperationUpdate) :
    Fallible CheckpointStatus := do
  orFail (← lock (.updateOperation instanceId expectedPid update))

/-! ### Registration and the start of the engine -/

/-- What a registration has to bring. -/
def checkRegistration (eligibility : CheckpointEligibility) :
    Option CheckpointFingerprint → Except StoreError Unit
  | none => do
    require (eligibility.slotCount ∈ [1, 2, 4]) (.manifest "unreviewed slot topology")
    .error ⟨.fingerprintUnavailable, "eligible checkpoint registration requires a fingerprint"⟩
  | some registered => do
    require (eligibility.slotCount ∈ [1, 2, 4]) (.manifest "unreviewed slot topology")
    registered.validate

/-- The entry a registration makes. -/
def registeredEntry (instanceId : String) (expectedPid : Nat) (eligibility : CheckpointEligibility)
    (fingerprint : Option CheckpointFingerprint) (policy : KvCheckpointConfig) (now : Nat) :
    CoordinatorEntry :=
  let (gateActive, phase, reasonCode, lastOutcome) :=
    if eligibility.eligible then
      (true, CheckpointPhase.starting, ReasonCode.none, CheckpointOutcome.none)
    else if eligibility.reasonCode = .disabled then (false, .disabled, .disabled, .none)
    else (false, .ineligible, eligibility.reasonCode, .skipped)
  { gateActive
    stopRequested := false
    status :=
      { instanceId
        expectedPid := some expectedPid
        phase
        -- A process without a gate is routed as its engine's health says.
        routable := !gateActive
        lastOperation := .none
        lastOutcome
        reasonCode
        message := ""
        generationId := none
        checkpointSlots := []
        slotCount := if eligibility.eligible then some eligibility.slotCount else none
        promptTokens := none
        bytes := none
        durationMs := none
        reuseObservation := none
        updatedAt := now }
    fingerprint
    policy
    coldRecovery := false
    slotCount := eligibility.slotCount
    idleSlots := []
    idle := {} }

def registerStartWithContext (instanceId : String) (expectedPid : Nat)
    (eligibility : CheckpointEligibility) (fingerprint : Option CheckpointFingerprint)
    (policy : KvCheckpointConfig) : Fallible CheckpointStatus := do
  demand (validateIdentifier instanceId ∧ expectedPid ≠ 0)
    ⟨.unsupportedConfiguration, "checkpoint process identity is invalid"⟩
  orFail (if eligibility.eligible then checkRegistration eligibility fingerprint else .ok ())
  let now : Nat ← ask .now
  let entry := registeredEntry instanceId expectedPid eligibility fingerprint policy now
  let _ ← lock (.register instanceId entry)
  return entry.status

def onEngineHealthy (instanceId : String) (expectedPid : Nat) : Fallible CheckpointStatus := do
  let active : Bool ← lock (.gateActive instanceId)
  if active then enter instanceId expectedPid .engineHealthy else currentStatus instanceId

/-! ### Restoring -/

def finishReadyCold (instanceId : String) (expectedPid : Nat)
    (update : CheckpointOperationUpdate) : Fallible CheckpointStatus := do
  let _ ← enter instanceId expectedPid .readyCold
  record instanceId expectedPid update

def restoreFailure (instanceId : String) (expectedPid : Nat) (error : StoreError) :
    Fallible CheckpointStatus := do
  let status : Option CheckpointStatus ← lock (.status instanceId)
  let elapsed : Nat ← ask .elapsed
  let update := ⟨.restore, .failed, error.reasonCode, error.message, none, elapsed⟩
  if status.any (·.phase == .restoring) then do
    -- Only a fresh process is a cold start.
    let _ ← enter instanceId expectedPid .restartRequired
    record instanceId expectedPid update
  else finishReadyCold instanceId expectedPid update

def failRestoreSetup (instanceId : String) (expectedPid : Nat) (error : StoreError) :
    Fallible CheckpointStatus :=
  finishReadyCold instanceId expectedPid
    ⟨.restore, .failed, error.reasonCode, error.message, none, 0⟩

/-- The slots are the launched ones, and none of them is busy. -/
def validateSlotSet (slots : List SlotSnapshot) (count : Nat) : Except StoreError Unit := do
  let ids := (slots.map (·.id)).dedup.insertionSort (· ≤ ·)
  require (slots.length = count ∧ ids.length = slots.length ∧ ids = List.range count ∧
      ∀ s ∈ slots, s.nCtx ≠ 0)
    ⟨.slotStateMismatch, "slot topology does not match the qualified launch"⟩
  require (∀ s ∈ slots, s.isProcessing = false)
    ⟨.busyTimeout, "a slot is busy at the checkpoint boundary"⟩

def checkSlots (count : Nat) : Fallible Unit := do
  let slots : List SlotSnapshot ← orFail (← ask .slots)
  orFail (validateSlotSet slots count)

def fileName (path : Path) : String := path.getLast?.getD ""

def restoreCountsMatchManifest (observedBytes observedTokens savedBytes savedTokens : Nat) : Bool :=
  savedBytes > 0 && observedBytes == savedBytes && observedTokens == savedTokens

def restoreSlots (instanceId : String) (expectedPid : Nat) (generation : LoadedGeneration) :
    List CheckpointSlotManifest → Fallible Unit
  | [] => pure ()
  | slot :: slots => do
    let path : Path ← orFail (← ask (.copySlotToScratch instanceId expectedPid generation slot))
    remember path
    let restored : SlotRestoreResult ← orFail (← ask (.restoreSlot slot.id (fileName path)))
    demand (restored.idSlot = slot.id ∧ restored.filename = fileName path ∧
        restoreCountsMatchManifest restored.nRead restored.nRestored slot.bytes slot.promptTokens)
      ⟨.restoreResponseInvalid, "slot restore response did not match the manifest"⟩
    orFail (← ask (.removeScratchPayload instanceId path))
    restoreSlots instanceId expectedPid generation slots

/-- What was restored is saved again and compared. -/
def verifyRestored (instanceId : String) (expectedPid : Nat) :
    List CheckpointSlotManifest → Fallible Unit
  | [] => pure ()
  | slot :: slots => do
    orFail (← ask (.ensureScratchCapacity instanceId slot.bytes))
    let path : Path ← orFail (← ask (.newScratchSlotPathFor instanceId expectedPid slot.id))
    remember path
    let mismatch : StoreError :=
      ⟨.slotStateMismatch, "restored slot payload did not match the checkpoint"⟩
    let verified : SlotSaveResult ← orFail (← ask (.saveSlot slot.id (fileName path)))
    demand (verified.idSlot = slot.id ∧ verified.filename = fileName path ∧
      verified.nSaved = slot.promptTokens ∧ verified.nWritten = slot.bytes) mismatch
    let sha256 : String ←
      orFail (← ask (.verifyScratchPayload instanceId path verified.nWritten))
    demand (sha256 = slot.sha256) mismatch
    orFail (← ask (.removeScratchPayload instanceId path))
    verifyRestored instanceId expectedPid slots

/-- Every slot is restored before any of them is verified. -/
def restoreGeneration (instanceId : String) (expectedPid : Nat) (generation : LoadedGeneration) :
    Fallible Unit := do
  orFail (← ask .health)
  let count : Nat ← orFail (← lock (.slotCount instanceId expectedPid))
  demand (generation.manifest.slotCount = count)
    (.manifest "checkpoint slot topology differs from launch")
  checkSlots count
  let _ ← enter instanceId expectedPid .restoring
  restoreSlots instanceId expectedPid generation generation.manifest.slots
  verifyRestored instanceId expectedPid generation.manifest.slots
  checkSlots count

/-- The last error of removing the scratch files, if there is one. -/
def removeScratch (instanceId : String) : List Path → Except StoreError Unit →
    Fallible (Except StoreError Unit)
  | [], cleanup => pure cleanup
  | path :: paths, cleanup => do
    let removed : Except StoreError Unit ← ask (.removeScratchPayload instanceId path)
    match removed with
    | .ok () => removeScratch instanceId paths cleanup
    | .error e => removeScratch instanceId paths (.error e)

/-- A generation is rejected when it failed while it was being restored. -/
def rejectRestoring (instanceId : String) (expectedPid : Nat) (generation : LoadedGeneration) :
    Fallible Unit := do
  let status : Option CheckpointStatus ← lock (.status instanceId)
  if status.any fun status => status.expectedPid == some expectedPid && status.phase == .restoring
  then do
    let _ ← ask (.rejectGeneration instanceId generation)
    pure ()
  else pure ()

/-- Restoring a generation that was found. -/
def restoreFound (instanceId : String) (expectedPid : Nat) (generation : LoadedGeneration) :
    Fallible CheckpointStatus := do
  let restored : Except StoreError Unit ←
    attempt (restoreGeneration instanceId expectedPid generation)
  let cleanup ← removeScratch instanceId (← get) (.ok ())
  match restored.bind fun _ => cleanup with
  | .error e => do
    rejectRestoring instanceId expectedPid generation
    restoreFailure instanceId expectedPid e
  | .ok () => do
    let _ ← enter instanceId expectedPid .ready
    let elapsed : Nat ← ask .elapsed
    record instanceId expectedPid ⟨.restore, .success, .none, "checkpoint restored and verified",
      some generation.manifest, elapsed⟩

/-- Going on without a checkpoint. -/
def startCold (instanceId : String) (expectedPid : Nat) (outcome : CheckpointOutcome)
    (reason : ReasonCode) (message : String) : Fallible CheckpointStatus := do
  let elapsed : Nat ← ask .elapsed
  finishReadyCold instanceId expectedPid ⟨.restore, outcome, reason, message, none, elapsed⟩

/-- Why there is nothing to restore. -/
def restoreNothing (instanceId : String) (expectedPid : Nat) (fingerprint : String) :
    Fallible CheckpointStatus := do
  let mismatch : Except StoreError Bool ←
    ask (.hasOtherFingerprintGeneration instanceId fingerprint)
  match mismatch with
  | .error e => restoreFailure instanceId expectedPid e
  | .ok true =>
    startCold instanceId expectedPid .skipped .fingerprintMismatch
      "available checkpoint fingerprint does not match"
  | .ok false =>
    startCold instanceId expectedPid .skipped .noCheckpoint
      "no compatible checkpoint is available"

def restoreLatest (instanceId : String) (expectedPid : Nat) (fingerprint : String) :
    Fallible CheckpointStatus := do
  let latest : Except StoreError (Option LoadedGeneration) ← ask (.loadLatest instanceId fingerprint)
  match latest with
  | .error e => restoreFailure instanceId expectedPid e
  | .ok none => restoreNothing instanceId expectedPid fingerprint
  | .ok (some generation) => restoreFound instanceId expectedPid generation

def restoreGated (instanceId : String) (expectedPid : Nat) (fingerprint : CheckpointFingerprint)
    (autoRestore : Bool) : Fallible CheckpointStatus :=
  if autoRestore then
    match fingerprint.validate with
    | .error e => startCold instanceId expectedPid .failed e.reasonCode e.message
    | .ok () => restoreLatest instanceId expectedPid fingerprint.digest
  else do
    let recovering : Bool ← lock (.coldRecovery instanceId)
    if recovering then
      startCold instanceId expectedPid .skipped .coldAfterRestoreFailure
        "started a fresh process after checkpoint restore failure"
    else
      startCold instanceId expectedPid .skipped .autoRestoreDisabled
        "automatic checkpoint restore is disabled"

def restoreOrCold (instanceId : String) (expectedPid : Nat) (fingerprint : CheckpointFingerprint)
    (autoRestore : Bool) : Fallible CheckpointStatus := do
  let active : Bool ← lock (.gateActive instanceId)
  if active then restoreGated instanceId expectedPid fingerprint autoRestore
  else currentStatus instanceId

/-! ### Saving -/

def beginDraining (instanceId : String) (expectedPid : Nat) : Fallible CheckpointStatus := do
  let active : Bool ← lock (.gateActive instanceId)
  if active then enter instanceId expectedPid .draining else currentStatus instanceId

def finishStopping (instanceId : String) (expectedPid : Nat)
    (update : CheckpointOperationUpdate) : Fallible CheckpointStatus := do
  let _ ← enter instanceId expectedPid .stopping
  record instanceId expectedPid update

def skipSaveBusy (instanceId : String) (expectedPid durationMs : Nat) : Fallible CheckpointStatus :=
  finishStopping instanceId expectedPid
    ⟨.save, .skipped, .busyTimeout, "checkpoint drain timed out", none, durationMs⟩

def skipSaveNotReady (instanceId : String) (expectedPid : Nat) : Fallible CheckpointStatus :=
  finishStopping instanceId expectedPid
    ⟨.save, .skipped, .busyTimeout, "checkpoint startup was not ready to save", none, 0⟩

def failSaveSetup (instanceId : String) (expectedPid : Nat) (error : StoreError)
    (durationMs : Nat) : Fallible CheckpointStatus :=
  finishStopping instanceId expectedPid
    ⟨.save, .failed, error.reasonCode, error.message, none, durationMs⟩

/-- The end of a save. -/
def endSave (instanceId : String) (expectedPid : Nat) (outcome : CheckpointOutcome)
    (reason : ReasonCode) (message : String) (generation : Option CheckpointManifest) :
    Fallible CheckpointStatus := do
  let elapsed : Nat ← ask .elapsed
  finishStopping instanceId expectedPid ⟨.save, outcome, reason, message, generation, elapsed⟩

/-- The slots of a save: what goes into the manifest, where it is, and whether any of
it is new. -/
structure SavedSlots where
  manifests : List CheckpointSlotManifest := []
  payloads : List Path := []
  updated : Bool := false

/-- The slot of the previous generation that is longer than what was saved. -/
def longerSlot (previous : Option LoadedGeneration) (id nSaved : Nat) :
    Option (LoadedGeneration × CheckpointSlotManifest) := do
  let generation ← previous
  let older ← generation.manifest.slots.find? (·.id == id)
  if older.promptTokens > nSaved then some (generation, older) else none

/-- What becomes of a slot that was saved at `path`. -/
def keepSlot (instanceId : String) (expectedPid minimumPromptTokens : Nat)
    (previous : Option LoadedGeneration) (id : Nat) (path : Path) (saved : SlotSaveResult)
    (digest : String) (acc : SavedSlots) : Fallible SavedSlots :=
  match longerSlot previous id saved.nSaved with
  | some (generation, older) => do
    orFail (← ask (.removeScratchPayload instanceId path))
    let retained : Path ←
      orFail (← ask (.copySlotToScratch instanceId expectedPid generation older))
    remember retained
    return { acc with
      manifests := acc.manifests ++ [older]
      payloads := acc.payloads ++ [retained] }
  | none =>
    if saved.nSaved > 0 ∧ saved.nSaved ≥ minimumPromptTokens then
      return {
        manifests := acc.manifests ++ [⟨id, slotFilename id, saved.nSaved, saved.nWritten, digest⟩]
        payloads := acc.payloads ++ [path]
        updated := true }
    else do
      orFail (← ask (.removeScratchPayload instanceId path))
      return acc

def saveSlots (instanceId : String) (expectedPid count minimumPromptTokens : Nat)
    (previous : Option LoadedGeneration) : List Nat → SavedSlots → Fallible SavedSlots
  | [], acc => pure acc
  | id :: ids, acc => do
    checkSlots count
    let path : Path ← orFail (← ask (.newScratchSlotPathFor instanceId expectedPid id))
    remember path
    let saved : SlotSaveResult ← orFail (← ask (.saveSlot id (fileName path)))
    demand (saved.idSlot = id ∧ saved.filename = fileName path ∧ saved.nWritten ≠ 0)
      ⟨.saveResponseInvalid, "slot save response did not match the request"⟩
    let digest : String ← orFail (← ask (.verifyScratchPayload instanceId path saved.nWritten))
    let acc ← keepSlot instanceId expectedPid minimumPromptTokens previous id path saved digest acc
    saveSlots instanceId expectedPid count minimumPromptTokens previous ids acc

/-- Nothing new is no generation. -/
def checkUpdated (saved : SavedSlots) : Except StoreError Unit :=
  if saved.updated then .ok ()
  else if saved.manifests.isEmpty then
    .error ⟨.belowTokenThreshold, "all slot states are below the save threshold"⟩
  else
    .error ⟨.longerCheckpointRetained, "shorter slot states skipped; longer checkpoint retained"⟩

/-- The manifest of the saved slots. -/
def savedManifest (instanceId : String) (fingerprint : CheckpointFingerprint) (count : Nat)
    (saved : SavedSlots) (generationId createdAt : String) : CheckpointManifest where
  schemaVersion := if count > 1 then 2 else 1
  stateFormat := slotStateFormat
  generationId
  instanceId
  fingerprint
  createdAt
  slots := saved.manifests
  slotCount := count

def previousGeneration (instanceId : String) (fingerprint : CheckpointFingerprint)
    (config : KvCheckpointConfig) : Fallible (Option LoadedGeneration) :=
  if config.preserveLonger then do
    orFail (← ask (.loadLatest instanceId fingerprint.digest))
  else pure none

def saveGeneration (instanceId : String) (expectedPid : Nat) (fingerprint : CheckpointFingerprint)
    (config : KvCheckpointConfig) (count : Nat) : Fallible CheckpointManifest := do
  let previous ← previousGeneration instanceId fingerprint config
  demand (∀ g ∈ previous, g.manifest.slotCount = count)
    (.manifest "previous slot topology differs from launch")
  let saved ← saveSlots instanceId expectedPid count config.minimumPromptTokens previous
    (List.range count) {}
  checkSlots count
  orFail (checkUpdated saved)
  let (generationId, createdAt) : String × String ← ask .newGeneration
  let manifest := savedManifest instanceId fingerprint count saved generationId createdAt
  let storageLimitBytes := min (config.storageLimitGib * (1024 * 1024 * 1024)) (2 ^ 64 - 1)
  let _ : CommittedGeneration ←
    orFail (← ask (.commitSlots manifest saved.payloads storageLimitBytes))
  orFail (← ask (.pruneInstance instanceId storageLimitBytes [(fingerprint.digest, generationId)]))
  return manifest

/-- Saving from the launched slots. -/
def saveIdle (instanceId : String) (expectedPid : Nat) (fingerprint : CheckpointFingerprint)
    (config : KvCheckpointConfig) (count : Nat) : Fallible CheckpointStatus := do
  let _ ← enter instanceId expectedPid .saving
  let operation : Except StoreError CheckpointManifest ←
    attempt (saveGeneration instanceId expectedPid fingerprint config count)
  let cleanup ← removeScratch instanceId (← get) (.ok ())
  match operation, cleanup with
  | .ok manifest, .ok () =>
    endSave instanceId expectedPid .success .none "checkpoint saved and committed" (some manifest)
  | .ok manifest, .error e =>
    endSave instanceId expectedPid .failed e.reasonCode e.message (some manifest)
  | .error _, .error e => endSave instanceId expectedPid .failed e.reasonCode e.message none
  | .error e, .ok () =>
    endSave instanceId expectedPid
      (if e.reasonCode = .belowTokenThreshold ∨ e.reasonCode = .longerCheckpointRetained then
        .skipped else .failed)
      e.reasonCode e.message none

def saveGated (instanceId : String) (expectedPid : Nat) (fingerprint : CheckpointFingerprint)
    (config : KvCheckpointConfig) : Fallible CheckpointStatus :=
  if config.autoSave then
    match fingerprint.validate with
    | .error e => endSave instanceId expectedPid .failed e.reasonCode e.message none
    | .ok () => do
      let slots : Except StoreError (List SlotSnapshot) ← ask .slots
      match slots with
      | .error e => endSave instanceId expectedPid .failed e.reasonCode e.message none
      | .ok slots => do
        let count : Nat ← orFail (← lock (.slotCount instanceId expectedPid))
        match validateSlotSet slots count with
        | .error e =>
          endSave instanceId expectedPid
            (if e.reasonCode = .busyTimeout then .skipped else .failed)
            e.reasonCode e.message none
        | .ok () => saveIdle instanceId expectedPid fingerprint config count
  else
    endSave instanceId expectedPid .skipped .autoSaveDisabled
      "automatic checkpoint save is disabled" none

def saveBeforeStop (instanceId : String) (expectedPid : Nat) (fingerprint : CheckpointFingerprint)
    (config : KvCheckpointConfig) : Fallible CheckpointStatus := do
  let active : Bool ← lock (.gateActive instanceId)
  if active then saveGated instanceId expectedPid fingerprint config
  else currentStatus instanceId

/-! ### Stopping -/

def stopStatus (instanceId : String) (expectedPid : Nat) (active : Bool) :
    Fallible CheckpointStatus :=
  if active then enter instanceId expectedPid .stopped
  else do
    orFail (← lock (.stopUngated instanceId expectedPid))

def markStopped (instanceId : String) (expectedPid : Nat) : Fallible CheckpointStatus := do
  let active : Bool ← lock (.gateActive instanceId)
  let status ← stopStatus instanceId expectedPid active
  let _ ← lock (.closeGate instanceId)
  return status

def resumeAfterStopFailure (instanceId : String) (expectedPid : Nat)
    (readyPhase : CheckpointPhase) : Fallible CheckpointStatus := do
  demand (readyPhase = .ready ∨ readyPhase = .readyCold)
    ⟨.invalidStateTransition, "checkpoint stop recovery phase is invalid"⟩
  enter instanceId expectedPid readyPhase

def clearInstanceData (instanceId : String) : Fallible CheckpointStatus := do
  demand (validateIdentifier instanceId)
    ⟨.manifestInvalid, "checkpoint instance identity is invalid"⟩
  orFail (← lock (.clearInstance instanceId))

end Coordinator

/-! ### Interleavings -/

/-- A call of the coordinator's interface. -/
inductive Operation where
  | registerStartWithContext (instanceId : String) (expectedPid : Nat)
      (eligibility : CheckpointEligibility) (fingerprint : Option CheckpointFingerprint)
      (policy : KvCheckpointConfig)
  | prepareColdRecovery (instanceId : String) (expectedPid : Nat)
  | registeredCheckpoint (instanceId : String) (expectedPid : Nat)
  | status (instanceId : String)
  | idleSaveDue (instanceId : String) (pid : Nat) (slots : List SlotSnapshotRecord)
      (activeRequests : Nat)
  | observeCompletedRequest (instanceId : String) (pid task : Nat)
  | observeRestoredRequest (instanceId : String) (expectedPid : Nat) (slot : SlotSnapshotRecord)
  | clearInstance (instanceId : String)
  | gateAllowsRouting (instanceId : String)
  | gateActive (instanceId : String)
  | requestStop (instanceId : String) (pid : Nat) (stopping : Bool)
  | onEngineHealthy (instanceId : String) (expectedPid : Nat)
  | failRestoreSetup (instanceId : String) (expectedPid : Nat) (error : StoreError)
  | restoreOrCold (instanceId : String) (expectedPid : Nat) (fingerprint : CheckpointFingerprint)
      (autoRestore : Bool)
  | beginDraining (instanceId : String) (expectedPid : Nat)
  | skipSaveBusy (instanceId : String) (expectedPid durationMs : Nat)
  | skipSaveNotReady (instanceId : String) (expectedPid : Nat)
  | failSaveSetup (instanceId : String) (expectedPid : Nat) (error : StoreError)
      (durationMs : Nat)
  | saveBeforeStop (instanceId : String) (expectedPid : Nat) (fingerprint : CheckpointFingerprint)
      (config : KvCheckpointConfig)
  | markStopped (instanceId : String) (expectedPid : Nat)
  | resumeAfterStopFailure (instanceId : String) (expectedPid : Nat)
      (readyPhase : CheckpointPhase)
  | markUnexpectedExit (instanceId : String) (expectedPid : Nat)

/-- The result of an operation goes to its caller. -/
def finish {α : Type} (x : Fallible α) : Steps Unit := (x.run.run []).bind fun _ => .done ()

def Operation.steps : Operation → Steps Unit
  | .registerStartWithContext instanceId pid eligibility fingerprint policy =>
    finish (Coordinator.registerStartWithContext instanceId pid eligibility fingerprint policy)
  | .prepareColdRecovery instanceId pid => finish (Coordinator.lock (.prepareColdRecovery instanceId pid))
  | .registeredCheckpoint instanceId pid => finish (Coordinator.lock (.registeredCheckpoint instanceId pid))
  | .status instanceId => finish (Coordinator.lock (.status instanceId))
  | .idleSaveDue instanceId pid slots activeRequests =>
    finish (Coordinator.lock (.idleSaveDue instanceId pid slots activeRequests))
  | .observeCompletedRequest instanceId pid task =>
    finish (Coordinator.lock (.observeCompletedRequest instanceId pid task))
  | .observeRestoredRequest instanceId pid slot =>
    finish (Coordinator.lock (.observeRestoredRequest instanceId pid slot))
  | .clearInstance instanceId => finish (Coordinator.clearInstanceData instanceId)
  | .gateAllowsRouting instanceId => finish (Coordinator.lock (.gateAllowsRouting instanceId))
  | .gateActive instanceId => finish (Coordinator.lock (.gateActive instanceId))
  | .requestStop instanceId pid stopping =>
    finish (Coordinator.lock (.requestStop instanceId pid stopping))
  | .onEngineHealthy instanceId pid => finish (Coordinator.onEngineHealthy instanceId pid)
  | .failRestoreSetup instanceId pid error => finish (Coordinator.failRestoreSetup instanceId pid error)
  | .restoreOrCold instanceId pid fingerprint autoRestore =>
    finish (Coordinator.restoreOrCold instanceId pid fingerprint autoRestore)
  | .beginDraining instanceId pid => finish (Coordinator.beginDraining instanceId pid)
  | .skipSaveBusy instanceId pid durationMs => finish (Coordinator.skipSaveBusy instanceId pid durationMs)
  | .skipSaveNotReady instanceId pid => finish (Coordinator.skipSaveNotReady instanceId pid)
  | .failSaveSetup instanceId pid error durationMs =>
    finish (Coordinator.failSaveSetup instanceId pid error durationMs)
  | .saveBeforeStop instanceId pid fingerprint config =>
    finish (Coordinator.saveBeforeStop instanceId pid fingerprint config)
  | .markStopped instanceId pid => finish (Coordinator.markStopped instanceId pid)
  | .resumeAfterStopFailure instanceId pid readyPhase =>
    finish (Coordinator.resumeAfterStopFailure instanceId pid readyPhase)
  | .markUnexpectedExit instanceId pid => finish (Coordinator.lock (.markUnexpectedExit instanceId pid))

abbrev World := Pool Entries Operation Call Call.Answer

inductive Action where
  /-- Some thread starts an operation. -/
  | start (operation : Operation)
  /-- A thread makes its next call, which the environment answers. -/
  | advance (thread : Nat) (env : Environment)

/-- Operations of any number of threads, one section at a time. -/
def coordinator : Machine World Action where
  init := ⟨∅, []⟩
  next world
    | .start operation => some (world.spawn ⟨operation, operation.steps⟩)
    | .advance thread env => world.advance (Call.run env) thread

end LlamaServerManager.Checkpoint
