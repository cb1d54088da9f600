import LlamaServerManager.Checkpoint.Coordinator

/-!
The start of an instance by the runtime daemon (`start_instance_locked` of
`runtime_service/supervisor.rs`), with everything that can fail. The lifecycle lock is held,
so nothing else changes the intent of the daemon: what it should run, with which
configuration, and what it runs.

* `Supervisor.startInstanceLocked` — checks, the process, the new entries, the monitors.
* `startInstanceLocked_failed` — when a failed start leaves the intent as it was.
* `start_loses_intent` — a restart whose monitor thread cannot be created.

A configuration is a parameter `C`; what the start reads of it, what it asks the machine and
what it is told is in `Host`.
-/

namespace LlamaServerManager.Runtime

open Lib Lib.Text Checkpoint

/-! ### Records -/

/-- `CheckpointEligibility` with the field `qualification` beside it. -/
structure RuntimeCheckpointLaunchSpec where
  eligibilityRevision : Nat
  eligibility : CheckpointEligibility
  qualification : Option String
  fingerprint : Option CheckpointFingerprint
deriving DecidableEq, Repr

structure RuntimeLaunchSpec (C : Type) where
  instanceId : String
  config : C
  engineBackend : String
  command : List String
  commandDisplay : String
  executableSha256 : String
  workload : String
  workingDirectory : Option String
  checkpoint : Option RuntimeCheckpointLaunchSpec
deriving DecidableEq

structure RunningInstance (C : Type) where
  gracefulExitSafe : Bool
  instanceId : String
  pid : Nat
  port : Nat
  host : String
  startTime : Nat
  executablePath : String
  telemetrySessionId : Option String
  workload : String
  launchConfig : Option C
deriving DecidableEq

/-- The intent in `PersistedRuntimeState`. -/
structure RuntimeState (C : Type) where
  instances : Dict String C := ∅
  desiredInstances : Dict String (RuntimeLaunchSpec C) := ∅
  running : Dict String (RunningInstance C) := ∅

/-- How `persist` ends. The file may have been replaced before it fails: its directory is
synced and its permissions are set after the replacement. -/
inductive Persisted where
  | ok
  | failed (error : String) (written : Bool)
deriving DecidableEq, Repr

def Persisted.written : Persisted → Bool
  | .ok => true
  | .failed _ written => written

/-- What a start reads of a configuration, and what the machine answers it. -/
structure Host (C : Type) where
  configId : C → String
  port : C → Nat
  bindHost : C → String
  parallel : C → Nat
  kvCheckpoint : C → KvCheckpointConfig
  isGufo : C → Bool
  validatePublicBindAuth : C → Except String Unit
  /-- `gufo::prepare`, the command. -/
  gufoCommand : C → String → Except String (List String)
  ensurePortAvailable : C → Except String Unit
  validateRuntimeExecutable : String → String → Except String Unit
  /-- `build_fingerprint` for an engine of this version and backend. -/
  buildFingerprint : C → String → String → String → Option CheckpointFingerprint
  formatCommandForDisplay : List String → String
  runningInstanceMatchesLiveProcess : RunningInstance C → Bool
  /-- `cleanup_scratch` and `prepare_instance` -/
  prepareScratch : String → Except StoreError String
  pathsEqual : String → String → Bool
  qualified : CheckpointFingerprint → Nat → Bool
  validateEffectiveLaunchSecurity : C → List String → Except String Unit
  createLogDir : Except String Unit
  createLogWriter : String → Except String Unit
  /-- `lookup_cache_store::prepare`: the command with the cache, and whether there is a run. -/
  prepareLookup : String → C → List String → Except String (List String × Bool)
  safeToFlush : List String → Bool → Bool
  environment : C → Except String (List (String × String))
  spawn : List String → Option String → List (String × String) → Except String Nat
  stdout : Bool
  stderr : Bool
  readProcessIdentity : Nat → Option (Nat × String)
  registerStart : String → Nat → CheckpointEligibility → Option CheckpointFingerprint →
    KvCheckpointConfig → Except String Unit
  prepareColdRecovery : String → Nat → Except String Unit
  beginRunSession : Option String
  persist : Persisted
  /-- The error of the thread that waits for the process. -/
  processMonitor : Option String
  /-- The error of the thread that samples it. -/
  instanceMonitor : Option String
  /-- `persist` after a monitor could not be created. -/
  persistRollback : Persisted

section Start

variable {C : Type} (host : Host C)

/-! ### Checks -/

def validateInstanceId (instanceId : String) : Except String Unit :=
  let trimmed := trim instanceId
  if trimmed.isEmpty ∨ 128 < trimmed.utf8ByteSize ∨
      !trimmed.toList.all (fun c => c.isAlphanum || c == '-' || c == '_') then
    .error "实例 ID 只能包含字母、数字、连字符和下划线，且长度不能超过 128 个字符。"
  else .ok ()

/-- The value of `--slot-save-path=…`. -/
def inlineSlotSavePath (argument : String) : Option String :=
  stripPrefix "--slot-save-path=" argument

/-- `single_slot_save_path`, after the executable: the path, if there is one and it is not
blank. -/
def slotSavePath (found : Option String) : List String → Option String
  | [] => found
  | [argument] =>
    if argument = "--slot-save-path" then none
    else
      match inlineSlotSavePath argument with
      | some value => if found.isSome ∨ (trim value).isEmpty then none else some value
      | none => found
  | argument :: next :: arguments =>
    if argument = "--slot-save-path" then
      if found.isSome ∨ (trim next).isEmpty then none else slotSavePath (some next) arguments
    else
      match inlineSlotSavePath argument with
      | some value =>
        if found.isSome ∨ (trim value).isEmpty then none
        else slotSavePath (some value) (next :: arguments)
      | none => slotSavePath found (next :: arguments)

/-- `strip_managed_slot_save_path`, after the executable. -/
def withoutSlotSavePath : List String → List String
  | [] => []
  | [argument] =>
    if argument = "--slot-save-path" ∨ (inlineSlotSavePath argument).isSome then []
    else [argument]
  | argument :: next :: arguments =>
    if argument = "--slot-save-path" then withoutSlotSavePath arguments
    else if (inlineSlotSavePath argument).isSome then withoutSlotSavePath (next :: arguments)
    else argument :: withoutSlotSavePath (next :: arguments)

def checkpointEligibilityRevision : Nat := 8

/-- `CheckpointEligibility::ineligible` -/
def ineligible (reasonCode : ReasonCode) : CheckpointEligibility := ⟨false, reasonCode, 1⟩

/-- `downgrade_runtime_checkpoint` -/
def downgradeRuntimeCheckpoint (spec : RuntimeLaunchSpec C) (reasonCode : ReasonCode) :
    RuntimeLaunchSpec C :=
  let command := spec.command.take 1 ++ withoutSlotSavePath (spec.command.drop 1)
  { spec with
    command
    commandDisplay := host.formatCommandForDisplay command
    checkpoint := some ⟨checkpointEligibilityRevision, ineligible reasonCode, none, none⟩ }

/-- `runtime_checkpoint_fingerprint_is_current` -/
def fingerprintIsCurrent (spec : RuntimeLaunchSpec C) : Bool :=
  match spec.checkpoint.filter (·.eligibility.eligible) with
  | none => true
  | some checkpoint =>
    match checkpoint.fingerprint, spec.command.head? with
    | some expected, some engine =>
      decide (host.buildFingerprint spec.config engine expected.engineVersion expected.backend =
        some expected)
    | _, _ => false

/-- A launch with its checkpoint as it is registered. -/
structure Prepared (C : Type) where
  spec : RuntimeLaunchSpec C
  eligibility : CheckpointEligibility
  fingerprint : Option CheckpointFingerprint

def downgraded (spec : RuntimeLaunchSpec C) (reasonCode : ReasonCode) : Prepared C :=
  ⟨downgradeRuntimeCheckpoint host spec reasonCode, ineligible reasonCode, none⟩

/-- The last tests of `prepare_runtime_checkpoint_launch`, with a valid fingerprint. -/
def prepareQualified (spec : RuntimeLaunchSpec C) (checkpoint : RuntimeCheckpointLaunchSpec)
    (fingerprint : CheckpointFingerprint) : Prepared C :=
  match host.prepareScratch spec.instanceId with
  | .error error => downgraded host spec error.reasonCode
  | .ok expectedScratch =>
    if !(slotSavePath none (spec.command.drop 1)).any (host.pathsEqual · expectedScratch) then
      downgraded host spec .conflictingSlotSavePath
    else if checkpoint.qualification = some "local_validated" ∧
        (!(host.kvCheckpoint spec.config).allowLocalValidation ∨
          !host.qualified fingerprint (host.parallel spec.config)) then
      downgraded host spec .localValidationRequired
    else ⟨spec, checkpoint.eligibility, some fingerprint⟩

def prepareRuntimeCheckpointLaunch (spec : RuntimeLaunchSpec C) : Prepared C :=
  if host.isGufo spec.config then downgraded host spec .engineCapabilityMissing
  else
    match spec.checkpoint with
    | none => ⟨spec, ineligible .disabled, none⟩
    | some checkpoint =>
      if !checkpoint.eligibility.eligible then
        ⟨spec, checkpoint.eligibility, checkpoint.fingerprint⟩
      else if checkpoint.eligibilityRevision ≠ checkpointEligibilityRevision then
        downgraded host spec .engineCapabilityMissing
      else if checkpoint.eligibility.slotCount ≠ host.parallel spec.config then
        downgraded host spec .parallelMustBeOne
      else
        match checkpoint.fingerprint with
        | none => downgraded host spec .fingerprintUnavailable
        | some fingerprint =>
          match fingerprint.validate with
          | .error error => downgraded host spec error.reasonCode
          | .ok () => prepareQualified host spec checkpoint fingerprint

/-- A test that fails when it holds. -/
def refuse (refused : Bool) (error : String) : Except String Unit :=
  if refused then .error error else .ok ()

/-- The tests of a launch of Gufo. -/
def checkGufo (spec : RuntimeLaunchSpec C) : Except String Unit :=
  if host.isGufo spec.config then do
    refuse (host.configId spec.config ≠ spec.instanceId) "Gufo instance identity mismatch"
    let expected ← host.gufoCommand spec.config (spec.command.headD "")
    refuse (expected ≠ spec.command) "Gufo launch spec differs from its validated configuration"
    host.ensurePortAvailable spec.config
  else .ok ()

/-- The launch without a checkpoint whose fingerprint is not current. -/
def currentLaunch (spec : RuntimeLaunchSpec C) : RuntimeLaunchSpec C :=
  let spec :=
    if fingerprintIsCurrent host spec then spec
    else downgradeRuntimeCheckpoint host spec .fingerprintUnavailable
  { spec with commandDisplay := host.formatCommandForDisplay spec.command }

/-- The tests of a start, up to the security of the launch. -/
def checkStart (spec : RuntimeLaunchSpec C) (state : RuntimeState C) :
    Except String (Prepared C) := do
  validateInstanceId spec.instanceId
  host.validatePublicBindAuth spec.config
  refuse (trim (spec.command.headD "")).isEmpty "runtime launch command is empty"
  checkGufo host spec
  host.validateRuntimeExecutable (spec.command.headD "") spec.executableSha256
  let spec := currentLaunch host spec
  refuse ((state.running.lookup spec.instanceId).any host.runningInstanceMatchesLiveProcess)
    "该实例已在运行中"
  let prepared := prepareRuntimeCheckpointLaunch host spec
  host.validateEffectiveLaunchSecurity prepared.spec.config prepared.spec.command
  return prepared

/-! ### The process -/

/-- From the log to the registered process. What fails ends the process. -/
def launchProcess (prepared : Prepared C) (coldRecovery : Bool) :
    Except String (RunningInstance C) := do
  let spec := prepared.spec
  (host.createLogDir).mapError ("无法创建日志目录: " ++ ·)
  (host.createLogWriter spec.instanceId).mapError ("无法创建日志文件: " ++ ·)
  let (launchCommand, lookupRun) ← host.prepareLookup spec.instanceId spec.config spec.command
  let gracefulExitSafe := host.safeToFlush launchCommand lookupRun
  let environment ← host.environment spec.config
  let pid ← (host.spawn launchCommand (spec.workingDirectory.filter fun directory =>
    !(trim directory).isEmpty) environment).mapError fun error =>
      "启动服务器失败: " ++ error ++ "\n命令: " ++ spec.commandDisplay
  if !host.stdout then throw "Unable to capture server stdout"
  if !host.stderr then throw "Unable to capture server stderr"
  match host.readProcessIdentity pid with
  | none => throw "Unable to verify the started server process identity"
  | some (startTime, executablePath) =>
    (host.registerStart spec.instanceId pid prepared.eligibility prepared.fingerprint
      (host.kvCheckpoint spec.config)).mapError fun error =>
        "checkpoint lifecycle registration failed for " ++ spec.instanceId ++ ": " ++ error
    if coldRecovery && prepared.eligibility.eligible then
      (host.prepareColdRecovery spec.instanceId pid).mapError
        ("checkpoint cold recovery setup failed: " ++ ·)
    return {
      gracefulExitSafe
      instanceId := spec.instanceId
      pid
      port := host.port spec.config
      host := host.bindHost spec.config
      startTime
      executablePath
      telemetrySessionId := host.beginRunSession
      workload := spec.workload
      launchConfig := some spec.config }

/-! ### The supervisor -/

/-- The entries of a started process. -/
def RuntimeState.started (state : RuntimeState C) (spec : RuntimeLaunchSpec C)
    (running : RunningInstance C) : RuntimeState C where
  desiredInstances := state.desiredInstances.insert spec.instanceId spec
  instances := state.instances.insert spec.instanceId spec.config
  running := state.running.insert spec.instanceId running

/-- What every rollback does to the state. -/
def RuntimeState.forget (state : RuntimeState C) (instanceId : String) : RuntimeState C :=
  { state with
    running := state.running.erase instanceId
    desiredInstances := state.desiredInstances.erase instanceId }

structure Supervisor (C : Type) where
  state : RuntimeState C := {}
  /-- The runtime state on disk. -/
  disk : RuntimeState C := {}
  lastError : Option String := none
  perfTrackers : Dict String Nat := ∅
  health : Dict String String := ∅

namespace Supervisor

def isInstanceExitError (error instanceId : String) : Bool :=
  (stripPrefix ("instance " ++ instanceId ++ " exited unexpectedly (code ") error).isSome

def clearRetriedInstanceError (s : Supervisor C) (instanceId : String) : Supervisor C :=
  { s with lastError := s.lastError.filter fun error => !isInstanceExitError error instanceId }

def save (s : Supervisor C) (persisted : Persisted) : Supervisor C :=
  if persisted.written then { s with disk := s.state } else s

/-- What every rollback does. -/
def forget (s : Supervisor C) (instanceId : String) : Supervisor C :=
  { s with
    state := s.state.forget instanceId
    perfTrackers := s.perfTrackers.erase instanceId }

/-- The monitors of a process whose entries are saved. -/
def monitor (s : Supervisor C) (instanceId : String) (running : RunningInstance C) :
    Except String (RunningInstance C) × Supervisor C :=
  match host.processMonitor with
  | some error =>
    (.error ("failed to start runtime process monitor: " ++ error),
      (s.forget instanceId).save host.persistRollback)
  | none =>
    let s := { s with health := s.health.insert instanceId "pending" }
    match host.instanceMonitor with
    | some error =>
      (.error ("failed to start runtime metrics monitor: " ++ error),
        (s.forget instanceId).save host.persistRollback)
    | none => (.ok running, s)

/-- The entries of a process, saved; and its monitors. -/
def commit (s : Supervisor C) (spec : RuntimeLaunchSpec C) (running : RunningInstance C) :
    Except String (RunningInstance C) × Supervisor C :=
  let s := { s with
    perfTrackers := s.perfTrackers.insert spec.instanceId running.pid
    state := s.state.started spec running }
  match host.persist with
  | .failed error written =>
    (.error ("Server start was rolled back because runtime state could not be persisted: " ++
      error), (s.save (.failed error written)).forget spec.instanceId)
  | .ok => (s.save .ok).monitor host spec.instanceId running

def startInstanceLocked (s : Supervisor C) (coldRecovery : Bool) (spec : RuntimeLaunchSpec C) :
    Except String (RunningInstance C) × Supervisor C :=
  match checkStart host spec s.state with
  | .error error => (.error error, s)
  | .ok prepared =>
    let s := s.clearRetriedInstanceError spec.instanceId
    match launchProcess host prepared coldRecovery with
    | .error error => (.error error, s)
    | .ok running => s.commit host prepared.spec running

end Supervisor

/-! ### What the checks say -/

section Checks

variable {host} {spec : RuntimeLaunchSpec C} {state : RuntimeState C} {prepared : Prepared C}

/-- A downgrade is of the command and the checkpoint. -/
structure SameLaunch (spec spec' : RuntimeLaunchSpec C) : Prop where
  instanceId : spec'.instanceId = spec.instanceId
  config : spec'.config = spec.config

theorem sameLaunch_prepareQualified (checkpoint : RuntimeCheckpointLaunchSpec)
    (fingerprint : CheckpointFingerprint) :
    SameLaunch spec (prepareQualified host spec checkpoint fingerprint).spec := by
  unfold prepareQualified
  split
  · exact ⟨rfl, rfl⟩
  · split
    · exact ⟨rfl, rfl⟩
    · split <;> exact ⟨rfl, rfl⟩

theorem sameLaunch_prepare : SameLaunch spec (prepareRuntimeCheckpointLaunch host spec).spec := by
  unfold prepareRuntimeCheckpointLaunch
  split
  · exact ⟨rfl, rfl⟩
  · split
    · exact ⟨rfl, rfl⟩
    · split
      · exact ⟨rfl, rfl⟩
      · split
        · exact ⟨rfl, rfl⟩
        · split
          · exact ⟨rfl, rfl⟩
          · split
            · exact ⟨rfl, rfl⟩
            · split
              · exact ⟨rfl, rfl⟩
              · exact sameLaunch_prepareQualified _ _

theorem sameLaunch_current : SameLaunch spec (currentLaunch host spec) := by
  unfold currentLaunch
  split <;> exact ⟨rfl, rfl⟩

theorem refuse_ok {refused : Bool} {error : String} (passed : refuse refused error = .ok ()) :
    refused = false := by
  unfold refuse at passed
  split at passed
  · cases passed
  · simpa using ‹¬refused = true›

/-- The launch that passes is of the same instance, which has no live process. -/
theorem checkStart_ok (checked : checkStart host spec state = .ok prepared) :
    SameLaunch spec prepared.spec ∧
      ∀ run ∈ state.running.lookup spec.instanceId,
        host.runningInstanceMatchesLiveProcess run = false := by
  obtain ⟨_, -, checked⟩ := bind_eq_ok.mp checked
  obtain ⟨_, -, checked⟩ := bind_eq_ok.mp checked
  obtain ⟨_, -, checked⟩ := bind_eq_ok.mp checked
  obtain ⟨_, -, checked⟩ := bind_eq_ok.mp checked
  obtain ⟨_, -, checked⟩ := bind_eq_ok.mp checked
  obtain ⟨_, idle, checked⟩ := bind_eq_ok.mp checked
  obtain ⟨_, -, checked⟩ := bind_eq_ok.mp checked
  obtain rfl := Except.ok.inj checked
  have current : SameLaunch spec (currentLaunch host spec) := sameLaunch_current
  have last := @sameLaunch_prepare _ host (currentLaunch host spec)
  refine ⟨⟨last.instanceId.trans current.instanceId, last.config.trans current.config⟩, ?_⟩
  intro run found
  have none := refuse_ok idle
  rw [current.instanceId, show state.running.lookup spec.instanceId = some run from found] at none
  exact none

end Checks

/-! ### The intent -/

section Intent

variable {host} {live : RunningInstance C → Bool}

/-- The same intent: what should run, with which configurations, and which live processes
run. -/
structure SameIntent (live : RunningInstance C → Bool) (a b : RuntimeState C) : Prop where
  desired : ∀ id, b.desiredInstances.lookup id = a.desiredInstances.lookup id
  instances : ∀ id, b.instances.lookup id = a.instances.lookup id
  running : ∀ id run, live run = true → (b.running.lookup id = some run ↔
    a.running.lookup id = some run)

theorem SameIntent.refl (a : RuntimeState C) : SameIntent live a a :=
  ⟨fun _ => rfl, fun _ => rfl, fun _ _ _ => Iff.rfl⟩

theorem SameIntent.symm {a b : RuntimeState C} (h : SameIntent live a b) : SameIntent live b a :=
  ⟨fun id => (h.desired id).symm, fun id => (h.instances id).symm,
    fun id run alive => (h.running id run alive).symm⟩

theorem SameIntent.trans {a b c : RuntimeState C} (h : SameIntent live a b)
    (h' : SameIntent live b c) : SameIntent live a c :=
  ⟨fun id => (h'.desired id).trans (h.desired id),
    fun id => (h'.instances id).trans (h.instances id),
    fun id run alive => (h'.running id run alive).trans (h.running id run alive)⟩

/-- The entries of the other instances. -/
structure SameOthers (instanceId : String) (a b : RuntimeState C) : Prop where
  desired : ∀ id ≠ instanceId, b.desiredInstances.lookup id = a.desiredInstances.lookup id
  instances : ∀ id ≠ instanceId, b.instances.lookup id = a.instances.lookup id
  running : ∀ id ≠ instanceId, b.running.lookup id = a.running.lookup id

theorem SameOthers.refl (instanceId : String) (a : RuntimeState C) :
    SameOthers instanceId a a :=
  ⟨fun _ _ => rfl, fun _ _ => rfl, fun _ _ => rfl⟩

theorem SameOthers.started (state : RuntimeState C) (spec : RuntimeLaunchSpec C)
    (run : RunningInstance C) : SameOthers spec.instanceId state (state.started spec run) :=
  ⟨fun _ ne => AList.lookup_insert_ne ne, fun _ ne => AList.lookup_insert_ne ne,
    fun _ ne => AList.lookup_insert_ne ne⟩

theorem SameOthers.forgotten (state : RuntimeState C) (spec : RuntimeLaunchSpec C)
    (run : RunningInstance C) :
    SameOthers spec.instanceId state ((state.started spec run).forget spec.instanceId) := by
  have started := SameOthers.started state spec run
  exact ⟨fun id ne => (AList.lookup_erase_ne ne).trans (started.desired id ne), started.instances,
    fun id ne => (AList.lookup_erase_ne ne).trans (started.running id ne)⟩

/-- The rollback takes the entries away; it restores nothing. -/
theorem sameIntent_forgotten {state : RuntimeState C} {spec : RuntimeLaunchSpec C}
    {run : RunningInstance C}
    (dead : ∀ run ∈ state.running.lookup spec.instanceId, live run = false) :
    SameIntent live state ((state.started spec run).forget spec.instanceId) ↔
      state.desiredInstances.lookup spec.instanceId = none ∧
        state.instances.lookup spec.instanceId = some spec.config := by
  have others := SameOthers.forgotten state spec run
  constructor
  · intro same
    have desired := same.desired spec.instanceId
    have instances := same.instances spec.instanceId
    simp only [RuntimeState.forget, RuntimeState.started, AList.lookup_erase,
      AList.lookup_insert] at desired instances
    exact ⟨desired.symm, instances.symm⟩
  · rintro ⟨undesired, configured⟩
    constructor
    · intro id
      by_cases eq : id = spec.instanceId
      · subst eq
        rw [undesired]
        exact AList.lookup_erase _ _
      · exact others.desired id eq
    · intro id
      by_cases eq : id = spec.instanceId
      · subst eq
        rw [configured]
        exact AList.lookup_insert _
      · exact others.instances id eq
    · intro id run' alive
      by_cases eq : id = spec.instanceId
      · subst eq
        have gone : ((state.started spec run).forget spec.instanceId).running.lookup
            spec.instanceId = none := AList.lookup_erase _ _
        rw [gone]
        refine iff_of_false (by simp) fun found => ?_
        rw [dead run' found] at alive
        cases alive
      · rw [others.running id eq]

end Intent

/-! ### Failed starts -/

section Failed

variable {host} {s s' : Supervisor C} {coldRecovery : Bool} {spec : RuntimeLaunchSpec C}
  {error : String}

/-- What the rollback writes itself is written; it writes after the entries were saved. -/
def RollbackWritten (host : Host C) : Prop := host.persist = .ok → host.persistRollback = .ok

/-- The intent is as it was, in memory and on disk. -/
structure Restored (host : Host C) (s s' : Supervisor C) : Prop where
  state : SameIntent host.runningInstanceMatchesLiveProcess s.state s'.state
  disk : RollbackWritten host → SameIntent host.runningInstanceMatchesLiveProcess s.disk s'.disk

/-- What is written last when the start of a process fails, if the memory is restored: the new
entries by a `persist` that fails late, nothing by one that fails before, or the memory. -/
def leftOnDisk (host : Host C) (s : Supervisor C) (spec : RuntimeLaunchSpec C)
    (running : RunningInstance C) : RuntimeState C :=
  match host.persist with
  | .failed _ true => s.state.started spec running
  | .failed _ false => s.disk
  | .ok => s.state

/-- The start fails before the entries are made; or the instance was not desired and had the
configuration of the launch, and the disk said what it is left with. -/
def Unspoiled (host : Host C) (s : Supervisor C) (coldRecovery : Bool)
    (spec : RuntimeLaunchSpec C) : Prop :=
  ∀ prepared running, checkStart host spec s.state = .ok prepared →
    launchProcess host prepared coldRecovery = .ok running →
    s.state.desiredInstances.lookup spec.instanceId = none ∧
      s.state.instances.lookup spec.instanceId = some spec.config ∧
      (RollbackWritten host → SameIntent host.runningInstanceMatchesLiveProcess s.disk
        (leftOnDisk host s prepared.spec running))

theorem monitor_failed {instanceId : String} {running : RunningInstance C}
    (failed : s.monitor host instanceId running = (.error error, s')) :
    s'.state = s.state.forget instanceId ∧
      s'.disk = if host.persistRollback.written then s.state.forget instanceId else s.disk := by
  unfold Supervisor.monitor at failed
  split at failed
  · cases failed
    unfold Supervisor.save
    split <;> exact ⟨rfl, rfl⟩
  · simp only at failed
    split at failed
    · cases failed
      unfold Supervisor.save
      split <;> exact ⟨rfl, rfl⟩
    · cases failed

/-- A failure after the entries were made. -/
theorem commit_failed {running : RunningInstance C}
    (failed : s.commit host spec running = (.error error, s')) :
    s'.state = (s.state.started spec running).forget spec.instanceId ∧
      s'.disk = match host.persist with
        | .failed _ true => s.state.started spec running
        | .failed _ false => s.disk
        | .ok => if host.persistRollback.written then
            (s.state.started spec running).forget spec.instanceId
          else s.state.started spec running := by
  unfold Supervisor.commit at failed
  cases persisted : host.persist with
  | failed message written =>
    simp only [persisted] at failed
    cases failed
    cases written <;> exact ⟨rfl, rfl⟩
  | ok =>
    simp only [persisted] at failed
    exact monitor_failed failed

theorem commit_restored {running : RunningInstance C}
    (dead : ∀ run ∈ s.state.running.lookup spec.instanceId,
      host.runningInstanceMatchesLiveProcess run = false)
    (failed : s.commit host spec running = (.error error, s')) :
    (Restored host s s' ↔ s.state.desiredInstances.lookup spec.instanceId = none ∧
      s.state.instances.lookup spec.instanceId = some spec.config ∧
      (RollbackWritten host → SameIntent host.runningInstanceMatchesLiveProcess s.disk
        (leftOnDisk host s spec running))) ∧
    SameOthers spec.instanceId s.state s'.state ∧
    (s'.disk = s.disk ∨ SameOthers spec.instanceId s.state s'.disk) := by
  obtain ⟨state, disk⟩ := commit_failed failed
  have memory := @sameIntent_forgotten C host.runningInstanceMatchesLiveProcess s.state spec running
    dead
  have others := SameOthers.forgotten s.state spec running
  refine ⟨?_, state ▸ others, ?_⟩
  · constructor
    · rintro ⟨sameState, sameDisk⟩
      rw [state] at sameState
      obtain ⟨undesired, configured⟩ := memory.mp sameState
      refine ⟨undesired, configured, fun written => ?_⟩
      have sameDisk := sameDisk written
      rw [disk] at sameDisk
      unfold leftOnDisk
      cases persisted : host.persist with
      | failed message late => cases late <;> simpa [persisted] using sameDisk
      | ok =>
        simp only [persisted, written persisted, Persisted.written, if_true] at sameDisk
        exact sameDisk.trans sameState.symm
    · rintro ⟨undesired, configured, left⟩
      have sameState := memory.mpr ⟨undesired, configured⟩
      refine ⟨state ▸ sameState, fun written => ?_⟩
      have left := left written
      rw [disk]
      unfold leftOnDisk at left
      cases persisted : host.persist with
      | failed message late => cases late <;> simpa [persisted] using left
      | ok =>
        simp only [persisted, written persisted, Persisted.written, if_true] at left ⊢
        exact left.trans sameState
  · rw [disk]
    cases persisted : host.persist with
    | failed message late =>
      cases late with
      | true => exact .inr (.started s.state spec running)
      | false => exact .inl rfl
    | ok =>
      right
      simp only
      split
      · exact others
      · exact .started s.state spec running

/-- **A failed start restores the intent exactly if** it fails before the new entries
are made, or there was nothing to restore; what fails after that leaves the entries of
this start. The entries of other instances stay in any case. -/
theorem startInstanceLocked_failed
    (failed : s.startInstanceLocked host coldRecovery spec = (.error error, s')) :
    (Restored host s s' ↔ Unspoiled host s coldRecovery spec) ∧
    SameOthers spec.instanceId s.state s'.state ∧
    (s'.disk = s.disk ∨ SameOthers spec.instanceId s.state s'.disk) := by
  have untouched : s'.state = s.state → s'.disk = s.disk →
      (∀ prepared running, checkStart host spec s.state = .ok prepared →
        launchProcess host prepared coldRecovery ≠ .ok running) →
      (Restored host s s' ↔ Unspoiled host s coldRecovery spec) ∧
      SameOthers spec.instanceId s.state s'.state ∧
      (s'.disk = s.disk ∨ SameOthers spec.instanceId s.state s'.disk) := by
    intro state disk early
    refine ⟨iff_of_true ⟨state ▸ .refl _, fun _ => disk ▸ .refl _⟩ ?_, state ▸ .refl _ _, .inl disk⟩
    intro prepared running checked launched
    exact absurd launched (early prepared running checked)
  unfold Supervisor.startInstanceLocked at failed
  cases checked : checkStart host spec s.state with
  | error message =>
    simp only [checked] at failed
    cases failed
    exact untouched rfl rfl fun prepared running passed => by cases checked.symm.trans passed
  | ok prepared =>
    simp only [checked] at failed
    obtain ⟨⟨sameId, sameConfig⟩, dead⟩ := checkStart_ok checked
    cases launched : launchProcess host prepared coldRecovery with
    | error message =>
      simp only [launched] at failed
      cases failed
      refine untouched rfl rfl fun prepared' running passed launched' => ?_
      obtain rfl := Except.ok.inj (checked.symm.trans passed)
      cases launched.symm.trans launched'
    | ok running =>
      simp only [launched] at failed
      have facts := @commit_restored C host (s.clearRetriedInstanceError spec.instanceId) s'
        prepared.spec error running (sameId ▸ dead) failed
      rw [sameId, sameConfig] at facts
      refine ⟨Iff.trans ⟨?_, ?_⟩ (facts.1.trans ⟨?_, ?_⟩), facts.2⟩
      · exact fun ⟨state, disk⟩ => ⟨state, disk⟩
      · exact fun ⟨state, disk⟩ => ⟨state, disk⟩
      · intro restored prepared' running' checked' launched'
        obtain rfl := Except.ok.inj (checked.symm.trans checked')
        obtain rfl := Except.ok.inj (launched.symm.trans launched')
        exact restored
      · exact fun unspoiled => unspoiled prepared running checked launched

end Failed

end Start

/-! ### A thread that cannot be created -/

/-- A machine that creates no thread to wait for a process. A configuration is its port. -/
def threadless : Host Nat where
  configId _ := "a"
  port config := config
  bindHost _ := "127.0.0.1"
  parallel _ := 1
  kvCheckpoint _ := {}
  isGufo _ := false
  validatePublicBindAuth _ := .ok ()
  gufoCommand _ engine := .ok [engine]
  ensurePortAvailable _ := .ok ()
  validateRuntimeExecutable _ _ := .ok ()
  buildFingerprint _ _ _ _ := none
  formatCommandForDisplay command := " ".intercalate command
  runningInstanceMatchesLiveProcess _ := false
  prepareScratch _ := .ok "scratch"
  pathsEqual a b := a = b
  qualified _ _ := false
  validateEffectiveLaunchSecurity _ _ := .ok ()
  createLogDir := .ok ()
  createLogWriter _ := .ok ()
  prepareLookup _ _ command := .ok (command, false)
  safeToFlush _ _ := true
  environment _ := .ok []
  spawn _ _ _ := .ok 42
  stdout := true
  stderr := true
  readProcessIdentity _ := some (7, "llama-server")
  registerStart _ _ _ _ _ := .ok ()
  prepareColdRecovery _ _ := .ok ()
  beginRunSession := none
  persist := .ok
  processMonitor := some "Resource temporarily unavailable"
  instanceMonitor := none
  persistRollback := .ok

/-- The launch of instance `a` at a port. -/
def launchAt (port : Nat) : RuntimeLaunchSpec Nat where
  instanceId := "a"
  config := port
  engineBackend := "cpu"
  command := ["llama-server"]
  commandDisplay := "llama-server"
  executableSha256 := ""
  workload := "chat"
  workingDirectory := none
  checkpoint := none

/-- Instance `a` should run at a port; its process is gone. -/
def wantedAt (port : Nat) : RuntimeState Nat where
  instances := AList.singleton "a" port
  desiredInstances := AList.singleton "a" (launchAt port)

/-- Instance `a` was stopped. -/
def stoppedAt (port : Nat) : RuntimeState Nat where
  instances := AList.singleton "a" port

/-- The supervisor after a start at another port. -/
def restarted : Supervisor Nat :=
  (Supervisor.startInstanceLocked threadless ⟨wantedAt 8080, wantedAt 8080, none, ∅, ∅⟩ false
    (launchAt 8081)).2

/-- Instance `a` should run at port 8080. A start at port 8081 fails, and then it should not run
at all; its configuration is the new one. -/
theorem start_loses_intent :
    Supervisor.startInstanceLocked threadless ⟨wantedAt 8080, wantedAt 8080, none, ∅, ∅⟩ false
        (launchAt 8081) =
      (.error "failed to start runtime process monitor: Resource temporarily unavailable",
        restarted) ∧
    RollbackWritten threadless ∧
    (wantedAt 8080).desiredInstances.lookup "a" = some (launchAt 8080) ∧
    restarted.state.desiredInstances.lookup "a" = none ∧
    restarted.disk.desiredInstances.lookup "a" = none ∧
    restarted.state.instances.lookup "a" = some 8081 ∧
    ¬Restored threadless ⟨wantedAt 8080, wantedAt 8080, none, ∅, ∅⟩ restarted := by
  refine ⟨rfl, fun _ => rfl, rfl, rfl, rfl, rfl, fun restored => ?_⟩
  have lost : (none : Option (RuntimeLaunchSpec Nat)) = some (launchAt 8080) :=
    restored.state.desired "a"
  cases lost

/-- The start of a stopped instance with its own configuration leaves it stopped. -/
theorem startInstanceLocked_failed_stopped :
    Restored threadless ⟨stoppedAt 8080, stoppedAt 8080, none, ∅, ∅⟩
      (Supervisor.startInstanceLocked threadless ⟨stoppedAt 8080, stoppedAt 8080, none, ∅, ∅⟩ false
        (launchAt 8080)).2 := by
  have failed : Supervisor.startInstanceLocked threadless
      ⟨stoppedAt 8080, stoppedAt 8080, none, ∅, ∅⟩ false (launchAt 8080) =
      (.error "failed to start runtime process monitor: Resource temporarily unavailable",
        (Supervisor.startInstanceLocked threadless
          ⟨stoppedAt 8080, stoppedAt 8080, none, ∅, ∅⟩ false (launchAt 8080)).2) := rfl
  apply (startInstanceLocked_failed failed).1.mpr
  intro prepared running _ _
  exact ⟨rfl, rfl, fun _ => .refl _⟩

end LlamaServerManager.Runtime
