import LlamaServerManager.Checkpoint.Isolation
import LlamaServerManager.Checkpoint.Callers

/-!
A process whose restore failed after it had begun to write slots is never routed.

`Stopping` is entered by healthy, unready and poisoned processes alike, and can be
left for a ready phase. What keeps a poisoned process out is who may leave it: going
back needs a phase that was read as ready, and ending a restore as a cold start needs
the one successful `on_engine_healthy` of the process. So callers are bystanders, all
but the one that owns the start of the engine (`Role`), and once the process needs a
restart nobody owns it (`poisoned_never_routed`).
-/

namespace LlamaServerManager.Checkpoint

open Lib

/-! ### Roles -/

/-- The phases of a process that has not been ready yet, or never will be. -/
def CheckpointPhase.unready : CheckpointPhase → Bool
  | .starting | .engineHealthy | .restoring | .restartRequired | .stopping => true
  | _ => false

inductive Role where
  | bystander
  /-- The monitor whose `on_engine_healthy` succeeded. -/
  | owner
deriving DecidableEq, Repr

/-- What a transition that is answered in an unready phase makes of a role. -/
def Role.moves (next : CheckpointPhase) :
    Role → Except StoreError CheckpointStatus → Role → Prop
  | role, .error _, r => r = role
  | .bystander, .ok _, r => next = .engineHealthy ∧ r = .owner ∨ next = .stopping ∧ r = .bystander
  | .owner, .ok _, r => next = .restoring ∧ r = .owner ∨ next = .restartRequired ∧ r = .bystander

/-- The answers a role expects in the unready phases of the instance. -/
def Role.step (i : String) : Role → (q : Call) → q.Answer → Role → Prop
  | .bystander, .lock (.gateActive j), active, r => (j = i → active = true) ∧ r = .bystander
  | .bystander, .lock (.status j), found, r =>
    (j = i → ∃ status : CheckpointStatus, found = some status ∧ status.phase.unready = true) ∧
      r = .bystander
  | role, .lock (.transition _ _ next), result, r => role.moves next result r
  | role, _, _, r => r = role

/-- Only the owner goes through the phases of a restore. -/
def Role.allowed (i : String) (pid : Nat) (role : Role) (q : Call) : Prop :=
  (Own i pid q ∧ ∀ next ∈ q.target, next ∈ restorePhases ↔ role = .owner) ∨
    ∃ j, q = .lock (.clearInstance j)

def roles (i : String) (pid : Nat) : Protocol Role Call Call.Answer where
  allowed := Role.allowed i pid
  step := Role.step i

/-! ### Bystanders -/

section Callers

variable {i : String} {pid : Nat} {α : Type} {post : Except StoreError α → Role → Prop}

theorem bystander_allowed {q : Call} (moves : Moves i pid savePhases q) :
    (roles i pid).allowed .bystander q := by
  refine .inl ⟨moves.own, fun next mem => ?_⟩
  have saving := moves.target next mem
  revert saving
  cases next <;> decide

theorem bystander_stays {q : Call} (moves : Moves i pid savePhases q) (a : q.Answer) (r : Role)
    (step : (roles i pid).step .bystander q a r) : r = .bystander := by
  cases q with
  | ask => exact step
  | lock s =>
    cases s with
    | gateActive => exact step.2
    | status => exact step.2
    | transition _ _ next =>
      have saving := moves.target next rfl
      cases (a : Except StoreError CheckpointStatus) with
      | error => exact step
      | ok =>
        rcases step with ⟨rfl, -⟩ | ⟨-, rfl⟩
        · exact absurd saving (by decide)
        · rfl
    | _ => exact step

/-- What only saves is done by a bystander. -/
theorem bystander_saves {x : Fallible α} (h : Within (Moves i pid savePhases) x)
    (holds : ∀ result, post result .bystander) : Plays (roles i pid) x post .bystander :=
  .of_within h (fun _ => bystander_allowed) (fun _ => bystander_stays) holds

/-- In an unready phase no other transition of a bystander succeeds. -/
theorem bystander_enter {next : CheckpointPhase} {post : Except StoreError CheckpointStatus → Role → Prop}
    (apart : next ∉ restorePhases) (failed : ∀ e, post (.error e) .bystander)
    (healthy : ∀ status, next = .engineHealthy → post (.ok status) .owner)
    (stopping : ∀ status, next = .stopping → post (.ok status) .bystander) :
    Plays (roles i pid) (Coordinator.enter i pid next) post .bystander := by
  refine .bind (.lock (.inl ⟨.inl rfl, ?_⟩) ?_)
  · rintro _ ⟨⟩
    simp [apart]
  · intro result r step
    refine .orFail ?_
    cases (result : Except StoreError CheckpointStatus) with
    | error e => cases step; exact failed e
    | ok status =>
      rcases step with ⟨eq, rfl⟩ | ⟨eq, rfl⟩
      · exact healthy status eq
      · exact stopping status eq

/-- What is done after a look at the gate; in an unready phase there is one. -/
theorem bystander_gate {f : Bool → Fallible α} (gated : Plays (roles i pid) (f true) post .bystander) :
    Plays (roles i pid) (do
      let active : Bool ← Coordinator.lock (.gateActive i)
      f active) post .bystander := by
  refine .bind (.lock (.inl ⟨.inr rfl, fun _ h => (nomatch h)⟩) ?_)
  rintro active r ⟨expected, rfl⟩
  cases expected rfl
  exact gated

theorem bystander_status {f : Option CheckpointStatus → Fallible α}
    (found : ∀ status : CheckpointStatus, status.phase.unready = true →
      Plays (roles i pid) (f (some status)) post .bystander) :
    Plays (roles i pid) (do
      let status : Option CheckpointStatus ← Coordinator.lock (.status i)
      f status) post .bystander := by
  refine .bind (.lock (.inl ⟨.inr rfl, fun _ h => (nomatch h)⟩) ?_)
  rintro status r ⟨expected, rfl⟩
  obtain ⟨status, rfl, unready⟩ := expected rfl
  exact found status unready

/-- A section of the process, or one that only looks, whatever it answers. -/
theorem bystander_lock {s : Section} {f : s.Answer → Fallible α} (own : Own i pid (.lock s))
    (target : (Call.lock s).target = none) (rest : ∀ a, Plays (roles i pid) (f a) post .bystander) :
    Plays (roles i pid) (Coordinator.lock s >>= f) post .bystander := by
  have moves : Moves i pid savePhases (.lock s) := ⟨own, fun _ h => by rw [target] at h; cases h⟩
  refine .bind (.lock (bystander_allowed moves) fun a r step => ?_)
  rw [bystander_stays moves a r step]
  exact rest a

theorem bystander_ask {q : Query} {f : q.Answer → Fallible α}
    (rest : ∀ a, Plays (roles i pid) (f a) post .bystander) :
    Plays (roles i pid) (Coordinator.ask q >>= f) post .bystander := by
  intro paths
  exact ⟨bystander_allowed (Coordinator.asks_move q), fun a r step => by
    rw [bystander_stays (Coordinator.asks_move q) a r step]
    exact rest a paths⟩

theorem beginDraining_bystander {post : Except StoreError CheckpointStatus → Role → Prop}
    (failed : ∀ e, post (.error e) .bystander) :
    Plays (roles i pid) (Coordinator.beginDraining i pid) post .bystander :=
  bystander_gate (bystander_enter (by decide) failed (fun _ eq => (nomatch eq))
    fun _ eq => (nomatch eq))

theorem markStopped_bystander {post : Except StoreError CheckpointStatus → Role → Prop}
    (failed : ∀ e, post (.error e) .bystander) :
    Plays (roles i pid) (Coordinator.markStopped i pid) post .bystander :=
  bystander_gate (.bind (bystander_enter (by decide) failed (fun _ eq => (nomatch eq))
    fun _ eq => (nomatch eq)))

/-- An unready phase is none to go back to, and there is nothing to save. -/
theorem saveInPhase_bystander {phase : CheckpointPhase} (launchConfig : Bool) (polls : Nat)
    (unready : phase.unready = true) {post : Except StoreError (Option CheckpointPhase) → Role → Prop}
    (nothing : post (.ok none) .bystander) :
    Plays (roles i pid) (Coordinator.saveInPhase i pid launchConfig polls (some phase)) post
      .bystander := by
  have skipped : Plays (roles i pid) (do
      let _ ← Coordinator.attempt (Coordinator.skipSaveNotReady i pid)
      pure none) post .bystander :=
    .bind (.attempt (bystander_saves (Coordinator.finishStopping_moves _) fun _ => .pure nothing))
  cases phase with
  | starting | engineHealthy | restoring | restartRequired => exact skipped
  | stopping => exact .pure nothing
  | _ => cases unready

theorem stopInstance_bystander (launchConfig : Bool) (polls : Nat) (stopper : Coordinator.Stopper) :
    Plays (roles i pid) (Coordinator.stopInstance i pid launchConfig polls stopper)
      (fun _ _ => True) .bystander := by
  have before : Plays (roles i pid)
      (Coordinator.checkpointBeforeTermination i pid launchConfig polls)
      (fun result r => result = .ok none ∧ r = .bystander) .bystander := by
    refine bystander_lock (.inl rfl) rfl fun _ => bystander_gate (bystander_status ?_)
    intro status unready
    exact saveInPhase_bystander launchConfig polls unready ⟨rfl, rfl⟩
  refine .bind (before.mono ?_)
  rintro _ _ ⟨rfl, rfl⟩
  refine bystander_ask fun (killed : Bool) => ?_
  cases killed with
  | true =>
    have reported : Plays (roles i pid) (do
        let _ ← Coordinator.lock (.markUnexpectedExit i pid)
        pure ()) (fun _ _ => True) .bystander :=
      bystander_lock (.inl rfl) rfl fun _ => .pure trivial
    cases stopper with
    | stopServer | appExit =>
      exact .bind (.attempt (markStopped_bystander fun _ => .pure trivial))
    | supervisor => exact .bind (.attempt (markStopped_bystander fun _ => reported))
  | false =>
    have resumed : Plays (roles i pid) (do
        let _ ← Coordinator.lock (.requestStop i pid false)
        pure ()) (fun _ _ => True) .bystander :=
      bystander_lock (.inl rfl) rfl fun _ => .pure trivial
    cases stopper with
    | stopServer => exact .bind (.pure resumed)
    | appExit | supervisor => exact resumed

theorem poll_bystander (slots : List SlotSnapshotRecord) :
    Plays (roles i pid) (Coordinator.poll i pid slots) (fun _ _ => True) .bystander := by
  refine bystander_ask fun activeRequests => bystander_lock (.inl rfl) rfl fun (due : Bool) => ?_
  cases due with
  | false => exact .pure trivial
  | true =>
    refine bystander_status fun status _ => bystander_lock (.inl rfl) rfl fun registered => ?_
    unfold Coordinator.saveIdleRegistered
    split
    · exact .pure trivial
    · exact .bind (.attempt (beginDraining_bystander fun _ => .pure trivial))

/-! ### The owner -/

/-- The transitions of the owner other than to `RestartRequired`. -/
def ownerPhases : List CheckpointPhase := [.restoring, .ready, .readyCold]

theorem owner_allowed {q : Call} (moves : Moves i pid ownerPhases q) :
    (roles i pid).allowed .owner q := by
  refine .inl ⟨moves.own, fun next mem => ?_⟩
  have phase := moves.target next mem
  revert phase
  cases next <;> decide

theorem owner_stays {q : Call} (moves : Moves i pid ownerPhases q) (a : q.Answer) (r : Role)
    (step : (roles i pid).step .owner q a r) : r = .owner := by
  cases q with
  | ask => exact step
  | lock s =>
    cases s with
    | transition _ _ next =>
      have phase := moves.target next rfl
      cases (a : Except StoreError CheckpointStatus) with
      | error => exact step
      | ok =>
        rcases step with ⟨-, rfl⟩ | ⟨rfl, -⟩
        · rfl
        · exact absurd phase (by decide)
    | _ => exact step

theorem owner_restores {x : Fallible α} (h : Within (Moves i pid ownerPhases) x)
    (holds : ∀ result, post result .owner) : Plays (roles i pid) x post .owner :=
  .of_within h (fun _ => owner_allowed) (fun _ => owner_stays) holds

variable {β : Type} {f : α → Fallible β}

/-- After a part that leaves the owner in its role. -/
theorem owner_then {x : Fallible α} (h : Within (Moves i pid ownerPhases) x)
    (rest : ∀ a, Plays (roles i pid) (f a) (fun _ _ => True) .owner) :
    Plays (roles i pid) (x >>= f) (fun _ _ => True) .owner := by
  refine .bind (owner_restores h fun result => ?_)
  cases result with
  | ok a => exact rest a
  | error => trivial

theorem owner_lock {s : Section} (own : Own i pid (.lock s)) (target : (Call.lock s).target = none) :
    Within (Moves i pid ownerPhases) (Coordinator.lock s) :=
  .lock ⟨own, fun _ h => by rw [target] at h; cases h⟩

theorem restoreFailure_owner (error : StoreError) :
    Plays (roles i pid) (Coordinator.restoreFailure i pid error) (fun _ _ => True) .owner := by
  refine owner_then (owner_lock (.inr rfl) rfl) fun status => ?_
  refine owner_then (.ask (Coordinator.asks_move _)) fun elapsed => ?_
  dsimp only
  split
  · -- The failure takes the role away.
    have entered : Plays (roles i pid) (Coordinator.enter i pid .restartRequired)
        (fun result r => ∀ status, result = .ok status → r = .bystander) .owner := by
      refine .bind (.lock (.inl ⟨.inl rfl, ?_⟩) ?_)
      · rintro _ ⟨⟩
        decide
      · intro result r step
        refine .orFail ?_
        rintro status rfl
        rcases step with ⟨eq, -⟩ | ⟨-, rfl⟩
        · cases eq
        · rfl
    refine .bind (entered.mono ?_)
    rintro (e | status) r role
    · trivial
    · cases role status rfl
      exact bystander_saves (Coordinator.record_moves _) fun _ => trivial
  · exact owner_restores (Coordinator.finishReadyCold_moves (by decide) _) fun _ => trivial

theorem startCold_owner (outcome : CheckpointOutcome) (reason : ReasonCode) (message : String) :
    Plays (roles i pid) (Coordinator.startCold i pid outcome reason message) (fun _ _ => True)
      .owner :=
  owner_restores (Coordinator.startCold_moves (by decide) _ _ _) fun _ => trivial

theorem restoreFound_owner (generation : LoadedGeneration) :
    Plays (roles i pid) (Coordinator.restoreFound i pid generation) (fun _ _ => True) .owner := by
  refine owner_then (.attempt (Coordinator.restoreGeneration_moves (by decide) generation))
    fun restored => ?_
  refine owner_then .get fun paths => ?_
  refine owner_then (Coordinator.removeScratch_asks Coordinator.asks_move i paths _) fun cleanup => ?_
  split
  · exact owner_then (Coordinator.rejectRestoring_moves generation) fun _ => restoreFailure_owner _
  · refine owner_then (Coordinator.enter_moves (by decide)) fun _ => ?_
    refine owner_then (.ask (Coordinator.asks_move _)) fun elapsed => ?_
    exact owner_restores (Coordinator.record_moves _) fun _ => trivial

theorem restoreLatest_owner (fingerprint : String) :
    Plays (roles i pid) (Coordinator.restoreLatest i pid fingerprint) (fun _ _ => True) .owner := by
  refine owner_then (.ask (Coordinator.asks_move _)) fun latest => ?_
  split
  · exact restoreFailure_owner _
  · refine owner_then (.ask (Coordinator.asks_move _)) fun mismatch => ?_
    split
    · exact restoreFailure_owner _
    · exact startCold_owner _ _ _
    · exact startCold_owner _ _ _
  · exact restoreFound_owner _

theorem restoreOrCold_owner (fingerprint : CheckpointFingerprint) (autoRestore : Bool) :
    Plays (roles i pid) (Coordinator.restoreOrCold i pid fingerprint autoRestore) (fun _ _ => True)
      .owner := by
  refine owner_then (owner_lock (.inr rfl) rfl) fun (active : Bool) => ?_
  cases active with
  | false => exact owner_restores Coordinator.currentStatus_moves fun _ => trivial
  | true =>
    unfold Coordinator.restoreGated
    rw [if_pos rfl]
    split
    · split
      · exact startCold_owner _ _ _
      · exact restoreLatest_owner _
    · refine owner_then (owner_lock (.inr rfl) rfl) fun (recovering : Bool) => ?_
      cases recovering with
      | true => exact startCold_owner _ _ _
      | false => exact startCold_owner _ _ _

theorem failRestoreSetup_owner (error : StoreError) :
    Plays (roles i pid) (Coordinator.failRestoreSetup i pid error) (fun _ _ => True) .owner :=
  owner_restores (Coordinator.finishReadyCold_moves (by decide) _) fun _ => trivial

theorem restoreRegistered_owner
    (registered : Option (CheckpointFingerprint × KvCheckpointConfig)) :
    Plays (roles i pid) (Coordinator.restoreRegistered i pid registered) (fun _ _ => True)
      .owner := by
  unfold Coordinator.restoreRegistered
  split
  · exact failRestoreSetup_owner _
  · refine owner_then (.ask (Coordinator.asks_move _)) fun client => ?_
    split
    · exact restoreOrCold_owner _ _
    · exact failRestoreSetup_owner _

/-- A last look at the gate, in any role. -/
theorem lookAtGate (r : Role) : Plays (roles i pid) (Coordinator.lock (.gateAllowsRouting i))
    (fun _ _ => True) r := by
  refine .lock (.inl ⟨.inr rfl, fun _ h => (nomatch h)⟩) fun _ _ _ => trivial

theorem resolveHealthy_owner :
    Plays (roles i pid) (Coordinator.resolveHealthy i pid) (fun _ _ => True) .owner := by
  refine owner_then (owner_lock (.inl rfl) rfl) fun registered => ?_
  split
  · exact lookAtGate _
  · refine .bind (.attempt ((restoreRegistered_owner _).mono fun _ r _ => ?_))
    exact lookAtGate r

/-! ### The callers -/

theorem monitor_bystander :
    Plays (roles i pid) (Coordinator.resolveCheckpointStartup i pid) (fun _ _ => True)
      .bystander := by
  refine bystander_gate (.bind (bystander_status fun status unready => .pure ?_))
  dsimp only
  split
  · exact .pure trivial
  · refine .bind (.attempt (bystander_gate (bystander_enter (by decide) ?_ ?_ ?_)))
    · exact fun _ => lookAtGate _
    · exact fun _ _ => resolveHealthy_owner
    · exact fun _ eq => (nomatch eq)

theorem onEngineHealthy_bystander :
    Plays (roles i pid) (Coordinator.onEngineHealthy i pid) (fun _ _ => True) .bystander :=
  bystander_gate (bystander_enter (by decide) (fun _ => trivial) (fun _ _ => trivial)
    fun _ _ => trivial)

/-- Whatever a caller was started for, it starts as a bystander. -/
theorem free_bystander {op : Operation} (free : op.free i pid = true) :
    op.steps.Follows (roles i pid) (fun _ _ => True) .bystander := by
  have saves : ∀ {α : Type} {x : Fallible α}, Within (Moves i pid savePhases) x →
      (finish x).Follows (roles i pid) (fun _ _ => True) .bystander :=
    fun moves => (bystander_saves moves fun _ => trivial).finish
  have one : ∀ s : Section, Own i pid (.lock s) → (Call.lock s).target = none →
      (finish (Coordinator.lock s)).Follows (roles i pid) (fun _ _ => True) .bystander :=
    fun s own target => saves (.lock ⟨own, fun _ h => by rw [target] at h; cases h⟩)
  have eqs : ∀ {j : String} {p : Nat}, (j == i && p == pid) = true → j = i ∧ p = pid :=
    fun eq => by simpa using eq
  cases op with
  | status j | gateAllowsRouting j | gateActive j => exact one _ (.inr rfl) rfl
  | clearInstance j =>
    refine Plays.finish (.bind (Plays.orFail ?_))
    cases require (validateIdentifier j = true) (⟨.manifestInvalid,
      "checkpoint instance identity is invalid"⟩ : StoreError) with
    | error => trivial
    | ok => exact .bind (.lock (.inr ⟨j, rfl⟩) fun _ _ _ => .orFail trivial)
  | registerStartWithContext | failRestoreSetup | restoreOrCold | resumeAfterStopFailure =>
    cases free
  | prepareColdRecovery j p | registeredCheckpoint j p | idleSaveDue j p | observeCompletedRequest j p
  | observeRestoredRequest j p | requestStop j p | markUnexpectedExit j p =>
    obtain ⟨rfl, rfl⟩ := eqs free
    exact one _ (.inl rfl) rfl
  | onEngineHealthy j p => obtain ⟨rfl, rfl⟩ := eqs free; exact onEngineHealthy_bystander.finish
  | beginDraining j p => obtain ⟨rfl, rfl⟩ := eqs free; exact saves Coordinator.beginDraining_moves
  | skipSaveBusy j p | skipSaveNotReady j p | failSaveSetup j p =>
    obtain ⟨rfl, rfl⟩ := eqs free
    exact saves (Coordinator.finishStopping_moves _)
  | saveBeforeStop j p => obtain ⟨rfl, rfl⟩ := eqs free; exact saves (Coordinator.saveBeforeStop_moves _ _)
  | markStopped j p =>
    obtain ⟨rfl, rfl⟩ := eqs free
    exact (markStopped_bystander fun _ => trivial).finish

theorem steps_bystander {caller : Caller} (admitted : caller.admits i pid = true) :
    (caller.steps i pid).Follows (roles i pid) (fun _ _ => True) .bystander := by
  cases caller with
  | monitor => exact monitor_bystander.finish
  | stop stopper launchConfig polls => exact (stopInstance_bystander launchConfig polls stopper).finish
  | poll slots => exact (poll_bystander slots).finish
  | operation op => exact free_bystander admitted

end Callers

/-! ### Callers do not register -/

/-- A process is registered by whoever launches it. -/
def NoRegister : Call → Prop
  | .lock (.register ..) => False
  | _ => True

section NoRegister

variable {i : String} {pid : Nat} {α : Type}

theorem Own.noRegister {q : Call} (own : Own i pid q) : NoRegister q := by
  cases q with
  | ask => trivial
  | lock s =>
    cases s with
    | register => rcases own with own | own <;> cases own
    | _ => trivial

theorem Within.noRegister {x : Fallible α} {phases : List CheckpointPhase}
    (h : Within (Moves i pid phases) x) : Within NoRegister x :=
  h.mono fun _ moves => moves.own.noRegister

theorem monitor_noRegister : Within NoRegister (Coordinator.resolveCheckpointStartup i pid) := by
  have restored : ∀ registered,
      Within NoRegister (Coordinator.restoreRegistered i pid registered) := by
    intro registered
    have failed : ∀ error, Within NoRegister (Coordinator.failRestoreSetup i pid error) :=
      fun error => Within.noRegister
        (Coordinator.finishReadyCold_moves (List.mem_singleton_self _) _)
    unfold Coordinator.restoreRegistered
    split
    · exact failed _
    · refine .bind (.ask trivial) fun client => ?_
      split
      · exact (Coordinator.restoreOrCold_moves _ _).noRegister
      · exact failed _
  have healthy : Within NoRegister (Coordinator.resolveHealthy i pid) := by
    refine .bind (.lock trivial) fun registered => ?_
    split
    · exact .lock trivial
    · exact .bind (.attempt (restored _)) fun _ => .lock trivial
  have started : Within NoRegister (Coordinator.resolveStarted i pid) := by
    have health : Within NoRegister (Coordinator.onEngineHealthy i pid) :=
      Within.noRegister (Coordinator.gated_moves (Coordinator.enter_moves
        (List.mem_singleton_self _)))
    refine .bind (.attempt health) fun result => ?_
    split
    · exact .lock trivial
    · exact healthy
  refine .bind (.lock trivial) fun (active : Bool) => ?_
  cases active with
  | false => exact .pure _
  | true =>
    refine .bind (.bind (.lock trivial) fun _ => .pure _) fun (required : Bool) => ?_
    cases required with
    | true => exact .pure _
    | false => exact started

theorem failSave_noRegister (error : StoreError) :
    Within NoRegister (Coordinator.failSave i pid error) :=
  .bind (.ask trivial) fun _ => (Coordinator.finishStopping_moves _).noRegister

theorem drain_noRegister (fingerprint : CheckpointFingerprint) (policy : KvCheckpointConfig)
    (polls : Nat) : Within NoRegister (Coordinator.drain i pid fingerprint policy polls) := by
  induction polls with
  | zero => exact .bind (.ask trivial) fun _ => (Coordinator.finishStopping_moves _).noRegister
  | succ polls ih =>
    refine .bind (.ask trivial) fun activeRequests => .bind (.ask trivial) fun slots => ?_
    split
    · exact failSave_noRegister _
    · split
      · refine .bind (.ask trivial) fun client => ?_
        split
        · exact (Coordinator.saveBeforeStop_moves _ _).noRegister
        · exact failSave_noRegister _
      · refine .bind (.ask trivial) fun elapsed => ?_
        split
        · exact (Coordinator.finishStopping_moves _).noRegister
        · exact ih

theorem saveDraining_noRegister (launchConfig : Bool) (polls : Nat) (phase : CheckpointPhase) :
    Within NoRegister (Coordinator.saveDraining i pid launchConfig polls phase) := by
  have saved : ∀ registered,
      Within NoRegister (Coordinator.saveRegistered i pid launchConfig polls registered) := by
    intro registered
    unfold Coordinator.saveRegistered
    split
    · exact (Coordinator.finishStopping_moves _).noRegister
    · split
      · refine .bind (.ask trivial) fun client => ?_
        split
        · exact drain_noRegister _ _ _
        · exact failSave_noRegister _
      · exact (Coordinator.finishStopping_moves _).noRegister
  refine .bind (.attempt Coordinator.beginDraining_moves.noRegister) fun draining => ?_
  split
  · exact .pure _
  · refine .bind (.lock trivial) fun registered => ?_
    split
    · exact .pure _
    · exact .bind (.attempt (saved _)) fun _ => .pure _

theorem resumeAfterStopFailure_noRegister (phase : CheckpointPhase) :
    Within NoRegister (Coordinator.resumeAfterStopFailure i pid phase) :=
  .bind (.demand _ _) fun _ => (Coordinator.enter_moves (List.mem_singleton_self _)).noRegister

theorem markStopped_noRegister : Within NoRegister (Coordinator.markStopped i pid) := by
  refine .bind (.lock trivial) fun (active : Bool) => ?_
  refine .bind ?_ fun status => .bind (.lock trivial) fun _ => .pure _
  cases active with
  | true => exact (Coordinator.enter_moves (List.mem_singleton_self _)).noRegister
  | false => exact .bind (.lock trivial) fun _ => .orFail _

theorem stopInstance_noRegister (launchConfig : Bool) (polls : Nat) (stopper : Coordinator.Stopper) :
    Within NoRegister (Coordinator.stopInstance i pid launchConfig polls stopper) := by
  have before : Within NoRegister
      (Coordinator.checkpointBeforeTermination i pid launchConfig polls) := by
    refine .bind (.lock trivial) fun _ => .bind (.lock trivial) fun (active : Bool) => ?_
    cases active with
    | false => exact .pure _
    | true =>
      refine .bind (.lock trivial) fun found => ?_
      unfold Coordinator.saveInPhase
      split
      · exact saveDraining_noRegister _ _ _
      · exact saveDraining_noRegister _ _ _
      all_goals first
        | exact .pure _
        | exact .bind (.attempt (Coordinator.finishStopping_moves _).noRegister) fun _ => .pure _
  have resumed : ∀ phase, Within NoRegister (Coordinator.resumeAfter i pid phase) := by
    intro phase
    cases phase with
    | none => exact .pure _
    | some phase =>
      exact .bind (.attempt (resumeAfterStopFailure_noRegister phase)) fun _ => .pure _
  refine .bind before fun phase => .bind (.ask trivial) fun (killed : Bool) => ?_
  cases killed with
  | true =>
    cases stopper with
    | stopServer | appExit => exact .bind (.attempt markStopped_noRegister) fun _ => .pure _
    | supervisor =>
      refine .bind (.attempt markStopped_noRegister) fun stopped => ?_
      split
      · exact .pure _
      · exact .bind (.lock trivial) fun _ => .pure _
  | false =>
    cases stopper with
    | stopServer => exact .bind (resumed phase) fun _ => .bind (.lock trivial) fun _ => .pure _
    | appExit | supervisor => exact .bind (.lock trivial) fun _ => resumed phase

theorem poll_noRegister (slots : List SlotSnapshotRecord) :
    Within NoRegister (Coordinator.poll i pid slots) := by
  have saved : ∀ fingerprint policy,
      Within NoRegister (Coordinator.saveIdleWith i pid fingerprint policy) := by
    intro fingerprint policy
    refine .bind (.ask trivial) fun activeRequests => ?_
    split
    · exact (Coordinator.finishStopping_moves _).noRegister
    · refine .bind (.ask trivial) fun client => ?_
      split
      · exact (Coordinator.saveBeforeStop_moves _ _).noRegister
      · exact (Coordinator.finishStopping_moves _).noRegister
  refine .bind (.ask trivial) fun _ => .bind (.lock trivial) fun (due : Bool) => ?_
  cases due with
  | false => exact .pure _
  | true =>
    refine .bind (.lock trivial) fun found => ?_
    unfold Coordinator.saveIdleFound
    split
    · exact .pure _
    · refine .bind (.lock trivial) fun registered => ?_
      unfold Coordinator.saveIdleRegistered
      split
      · exact .pure _
      · refine .bind (.attempt Coordinator.beginDraining_moves.noRegister) fun draining => ?_
        split
        · exact .pure _
        · refine .bind (.attempt (saved _ _)) fun _ => ?_
          exact .bind (.attempt (resumeAfterStopFailure_noRegister _)) fun _ => .pure _

theorem steps_noRegister {caller : Caller} (admitted : caller.admits i pid = true) :
    (caller.steps i pid).All NoRegister := by
  cases caller with
  | monitor => exact monitor_noRegister.finish
  | stop stopper launchConfig polls => exact (stopInstance_noRegister launchConfig polls stopper).finish
  | poll slots => exact (poll_noRegister slots).finish
  | operation op =>
    cases op with
    | registerStartWithContext | failRestoreSetup | restoreOrCold | resumeAfterStopFailure =>
      cases admitted
    | onEngineHealthy =>
      exact (Coordinator.gated_moves (Coordinator.enter_moves
        (List.mem_singleton_self _))).noRegister.finish
    | beginDraining => exact Coordinator.beginDraining_moves.noRegister.finish
    | skipSaveBusy | skipSaveNotReady | failSaveSetup =>
      exact (Coordinator.finishStopping_moves _).noRegister.finish
    | saveBeforeStop => exact (Coordinator.saveBeforeStop_moves _ _).noRegister.finish
    | markStopped => exact markStopped_noRegister.finish
    | clearInstance =>
      exact Within.finish (.bind (.demand _ _) fun _ => .bind (.lock trivial) fun _ => .orFail _)
    | _ => exact Within.finish (.lock trivial)

end NoRegister

/-! ### The unready phases -/

section Unready

variable {i : String} {pid : Nat} {entries : Entries} {e : CoordinatorEntry}

/-- The entry of the process behind its gate. -/
structure Held (pid : Nat) (e : CoordinatorEntry) : Prop where
  process : e.status.expectedPid = some pid
  gate : e.gateActive = true
  consistent : Consistent e

/-- What a section of a role can make of an unready entry: the phase moves only as
`moved` says, unless the unready phases are left for good. -/
inductive Turn (pid : Nat) (e : CoordinatorEntry) (role : Role) :
    CoordinatorEntry → Role → Prop where
  | same {e' : CoordinatorEntry} (held : Held pid e') (phase : e'.status.phase = e.status.phase) :
      Turn pid e role e' role
  | healthy {e' : CoordinatorEntry} (held : Held pid e') (bystander : role = .bystander)
      (before : e.status.phase = .starting) (after : e'.status.phase = .engineHealthy) :
      Turn pid e role e' .owner
  | restoring {e' : CoordinatorEntry} (held : Held pid e') (owner : role = .owner)
      (after : e'.status.phase = .restoring) : Turn pid e role e' .owner
  | poisoned {e' : CoordinatorEntry} (held : Held pid e') (owner : role = .owner)
      (after : e'.status.phase = .restartRequired) : Turn pid e role e' .bystander
  | stopping {e' : CoordinatorEntry} (held : Held pid e') (bystander : role = .bystander)
      (after : e'.status.phase = .stopping) : Turn pid e role e' .bystander
  | left {e' : CoordinatorEntry} {r : Role} (after : e'.status.phase.unready = false)
      (stopped : role = .bystander → e'.status.phase = .stopped) : Turn pid e role e' r

theorem Held.develops {e' : CoordinatorEntry} (held : Held pid e) (develops : Develops e e') :
    Held pid e' ∧ e'.status.phase = e.status.phase ∨ e'.status.phase = .stopped := by
  rcases develops.phase with same | stopped
  · rcases develops.gate with gate | ⟨-, stopped⟩
    · exact .inl ⟨⟨develops.process.trans held.process, gate.trans held.gate,
        develops.consistent held.consistent⟩, same⟩
    · exact .inr stopped
  · exact .inr stopped

/-- A section of the process that is no transition leaves the phase, or stops the process. -/
theorem Effect.unready {s : Section} {entries' : Entries} (effect : Effect entries s entries')
    (own : Own i pid (.lock s) ∨ ∃ j, s = .clearInstance j) (target : (Call.lock s).target = none)
    (found : entries.lookup i = some e) (held : Held pid e) (running : e.status.phase ≠ .stopped) :
    ∃ e', entries'.lookup i = some e' ∧
      (Held pid e' ∧ e'.status.phase = e.status.phase ∨ e'.status.phase = .stopped) := by
  cases effect with
  | unchanged => exact ⟨e, found, .inl ⟨held, rfl⟩⟩
  | register => rcases own with (own | own) | ⟨j, own⟩ <;> cases own
  | closeGate => rcases own with (own | own) | ⟨j, own⟩ <;> cases own
  | move => cases target
  | clear idle =>
    next j status _ _ _ =>
      have apart : i ≠ j := by
        rintro rfl
        rcases idle e found with process | stopped
        · rw [held.process] at process
          cases process
        · exact running stopped
      rw [AList.lookup_insert_ne apart]
      exact ⟨e, found, .inl ⟨held, rfl⟩⟩
  | own process present owned develops =>
    next j _ old new =>
      by_cases eq : i = j
      · subst eq
        rw [found] at present
        cases present
        exact ⟨new, AList.lookup_insert _, held.develops develops⟩
      · rw [AList.lookup_insert_ne eq]
        exact ⟨e, found, .inl ⟨held, rfl⟩⟩

/-- A section of the process, by role. -/
structure Turns (i : String) (pid : Nat) (e : CoordinatorEntry) (role : Role) (q : Call)
    (a : q.Answer) (entries' : Entries) (e' : CoordinatorEntry) (r : Role) : Prop where
  found : entries'.lookup i = some e'
  turn : Turn pid e role e' r
  step : e'.status.phase.unready = true → Role.step i role q a r

theorem transition_turns {role : Role} {next : CheckpointPhase} (env : Environment)
    (found : entries.lookup i = some e) (held : Held pid e) (unready : e.status.phase.unready = true)
    (zone : role = .owner → e.status.phase = .engineHealthy ∨ e.status.phase = .restoring)
    (goal : next ∈ restorePhases ↔ role = .owner) :
    ∃ e' r, Turns i pid e role (.lock (.transition i pid next))
      (Coordinator.transition i pid next env.now entries).1
      (Coordinator.transition i pid next env.now entries).2 e' r := by
  rcases Coordinator.transition_cases i pid next env.now entries with
    ⟨error, eq⟩ | ⟨old, present, own, legal, eq⟩
  · rw [eq]
    refine ⟨e, role, found, .same held rfl, fun _ => ?_⟩
    cases role <;> rfl
  · rw [found] at present
    cases present
    rw [eq]
    have moved : Held pid (Coordinator.moved e next env.now) :=
      ⟨held.process, held.gate, .moved _ _ _⟩
    have lookup := AList.lookup_insert (b := Coordinator.moved e next env.now) (a := i) entries
    cases role with
    | bystander =>
      have apart : next ∉ restorePhases := fun mem => (nomatch goal.mp mem)
      cases next with
      | engineHealthy =>
        have before : e.status.phase = .starting := by
          revert legal
          cases e.status.phase <;> decide
        exact ⟨_, .owner, lookup, .healthy moved rfl before rfl, fun _ => .inl ⟨rfl, rfl⟩⟩
      | stopping =>
        exact ⟨_, .bystander, lookup, .stopping moved rfl rfl, fun _ => .inr ⟨rfl, rfl⟩⟩
      | stopped =>
        exact ⟨_, .bystander, lookup, .left rfl fun _ => rfl, fun h => (nomatch h)⟩
      | restoring | restartRequired | ready | readyCold => exact absurd (by decide) apart
      | draining | saving | starting | disabled | ineligible =>
        exfalso
        revert legal unready
        cases e.status.phase <;> decide
    | owner =>
      have mem : next ∈ restorePhases := goal.mpr rfl
      cases next with
      | restoring =>
        exact ⟨_, .owner, lookup, .restoring moved rfl rfl, fun _ => .inl ⟨rfl, rfl⟩⟩
      | restartRequired =>
        exact ⟨_, .bystander, lookup, .poisoned moved rfl rfl, fun _ => .inr ⟨rfl, rfl⟩⟩
      | ready | readyCold =>
        exact ⟨_, .owner, lookup, .left rfl fun h => (nomatch h), fun h => (nomatch h)⟩
      | _ => exact absurd mem (by decide)

theorem Call.run_turns {role : Role} {q : Call} (env : Environment)
    (found : entries.lookup i = some e) (held : Held pid e) (unready : e.status.phase.unready = true)
    (zone : role = .owner → e.status.phase = .engineHealthy ∨ e.status.phase = .restoring)
    (allowed : Role.allowed i pid role q) :
    ∃ e' r, Turns i pid e role q (q.run env entries).1 (q.run env entries).2 e' r := by
  cases q with
  | ask q => exact ⟨e, role, found, .same held rfl, fun _ => by cases role <;> rfl⟩
  | lock s =>
    have running : e.status.phase ≠ .stopped := by
      intro stopped
      rw [stopped] at unready
      cases unready
    have other : (Call.lock s).target = none → (Own i pid (.lock s) ∨ ∃ j, s = .clearInstance j) →
        (∀ r, Role.step i role (.lock s) (s.run env entries).1 r ↔ r = role) →
        ∃ e' r, Turns i pid e role (.lock s) (s.run env entries).1 (s.run env entries).2 e' r := by
      intro target own step
      obtain ⟨e', found', ⟨held', same⟩ | stopped⟩ :=
        (s.run_effect env entries).unready own target found held running
      · exact ⟨e', role, found', .same held' same, fun _ => (step role).mpr rfl⟩
      · exact ⟨e', role, found', .left (by rw [stopped]; rfl) fun _ => stopped,
          fun _ => (step role).mpr rfl⟩
    have own : Own i pid (.lock s) ∨ ∃ j, s = .clearInstance j := by
      rcases allowed with ⟨own, -⟩ | ⟨j, eq⟩
      · exact .inl own
      · cases eq
        exact .inr ⟨j, rfl⟩
    cases s with
    | transition j p next =>
      rcases allowed with ⟨process | reads, goal⟩ | ⟨j, eq⟩
      · cases process
        exact transition_turns env found held unready zone (goal next rfl)
      · cases reads
      · cases eq
    | gateActive j =>
      refine ⟨e, role, found, .same held rfl, fun _ => ?_⟩
      cases role with
      | owner => rfl
      | bystander =>
        refine ⟨?_, rfl⟩
        rintro rfl
        change Coordinator.gateActive j entries = true
        rw [Coordinator.gateActive, found]
        exact held.gate
    | status j =>
      refine ⟨e, role, found, .same held rfl, fun _ => ?_⟩
      cases role with
      | owner => rfl
      | bystander =>
        refine ⟨?_, rfl⟩
        rintro rfl
        refine ⟨e.status, ?_, unready⟩
        change Coordinator.status j entries = _
        rw [Coordinator.status, found]
        rfl
    | _ => exact other rfl own fun _ => by cases role <;> rfl

end Unready

/-! ### Runs -/

abbrev Company := Pool Entries Caller Call Call.Answer

section Runs

variable {i : String} {pid : Nat} {w w' : Company} {e : CoordinatorEntry} {owner : Option Nat}

def roleOf (owner : Option Nat) (k : Nat) : Role := if owner = some k then .owner else .bystander

@[simp] theorem roleOf_self (k : Nat) : roleOf (some k) k = .owner := if_pos rfl

theorem roleOf_ne {j k : Nat} (ne : j ≠ k) : roleOf (some k) j = .bystander :=
  if_neg fun eq => ne (Option.some.inj eq).symm

theorem roleOf_eq_owner {k : Nat} (h : roleOf owner k = .owner) : owner = some k := by
  by_contra ne
  rw [roleOf, if_neg ne] at h
  cases h

/-- An unready process, and who owns its start. -/
structure Pending (i : String) (pid : Nat) (w : Company) (e : CoordinatorEntry)
    (owner : Option Nat) : Prop where
  found : w.state.lookup i = some e
  held : Held pid e
  unready : e.status.phase.unready = true
  zone : ∀ k, owner = some k →
    k < w.threads.length ∧ (e.status.phase = .engineHealthy ∨ e.status.phase = .restoring)
  cast : ∀ k (thread : Thread Caller Call Call.Answer), w.threads[k]? = some thread →
    thread.rest.Follows (roles i pid) (fun _ _ => True) (roleOf owner k)

/-- The phases of a process that needs a restart. -/
def CheckpointPhase.doomed : CheckpointPhase → Bool
  | .restartRequired | .stopping => true
  | _ => false

/-- No phase of a start. -/
def CheckpointPhase.started : CheckpointPhase → Bool
  | .starting | .engineHealthy | .restoring | .restartRequired => false
  | _ => true

theorem Pending.no_owner (pending : Pending i pid w e owner)
    (phase : e.status.phase ≠ .engineHealthy ∧ e.status.phase ≠ .restoring) : owner = none := by
  cases owner with
  | none => rfl
  | some k => rcases (pending.zone k rfl).2 with h | h <;> simp [h] at phase

theorem advance_thread {k : Nat} {env : Environment}
    (step : (callers i pid).next w (.advance k env) = some w') :
    ∃ tag q next, w.threads[k]? = some ⟨tag, .call q next⟩ ∧
      w' = ⟨(q.run env w.state).2, w.threads.set k ⟨tag, next (q.run env w.state).1⟩⟩ :=
  Pool.advance_eq_some step

/-- The cast after the thread `k` took a step into the role `r`. -/
theorem Pending.recast (pending : Pending i pid w e owner) {k : Nat} {tag : Caller} {q : Call}
    {next : q.Answer → Steps Unit} (here : w.threads[k]? = some ⟨tag, .call q next⟩) {a : q.Answer}
    {owner' : Option Nat} (step : Role.step i (roleOf owner k) q a (roleOf owner' k))
    (others : ∀ j, j ≠ k → roleOf owner' j = roleOf owner j) (j : Nat)
    (thread : Thread Caller Call Call.Answer)
    (found : (w.threads.set k ⟨tag, next a⟩)[j]? = some thread) :
    thread.rest.Follows (roles i pid) (fun _ _ => True) (roleOf owner' j) := by
  by_cases eq : j = k
  · subst eq
    rw [List.getElem?_set_self (List.getElem?_eq_some_iff.mp here).1] at found
    cases found
    exact (pending.cast j _ here).2 a _ step
  · rw [List.getElem?_set_ne (Ne.symm eq)] at found
    rw [others j eq]
    exact pending.cast j thread found

variable {a : CallerAction}

/-- One step of an unready process: it stays so, or is stopped, or has been ready. -/
theorem Pending.next (pending : Pending i pid w e owner)
    (step : (callers i pid).next w a = some w') :
    (∃ e' owner', Pending i pid w' e' owner' ∧
        (e.status.phase.doomed = true → e'.status.phase.doomed = true)) ∨
      ∃ e', w'.state.lookup i = some e' ∧ e'.status.phase.started = true ∧
        (e.status.phase.doomed = true → e'.status.phase = .stopped) := by
  cases a with
  | start caller =>
    have step : (if caller.admits i pid = true then
        some (w.spawn ⟨caller, caller.steps i pid⟩) else none) = some w' := step
    split_ifs at step with admitted
    cases step
    refine .inl ⟨e, owner, ⟨pending.found, pending.held, pending.unready, ?_, ?_⟩, id⟩
    · intro k owned
      obtain ⟨here, zone⟩ := pending.zone k owned
      refine ⟨?_, zone⟩
      change k < (w.threads ++ [_]).length
      rw [List.length_append]
      exact Nat.lt_add_right _ here
    · intro k thread found
      change (w.threads ++ [_])[k]? = some thread at found
      by_cases old : k < w.threads.length
      · rw [List.getElem?_append_left old] at found
        exact pending.cast k thread found
      · have bystander : roleOf owner k = .bystander := by
          by_contra owned
          have owned : roleOf owner k = .owner := by
            cases h : roleOf owner k with
            | owner => rfl
            | bystander => exact absurd h owned
          exact old (pending.zone k (roleOf_eq_owner owned)).1
        rw [bystander]
        rw [List.getElem?_append_right (Nat.not_lt.mp old)] at found
        rw [List.mem_singleton.mp (List.mem_of_getElem? found)]
        exact steps_bystander admitted
  | advance k env =>
    obtain ⟨tag, q, next, here, rfl⟩ := advance_thread step
    have present := (List.getElem?_eq_some_iff.mp here).1
    have zone : roleOf owner k = .owner →
        e.status.phase = .engineHealthy ∨ e.status.phase = .restoring :=
      fun owned => (pending.zone k (roleOf_eq_owner owned)).2
    have allowed : Role.allowed i pid (roleOf owner k) q := (pending.cast k _ here).1
    obtain ⟨e', r, found', turn, turned⟩ :=
      Call.run_turns env pending.found pending.held pending.unready zone allowed
    generalize (q.run env w.state).1 = answer at turned
    have length : (w.threads.set k ⟨tag, next answer⟩).length = w.threads.length :=
      List.length_set
    cases turn with
    | same held phase =>
      have unready : e'.status.phase.unready = true := by
        rw [phase]
        exact pending.unready
      refine .inl ⟨e', owner, ⟨found', held, unready, ?_, ?_⟩, ?_⟩
      · intro j owned
        obtain ⟨there, zone⟩ := pending.zone j owned
        rw [phase, length]
        exact ⟨there, zone⟩
      · exact pending.recast here (turned unready) fun _ _ => rfl
      · rw [phase]
        exact id
    | healthy held bystander before after =>
      have none : owner = none := pending.no_owner (by simp [before])
      subst none
      have unready : e'.status.phase.unready = true := by rw [after]; rfl
      refine .inl ⟨e', some k, ⟨found', held, unready, ?_, ?_⟩, ?_⟩
      · rintro _ ⟨⟩
        rw [length]
        exact ⟨present, .inl after⟩
      · refine pending.recast here ?_ fun j ne => roleOf_ne ne
        rw [roleOf_self]
        exact turned unready
      · rw [before]
        exact fun h => (nomatch h)
    | restoring held owned after =>
      obtain rfl := roleOf_eq_owner owned
      have unready : e'.status.phase.unready = true := by rw [after]; rfl
      refine .inl ⟨e', some k, ⟨found', held, unready, ?_, ?_⟩, ?_⟩
      · rintro _ ⟨⟩
        rw [length]
        exact ⟨present, .inr after⟩
      · refine pending.recast here ?_ fun _ _ => rfl
        rw [roleOf_self] at turned ⊢
        exact turned unready
      · rcases (pending.zone k rfl).2 with h | h <;> rw [h] <;> exact fun h => (nomatch h)
    | poisoned held owned after =>
      obtain rfl := roleOf_eq_owner owned
      have unready : e'.status.phase.unready = true := by rw [after]; rfl
      refine .inl ⟨e', none, ⟨found', held, unready, fun _ h => (nomatch h), ?_⟩, ?_⟩
      · exact pending.recast here (turned unready) fun j ne => (roleOf_ne ne).symm
      · rw [after]
        exact fun _ => rfl
    | stopping held bystander after =>
      have unready : e'.status.phase.unready = true := by rw [after]; rfl
      cases owner with
      | none =>
        refine .inl ⟨e', none, ⟨found', held, unready, fun _ h => (nomatch h), ?_⟩, ?_⟩
        · exact pending.recast here (turned unready) fun _ _ => rfl
        · rw [after]
          exact fun _ => rfl
      | some j =>
        refine .inr ⟨e', found', by rw [after]; rfl, ?_⟩
        rcases (pending.zone j rfl).2 with h | h <;> rw [h] <;> exact fun h => (nomatch h)
    | left after stopped =>
      refine .inr ⟨e', found', ?_, fun doomed => stopped ?_⟩
      · revert after
        cases e'.status.phase <;> decide
      · have none : owner = none := pending.no_owner (by
          revert doomed
          cases e.status.phase <;> decide)
        rw [none]
        rfl

/-- A process that was started is not started again, and one that was stopped stays so. -/
theorem Effect.started {s : Section} {entries entries' : Entries} (effect : Effect entries s entries')
    (new : NoRegister (.lock s)) (found : entries.lookup i = some e)
    (started : e.status.phase.started = true) :
    ∃ e', entries'.lookup i = some e' ∧ e'.status.phase.started = true ∧
      (e.status.phase = .stopped → e'.status.phase = .stopped) := by
  cases effect with
  | unchanged => exact ⟨e, found, started, id⟩
  | register => exact new.elim
  | clear _ _ phase =>
    next j status _ _ _ =>
      by_cases eq : i = j
      · subst eq
        refine ⟨_, AList.lookup_insert _, ?_, fun _ => phase⟩
        change status.phase.started = true
        rw [phase]
        rfl
      · rw [AList.lookup_insert_ne eq]
        exact ⟨e, found, started, id⟩
  | closeGate present =>
    next j old =>
      by_cases eq : i = j
      · subst eq
        cases found.symm.trans present
        exact ⟨_, AList.lookup_insert _, started, id⟩
      · rw [AList.lookup_insert_ne eq]
        exact ⟨e, found, started, id⟩
  | move now present owned legal =>
    next j _ old next =>
      by_cases eq : i = j
      · subst eq
        cases found.symm.trans present
        refine ⟨_, AList.lookup_insert _, ?_, fun stopped => ?_⟩
        · change next.started = true
          revert started legal
          cases e.status.phase <;> cases next <;> decide
        · rw [stopped] at legal
          cases next <;> cases legal
      · rw [AList.lookup_insert_ne eq]
        exact ⟨e, found, started, id⟩
  | own process present owned develops =>
    next j _ old new =>
      by_cases eq : i = j
      · subst eq
        cases found.symm.trans present
        refine ⟨_, AList.lookup_insert _, ?_, fun stopped => ?_⟩
        · rcases develops.phase with same | stopped
          · rw [same]
            exact started
          · rw [stopped]
            rfl
        · rcases develops.phase with same | stopped'
          · exact same.trans stopped
          · exact stopped'
      · rw [AList.lookup_insert_ne eq]
        exact ⟨e, found, started, id⟩

def Unregistering (w : Company) : Prop := ∀ thread ∈ w.threads, thread.rest.All NoRegister

theorem Unregistering.next (unregistering : Unregistering w)
    (step : (callers i pid).next w a = some w') : Unregistering w' := by
  cases a with
  | start caller =>
    have step : (if caller.admits i pid = true then
        some (w.spawn ⟨caller, caller.steps i pid⟩) else none) = some w' := step
    split_ifs at step with admitted
    cases step
    intro thread mem
    rcases List.mem_append.mp mem with mem | mem
    · exact unregistering thread mem
    · rw [List.mem_singleton.mp mem]
      exact steps_noRegister admitted
  | advance k env =>
    obtain ⟨tag, q, next, here, rfl⟩ := advance_thread step
    intro thread mem
    rcases List.mem_or_eq_of_mem_set mem with mem | rfl
    · exact unregistering thread mem
    · exact (unregistering _ (List.mem_of_getElem? here)).2 _

theorem started_step (step : (callers i pid).next w a = some w') (unregistering : Unregistering w)
    (found : w.state.lookup i = some e) (started : e.status.phase.started = true) :
    ∃ e', w'.state.lookup i = some e' ∧ e'.status.phase.started = true ∧
      (e.status.phase = .stopped → e'.status.phase = .stopped) := by
  cases a with
  | start caller =>
    have step : (if caller.admits i pid = true then
        some (w.spawn ⟨caller, caller.steps i pid⟩) else none) = some w' := step
    split_ifs at step
    cases step
    exact ⟨e, found, started, id⟩
  | advance k env =>
    obtain ⟨tag, q, next, here, rfl⟩ := advance_thread step
    cases q with
    | ask => exact ⟨e, found, started, id⟩
    | lock s =>
      exact (s.run_effect env w.state).started (unregistering _ (List.mem_of_getElem? here)).1
        found started

/-- Before the process needs a restart. -/
def Startable (i : String) (pid : Nat) (w : Company) : Prop :=
  Unregistering w ∧ ((∃ e owner, Pending i pid w e owner) ∨
    ∃ e, w.state.lookup i = some e ∧ e.status.phase.started = true)

/-- Once it does. -/
def Doomed (i : String) (pid : Nat) (w : Company) : Prop :=
  Unregistering w ∧ ((∃ e owner, Pending i pid w e owner ∧ e.status.phase.doomed = true) ∨
    ∃ e, w.state.lookup i = some e ∧ e.status.phase = .stopped)

theorem Startable.next (step : (callers i pid).next w a = some w') (startable : Startable i pid w) :
    Startable i pid w' := by
  obtain ⟨unregistering, ⟨e, owner, pending⟩ | ⟨e, found, started⟩⟩ := startable
  · rcases pending.next step with ⟨e', owner', pending', -⟩ | ⟨e', found', started', -⟩
    · exact ⟨unregistering.next step, .inl ⟨e', owner', pending'⟩⟩
    · exact ⟨unregistering.next step, .inr ⟨e', found', started'⟩⟩
  · obtain ⟨e', found', started', -⟩ := started_step step unregistering found started
    exact ⟨unregistering.next step, .inr ⟨e', found', started'⟩⟩

theorem Doomed.next (step : (callers i pid).next w a = some w') (doomed : Doomed i pid w) :
    Doomed i pid w' := by
  obtain ⟨unregistering, ⟨e, owner, pending, phase⟩ | ⟨e, found, stopped⟩⟩ := doomed
  · rcases pending.next step with ⟨e', owner', pending', still⟩ | ⟨e', found', -, stopped⟩
    · exact ⟨unregistering.next step, .inl ⟨e', owner', pending', still phase⟩⟩
    · exact ⟨unregistering.next step, .inr ⟨e', found', stopped phase⟩⟩
  · obtain ⟨e', found', -, stopped'⟩ :=
      started_step step unregistering found (by rw [stopped]; rfl)
    exact ⟨unregistering.next step, .inr ⟨e', found', stopped' stopped⟩⟩

/-- An eligible process is registered unready, behind its gate. -/
theorem Startable.of_registered {entries : Entries} {eligibility : CheckpointEligibility}
    {fingerprint : Option CheckpointFingerprint} {policy : KvCheckpointConfig} {now : Nat}
    (eligible : eligibility.eligible = true)
    (registered : entries.lookup i =
      some (Coordinator.registeredEntry i pid eligibility fingerprint policy now)) :
    Startable i pid ⟨entries, []⟩ := by
  have entry : (Coordinator.registeredEntry i pid eligibility fingerprint policy now).gateActive =
        true ∧
      (Coordinator.registeredEntry i pid eligibility fingerprint policy now).status.phase =
        .starting ∧
      (Coordinator.registeredEntry i pid eligibility fingerprint policy now).status.routable =
        false := by
    simp [Coordinator.registeredEntry, eligible]
  obtain ⟨gate, starting, routable⟩ := entry
  refine ⟨fun _ mem => absurd mem List.not_mem_nil,
    .inl ⟨_, none, registered, ⟨rfl, gate, ?_⟩, ?_, ?_, ?_⟩⟩
  · intro _ routed
    rw [routable] at routed
    cases routed
  · rw [starting]
    rfl
  · intro _ eq
    cases eq
  · intro _ _ eq
    cases eq

/-- **A poisoned process is not routed again**, by any interleaving of its callers:
once it needs a restart its gate is closed and its status is not routable, until it is
reported stopped or exited. -/
theorem poisoned_never_routed {entries : Entries} {eligibility : CheckpointEligibility}
    {fingerprint : Option CheckpointFingerprint} {policy : KvCheckpointConfig} {now : Nat}
    {before after : List CallerAction} {w₁ w : Company} {e₁ : CoordinatorEntry}
    (eligible : eligibility.eligible = true)
    (registered : entries.lookup i =
      some (Coordinator.registeredEntry i pid eligibility fingerprint policy now))
    (ran : (callers i pid).run ⟨entries, []⟩ before = some w₁)
    (found : w₁.state.lookup i = some e₁) (poisoned : e₁.status.phase = .restartRequired)
    (ran' : (callers i pid).run w₁ after = some w) :
    ∃ e, w.state.lookup i = some e ∧ (e.status.phase = .stopped ∨
      Coordinator.gateAllowsRouting i w.state = false ∧ e.status.routable = false) := by
  have startable : Startable i pid w₁ :=
    Machine.run_preserves (fun _ _ _ => Startable.next) ran (.of_registered eligible registered)
  have doomed₁ : Doomed i pid w₁ := by
    obtain ⟨unregistering, ⟨e, owner, pending⟩ | ⟨e, found', started⟩⟩ := startable
    · cases found.symm.trans pending.found
      exact ⟨unregistering, .inl ⟨_, owner, pending, by rw [poisoned]; rfl⟩⟩
    · cases found.symm.trans found'
      rw [poisoned] at started
      cases started
  have doomed : Doomed i pid w := Machine.run_preserves (fun _ _ _ => Doomed.next) ran' doomed₁
  obtain ⟨-, ⟨e, owner, pending, phase⟩ | ⟨e, found, stopped⟩⟩ := doomed
  · have closed : e.status.routable = false := by
      by_contra routed
      have routable := pending.held.consistent pending.held.gate (by simpa using routed)
      revert phase routable
      cases e.status.phase <;> decide
    refine ⟨e, pending.found, .inr ⟨?_, closed⟩⟩
    simp [Coordinator.gateAllowsRouting, pending.found, pending.held.gate, closed]
  · exact ⟨e, found, .inl stopped⟩

end Runs

/-! ### A failed restore and a failed kill -/

def launched : CoordinatorEntry :=
  Coordinator.registeredEntry "a" 1 ⟨true, .none, 1⟩ (some launchFingerprint) {} 0

/-- A generation is found, and the slot cannot be restored from it. -/
def broken : Environment where
  now := 0
  instant := 0
  cleared := .ok false
  answer
    | .loadLatest .. => .ok (some ⟨⟨1, "", "", "a", launchFingerprint, "", [⟨0, "", 1, 1, ""⟩], 1⟩, [], []⟩)
    | .health => .ok ()
    | .slots => .ok [⟨0, false, 1⟩]
    | .copySlotToScratch .. => .ok ["slot-0"]
    | q => quiet.answer q

def failedRestore : List CallerAction :=
  .start .monitor :: List.replicate 21 (.advance 0 broken)

def failedKill : List CallerAction :=
  .start (.stop .stopServer true 0) :: List.replicate 7 (.advance 1 broken)

def ranTo (acts : List CallerAction) : Option Company :=
  (callers "a" 1).run ⟨(∅ : Entries).insert "a" launched, []⟩ acts

def phaseAfter (acts : List CallerAction) : Option CheckpointPhase :=
  (ranTo acts).bind fun w => (w.state.lookup "a").map (·.status.phase)

theorem phaseAfter_eq {acts : List CallerAction} {w : Company} (ran : ranTo acts = some w) :
    phaseAfter acts = (w.state.lookup "a").map (·.status.phase) := by
  rw [phaseAfter, ran]
  rfl

theorem failed_kill_not_routed : ∃ w e, ranTo (failedRestore ++ failedKill) = some w ∧
    w.state.lookup "a" = some e ∧ e.status.phase = .stopping ∧
    Coordinator.gateAllowsRouting "a" w.state = false ∧ e.status.routable = false := by
  have restored : phaseAfter failedRestore = some .restartRequired := by decide +kernel
  have stopped : phaseAfter (failedRestore ++ failedKill) = some .stopping := by decide +kernel
  obtain ⟨w, ran, -⟩ := Option.bind_eq_some_iff.mp stopped
  obtain ⟨w₁, ran₁, ran₂⟩ := (Machine.run_append _).mp ran
  rw [phaseAfter_eq ran₁] at restored
  obtain ⟨e₁, found₁, poisoned⟩ := Option.map_eq_some_iff.mp restored
  have eligible : (⟨true, .none, 1⟩ : CheckpointEligibility).eligible = true := rfl
  obtain ⟨e, found, closed⟩ := poisoned_never_routed eligible
    (AList.lookup_insert _) ran₁ found₁ poisoned ran₂
  rw [phaseAfter_eq ran, found] at stopped
  have phase : e.status.phase = .stopping := Option.some.inj stopped
  refine ⟨w, e, ran, found, phase, ?_⟩
  rcases closed with stopped' | closed
  · rw [phase] at stopped'
    cases stopped'
  · exact closed

end LlamaServerManager.Checkpoint
