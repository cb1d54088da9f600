import LlamaServerManager.Checkpoint.Calls

/-!
Operations of an old process after a new one was registered.

Every section but one asks whose entry it changes. The last section of
`mark_stopped` does not: a registration that lands right before it loses its gate
(`takeover_opens_gate`). In runs without such a registration the entry of the new
process is its own (`stale_process_isolation`).
-/

namespace LlamaServerManager.Checkpoint

open Lib

/-- The process an operation is called for. A registration makes the process, and is
none of its operations. -/
def Operation.process : Operation → Option (String × Nat)
  | .prepareColdRecovery i pid | .registeredCheckpoint i pid => some (i, pid)
  | .idleSaveDue i pid _ _ | .observeCompletedRequest i pid _ => some (i, pid)
  | .observeRestoredRequest i pid _ | .requestStop i pid _ => some (i, pid)
  | .onEngineHealthy i pid | .failRestoreSetup i pid _ | .restoreOrCold i pid _ _ => some (i, pid)
  | .beginDraining i pid | .skipSaveBusy i pid _ | .skipSaveNotReady i pid => some (i, pid)
  | .failSaveSetup i pid _ _ | .saveBeforeStop i pid _ _ | .markStopped i pid => some (i, pid)
  | .resumeAfterStopFailure i pid _ | .markUnexpectedExit i pid => some (i, pid)
  | .registerStartWithContext .. | .status _ | .clearInstance _ => none
  | .gateAllowsRouting _ | .gateActive _ => none

/-- Every operation of a process but one acts for it alone. -/
theorem Operation.steps_own {op : Operation} {i : String} {pid : Nat}
    (process : op.process = some (i, pid)) (other : op ≠ .markStopped i pid) :
    op.steps.All (Own i pid) := by
  have own : ∀ {α : Type} {x : Fallible α} {phases : List CheckpointPhase},
      Within (Moves i pid phases) x → (finish x).All (Own i pid) :=
    fun moves => (moves.mono fun _ => Moves.own).finish
  cases op with
  | registerStartWithContext | status | clearInstance | gateAllowsRouting | gateActive =>
    cases process
  | markStopped => cases process; exact absurd rfl other
  | prepareColdRecovery => cases process; exact Within.finish (.lock (.inl rfl))
  | registeredCheckpoint => cases process; exact Within.finish (.lock (.inl rfl))
  | idleSaveDue => cases process; exact Within.finish (.lock (.inl rfl))
  | observeCompletedRequest => cases process; exact Within.finish (.lock (.inl rfl))
  | observeRestoredRequest => cases process; exact Within.finish (.lock (.inl rfl))
  | requestStop => cases process; exact Within.finish (.lock (.inl rfl))
  | markUnexpectedExit => cases process; exact Within.finish (.lock (.inl rfl))
  | onEngineHealthy =>
    cases process
    exact own (Coordinator.gated_moves (Coordinator.enter_moves (List.mem_singleton_self _)))
  | beginDraining => cases process; exact own Coordinator.beginDraining_moves
  | failRestoreSetup =>
    cases process
    exact own (Coordinator.finishReadyCold_moves (List.mem_singleton_self _) _)
  | restoreOrCold => cases process; exact own (Coordinator.restoreOrCold_moves _ _)
  | skipSaveBusy => cases process; exact own (Coordinator.finishStopping_moves _)
  | skipSaveNotReady => cases process; exact own (Coordinator.finishStopping_moves _)
  | failSaveSetup => cases process; exact own (Coordinator.finishStopping_moves _)
  | saveBeforeStop => cases process; exact own (Coordinator.saveBeforeStop_moves _ _)
  | resumeAfterStopFailure =>
    cases process
    exact own (.bind (.demand _ _) fun _ => Coordinator.enter_moves (List.mem_singleton_self _))

/-- Every section but the last one of `mark_stopped`. -/
def KeepsGate : Call → Prop
  | .lock (.closeGate _) => False
  | _ => True

theorem Own.keepsGate {i : String} {pid : Nat} {q : Call} (own : Own i pid q) : KeepsGate q := by
  cases q with
  | ask => trivial
  | lock s =>
    cases s with
    | closeGate => rcases own with own | own <;> cases own
    | _ => trivial

theorem registerStart_keepsGate (instanceId : String) (expectedPid : Nat)
    (eligibility : CheckpointEligibility) (fingerprint : Option CheckpointFingerprint)
    (policy : KvCheckpointConfig) : Within KeepsGate
      (Coordinator.registerStartWithContext instanceId expectedPid eligibility fingerprint policy) := by
  refine .bind (.demand _ _) fun _ => .bind (.orFail _) fun _ => ?_
  exact .bind (.ask trivial) fun _ => .bind (.lock trivial) fun _ => .pure _

theorem Operation.steps_keepGate {op : Operation} (other : ∀ i pid, op ≠ .markStopped i pid) :
    op.steps.All KeepsGate := by
  cases h : op.process with
  | some process =>
    have own : op.steps.All (Own process.1 process.2) := Operation.steps_own h (other _ _)
    exact own.imp fun _ => Own.keepsGate
  | none =>
    cases op with
    | registerStartWithContext => exact Within.finish (registerStart_keepsGate _ _ _ _ _)
    | clearInstance =>
      exact Within.finish (.bind (.demand _ _) fun _ => .bind (.lock trivial) fun _ => .orFail _)
    | status | gateAllowsRouting | gateActive => exact Within.finish (.lock trivial)
    | _ => cases h

/-! ### The sections of `mark_stopped` -/

/-- Before its last section. -/
def closing (i : String) : Steps Unit := .call (.lock (.closeGate i)) fun _ => .done ()

/-- After the section that asks for the process. -/
def afterStop (i : String) : Except StoreError CheckpointStatus → Steps Unit
  | .ok _ => closing i
  | .error _ => .done ()

/-- After the gate was looked at. -/
def afterGate (i : String) (pid : Nat) (active : Bool) : Steps Unit :=
  if active then .call (.lock (.transition i pid .stopped)) (afterStop i)
  else .call (.lock (.stopUngated i pid)) (afterStop i)

/-- How far a `mark_stopped` has got. -/
inductive StopStage (i : String) (pid : Nat) : Steps Unit → Prop where
  | started : StopStage i pid (.call (.lock (.gateActive i)) (afterGate i pid))
  | gated : StopStage i pid (.call (.lock (.transition i pid .stopped)) (afterStop i))
  | ungated : StopStage i pid (.call (.lock (.stopUngated i pid)) (afterStop i))
  | closing : StopStage i pid (closing i)
  | done : StopStage i pid (.done ())

theorem markStopped_steps (i : String) (pid : Nat) :
    (Operation.markStopped i pid).steps = .call (.lock (.gateActive i)) (afterGate i pid) := by
  change Script.call _ _ = _
  congr 1
  funext active
  cases (active : Bool) with
  | true =>
    change Script.call _ _ = Script.call _ _
    congr 1
    funext result
    cases (result : Except StoreError CheckpointStatus) with
    | ok => rfl
    | error => rfl
  | false =>
    change Script.call _ _ = Script.call _ _
    congr 1
    funext result
    cases (result : Except StoreError CheckpointStatus) with
    | ok => rfl
    | error => rfl

theorem StopStage.afterGate (i : String) (pid : Nat) (active : Bool) :
    StopStage i pid (afterGate i pid active) := by
  cases active with
  | true => exact .gated
  | false => exact .ungated

theorem StopStage.afterStop (i : String) (pid : Nat) (result : Except StoreError CheckpointStatus) :
    StopStage i pid (afterStop i result) := by
  cases result with
  | ok => exact .closing
  | error => exact .done

/-- Each section leads to the next stage. -/
theorem StopStage.next {i : String} {pid : Nat} {q : Call} {next : q.Answer → Steps Unit}
    (stage : StopStage i pid (.call q next)) (a : q.Answer) : StopStage i pid (next a) := by
  cases stage with
  | started => exact .afterGate i pid a
  | gated => exact .afterStop i pid a
  | ungated => exact .afterStop i pid a
  | closing => exact .done

/-- The next section is the last one of a `mark_stopped`. -/
def closes (i : String) : Steps Unit → Prop
  | .call (.lock (.closeGate j)) _ => j = i
  | _ => False

instance (i : String) (steps : Steps Unit) : Decidable (closes i steps) := by
  unfold closes
  split <;> infer_instance

/-! ### Runs -/

section Runs

variable {w w' : World}

/-- Before the last section, either the gate is open already or the entry is still the
one that was stopped. -/
def Settled (i : String) (pid : Nat) (entries : Entries) : Prop :=
  ∀ e, entries.lookup i = some e →
    e.gateActive = false ∨ e.status.expectedPid = some pid ∧ e.status.phase = .stopped

/-- A thread does what its operation does. -/
structure Faithful (entries : Entries) (thread : Thread Operation Call Call.Answer) : Prop where
  own : ∀ i pid, thread.tag.process = some (i, pid) → thread.tag ≠ .markStopped i pid →
    thread.rest.All (Own i pid)
  keeps : (∀ i pid, thread.tag ≠ .markStopped i pid) → thread.rest.All KeepsGate
  stops : ∀ i pid, thread.tag = .markStopped i pid → StopStage i pid thread.rest
  settled : ∀ i pid, thread.tag = .markStopped i pid → closes i thread.rest →
    Settled i pid entries

theorem not_legal_stopped (next : CheckpointPhase) :
    legalCheckpointTransition .stopped next = false := by
  cases next <;> rfl

/-- What a section does to an entry that is settled. -/
theorem Settled.step {s : Section} {entries entries' : Entries} {i : String} {pid : Nat}
    (settled : Settled i pid entries) (effect : Effect entries s entries')
    (apart : ∀ e, s = .register i e → e.gateActive = false) : Settled i pid entries' := by
  intro e found
  cases effect with
  | unchanged => exact settled e found
  | register j e' =>
    by_cases eq : i = j
    · subst eq
      rw [AList.lookup_insert] at found
      cases found
      exact .inl (apart _ rfl)
    · rw [AList.lookup_insert_ne eq] at found
      exact settled e found
  | clear =>
    next j status _ _ _ _ =>
      by_cases eq : i = j
      · subst eq
        rw [AList.lookup_insert] at found
        cases found
        exact .inl rfl
      · rw [AList.lookup_insert_ne eq] at found
        exact settled e found
  | closeGate =>
    next j old _ =>
      by_cases eq : i = j
      · subst eq
        rw [AList.lookup_insert] at found
        cases found
        exact .inl rfl
      · rw [AList.lookup_insert_ne eq] at found
        exact settled e found
  | move now present owned legal =>
    next j pid' old next =>
      by_cases eq : i = j
      · subst eq
        rw [AList.lookup_insert] at found
        cases found
        rcases settled old present with gate | ⟨pid_eq, stopped⟩
        · exact .inl gate
        · rw [stopped, not_legal_stopped] at legal
          cases legal
      · rw [AList.lookup_insert_ne eq] at found
        exact settled e found
  | own process present owned develops =>
    next j pid' old new =>
      by_cases eq : i = j
      · subst eq
        rw [AList.lookup_insert] at found
        cases found
        rcases settled old present with gate | ⟨pid_eq, stopped⟩
        · rcases develops.gate with same | ⟨gate', -⟩
          · exact .inl (same.trans gate)
          · exact .inl gate'
        · refine .inr ⟨develops.process.trans pid_eq, ?_⟩
          rcases develops.phase with same | stopped'
          · exact same.trans stopped
          · exact stopped'
      · rw [AList.lookup_insert_ne eq] at found
        exact settled e found

/-- The section that asks for the process leaves a stopped entry of it. -/
theorem Settled.of_stopped {entries : Entries} {i : String} {pid : Nat} {e : CoordinatorEntry}
    (process : e.status.expectedPid = some pid) (stopped : e.status.phase = .stopped) :
    Settled i pid (entries.insert i e) := by
  intro e' found
  rw [AList.lookup_insert] at found
  cases found
  exact .inr ⟨process, stopped⟩

theorem transition_settled {i : String} {pid now : Nat} {entries : Entries}
    {status : CheckpointStatus}
    (ok : (Coordinator.transition i pid .stopped now entries).1 = .ok status) :
    Settled i pid (Coordinator.transition i pid .stopped now entries).2 := by
  rcases Coordinator.transition_cases i pid .stopped now entries with
    ⟨error, eq⟩ | ⟨e, -, own, -, eq⟩
  · rw [eq] at ok
    cases ok
  · rw [eq]
    exact .of_stopped own rfl

theorem stopUngated_settled {i : String} {pid now : Nat} {entries : Entries}
    {status : CheckpointStatus}
    (ok : (Coordinator.stopUngated i pid now entries).1 = .ok status) :
    Settled i pid (Coordinator.stopUngated i pid now entries).2 := by
  unfold Coordinator.stopUngated at ok ⊢
  rcases Coordinator.replaceOwn_cases i pid entries _ with
    ⟨error, eq⟩ | ⟨e, a, e', -, own, done, eq⟩
  · rw [eq] at ok
    cases ok
  · rw [eq]
    cases done
    exact .of_stopped own rfl

theorem afterStop_closes {i j : String} {r : Except StoreError CheckpointStatus}
    (h : closes j (afterStop i r)) : ∃ status, r = .ok status := by
  cases r with
  | ok status => exact ⟨status, rfl⟩
  | error => cases h

/-- The thread that takes a step goes on to do what its operation does. -/
theorem Faithful.advance {entries : Entries} {tag : Operation} {q : Call}
    {next : q.Answer → Steps Unit} (env : Environment)
    (faithful : Faithful entries ⟨tag, .call q next⟩) :
    Faithful (q.run env entries).2 ⟨tag, next (q.run env entries).1⟩ := by
  constructor
  · intro i pid process other
    exact (faithful.own i pid process other).2 _
  · intro other
    exact (faithful.keeps other).2 _
  · intro i pid op
    exact (faithful.stops i pid op).next _
  · intro i pid op last
    have stage : StopStage i pid (.call q next) := faithful.stops i pid op
    cases stage with
    | started =>
      dsimp only at last
      unfold afterGate at last
      split at last <;> cases last
    | gated =>
      obtain ⟨status, ok⟩ := afterStop_closes last
      exact transition_settled ok
    | ungated =>
      obtain ⟨status, ok⟩ := afterStop_closes last
      exact stopUngated_settled ok
    | closing => cases last

theorem Faithful.start (entries : Entries) (op : Operation) :
    Faithful entries ⟨op, op.steps⟩ := by
  constructor
  · intro i pid process other
    exact Operation.steps_own process other
  · exact Operation.steps_keepGate
  · rintro i pid rfl
    rw [markStopped_steps]
    exact .started
  · rintro i pid rfl last
    rw [markStopped_steps] at last
    cases last

/-- The instance whose process gets a gate in the next section. -/
def newGate : Steps Unit → Option String
  | .call (.lock (.register i e)) _ => if e.gateActive then some i else none
  | _ => none

/-- No process gets a gate while a `mark_stopped` of the instance is before its last
section. -/
def NoTakeover (w : World) : Action → World → Prop
  | .start _, _ => True
  | .advance k _, _ => ∀ thread ∈ w.threads[k]?, ∀ i ∈ newGate thread.rest,
      ∀ other ∈ w.threads, ¬ closes i other.rest

instance (w : World) (a : Action) (w' : World) : Decidable (NoTakeover w a w') := by
  cases a <;> unfold NoTakeover <;> infer_instance

/-- The thread that stands still. -/
theorem Faithful.other {entries : Entries} {thread : Thread Operation Call Call.Answer} {q : Call}
    {next : q.Answer → Steps Unit} (env : Environment) (faithful : Faithful entries thread)
    (apart : ∀ i ∈ newGate (.call q next), ¬ closes i thread.rest) :
    Faithful (q.run env entries).2 thread where
  own := faithful.own
  keeps := faithful.keeps
  stops := faithful.stops
  settled i pid op last := by
    cases q with
    | ask q => exact faithful.settled i pid op last
    | lock s =>
      refine (faithful.settled i pid op last).step (s.run_effect env entries) ?_
      rintro e rfl
      by_contra gated
      refine apart i ?_ last
      rw [newGate, if_pos (by simpa using gated)]
      rfl

theorem advance_cases {k : Nat} {env : Environment}
    (step : coordinator.next w (.advance k env) = some w') :
    ∃ tag q next, w.threads[k]? = some ⟨tag, .call q next⟩ ∧
      w' = ⟨(q.run env w.state).2, w.threads.set k ⟨tag, next (q.run env w.state).1⟩⟩ :=
  Pool.advance_eq_some step

theorem step_faithful {a : Action} (step : coordinator.next w a = some w')
    (apart : NoTakeover w a w') (faithful : ∀ thread ∈ w.threads, Faithful w.state thread) :
    ∀ thread ∈ w'.threads, Faithful w'.state thread := by
  cases a with
  | start op =>
    cases step
    intro thread mem
    rcases List.mem_append.mp mem with mem | mem
    · exact faithful thread mem
    · rw [List.mem_singleton.mp mem]
      exact .start _ op
  | advance k env =>
    obtain ⟨tag, q, next, found, rfl⟩ := advance_cases step
    intro thread mem
    rcases List.mem_or_eq_of_mem_set mem with mem | rfl
    · exact (faithful thread mem).other env fun i new => apart _ found i new thread mem
    · exact (faithful _ (List.mem_of_getElem? found)).advance env

/-! ### Isolation -/

/-- A step of an operation called for one process leaves the entry of another one alone. -/
def Isolated (w : World) (a : Action) (w' : World) : Prop :=
  ∀ k env, a = .advance k env → ∀ thread ∈ w.threads[k]?, ∀ i p₁, thread.tag.process = some (i, p₁) →
    ∀ e p₂, w.state.lookup i = some e → e.status.expectedPid = some p₂ → p₁ ≠ p₂ →
      w'.state.lookup i = some e

/-- A section for one process, on the entry of another. -/
theorem Section.run_other {s : Section} {entries : Entries} {i : String} {p₁ p₂ : Nat}
    {e : CoordinatorEntry} (env : Environment)
    (own : s.process = some (i, p₁) ∨ s.reads = true) (found : entries.lookup i = some e)
    (process : e.status.expectedPid = some p₂) (ne : p₁ ≠ p₂) :
    (s.run env entries).2.lookup i = some e := by
  rcases own with own | reads
  · have other_instance : ∀ {j pid old}, entries.lookup j = some old →
        old.status.expectedPid = some pid → some (i, p₁) = some (j, pid) → i ≠ j := by
      rintro j pid old found' owned eq rfl
      cases eq
      rw [found] at found'
      cases found'
      rw [process] at owned
      cases owned
      exact ne rfl
    have effect := s.run_effect env entries
    generalize (s.run env entries).2 = entries' at effect
    cases effect with
    | unchanged => exact found
    | register => cases own
    | clear => cases own
    | closeGate => cases own
    | move now found' owned legal =>
      next j _ _ _ =>
        rw [AList.lookup_insert_ne (other_instance found' owned own.symm)]
        exact found
    | own process' found' owned develops =>
      next j _ _ _ =>
        rw [AList.lookup_insert_ne (other_instance found' owned (own.symm.trans process'))]
        exact found
  · rw [s.run_reads env reads]
    exact found

theorem closeGate_open {i : String} {entries : Entries} {e : CoordinatorEntry}
    (found : entries.lookup i = some e) (gate : e.gateActive = false) :
    (Coordinator.closeGate i entries).lookup i = some e := by
  unfold Coordinator.closeGate
  rw [found]
  dsimp only
  rw [AList.lookup_insert, ← gate]

theorem step_isolated {a : Action} (step : coordinator.next w a = some w')
    (faithful : ∀ thread ∈ w.threads, Faithful w.state thread) : Isolated w a w' := by
  rintro k env rfl thread current i p₁ tagged e p₂ found process ne
  obtain ⟨tag, q, next, here, rfl⟩ := advance_cases step
  rw [here] at current
  cases current
  have thread := faithful _ (List.mem_of_getElem? here)
  by_cases stopping : tag = .markStopped i p₁
  · have stage : StopStage i p₁ (.call q next) := thread.stops i p₁ stopping
    cases stage with
    | started => exact found
    | gated => exact Section.run_other (s := .transition i p₁ .stopped) env (.inl rfl) found process ne
    | ungated => exact Section.run_other (s := .stopUngated i p₁) env (.inl rfl) found process ne
    | closing =>
      rcases thread.settled i p₁ stopping rfl e found with gate | ⟨own, -⟩
      · exact closeGate_open found gate
      · rw [process] at own
        cases own
        exact absurd rfl ne
  · have own : Own i p₁ q := (thread.own i p₁ tagged stopping).1
    cases q with
    | ask => exact found
    | lock s => exact s.run_other env own found process ne

/-! ### The gate of a new process -/

/-- The next section registers the instance. -/
def registers (i : String) : Steps Unit → Prop
  | .call (.lock (.register j _)) _ => j = i
  | _ => False

instance (i : String) (steps : Steps Unit) : Decidable (registers i steps) := by
  unfold registers
  split <;> infer_instance

def NoRegistration (i : String) (w : World) : Action → World → Prop
  | .start _, _ => True
  | .advance k _, _ => ∀ thread ∈ w.threads[k]?, ¬ registers i thread.rest

instance (i : String) (w : World) (a : Action) (w' : World) :
    Decidable (NoRegistration i w a w') := by
  cases a <;> unfold NoRegistration <;> infer_instance

/-- The process was stopped, or it has its gate. -/
def Guarded (i : String) (pid : Nat) (entries : Entries) : Prop :=
  ∀ e, entries.lookup i = some e → e.status.expectedPid = some pid →
    e.status.phase = .stopped ∨ e.gateActive = true ∧ Consistent e

theorem Guarded.step {s : Section} {entries entries' : Entries} {i : String} {pid : Nat}
    (guarded : Guarded i pid entries) (effect : Effect entries s entries')
    (new : ∀ e, s ≠ .register i e)
    (settled : s = .closeGate i → ∃ pid', Settled i pid' entries) : Guarded i pid entries' := by
  intro e found process
  cases effect with
  | unchanged => exact guarded e found process
  | register j e' =>
    have apart : i ≠ j := by
      rintro rfl
      exact new _ rfl
    rw [AList.lookup_insert_ne apart] at found
    exact guarded e found process
  | clear idle none =>
    next j status _ _ =>
      by_cases eq : i = j
      · subst eq
        rw [AList.lookup_insert] at found
        cases found
        cases none.symm.trans process
      · rw [AList.lookup_insert_ne eq] at found
        exact guarded e found process
  | closeGate present =>
    next j old =>
      by_cases eq : i = j
      · subst eq
        rw [AList.lookup_insert] at found
        cases found
        rcases guarded old present process with stopped | ⟨gate, -⟩
        · exact .inl stopped
        · obtain ⟨pid', settled⟩ := settled rfl
          rcases settled old present with shut | ⟨-, stopped⟩
          · rw [gate] at shut
            cases shut
          · exact .inl stopped
      · rw [AList.lookup_insert_ne eq] at found
        exact guarded e found process
  | move now present owned legal =>
    next j _ old next =>
      by_cases eq : i = j
      · subst eq
        rw [AList.lookup_insert] at found
        cases found
        rcases guarded old present process with stopped | ⟨gate, -⟩
        · rw [stopped, not_legal_stopped] at legal
          cases legal
        · exact .inr ⟨gate, .moved _ _ _⟩
      · rw [AList.lookup_insert_ne eq] at found
        exact guarded e found process
  | own process' present owned develops =>
    next j _ old new =>
      by_cases eq : i = j
      · subst eq
        rw [AList.lookup_insert] at found
        cases found
        rcases guarded old present (develops.process.symm.trans process) with
          stopped | ⟨gate, consistent⟩
        · rcases develops.phase with same | stopped'
          · exact .inl (same.trans stopped)
          · exact .inl stopped'
        · rcases develops.gate with same | ⟨-, stopped⟩
          · exact .inr ⟨same.trans gate, develops.consistent consistent⟩
          · exact .inl stopped
      · rw [AList.lookup_insert_ne eq] at found
        exact guarded e found process

theorem step_guarded {a : Action} {i : String} {pid : Nat}
    (step : coordinator.next w a = some w') (new : NoRegistration i w a w')
    (faithful : ∀ thread ∈ w.threads, Faithful w.state thread) (guarded : Guarded i pid w.state) :
    Guarded i pid w'.state := by
  cases a with
  | start op =>
    cases step
    exact guarded
  | advance k env =>
    obtain ⟨tag, q, next, found, rfl⟩ := advance_cases step
    have thread := faithful _ (List.mem_of_getElem? found)
    cases q with
    | ask => exact guarded
    | lock s =>
      refine guarded.step (s.run_effect env w.state) ?_ ?_
      · rintro e rfl
        exact new _ found rfl
      · rintro rfl
        by_cases stopping : ∃ j p, tag = .markStopped j p
        · obtain ⟨j, p, rfl⟩ := stopping
          have stage : StopStage j p (.call (.lock (.closeGate i)) next) := thread.stops j p rfl
          cases stage
          exact ⟨p, thread.settled i p rfl rfl⟩
        · have keeps := thread.keeps fun j p op => stopping ⟨j, p, op⟩
          exact keeps.1.elim

/-- An eligible process starts behind its gate. -/
theorem registeredEntry_gate {instanceId : String} {pid now : Nat}
    {eligibility : CheckpointEligibility} {fingerprint : Option CheckpointFingerprint}
    {policy : KvCheckpointConfig} (eligible : eligibility.eligible = true) :
    let e := Coordinator.registeredEntry instanceId pid eligibility fingerprint policy now
    e.gateActive = true ∧ Consistent e := by
  have gate : (Coordinator.registeredEntry instanceId pid eligibility fingerprint policy
      now).gateActive = true := by simp [Coordinator.registeredEntry, eligible]
  refine ⟨gate, fun _ routed => ?_⟩
  simp [Coordinator.registeredEntry, eligible] at routed

/-- **A process is isolated from the operations of another** in a run where no process
gets a gate while a `mark_stopped` of the instance is before its last section: no step
of an operation of `p₁` changes the entry of `p₂`, and the gate of a new process is
open in its own routable phases only, as long as it was not stopped itself. -/
theorem stale_process_isolation {acts : List Action}
    (apart : coordinator.Along NoTakeover coordinator.init acts) :
    coordinator.Along Isolated coordinator.init acts ∧
      ∀ before after i pid (eligibility : CheckpointEligibility) fingerprint policy now w₁ w e,
        acts = before ++ after → coordinator.run coordinator.init before = some w₁ →
        eligibility.eligible = true →
        w₁.state.lookup i =
          some (Coordinator.registeredEntry i pid eligibility fingerprint policy now) →
        coordinator.Along (NoRegistration i) w₁ after → coordinator.run w₁ after = some w →
        w.state.lookup i = some e → e.status.expectedPid = some pid →
        Coordinator.gateAllowsRouting i w.state = true →
        e.status.phase.isRoutable = true ∨ e.status.phase = .stopped := by
  have none : ∀ thread ∈ coordinator.init.threads, Faithful coordinator.init.state thread :=
    fun _ mem => (nomatch mem)
  constructor
  · refine apart.of_preserves (P := fun w => ∀ thread ∈ w.threads, Faithful w.state thread) ?_ none
    intro w a w' step apart faithful
    exact ⟨step_faithful step apart faithful, step_isolated step faithful⟩
  · rintro before after i pid eligibility fingerprint policy now w₁ w e rfl ran eligible registered
      new ran' found process routing
    obtain ⟨early, late⟩ := apart.of_append ran
    have faithful : ∀ thread ∈ w₁.threads, Faithful w₁.state thread :=
      Machine.run_preserves_along (P := fun w => ∀ thread ∈ w.threads, Faithful w.state thread)
        (fun _ _ _ => step_faithful) early ran none
    have guarded : Guarded i pid w₁.state := by
      intro e found _
      rw [registered] at found
      cases found
      exact .inr (registeredEntry_gate eligible)
    have both := Machine.run_preserves_along
      (P := fun w => (∀ thread ∈ w.threads, Faithful w.state thread) ∧ Guarded i pid w.state)
      (fun _ _ _ step both now =>
        ⟨step_faithful step both.1 now.1, step_guarded step both.2 now.1 now.2⟩)
      (late.and new) ran' ⟨faithful, guarded⟩
    rcases both.2 e found process with stopped | ⟨gate, consistent⟩
    · exact .inr stopped
    · refine .inl (consistent gate ?_)
      have allowed : e.stopRequested = false ∧ e.status.routable = true := by
        simpa [Coordinator.gateAllowsRouting, found, gate] using routing
      exact allowed.2

end Runs

/-! ### A registration in the gap -/

/-- Nothing is stored and no slot answers. -/
def quiet : Environment where
  now := 0
  instant := 0
  cleared := .ok false
  answer
    | .now | .elapsed | .activeRequests => (0 : Nat)
    | .terminate => false
    | .slotClient => .ok ()
    | .loadLatest .. => .ok none
    | .hasOtherFingerprintGeneration .. => .ok false
    | .copySlotToScratch .. | .newScratchSlotPathFor .. => .error (StoreError.io "no answer")
    | .removeScratchPayload .. | .ensureScratchCapacity .. => .ok ()
    | .rejectGeneration .. | .pruneInstance .. => .ok ()
    | .health => .error (StoreError.io "no answer")
    | .verifyScratchPayload .. => .error (StoreError.io "no answer")
    | .newGeneration => ("", "")
    | .commitSlots .. => .error (StoreError.io "no answer")
    | .slots => .error (StoreError.io "no answer")
    | .saveSlot .. => .error (StoreError.io "no answer")
    | .restoreSlot .. => .error (StoreError.io "no answer")

def launchFingerprint : CheckpointFingerprint where
  algorithm := "sha256"
  digest := String.ofList (List.replicate 64 'a')
  modelSha256 := String.ofList (List.replicate 64 'b')
  engineSha256 := String.ofList (List.replicate 64 'c')
  engineVersion := "b1"
  backend := "cpu"

/-- A disabled process is registered and stopped; the next process is registered right
before the last section of the stop. -/
def takeover : List Action :=
  [.start (.registerStartWithContext "a" 1 ⟨false, .disabled, 1⟩ none {}), .advance 0 quiet,
    .advance 0 quiet, .start (.markStopped "a" 1), .advance 1 quiet, .advance 1 quiet,
    .start (.registerStartWithContext "a" 2 ⟨true, .none, 1⟩ (some launchFingerprint) {}),
    .advance 2 quiet, .advance 2 quiet]

/-- What the run leaves of an instance. -/
def entryAfter (acts : List Action) (i : String) : Option CoordinatorEntry :=
  (coordinator.run coordinator.init acts).bind (·.state.lookup i)

theorem entryAfter_eq {acts : List Action} {w : World} {i : String}
    (ran : coordinator.run coordinator.init acts = some w) :
    entryAfter acts i = w.state.lookup i := by
  rw [entryAfter, ran]
  rfl

/-- The entry of the second process. -/
def secondEntry : CoordinatorEntry :=
  Coordinator.registeredEntry "a" 2 ⟨true, .none, 1⟩ (some launchFingerprint) {} 0

/-- The stop of the first process opens the gate of the second, which is starting. -/
theorem takeover_opens_gate :
    ¬ coordinator.Along Isolated coordinator.init (takeover ++ [.advance 1 quiet]) ∧
      entryAfter (takeover ++ [.advance 1 quiet]) "a" =
        some { secondEntry with gateActive := false } := by
  have after : entryAfter (takeover ++ [.advance 1 quiet]) "a" =
      some { secondEntry with gateActive := false } := by decide +kernel
  refine ⟨fun along => ?_, after⟩
  have before : entryAfter takeover "a" = some secondEntry := by decide +kernel
  have tag : (coordinator.run coordinator.init takeover).bind
      (fun w => w.threads[1]?.map fun thread => thread.tag.process) = some (some ("a", 1)) := by
    decide +kernel
  obtain ⟨w', ran', -⟩ := Option.bind_eq_some_iff.mp after
  obtain ⟨w, ran, step⟩ := Machine.run_concat _ |>.mp ran'
  obtain ⟨thread, here, process⟩ : ∃ thread, w.threads[1]? = some thread ∧
      thread.tag.process = some ("a", 1) := by
    rw [ran] at tag
    exact Option.map_eq_some_iff.mp tag
  have isolated : Isolated w (.advance 1 quiet) w' := ((along.of_append ran).2 w' step).1
  rw [entryAfter_eq ran] at before
  have kept := isolated 1 quiet rfl thread here "a" 1 process secondEntry 2 before rfl (by decide)
  rw [← entryAfter_eq ran', after] at kept
  exact absurd kept (by decide +kernel)

/-- The second process is registered after the stop of the first. -/
def restart : List Action :=
  [.start (.registerStartWithContext "a" 1 ⟨false, .disabled, 1⟩ none {}), .advance 0 quiet,
    .advance 0 quiet, .start (.markStopped "a" 1), .advance 1 quiet, .advance 1 quiet,
    .advance 1 quiet,
    .start (.registerStartWithContext "a" 2 ⟨true, .none, 1⟩ (some launchFingerprint) {}),
    .advance 2 quiet, .advance 2 quiet]

/-- A late report of the first process, and the health of the second. -/
def lateReport : List Action :=
  [.start (.markUnexpectedExit "a" 1), .advance 3 quiet, .start (.onEngineHealthy "a" 2),
    .advance 4 quiet, .advance 4 quiet]

theorem restart_isolated :
    coordinator.Along Isolated coordinator.init (restart ++ lateReport) ∧
      ∀ w e, coordinator.run coordinator.init (restart ++ lateReport) = some w →
        w.state.lookup "a" = some e → e.status.expectedPid = some 2 →
        Coordinator.gateAllowsRouting "a" w.state = true →
        e.status.phase.isRoutable = true ∨ e.status.phase = .stopped := by
  have apart : coordinator.Along NoTakeover coordinator.init (restart ++ lateReport) := by
    decide +kernel
  have isolation := stale_process_isolation apart
  refine ⟨isolation.1, fun w e ran found process routing => ?_⟩
  obtain ⟨w₁, ran₁, ran₂⟩ := (Machine.run_append _).mp ran
  have registered : w₁.state.lookup "a" = some secondEntry := by
    rw [← entryAfter_eq ran₁]
    decide +kernel
  have new : ((coordinator.run coordinator.init restart).all fun w₁ =>
      decide (coordinator.Along (NoRegistration "a") w₁ lateReport)) = true := by decide +kernel
  rw [ran₁] at new
  exact isolation.2 restart lateReport "a" 2 ⟨true, .none, 1⟩ _ _ _ w₁ w e rfl ran₁ rfl registered
    (of_decide_eq_true new) ran₂ found process routing

end LlamaServerManager.Checkpoint
