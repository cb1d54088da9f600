import LlamaServerManager.Checkpoint.Operations

/-!
What one section can do to the entries (`Effect`), once for all sections.

A section of a process changes the entry of that process and no other. Three
sections ask for no process: registering, clearing, and the last one of
`mark_stopped`.
-/

namespace LlamaServerManager.Checkpoint

open Lib

/-! ### Inversion -/

namespace Coordinator

variable {i : String} {pid : Nat} {entries : Entries}

theorem ownEntry_eq_ok {e : CoordinatorEntry} (h : ownEntry i pid entries = .ok e) :
    entries.lookup i = some e ∧ e.status.expectedPid = some pid := by
  unfold ownEntry at h
  split at h
  · cases h
  · next found =>
      obtain ⟨⟨⟩, own, h⟩ := bind_eq_ok.mp h
      cases h
      exact ⟨found, require_eq_ok.mp own⟩

theorem ownEntry_of {e : CoordinatorEntry} (found : entries.lookup i = some e)
    (own : e.status.expectedPid = some pid) : ownEntry i pid entries = .ok e := by
  rw [ownEntry, found]
  simp only [bind, Except.bind, require_of own]
  rfl

/-- A section that fails leaves the entries alone; otherwise it replaced its own entry. -/
theorem replaceOwn_cases {α : Type} (i : String) (pid : Nat) (entries : Entries)
    (f : CoordinatorEntry → Except StoreError (α × CoordinatorEntry)) :
    (∃ error, replaceEntry i entries (ownEntry i pid entries >>= f) = (.error error, entries)) ∨
      ∃ e a e', entries.lookup i = some e ∧ e.status.expectedPid = some pid ∧
        f e = .ok (a, e') ∧
        replaceEntry i entries (ownEntry i pid entries >>= f) = (.ok a, entries.insert i e') := by
  cases h : ownEntry i pid entries >>= f with
  | error error => exact .inl ⟨error, rfl⟩
  | ok result =>
    obtain ⟨e, own, done⟩ := bind_eq_ok.mp h
    obtain ⟨found, process⟩ := ownEntry_eq_ok own
    exact .inr ⟨e, result.1, result.2, found, process, done, rfl⟩

theorem changeOwn_cases (i : String) (pid : Nat) (entries : Entries)
    (test : CoordinatorEntry → Bool) (change : CoordinatorEntry → CoordinatorEntry) :
    changeOwn i pid entries test change = entries ∨
      ∃ e, entries.lookup i = some e ∧ e.status.expectedPid = some pid ∧
        changeOwn i pid entries test change = entries.insert i (change e) := by
  unfold changeOwn
  split
  · exact .inl rfl
  · next e found =>
      split_ifs with passed
      · exact .inr ⟨e, found, passed.1, rfl⟩
      · exact .inl rfl

/-- The entry after a transition. -/
def moved (e : CoordinatorEntry) (next : CheckpointPhase) (now : Nat) : CoordinatorEntry :=
  { e with status := { e.status with
      phase := next
      routable := !e.stopRequested && next.isRoutable
      updatedAt := now } }

theorem transition_cases (i : String) (pid : Nat) (next : CheckpointPhase) (now : Nat)
    (entries : Entries) :
    (∃ error, transition i pid next now entries = (.error error, entries)) ∨
      ∃ e, entries.lookup i = some e ∧ e.status.expectedPid = some pid ∧
        legalCheckpointTransition e.status.phase next = true ∧
        transition i pid next now entries =
          (.ok (moved e next now).status, entries.insert i (moved e next now)) := by
  rcases replaceOwn_cases i pid entries _ with failed | ⟨e, a, e', found, own, done, eq⟩
  · exact .inl failed
  · obtain ⟨⟨⟩, legal, done⟩ := bind_eq_ok.mp done
    cases done
    exact .inr ⟨e, found, own, require_eq_ok.mp legal, eq⟩

/-- A legal transition of the own process is made. -/
theorem transition_of {e : CoordinatorEntry} {next : CheckpointPhase} (now : Nat)
    (found : entries.lookup i = some e) (own : e.status.expectedPid = some pid)
    (legal : legalCheckpointTransition e.status.phase next = true) :
    transition i pid next now entries =
      (.ok (moved e next now).status, entries.insert i (moved e next now)) := by
  rw [transition, ownEntry_of found own]
  simp only [bind, Except.bind, require_of legal]
  rfl

end Coordinator

/-! ### Effects -/

/-- The process a section acts for. -/
def Section.process : Section → Option (String × Nat)
  | .prepareColdRecovery i pid | .registeredCheckpoint i pid | .slotCount i pid => some (i, pid)
  | .idleSaveDue i pid _ _ | .observeCompletedRequest i pid _ => some (i, pid)
  | .observeRestoredRequest i pid _ | .requestStop i pid _ => some (i, pid)
  | .transition i pid _ | .updateOperation i pid _ => some (i, pid)
  | .stopUngated i pid | .markUnexpectedExit i pid => some (i, pid)
  | .register .. | .status _ | .clearInstance _ | .gateAllowsRouting _ => none
  | .gateActive _ | .coldRecovery _ | .closeGate _ => none

/-- A section that only looks. -/
def Section.reads : Section → Bool
  | .registeredCheckpoint .. | .status _ | .slotCount .. | .gateAllowsRouting _ => true
  | .gateActive _ | .coldRecovery _ => true
  | _ => false

/-- An entry whose gate is shut is routed in a routable phase only. -/
def Consistent (e : CoordinatorEntry) : Prop :=
  e.gateActive = true → e.status.routable = true → e.status.phase.isRoutable = true

/-- What a section of its own process can do to an entry, other than to move it to
another phase. -/
structure Develops (e e' : CoordinatorEntry) : Prop where
  process : e'.status.expectedPid = e.status.expectedPid
  gate : e'.gateActive = e.gateActive ∨ e'.gateActive = false ∧ e'.status.phase = .stopped
  phase : e'.status.phase = e.status.phase ∨ e'.status.phase = .stopped
  consistent : Consistent e → Consistent e'

/-- What a section can do to the entries, whatever it answers: nothing, one of the four
changes of its own, or a development of the entry of its process. -/
inductive Effect (entries : Entries) : Section → Entries → Prop where
  | unchanged (s : Section) : Effect entries s entries
  | register (i : String) (e : CoordinatorEntry) :
      Effect entries (.register i e) (entries.insert i e)
  | clear {i : String} {status : CheckpointStatus}
      (idle : ∀ e, entries.lookup i = some e →
        e.status.expectedPid = none ∨ e.status.phase = .stopped)
      (process : status.expectedPid = none) (phase : status.phase = .stopped)
      (routable : status.routable = false) :
      Effect entries (.clearInstance i) (entries.insert i (Coordinator.clearedEntry status))
  | closeGate {i : String} {e : CoordinatorEntry} (found : entries.lookup i = some e) :
      Effect entries (.closeGate i) (entries.insert i { e with gateActive := false })
  | move {i : String} {pid : Nat} {e : CoordinatorEntry} {next : CheckpointPhase} (now : Nat)
      (found : entries.lookup i = some e) (owned : e.status.expectedPid = some pid)
      (legal : legalCheckpointTransition e.status.phase next = true) :
      Effect entries (.transition i pid next) (entries.insert i (Coordinator.moved e next now))
  | own {s : Section} {i : String} {pid : Nat} {e e' : CoordinatorEntry}
      (process : s.process = some (i, pid)) (found : entries.lookup i = some e)
      (owned : e.status.expectedPid = some pid) (develops : Develops e e') :
      Effect entries s (entries.insert i e')

/-- A change of what is no concern of the gate. -/
theorem Develops.of_same {e e' : CoordinatorEntry} (status : e'.status.expectedPid =
    e.status.expectedPid) (gate : e'.gateActive = e.gateActive)
    (phase : e'.status.phase = e.status.phase) (routable : e'.status.routable = e.status.routable) :
    Develops e e' where
  process := status
  gate := .inl gate
  phase := .inl phase
  consistent consistent shut routed := by
    rw [phase]
    exact consistent (gate.symm.trans shut) (routable.symm.trans routed)

theorem Consistent.moved (e : CoordinatorEntry) (next : CheckpointPhase) (now : Nat) :
    Consistent (Coordinator.moved e next now) :=
  fun _ routed => ((Bool.and_eq_true _ _).mp routed).2

/-- **Every section does one of these.** -/
theorem Section.run_effect (env : Environment) (s : Section) (entries : Entries) :
    Effect entries s (s.run env entries).2 := by
  cases s with
  | register i e => exact .register i e
  | registeredCheckpoint | status | slotCount | gateAllowsRouting | gateActive | coldRecovery =>
    exact .unchanged _
  | prepareColdRecovery i pid =>
    simp only [Section.run]
    unfold Coordinator.prepareColdRecovery
    split
    · exact .unchanged _
    · next e found =>
        split_ifs with own
        · exact .own rfl found own.1 (.of_same rfl rfl rfl rfl)
        · exact .unchanged _
  | idleSaveDue i pid slots activeRequests =>
    simp only [Section.run]
    unfold Coordinator.idleSaveDue
    split
    · exact .unchanged _
    · next e found =>
        by_cases own : e.status.expectedPid = some pid
        · dsimp only
          split_ifs
          · exact .unchanged _
          · exact .own rfl found own (.of_same rfl rfl rfl rfl)
          · exact .own rfl found own (.of_same rfl rfl rfl rfl)
          · exact .own rfl found own (.of_same rfl rfl rfl rfl)
        · rw [if_pos (.inr (.inr (.inl own)))]
          exact .unchanged _
  | observeCompletedRequest i pid task =>
    simp only [Section.run]
    unfold Coordinator.observeCompletedRequest
    rcases Coordinator.changeOwn_cases i pid entries _ _ with same | ⟨e, found, own, eq⟩
    · rw [same]
      exact .unchanged _
    · rw [eq]
      exact .own rfl found own (.of_same rfl rfl rfl rfl)
  | observeRestoredRequest i pid slot =>
    simp only [Section.run]
    unfold Coordinator.observeRestoredRequest
    split
    · split_ifs
      · exact .unchanged _
      · rcases Coordinator.changeOwn_cases i pid entries _ _ with same | ⟨e, found, own, eq⟩
        · rw [same]
          exact .unchanged _
        · rw [eq]
          exact .own rfl found own (.of_same rfl rfl rfl rfl)
    · exact .unchanged _
  | clearInstance i =>
    simp only [Section.run]
    unfold Coordinator.clearInstance
    split
    · exact .unchanged _
    · next idle =>
        split
        · exact .unchanged _
        · refine .clear ?_ rfl rfl rfl
          intro e found
          rw [found] at idle
          by_cases process : e.status.expectedPid = none
          · exact .inl process
          · refine .inr ?_
            by_contra running
            exact idle (by simp [running, Option.isSome_iff_ne_none.mpr process])
  | requestStop i pid stopping =>
    simp only [Section.run]
    unfold Coordinator.requestStop
    rcases Coordinator.changeOwn_cases i pid entries _ _ with same | ⟨e, found, own, eq⟩
    · rw [same]
      exact .unchanged _
    · rw [eq]
      refine .own rfl found own ⟨rfl, .inl rfl, .inl rfl, fun _ shut routed => ?_⟩
      have shut : e.gateActive = true := shut
      simpa [shut] using ((Bool.and_eq_true _ _).mp routed).2
  | transition i pid next =>
    rcases Coordinator.transition_cases i pid next env.now entries with
      ⟨error, eq⟩ | ⟨e, found, own, legal, eq⟩
    · simp only [Section.run, eq]
      exact .unchanged _
    · simp only [Section.run, eq]
      exact .move _ found own legal
  | updateOperation i pid update =>
    simp only [Section.run]
    rcases Coordinator.replaceOwn_cases i pid entries _ with
      ⟨error, eq⟩ | ⟨e, a, e', found, own, done, eq⟩
    · rw [Coordinator.updateOperation, eq]
      exact .unchanged _
    · rw [Coordinator.updateOperation, eq]
      cases done
      refine .own rfl found own (.of_same ?_ rfl ?_ ?_) <;> dsimp only <;> split <;> rfl
  | stopUngated i pid =>
    simp only [Section.run]
    rcases Coordinator.replaceOwn_cases i pid entries _ with
      ⟨error, eq⟩ | ⟨e, a, e', found, own, done, eq⟩
    · rw [Coordinator.stopUngated, eq]
      exact .unchanged _
    · rw [Coordinator.stopUngated, eq]
      cases done
      exact .own rfl found own ⟨rfl, .inl rfl, .inr rfl, fun _ _ routed => (nomatch routed)⟩
  | closeGate i =>
    simp only [Section.run]
    unfold Coordinator.closeGate
    split
    · exact .unchanged _
    · next found => exact .closeGate found
  | markUnexpectedExit i pid =>
    simp only [Section.run]
    rcases Coordinator.replaceOwn_cases i pid entries _ with
      ⟨error, eq⟩ | ⟨e, a, e', found, own, done, eq⟩
    · rw [Coordinator.markUnexpectedExit, eq]
      exact .unchanged _
    · rw [Coordinator.markUnexpectedExit, eq]
      cases done
      refine .own rfl found own ⟨?_, .inr ⟨rfl, ?_⟩, .inr ?_, fun _ shut => (nomatch shut)⟩
      · dsimp only
        split <;> rfl
      · dsimp only
        split <;> rfl
      · dsimp only
        split <;> rfl

theorem Section.run_reads (env : Environment) {s : Section} (reads : s.reads = true)
    (entries : Entries) : (s.run env entries).2 = entries := by
  cases s <;> first | rfl | cases reads

end LlamaServerManager.Checkpoint
