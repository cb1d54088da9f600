import LlamaServerManager.Checkpoint.Operations

/-!
When an idle save is due: polls of the slots and reports of completed requests, in any
order, for one process. What a poll answers is compared with the history of both
(`idleSaveDue_history`).

A history is a list with the latest event first.
-/

namespace LlamaServerManager.Checkpoint

open Lib

/-- A poll of the slots, or the report of a completed request, with its time. -/
inductive IdleEvent where
  | poll (slots : List SlotSnapshotRecord) (activeRequests now : Nat)
  | completed (task now : Nat)
deriving DecidableEq, Repr

def IdleEvent.time : IdleEvent → Nat
  | .poll _ _ now => now
  | .completed _ now => now

/-- A poll at this time or before. -/
def IdleEvent.IsPollBy (time : Nat) : IdleEvent → Prop
  | .poll _ _ now => now ≤ time
  | .completed _ _ => False

instance (time : Nat) : DecidablePred (IdleEvent.IsPollBy time)
  | .poll _ _ now => inferInstanceAs (Decidable (now ≤ time))
  | .completed _ _ => inferInstanceAs (Decidable False)

namespace Coordinator

/-- One event, and what a poll answers. -/
def observeIdle (instanceId : String) (pid : Nat) (entries : Entries) :
    IdleEvent → Bool × Entries
  | .poll slots activeRequests now => idleSaveDue instanceId pid slots activeRequests now entries
  | .completed task _ => (false, observeCompletedRequest instanceId pid task entries)

abbrev IdleHistory := List (IdleEvent × Bool)

/-- The events from the first one (the last of the list) on. -/
def observeAll (instanceId : String) (pid : Nat) (entries : Entries) :
    List IdleEvent → Entries × IdleHistory
  | [] => (entries, [])
  | event :: events =>
    let (entries, history) := observeAll instanceId pid entries events
    let (due, entries) := observeIdle instanceId pid entries event
    (entries, (event, due) :: history)

/-! ### What a history says -/

/-- As many slots as the launch has, each of them once. -/
def wellFormed (slotCount : Nat) (slots : List SlotSnapshotRecord) : Bool :=
  decide (slots.length = slotCount) && decide ((slotTasks slots).length = slots.length) &&
    decide ((slotTasks slots).map (·.1) = List.range slotCount)

/-- The slots and their tasks as the last poll with all slots saw them. -/
def observedSlots (slotCount : Nat) : IdleHistory → List (Nat × Option Nat)
  | [] => []
  | (.poll slots _ _, _) :: history =>
    if wellFormed slotCount slots then slotTasks slots else observedSlots slotCount history
  | (.completed _ _, _) :: history => observedSlots slotCount history

/-- The task of the request reported last. -/
def lastCompleted : IdleHistory → Option Nat
  | [] => none
  | (.poll _ _ _, _) :: history => lastCompleted history
  | (.completed task _, _) :: _ => some task

/-- Work is seen: a slot processes, a request is active, the slots or their tasks have
changed, or another request has completed. -/
def Work (slotCount : Nat) (history : IdleHistory) : IdleEvent → Prop
  | .poll slots activeRequests _ => wellFormed slotCount slots = true ∧
      (slots.any (·.isProcessing) = true ∨ 0 < activeRequests ∨
        slotTasks slots ≠ observedSlots slotCount history)
  | .completed task _ => lastCompleted history ≠ some task

/-- Work is seen, or the slots are not all there. -/
def Disturbs (slotCount : Nat) (history : IdleHistory) : IdleEvent → Prop
  | .poll slots activeRequests now =>
    wellFormed slotCount slots = false ∨
      Work slotCount history (.poll slots activeRequests now)
  | .completed task now => Work slotCount history (.completed task now)

/-- Nothing disturbed after this time. -/
def UndisturbedAfter (slotCount : Nat) (time : Nat) : IdleHistory → Prop
  | [] => True
  | (event, _) :: history =>
    (Disturbs slotCount history event → event.time ≤ time) ∧
      UndisturbedAfter slotCount time history

/-- A quiet poll at this time or before, and nothing that disturbs since. -/
def QuietSince (slotCount : Nat) (time : Nat) : IdleHistory → Prop
  | [] => False
  | (event, _) :: history => ¬Disturbs slotCount history event ∧
      (event.IsPollBy time ∨ QuietSince slotCount time history)

/-- Work was seen since the last poll that was answered with yes. -/
def WorkSince (slotCount : Nat) : IdleHistory → Prop
  | [] => False
  | (_, true) :: _ => False
  | (event, false) :: history => Work slotCount history event ∨ WorkSince slotCount history

/-- The time of the last poll that was answered with yes. -/
def lastAttempt : IdleHistory → Option Nat
  | [] => none
  | (event, true) :: _ => some event.time
  | (_, false) :: history => lastAttempt history

section Decidable

variable (slotCount time : Nat)

instance (history : IdleHistory) : DecidablePred (Work slotCount history)
  | .poll _ _ _ => inferInstanceAs (Decidable (_ ∧ (_ ∨ _ ∨ _)))
  | .completed _ _ => inferInstanceAs (Decidable (_ ≠ _))

instance (history : IdleHistory) : DecidablePred (Disturbs slotCount history)
  | .poll slots activeRequests now =>
    inferInstanceAs (Decidable (_ ∨ Work slotCount history (.poll slots activeRequests now)))
  | .completed task now =>
    inferInstanceAs (Decidable (Work slotCount history (.completed task now)))

instance decidableUndisturbedAfter : DecidablePred (UndisturbedAfter slotCount time)
  | [] => inferInstanceAs (Decidable True)
  | (event, _) :: history =>
    have := decidableUndisturbedAfter history
    inferInstanceAs (Decidable ((Disturbs slotCount history event → event.time ≤ time) ∧
      UndisturbedAfter slotCount time history))

instance decidableQuietSince : DecidablePred (QuietSince slotCount time)
  | [] => inferInstanceAs (Decidable False)
  | (event, _) :: history =>
    have := decidableQuietSince history
    inferInstanceAs (Decidable (¬Disturbs slotCount history event ∧
      (event.IsPollBy time ∨ QuietSince slotCount time history)))

end Decidable

/-! ### One event -/

/-- Idle saving is on, and the process takes requests. -/
structure IdleSaving (pid : Nat) (entry : CoordinatorEntry) : Prop where
  gate : entry.gateActive = true
  running : entry.stopRequested = false
  own : entry.status.expectedPid = some pid
  routable : entry.status.phase.isRoutable = true
  autoSave : entry.policy.autoSave = true
  seconds : entry.policy.idleSaveSeconds ≠ 0

/-- The entry with its slots as a poll sees them. -/
def seen (slots : List SlotSnapshotRecord) (entry : CoordinatorEntry) : CoordinatorEntry :=
  if entry.idleSlots ≠ slotTasks slots then
    { entry with
      idle := { entry.idle with dirty := true, quietSince := none }
      idleSlots := slotTasks slots }
  else entry

/-- What an event does to the entry of a process for which idle saving is on. -/
def observed (entry : CoordinatorEntry) : IdleEvent → Bool × CoordinatorEntry
  | .poll slots activeRequests now =>
    if wellFormed entry.slotCount slots then
      let entry := seen slots entry
      let (idle, due) := entry.idle.observe (slots.any (·.isProcessing) || activeRequests > 0)
        none now entry.policy.idleSaveSeconds
      (due, { entry with idle })
    else (false, { entry with idle := { entry.idle with quietSince := none } })
  | .completed task _ =>
    if entry.idle.completedTask ≠ some task then
      (false, { entry with
        idle := { entry.idle with completedTask := some task, dirty := true, quietSince := none } })
    else (false, entry)

variable {instanceId : String} {pid : Nat} {entries : Entries} {entry : CoordinatorEntry}

variable {slots : List SlotSnapshotRecord}

theorem wellFormed_eq_false {slotCount : Nat} :
    wellFormed slotCount slots = false ↔ slots.length ≠ slotCount ∨
      (slotTasks slots).length ≠ slots.length ∨
        (slotTasks slots).map (·.1) ≠ List.range slotCount := by
  simp [wellFormed]
  tauto

theorem idleSaving_of_due {activeRequests now : Nat}
    (found : entries.lookup instanceId = some entry)
    (due : (idleSaveDue instanceId pid slots activeRequests now entries).1 = true) :
    IdleSaving pid entry := by
  unfold idleSaveDue at due
  rw [found] at due
  simp only at due
  split at due
  · exact absurd due (by simp)
  · rename_i open'
    simp only [not_or, Bool.not_eq_true', Bool.not_eq_false, not_not] at open'
    obtain ⟨gate, running, own, routable, autoSave, seconds⟩ := open'
    exact ⟨gate, by simpa using running, own, routable, autoSave, seconds⟩

theorem observeIdle_eq (found : entries.lookup instanceId = some entry)
    (saving : IdleSaving pid entry) (event : IdleEvent) :
    (observeIdle instanceId pid entries event).1 = (observed entry event).1 ∧
      (observeIdle instanceId pid entries event).2.lookup instanceId =
        some (observed entry event).2 := by
  cases event with
  | poll slots activeRequests now =>
    have gates : ¬((!entry.gateActive) = true ∨ entry.stopRequested = true ∨
        entry.status.expectedPid ≠ some pid ∨ (!entry.status.phase.isRoutable) = true ∨
          (!entry.policy.autoSave) = true ∨ entry.policy.idleSaveSeconds = 0) := by
      simp [saving.gate, saving.running, saving.own, saving.routable, saving.autoSave,
        saving.seconds]
    simp only [observeIdle, idleSaveDue, found]
    rw [if_neg gates]
    simp only [observed]
    by_cases all : wellFormed entry.slotCount slots = true
    · rw [if_neg (mt wellFormed_eq_false.mpr (by simp [all])), if_pos all]
      exact ⟨rfl, AList.lookup_insert _⟩
    · rw [if_pos (wellFormed_eq_false.mp (by simpa using all)), if_neg all]
      exact ⟨rfl, AList.lookup_insert _⟩
  | completed task now =>
    simp only [observeIdle, observeCompletedRequest, changeOwn, found, observed]
    by_cases same : entry.idle.completedTask = some task
    · simp [same, found]
    · simp [same, saving.own, saving.gate, saving.routable]

/-! ### The schedule follows the history -/

theorem observe_busy (idle : IdleSaveSchedule) (now seconds : Nat) :
    idle.observe true none now seconds =
      ({ idle with dirty := true, quietSince := none }, false) := by
  simp [IdleSaveSchedule.observe]

/-- A save is due at a quiet poll. -/
def Due (idle : IdleSaveSchedule) (now seconds : Nat) : Prop :=
  idle.dirty = true ∧ idle.quietSince.getD now + seconds * 1000 ≤ now ∧
    ∀ time ∈ idle.attemptedAt, time + 60 * 1000 ≤ now

theorem observe_quiet (idle : IdleSaveSchedule) {now seconds : Nat} (positive : seconds ≠ 0)
    (past : ∀ time ∈ idle.attemptedAt, time ≤ now) :
    (Due idle now seconds ∧ idle.observe false none now seconds =
        ({ idle with dirty := false, quietSince := some (idle.quietSince.getD now),
                     attemptedAt := some now }, true)) ∨
      (¬Due idle now seconds ∧ idle.observe false none now seconds =
        ({ idle with quietSince := some (idle.quietSince.getD now) }, false)) := by
  have waiting : (now - idle.quietSince.getD now < seconds * 1000) ↔
      ¬idle.quietSince.getD now + seconds * 1000 ≤ now := by omega
  have rested : idle.attemptedAt.any (now - · < 60 * 1000) = false ↔
      ∀ time ∈ idle.attemptedAt, time + 60 * 1000 ≤ now := by
    cases attempt : idle.attemptedAt with
    | none => simp
    | some time =>
      have := past time attempt
      simp only [Option.any_some, decide_eq_false_iff_not, Option.mem_def, Option.some.injEq,
        forall_eq']
      omega
  by_cases due : Due idle now seconds
  · refine .inl ⟨due, ?_⟩
    obtain ⟨dirty, quiet, attempt⟩ := due
    have := rested.mpr attempt
    simp [IdleSaveSchedule.observe, dirty, waiting, quiet, this]
  · refine .inr ⟨due, ?_⟩
    have blocked : idle.dirty = false ∨ now - idle.quietSince.getD now < seconds * 1000 ∨
        idle.attemptedAt.any (now - · < 60 * 1000) = true := by
      unfold Due at due
      rw [waiting, ← Bool.not_eq_false, rested, ← Bool.not_eq_true]
      tauto
    simp only [IdleSaveSchedule.observe, Bool.false_eq_true, Option.isSome_none, false_and,
      or_self, if_false, Bool.not_eq_true']
    rw [if_pos blocked]

/-- The schedule of an entry is what the history says. -/
structure Tracks (entry : CoordinatorEntry) (history : IdleHistory) : Prop where
  slots : entry.idleSlots = observedSlots entry.slotCount history
  completed : entry.idle.completedTask = lastCompleted history
  dirty : entry.idle.dirty = true ↔ WorkSince entry.slotCount history
  attempted : entry.idle.attemptedAt = lastAttempt history
  quiet : ∀ time ∈ entry.idle.quietSince, UndisturbedAfter entry.slotCount time history
  since : ∀ time, QuietSince entry.slotCount time history →
    ∃ quiet ≤ time, entry.idle.quietSince = some quiet
  /-- A quiet period has begun with an event. -/
  begun : ∀ time ∈ entry.idle.quietSince, ∃ event ∈ history, time ≤ event.1.time

variable {history : IdleHistory}

theorem UndisturbedAfter.of_le {slotCount time : Nat}
    (past : ∀ event ∈ history, event.1.time ≤ time) : UndisturbedAfter slotCount time history := by
  induction history with
  | nil => trivial
  | cons event history ih =>
    exact ⟨fun _ => past event (.head _), ih fun e mem => past e (.tail _ mem)⟩

theorem lastAttempt_mem {time : Nat} (last : lastAttempt history = some time) :
    ∃ event ∈ history, event.1.time = time := by
  induction history with
  | nil => cases last
  | cons event history ih =>
    obtain ⟨event, answer⟩ := event
    cases answer with
    | true => exact ⟨_, .head _, Option.some.inj last⟩
    | false =>
      obtain ⟨found, mem, eq⟩ := ih last
      exact ⟨found, .tail _ mem, eq⟩

/-- An event that disturbs, whatever it does to `dirty`, ends the quiet period; a poll that
is not busy begins another one at once. -/
theorem Tracks.disturbed {entry next : CoordinatorEntry} {event : IdleEvent}
    (tracks : Tracks entry history) (past : ∀ e ∈ history, e.1.time ≤ event.time)
    (disturbs : Disturbs entry.slotCount history event) (count : next.slotCount = entry.slotCount)
    (slots : next.idleSlots = observedSlots entry.slotCount ((event, false) :: history))
    (completed : next.idle.completedTask = lastCompleted ((event, false) :: history))
    (dirty : next.idle.dirty = true ↔
      Work entry.slotCount history event ∨ entry.idle.dirty = true)
    (attempted : next.idle.attemptedAt = entry.idle.attemptedAt)
    (quiet : next.idle.quietSince = none ∨ next.idle.quietSince = some event.time) :
    Tracks next ((event, false) :: history) where
  slots := by rw [count, slots]
  completed := completed
  dirty := by rw [count, dirty, tracks.dirty]; rfl
  attempted := attempted.trans tracks.attempted
  quiet := by
    intro time since
    rcases quiet with none | some
    · rw [none] at since; cases since
    · rw [some] at since
      cases since
      exact ⟨fun _ => le_rfl, .of_le past⟩
  since := by
    intro time since
    rw [count] at since
    exact absurd disturbs since.1
  begun := by
    intro time since
    rcases quiet with none | some
    · rw [none] at since; cases since
    · rw [some] at since
      cases since
      exact ⟨_, .head _, le_rfl⟩

variable {entry : CoordinatorEntry}

/-- A quiet poll. -/
theorem Tracks.polled {activeRequests now : Nat} (tracks : Tracks entry history)
    (past : ∀ e ∈ history, e.1.time ≤ now) (all : wellFormed entry.slotCount slots = true)
    (same : entry.idleSlots = slotTasks slots)
    (calm : ¬Disturbs entry.slotCount history (.poll slots activeRequests now)) (answer : Bool) :
    Tracks { entry with idle := { entry.idle with
        dirty := !answer && entry.idle.dirty
        quietSince := some (entry.idle.quietSince.getD now)
        attemptedAt := if answer then some now else entry.idle.attemptedAt } }
      ((.poll slots activeRequests now, answer) :: history) where
  slots := by simp [observedSlots, all, same]
  completed := tracks.completed
  dirty := by
    cases answer with
    | true => simp [WorkSince]
    | false =>
      have idle : ¬Work entry.slotCount history (.poll slots activeRequests now) :=
        fun work => calm (.inr work)
      simp [WorkSince, idle, tracks.dirty]
  attempted := by
    cases answer with
    | true => rfl
    | false => exact tracks.attempted
  quiet := by
    intro time since
    obtain rfl := Option.some.inj since
    refine ⟨fun disturbs => absurd disturbs calm, ?_⟩
    cases since : entry.idle.quietSince with
    | none => exact .of_le past
    | some time => exact tracks.quiet time since
  since := by
    rintro time ⟨-, le | since⟩
    · refine ⟨_, ?_, rfl⟩
      cases since : entry.idle.quietSince with
      | none => exact le
      | some quiet =>
        obtain ⟨event, mem, begun⟩ := tracks.begun quiet since
        exact (begun.trans (past event mem)).trans le
    · obtain ⟨quiet, le, eq⟩ := tracks.since time since
      exact ⟨quiet, le, by simp [eq]⟩
  begun := by
    intro time since
    obtain rfl := Option.some.inj since
    cases since : entry.idle.quietSince with
    | none => exact ⟨_, .head _, le_rfl⟩
    | some time =>
      obtain ⟨event, mem, begun⟩ := tracks.begun time since
      exact ⟨event, .tail _ mem, begun⟩

/-- The report of a request that was reported before. -/
theorem Tracks.repeated {task now : Nat} (tracks : Tracks entry history)
    (same : entry.idle.completedTask = some task) :
    Tracks entry ((.completed task now, false) :: history) := by
  have idle : ¬Work entry.slotCount history (.completed task now) :=
    fun work => work (tracks.completed ▸ same)
  exact {
    slots := tracks.slots
    completed := same
    dirty := by simp [WorkSince, idle, tracks.dirty]
    attempted := tracks.attempted
    quiet := fun time since => ⟨fun disturbs => absurd disturbs idle, tracks.quiet time since⟩
    since := by
      rintro time ⟨-, poll | since⟩
      · exact absurd poll id
      · exact tracks.since time since
    begun := by
      intro time since
      obtain ⟨event, mem, begun⟩ := tracks.begun time since
      exact ⟨event, .tail _ mem, begun⟩ }

@[simp] theorem seen_slotCount (slots : List SlotSnapshotRecord) (entry : CoordinatorEntry) :
    (seen slots entry).slotCount = entry.slotCount := by
  unfold seen; split <;> rfl

@[simp] theorem seen_policy (slots : List SlotSnapshotRecord) (entry : CoordinatorEntry) :
    (seen slots entry).policy = entry.policy := by
  unfold seen; split <;> rfl

@[simp] theorem seen_slots (slots : List SlotSnapshotRecord) (entry : CoordinatorEntry) :
    (seen slots entry).idleSlots = slotTasks slots := by
  unfold seen
  split
  · rfl
  · rename_i same
    exact not_not.mp same

@[simp] theorem seen_completed (slots : List SlotSnapshotRecord) (entry : CoordinatorEntry) :
    (seen slots entry).idle.completedTask = entry.idle.completedTask := by
  unfold seen; split <;> rfl

@[simp] theorem seen_attempted (slots : List SlotSnapshotRecord) (entry : CoordinatorEntry) :
    (seen slots entry).idle.attemptedAt = entry.idle.attemptedAt := by
  unfold seen; split <;> rfl

/-- What a poll answers, and the entry it leaves. -/
theorem observed_poll {activeRequests now : Nat} (tracks : Tracks entry history)
    (positive : entry.policy.idleSaveSeconds ≠ 0) (past : ∀ e ∈ history, e.1.time ≤ now) :
    let event := IdleEvent.poll slots activeRequests now
    Tracks (observed entry event).2 ((event, (observed entry event).1) :: history) ∧
      ((observed entry event).1 = true ↔ ¬Disturbs entry.slotCount history event ∧
        Due entry.idle now entry.policy.idleSaveSeconds) := by
  intro event
  by_cases all : wellFormed entry.slotCount slots = true
  · have shape : observed entry event = (
        ((seen slots entry).idle.observe (slots.any (·.isProcessing) || activeRequests > 0)
          none now entry.policy.idleSaveSeconds).2,
        { seen slots entry with
          idle := ((seen slots entry).idle.observe
            (slots.any (·.isProcessing) || activeRequests > 0) none now
              entry.policy.idleSaveSeconds).1 }) := by
      simp [event, observed, all]
    by_cases busy : (slots.any (·.isProcessing) || decide (activeRequests > 0)) = true
    · have disturbs : Disturbs entry.slotCount history event := by
        refine .inr ⟨all, ?_⟩
        simp only [Bool.or_eq_true, decide_eq_true_eq] at busy
        tauto
      rw [shape, busy, observe_busy]
      refine ⟨tracks.disturbed past disturbs ?_ ?_ ?_ ?_ ?_ (.inl rfl), ?_⟩
      · simp
      · simp [event, observedSlots, all]
      · simpa [event, lastCompleted] using tracks.completed
      · have work := disturbs.resolve_left (by simp [all])
        simp [work, event]
      · simp
      · simp [disturbs]
    · rw [Bool.not_eq_true] at busy
      by_cases same : entry.idleSlots = slotTasks slots
      · have unseen : seen slots entry = entry := by simp [seen, same]
        have calm : ¬Disturbs entry.slotCount history event := by
          rintro (malformed | ⟨-, processing | active | changed⟩)
          · simp [all] at malformed
          · simp [processing] at busy
          · simp [active] at busy
          · exact changed (same ▸ tracks.slots)
        have attempts : ∀ time ∈ entry.idle.attemptedAt, time ≤ now := by
          intro time attempt
          obtain ⟨e, mem, rfl⟩ := lastAttempt_mem (tracks.attempted ▸ attempt)
          exact past e mem
        rw [shape, busy, unseen]
        rcases observe_quiet entry.idle positive attempts with ⟨due, eq⟩ | ⟨undue, eq⟩
        · rw [eq]
          exact ⟨tracks.polled past all same calm true, by simp [calm, due]⟩
        · rw [eq]
          refine ⟨?_, by simp [undue]⟩
          simpa using tracks.polled past all same calm false
      · have disturbs : Disturbs entry.slotCount history event :=
          .inr ⟨all, .inr (.inr fun eq => same (tracks.slots.trans eq.symm))⟩
        have undue : ¬Due (seen slots entry).idle now entry.policy.idleSaveSeconds := by
          rintro ⟨-, quiet, -⟩
          simp [seen, same] at quiet
          omega
        have attempts : ∀ time ∈ (seen slots entry).idle.attemptedAt, time ≤ now := by
          intro time attempt
          rw [seen_attempted] at attempt
          obtain ⟨e, mem, rfl⟩ := lastAttempt_mem (tracks.attempted ▸ attempt)
          exact past e mem
        rw [shape, busy]
        rcases observe_quiet (seen slots entry).idle positive attempts with ⟨due, -⟩ | ⟨-, eq⟩
        · exact absurd due undue
        · rw [eq]
          refine ⟨tracks.disturbed past disturbs ?_ ?_ ?_ ?_ ?_ (.inr ?_), ?_⟩
          · simp
          · simp [event, observedSlots, all]
          · simpa [event, lastCompleted] using tracks.completed
          · have work := disturbs.resolve_left (by simp [all])
            simp [seen, same, work, event]
          · simp
          · simp [seen, same, event, IdleEvent.time]
          · simp [disturbs]
  · have disturbs : Disturbs entry.slotCount history event := .inl (by simpa using all)
    have idle : ¬Work entry.slotCount history event := fun work => all work.1
    have shape : observed entry event =
        (false, { entry with idle := { entry.idle with quietSince := none } }) := by
      simp [event, observed, all]
    rw [shape]
    refine ⟨tracks.disturbed past disturbs rfl ?_ ?_ ?_ rfl (.inl rfl), by simp [disturbs]⟩
    · simpa [event, observedSlots, all] using tracks.slots
    · exact tracks.completed
    · simp [idle]

theorem observed_completed {task now : Nat} (tracks : Tracks entry history)
    (past : ∀ e ∈ history, e.1.time ≤ now) :
    let event := IdleEvent.completed task now
    Tracks (observed entry event).2 ((event, (observed entry event).1) :: history) := by
  intro event
  by_cases same : entry.idle.completedTask = some task
  · simpa [event, observed, same] using tracks.repeated same
  · have disturbs : Disturbs entry.slotCount history event :=
      fun last => same (tracks.completed.trans last)
    have dirty : true = true ↔ Work entry.slotCount history event ∨ entry.idle.dirty = true :=
      iff_of_true rfl (.inl disturbs)
    simp only [event, observed, if_pos (show entry.idle.completedTask ≠ some task from same)]
    exact tracks.disturbed past disturbs rfl tracks.slots rfl dirty rfl (.inl rfl)

/-! ### All events -/

/-- An event leaves what idle saving depends on. -/
structure SameProcess (entry next : CoordinatorEntry) : Prop where
  gate : next.gateActive = entry.gateActive
  stop : next.stopRequested = entry.stopRequested
  status : next.status = entry.status
  policy : next.policy = entry.policy
  slotCount : next.slotCount = entry.slotCount

theorem SameProcess.trans {entry next last : CoordinatorEntry} (first : SameProcess entry next)
    (second : SameProcess next last) : SameProcess entry last where
  gate := second.gate.trans first.gate
  stop := second.stop.trans first.stop
  status := second.status.trans first.status
  policy := second.policy.trans first.policy
  slotCount := second.slotCount.trans first.slotCount

theorem SameProcess.idleSaving {entry next : CoordinatorEntry} (same : SameProcess entry next) :
    IdleSaving pid next ↔ IdleSaving pid entry := by
  constructor
  · rintro ⟨gate, running, own, routable, autoSave, seconds⟩
    rw [same.status] at own routable
    rw [same.policy] at autoSave seconds
    exact ⟨same.gate ▸ gate, same.stop ▸ running, own, routable, autoSave, seconds⟩
  · rintro ⟨gate, running, own, routable, autoSave, seconds⟩
    rw [← same.status] at own routable
    rw [← same.policy] at autoSave seconds
    exact ⟨same.gate.trans gate, same.stop.trans running, own, routable, autoSave, seconds⟩

theorem observeIdle_same (found : entries.lookup instanceId = some entry) (event : IdleEvent) :
    ∃ next, (observeIdle instanceId pid entries event).2.lookup instanceId = some next ∧
      SameProcess entry next := by
  have still : SameProcess entry entry := ⟨rfl, rfl, rfl, rfl, rfl⟩
  cases event with
  | poll slots activeRequests now =>
    simp only [observeIdle, idleSaveDue, found]
    split
    · exact ⟨entry, found, still⟩
    · split
      · exact ⟨_, AList.lookup_insert _, ⟨rfl, rfl, rfl, rfl, rfl⟩⟩
      · refine ⟨_, AList.lookup_insert _, ?_⟩
        split <;> exact ⟨rfl, rfl, rfl, rfl, rfl⟩
  | completed task now =>
    simp only [observeIdle, observeCompletedRequest, changeOwn, found]
    split
    · exact ⟨_, AList.lookup_insert _, ⟨rfl, rfl, rfl, rfl, rfl⟩⟩
    · exact ⟨entry, found, still⟩

/-- The entry of a process that was registered and has not been seen since. -/
structure Fresh (entry : CoordinatorEntry) : Prop where
  slots : entry.idleSlots = []
  idle : entry.idle = {}

/-- Every later event is no earlier. -/
def InOrder (events : List IdleEvent) : Prop :=
  events.Pairwise fun later earlier => earlier.time ≤ later.time

instance : DecidablePred InOrder :=
  fun events => inferInstanceAs (Decidable (events.Pairwise _))

theorem observeAll_events (instanceId : String) (pid : Nat) (entries : Entries)
    (events : List IdleEvent) :
    (observeAll instanceId pid entries events).2.map (·.1) = events := by
  induction events with
  | nil => rfl
  | cons event events ih => simpa [observeAll] using ih

theorem observeAll_past {event : IdleEvent} {events : List IdleEvent}
    (ordered : InOrder (event :: events)) :
    ∀ e ∈ (observeAll instanceId pid entries events).2, e.1.time ≤ event.time := by
  intro e mem
  have : e.1 ∈ (observeAll instanceId pid entries events).2.map (·.1) := List.mem_map_of_mem mem
  rw [observeAll_events] at this
  exact List.rel_of_pairwise_cons ordered this

theorem observeAll_same (found : entries.lookup instanceId = some entry)
    (events : List IdleEvent) :
    ∃ next, (observeAll instanceId pid entries events).1.lookup instanceId = some next ∧
      SameProcess entry next := by
  induction events with
  | nil => exact ⟨entry, found, ⟨rfl, rfl, rfl, rfl, rfl⟩⟩
  | cons event events ih =>
    obtain ⟨middle, found, same⟩ := ih
    obtain ⟨next, found, same'⟩ := @observeIdle_same _ pid _ _ found event
    exact ⟨next, found, same.trans same'⟩

/-- After any events the schedule is what they say. -/
theorem observeAll_tracks (found : entries.lookup instanceId = some entry)
    (fresh : Fresh entry) (saving : IdleSaving pid entry) {events : List IdleEvent}
    (ordered : InOrder events) :
    ∃ next, (observeAll instanceId pid entries events).1.lookup instanceId = some next ∧
      SameProcess entry next ∧ Tracks next (observeAll instanceId pid entries events).2 := by
  induction events with
  | nil =>
    refine ⟨entry, found, ⟨rfl, rfl, rfl, rfl, rfl⟩, fresh.slots, ?_, ?_, ?_, ?_, ?_, ?_⟩ <;>
      simp [fresh.idle, observeAll, lastCompleted, WorkSince, lastAttempt, QuietSince]
  | cons event events ih =>
    obtain ⟨middle, lookup, same, tracks⟩ := ih ordered.of_cons
    have savingMiddle := same.idleSaving.mpr saving
    obtain ⟨answer, lookup'⟩ := observeIdle_eq lookup savingMiddle event
    obtain ⟨next, lookupNext, sameNext⟩ := @observeIdle_same _ pid _ _ lookup event
    obtain rfl := Option.some.inj (lookup'.symm.trans lookupNext)
    refine ⟨_, lookup', same.trans sameNext, ?_⟩
    have past := @observeAll_past instanceId pid entries _ _ ordered
    simp only [observeAll, answer]
    cases event with
    | poll slots activeRequests now =>
      exact (observed_poll tracks savingMiddle.seconds past).1
    | completed task now => exact observed_completed tracks past

/-- No poll was answered with yes in the last minute. -/
def Rested (history : IdleHistory) (now : Nat) : Prop :=
  ∀ time ∈ lastAttempt history, time + 60 * 1000 ≤ now

instance (history : IdleHistory) (now : Nat) : Decidable (Rested history now) :=
  inferInstanceAs (Decidable (∀ time ∈ lastAttempt history, _))

/-- **A poll is answered with yes only after quiet, a minute after the last yes, and for work
seen since then; and it is answered with yes if the schedule is dirty, the poll is quiet and
so was one long enough before it with nothing in between.** -/
theorem idleSaveDue_history {instanceId : String} {pid : Nat} {entries : Entries}
    {entry : CoordinatorEntry} (found : entries.lookup instanceId = some entry)
    (fresh : Fresh entry) {events : List IdleEvent} {slots : List SlotSnapshotRecord}
    {activeRequests now : Nat} (ordered : InOrder (.poll slots activeRequests now :: events)) :
    let past := observeAll instanceId pid entries events
    let calm := ¬Disturbs entry.slotCount past.2 (.poll slots activeRequests now)
    let due := (idleSaveDue instanceId pid slots activeRequests now past.1).1
    (due = true → IdleSaving pid entry ∧ calm ∧
      (∃ time, time + entry.policy.idleSaveSeconds * 1000 ≤ now ∧
        UndisturbedAfter entry.slotCount time past.2) ∧
      Rested past.2 now ∧ WorkSince entry.slotCount past.2) ∧
    (IdleSaving pid entry → calm →
      (∃ time, time + entry.policy.idleSaveSeconds * 1000 ≤ now ∧
        QuietSince entry.slotCount time past.2) →
      Rested past.2 now → (past.1.lookup instanceId).any (·.idle.dirty) = true → due = true) := by
  intro past calm due
  have answer : ∀ saving : IdleSaving pid entry, ∃ next,
      past.1.lookup instanceId = some next ∧ SameProcess entry next ∧ Tracks next past.2 ∧
        (due = true ↔ calm ∧ Due next.idle now entry.policy.idleSaveSeconds) := by
    intro saving
    obtain ⟨next, lookup, same, tracks⟩ := observeAll_tracks found fresh saving ordered.of_cons
    have savingNext := same.idleSaving.mpr saving
    have eq := (observeIdle_eq lookup savingNext (.poll slots activeRequests now)).1
    have iff := (@observed_poll slots _ next activeRequests now tracks savingNext.seconds
      (observeAll_past ordered)).2
    rw [same.slotCount, same.policy] at iff
    refine ⟨next, lookup, same, tracks, ?_⟩
    rw [← iff, ← eq]
    rfl
  constructor
  · intro yes
    obtain ⟨next, lookup, same⟩ := @observeAll_same _ pid _ _ found events
    have saving := same.idleSaving.mp (idleSaving_of_due lookup yes)
    obtain ⟨next, -, same, tracks, iff⟩ := answer saving
    obtain ⟨still, dirty, waited, rested⟩ := iff.mp yes
    have seconds := saving.seconds
    rw [tracks.attempted] at rested
    refine ⟨saving, still, ?_, rested, same.slotCount ▸ tracks.dirty.mp dirty⟩
    cases quiet : next.idle.quietSince with
    | none => rw [quiet] at waited; simp only [Option.getD_none] at waited; omega
    | some time =>
      rw [quiet] at waited
      exact ⟨time, waited, same.slotCount ▸ tracks.quiet time quiet⟩
  · rintro saving still ⟨time, waited, quiet⟩ rested dirty
    obtain ⟨next, lookup, same, tracks, iff⟩ := answer saving
    rw [lookup] at dirty
    obtain ⟨begun, le, eq⟩ := tracks.since time (same.slotCount.symm ▸ quiet)
    refine iff.mpr ⟨still, dirty, ?_, tracks.attempted.symm ▸ rested⟩
    rw [eq, Option.getD_some]
    omega

/-! ### A process with one slot -/

/-- A process with one slot, for which idle saves are made after 30 seconds. -/
def servedEntry : CoordinatorEntry where
  gateActive := true
  stopRequested := false
  status := { (CheckpointStatus.disabled "a" 0).withPhase .readyCold with expectedPid := some 7 }
  fingerprint := none
  policy := { idleSaveSeconds := 30 }
  coldRecovery := false
  slotCount := 1
  idleSlots := []
  idle := {}

def served : Entries := AList.insert "a" servedEntry ∅

def restingSlot : SlotSnapshotRecord := ⟨0, false, some 5, none, none⟩

/-- One request, and polls that see the slot at rest before and after half a minute. -/
def oneRequest : List IdleEvent :=
  [.poll [restingSlot] 0 1000, .completed 5 1000, .poll [restingSlot] 0 0]

theorem idleSaveDue_history_served :
    (idleSaveDue "a" 7 [restingSlot] 0 31000 (observeAll "a" 7 served oneRequest).1).1 = true ∧
      UndisturbedAfter 1 1000 (observeAll "a" 7 served oneRequest).2 := by
  have found : served.lookup "a" = some servedEntry := AList.lookup_insert _
  have facts := @idleSaveDue_history "a" 7 served servedEntry found ⟨rfl, rfl⟩ oneRequest
    [restingSlot] 0 31000 (by decide)
  exact ⟨facts.2 ⟨rfl, rfl, rfl, rfl, rfl, by decide⟩ (by decide) ⟨1000, by decide, by decide⟩
    (by decide) (by decide), by decide⟩

/-- Two requests that report the same task, the second just before the poll at 31 seconds. -/
def sameTask : List IdleEvent :=
  [.completed 5 30000, .poll [restingSlot] 0 1000, .completed 5 0]

/-- Polls at rest, the last half a minute after the second, with one that lists no slot. -/
def missingSlot : List IdleEvent :=
  [.poll [] 0 31000, .poll [restingSlot] 0 2000, .poll [restingSlot] 0 1000]

/-- A save one second after a request has completed; and a schedule that is dirty and no save,
though only a poll without slots came after the quiet one. -/
theorem idleSaveDue_unseen :
    (idleSaveDue "a" 7 [restingSlot] 0 31000 (observeAll "a" 7 served sameTask).1).1 = true ∧
    (idleSaveDue "a" 7 [restingSlot] 0 32000 (observeAll "a" 7 served missingSlot).1).1 = false ∧
    ((observeAll "a" 7 served missingSlot).1.lookup "a").any (·.idle.dirty) = true ∧
    lastAttempt (observeAll "a" 7 served missingSlot).2 = none := by
  decide

end Coordinator

end LlamaServerManager.Checkpoint
