import LlamaServerManager.Monitoring.Inference
import Mathlib.Tactic.Linarith

/-!
Tasks are kept apart (`InferenceTracker`): the lines of the log arrive as they are written,
the samples of the slots up to ten seconds after they were taken.

* `Consistent` — every task is under its slot and id, and a slot has one at most.
* `lookup_task` — what making a task for a slot leaves of the others.
* `Gone` — why a task that has finished does not come back.
* `tracker_keeps_apart` — the result over all runs.
-/

namespace LlamaServerManager.Monitoring

open Lib

namespace InferenceTracker

/-! ### Runs -/

/-- A line of the log, or a sample of the slots with the time of its delivery. -/
inductive TrackerEvent where
  | log (slot id : Nat) (observation : LogObservation) (now : Int)
  | slots (sample : List SlotObservation) (sampledAt deliveredAt : Int)
deriving DecidableEq

def TrackerEvent.time : TrackerEvent → Int
  | .log _ _ _ now => now
  | .slots _ _ deliveredAt => deliveredAt

/-- A sample is delivered at most ten seconds after it was taken. -/
def TrackerEvent.Prompt : TrackerEvent → Prop
  | .log _ _ _ _ => True
  | .slots _ sampledAt deliveredAt => deliveredAt ≤ sampledAt + 10000

instance : DecidablePred TrackerEvent.Prompt
  | .log _ _ _ _ => inferInstanceAs (Decidable True)
  | .slots _ _ _ => inferInstanceAs (Decidable (_ ≤ _))

/-- The event is about these slots. -/
def TrackerEvent.Within (all : Finset Nat) : TrackerEvent → Prop
  | .log slot _ _ _ => slot ∈ all
  | .slots sample _ _ => ∀ slot ∈ sample, slot.slot ∈ all

instance (all : Finset Nat) : DecidablePred (TrackerEvent.Within all)
  | .log _ _ _ _ => inferInstanceAs (Decidable (_ ∈ _))
  | .slots sample _ _ => inferInstanceAs (Decidable (∀ slot ∈ sample, slot.slot ∈ all))

def step (tracker : InferenceTracker) : TrackerEvent → InferenceTracker
  | .log slot id observation now => tracker.log slot id observation now
  | .slots sample sampledAt _ => tracker.slots sample sampledAt

def run (events : List TrackerEvent) : InferenceTracker := events.foldl step {}

/-- Events in the order of their times, each prompt. -/
structure Timely (events : List TrackerEvent) : Prop where
  ordered : events.Pairwise fun earlier later => earlier.time ≤ later.time
  prompt : ∀ event ∈ events, event.Prompt

/-! ### One task a slot -/

/-- Every task is under its slot and id; a slot has one at most. -/
structure Consistent (all : Finset Nat) (tasks : Tasks) : Prop where
  keyed : ∀ key task, tasks.lookup key = some task → (task.slot, task.id) = key
  apart : ∀ key ∈ tasks, ∀ key' ∈ tasks, key.1 = key'.1 → key = key'
  within : ∀ key ∈ tasks, key.1 ∈ all

theorem consistent_empty (all : Finset Nat) : Consistent all ∅ where
  keyed := by intro key task found; cases found
  apart := by intro key mem; exact absurd mem (AList.notMem_empty key)
  within := by intro key mem; exact absurd mem (AList.notMem_empty key)

theorem mem_of_lookup {β : Type} {m : Dict TaskKey β} {key : TaskKey} {b : β}
    (found : m.lookup key = some b) : key ∈ m :=
  AList.lookup_isSome.mp (by simp [found])

variable {all : Finset Nat}

/-- Fewer tasks in, no other ones. -/
theorem Consistent.of_subset {tasks fewer : Tasks} (c : Consistent all tasks)
    (sub : ∀ key task, fewer.lookup key = some task → tasks.lookup key = some task) :
    Consistent all fewer := by
  have mem : ∀ key ∈ fewer, key ∈ tasks := by
    intro key mem
    obtain ⟨task, found⟩ := Option.isSome_iff_exists.mp (AList.lookup_isSome.mpr mem)
    exact mem_of_lookup (sub key task found)
  exact {
    keyed := fun key task found => c.keyed key task (sub key task found)
    apart := fun key m key' m' => c.apart key (mem key m) key' (mem key' m')
    within := fun key m => c.within key (mem key m) }

/-- With one task a slot there are no more tasks than slots. -/
theorem Consistent.size_le {tasks : Tasks} (c : Consistent all tasks) : tasks.size ≤ all.card := by
  have distinct : (tasks.keys.map Prod.fst).Nodup := by
    refine List.Nodup.map_on ?_ tasks.keys_nodup
    intro key mem key' mem' same
    exact c.apart key mem key' mem' same
  have members : (tasks.keys.map Prod.fst).toFinset ⊆ all := by
    intro slot mem
    obtain ⟨key, here, rfl⟩ := List.mem_map.mp (List.mem_toFinset.mp mem)
    exact c.within key here
  calc tasks.size = (tasks.keys.map Prod.fst).length := by
        rw [Dict.size_eq_keys_length, List.length_map]
    _ = (tasks.keys.map Prod.fst).toFinset.card := (List.toFinset_card_of_nodup distinct).symm
    _ ≤ all.card := Finset.card_le_card members

/-! ### The task of a slot -/

/-- The task stays when another slot's task is made or found. -/
def Stays (slot : Nat) (now : Int) (key : TaskKey) (task : Task) : Bool :=
  decide (key.1 ≠ slot) && decide (now - task.observed ≤ keptMs)

theorem stays_iff {slot : Nat} {now : Int} {key : TaskKey} {task : Task} :
    Stays slot now key task = true ↔ key.1 ≠ slot ∧ now - task.observed ≤ keptMs := by
  simp [Stays]

/-- The task that is made or found. -/
def found (tasks : Tasks) (slot id : Nat) (now : Int) : Task :=
  ((tasks.lookup (slot, id)).filter fun task => decide (now - task.observed ≤ keptMs)).getD
    (Task.create slot id now)

section Task

variable {all : Finset Nat} {tasks : Tasks} {slot id : Nat} {now : Int}

theorem lookup_retain_self : (retain slot id now tasks).lookup (slot, id) =
    (tasks.lookup (slot, id)).filter fun task => decide (now - task.observed ≤ keptMs) := by
  unfold retain
  rw [Dict.lookup_filter]
  simp

theorem lookup_retain_ne {key : TaskKey} (ne : key ≠ (slot, id)) :
    (retain slot id now tasks).lookup key = (tasks.lookup key).filter (Stays slot now key) := by
  unfold retain
  rw [Dict.lookup_filter]
  congr 1
  funext task
  have : (decide (key.1 ≠ slot) || decide (key.2 = id)) = decide (key.1 ≠ slot) := by
    rcases key with ⟨slot', id'⟩
    by_cases same : slot' = slot
    · subst same
      simpa using ne
    · simp [same]
  rw [this, Stays]

theorem lookup_of_filter {p : Task → Bool} {key : TaskKey} {task : Task}
    (kept : (tasks.lookup key).filter p = some task) : tasks.lookup key = some task :=
  (Option.filter_eq_some_iff.mp kept).1

theorem Consistent.retain (c : Consistent all tasks) :
    Consistent all (retain slot id now tasks) := by
  refine c.of_subset fun key task kept => ?_
  by_cases eq : key = (slot, id)
  · subst eq
    exact lookup_of_filter (lookup_retain_self ▸ kept)
  · exact lookup_of_filter (lookup_retain_ne eq ▸ kept)

theorem makeRoom_eq (c : Consistent all tasks) (few : all.card < maxTasks) (key : TaskKey) :
    makeRoom key tasks = tasks := by
  have size := c.size_le
  unfold makeRoom
  rw [if_neg (by omega)]

/-- What making a task for a slot leaves. -/
theorem task_spec (c : Consistent all tasks) (few : all.card < maxTasks) :
    (task slot id now tasks).1 = found tasks slot id now ∧
      ∀ key, (task slot id now tasks).2.lookup key =
        if key = (slot, id) then some (found tasks slot id now)
        else (tasks.lookup key).filter (Stays slot now key) := by
  simp only [task, makeRoom_eq c.retain few]
  cases kept : (retain slot id now tasks).lookup (slot, id) with
  | some task =>
    have same : found tasks slot id now = task := by
      rw [found, ← lookup_retain_self, kept, Option.getD_some]
    refine ⟨same.symm, fun key => ?_⟩
    by_cases eq : key = (slot, id)
    · subst eq
      rw [if_pos rfl, same]
      exact kept
    · simp only [if_neg eq, lookup_retain_ne eq]
  | none =>
    have created : found tasks slot id now = Task.create slot id now := by
      rw [found, ← lookup_retain_self, kept, Option.getD_none]
    refine ⟨created.symm, fun key => ?_⟩
    by_cases eq : key = (slot, id)
    · subst eq
      rw [if_pos rfl, created]
      exact AList.lookup_insert _
    · simp only [if_neg eq, AList.lookup_insert_ne eq, lookup_retain_ne eq]

/-- The task with what was observed of it. -/
theorem lookup_task_insert (c : Consistent all tasks) (few : all.card < maxTasks) (key : TaskKey)
    (observed : Task) :
    ((task slot id now tasks).2.insert (slot, id) observed).lookup key =
      if key = (slot, id) then some observed
      else (tasks.lookup key).filter (Stays slot now key) := by
  by_cases eq : key = (slot, id)
  · subst eq
    rw [if_pos rfl, AList.lookup_insert]
  · rw [AList.lookup_insert_ne eq, (task_spec c few).2 key, if_neg eq, if_neg eq]

theorem Consistent.of_lookup {next : Tasks} {task : Task} (c : Consistent all tasks)
    (mem : slot ∈ all) (own : (task.slot, task.id) = (slot, id))
    (eq : ∀ key, next.lookup key =
      if key = (slot, id) then some task else (tasks.lookup key).filter (Stays slot now key)) :
    Consistent all next := by
  have other : ∀ key task, key ≠ (slot, id) → next.lookup key = some task →
      tasks.lookup key = some task ∧ key.1 ≠ slot := by
    intro key task ne here
    rw [eq, if_neg ne] at here
    obtain ⟨before, stays⟩ := Option.filter_eq_some_iff.mp here
    exact ⟨before, (stays_iff.mp stays).1⟩
  have member : ∀ key ∈ next, key = (slot, id) ∨ key ∈ tasks ∧ key.1 ≠ slot := by
    intro key mem
    obtain ⟨task, here⟩ := Option.isSome_iff_exists.mp (AList.lookup_isSome.mpr mem)
    by_cases ne : key = (slot, id)
    · exact .inl ne
    · obtain ⟨before, apart⟩ := other key task ne here
      exact .inr ⟨mem_of_lookup before, apart⟩
  constructor
  · intro key task' here
    by_cases ne : key = (slot, id)
    · rw [eq, if_pos ne] at here
      obtain rfl := Option.some.inj here
      rw [ne, own]
    · exact c.keyed key task' (other key task' ne here).1
  · intro key m key' m' same
    rcases member key m with rfl | ⟨mem, apart⟩ <;> rcases member key' m' with rfl | ⟨mem', apart'⟩
    · rfl
    · exact absurd same.symm apart'
    · exact absurd same apart
    · exact c.apart key mem key' mem' same
  · intro key m
    rcases member key m with rfl | ⟨mem, -⟩
    · assumption
    · exact c.within key mem

theorem found_own (c : Consistent all tasks) :
    ((found tasks slot id now).slot, (found tasks slot id now).id) = (slot, id) := by
  unfold found
  cases kept : (tasks.lookup (slot, id)).filter fun task => decide (now - task.observed ≤ keptMs) with
  | none => rfl
  | some task => exact c.keyed _ _ (lookup_of_filter kept)

end Task

/-! ### One event -/

@[simp] theorem log_own (task : Task) (now : Int) (observation : LogObservation) :
    ((task.log now observation).slot, (task.log now observation).id) = (task.slot, task.id) := by
  cases observation with
  | prefill tokens elapsedMs average progress =>
    simp only [Task.log]
    split <;> rfl
  | _ => rfl

@[simp] theorem sampleGenerated_own (task : Task) (generated : Option Nat) (sampledAt : Int) :
    ((task.sampleGenerated generated sampledAt).slot,
      (task.sampleGenerated generated sampledAt).id) = (task.slot, task.id) := by
  unfold Task.sampleGenerated
  split
  · rfl
  · split <;> rfl

@[simp] theorem sampleProcessed_own (task : Task) (slot : SlotObservation) (sampledAt : Int) :
    ((task.sampleProcessed slot sampledAt).slot, (task.sampleProcessed slot sampledAt).id) =
      (task.slot, task.id) := by
  unfold Task.sampleProcessed
  split <;> rfl

@[simp] theorem sample_own (task : Task) (slot : SlotObservation) (sampledAt : Int) :
    ((task.sample slot sampledAt).slot, (task.sample slot sampledAt).id) =
      (task.slot, task.id) := by
  unfold Task.sample
  rw [sampleProcessed_own, sampleGenerated_own]

section Step

variable {all : Finset Nat} {tracker : InferenceTracker}

/-- A line of the log, other than one that a task has finished, about a task that has not. -/
theorem log_tasks {slot id : Nat} {observation : LogObservation} {now : Int}
    (c : Consistent all tracker.tasks) (few : all.card < maxTasks)
    (running : observation ≠ .finish)
    (unfinished : (slot, id) ∉
      Dict.filter (fun _ ts => decide (now - ts ≤ finishedMs)) tracker.finished) (key : TaskKey) :
    (tracker.log slot id observation now).tasks.lookup key =
      if key = (slot, id) then
        some (({ found tracker.tasks slot id now with observed := now } : Task).log now observation)
      else (tracker.tasks.lookup key).filter (Stays slot now key) := by
  simp only [log, if_neg running, if_neg unfinished]
  rw [lookup_task_insert c few key, (task_spec c few).1]

theorem Consistent.log {slot id : Nat} {observation : LogObservation} {now : Int}
    (c : Consistent all tracker.tasks) (few : all.card < maxTasks) (mem : slot ∈ all) :
    Consistent all (tracker.log slot id observation now).tasks := by
  by_cases finish : observation = .finish
  · simp only [InferenceTracker.log, if_pos finish]
    refine c.of_subset fun key task here => ?_
    by_cases eq : key = (slot, id)
    · rw [eq, AList.lookup_erase] at here
      cases here
    · rwa [AList.lookup_erase_ne eq] at here
  · by_cases done : (slot, id) ∈
        Dict.filter (fun _ ts => decide (now - ts ≤ finishedMs)) tracker.finished
    · simp only [InferenceTracker.log, if_neg finish, if_pos done]
      exact c
    · exact c.of_lookup mem (by simpa using found_own c) (log_tasks c few finish done)

/-- What one busy slot does to the tasks: nothing, or the slot has this task from now on. -/
theorem takeSlot_cases (sampledAt : Int) (tracker : InferenceTracker) (slot : SlotObservation)
    (c : Consistent all tracker.tasks) (few : all.card < maxTasks) :
    takeSlot sampledAt tracker slot = tracker ∨
      (takeSlot sampledAt tracker slot).finished = tracker.finished ∧
      (∀ key task, tracker.tasks.lookup key = some task → key.1 = slot.slot →
        task.observed ≤ sampledAt) ∧
      ∃ id task, slot.task = some id ∧
        (∀ ts, tracker.finished.lookup (slot.slot, id) = some ts → ts < sampledAt) ∧
        (∀ key, (takeSlot sampledAt tracker slot).tasks.lookup key =
          if key = (slot.slot, id) then some task
          else (tracker.tasks.lookup key).filter (Stays slot.slot sampledAt key)) ∧
        (task = found tracker.tasks slot.slot id sampledAt ∨
          task = (found tracker.tasks slot.slot id sampledAt).sample slot sampledAt) := by
  cases named : slot.task with
  | none => simp only [takeSlot, named, true_or]
  | some id =>
    by_cases newer : newerTask tracker.tasks slot.slot sampledAt = true
    · simp only [takeSlot, named, newer, if_true, true_or]
    · by_cases done : ((tracker.finished.lookup (slot.slot, id)).any
          fun ts => decide (sampledAt ≤ ts)) = true
      · simp only [takeSlot, named, newer, done, if_true, Bool.false_eq_true, if_false, true_or]
      · have old : ∀ key task, tracker.tasks.lookup key = some task → key.1 = slot.slot →
            task.observed ≤ sampledAt := by
          intro key task here same
          by_contra later
          refine newer (List.any_eq_true.mpr ⟨⟨key, task⟩, AList.mem_lookup_iff.mp here, ?_⟩)
          have own := c.keyed key task here
          simp only [← own] at same
          simp only [same, decide_true, Bool.true_and, decide_eq_true_eq]
          omega
        have released : ∀ ts, tracker.finished.lookup (slot.slot, id) = some ts →
            ts < sampledAt := by
          intro ts here
          rw [here] at done
          simpa using done
        refine .inr ⟨?_, old, id, ?_⟩
        · simp only [takeSlot, named, newer, done, Bool.false_eq_true, if_false]
          split <;> rfl
        · have spec := @task_spec all tracker.tasks slot.slot id sampledAt c few
          by_cases late : sampledAt < (task slot.slot id sampledAt tracker.tasks).1.observed
          · refine ⟨_, rfl, released, fun key => ?_, .inl rfl⟩
            simp only [takeSlot, named, newer, done, Bool.false_eq_true, if_false, late, if_true]
            exact spec.2 key
          · refine ⟨_, rfl, released, fun key => ?_, .inr rfl⟩
            simp only [takeSlot, named, newer, done, Bool.false_eq_true, if_false, late]
            rw [lookup_task_insert c few key, spec.1]

theorem Consistent.takeSlot {sampledAt : Int} {slot : SlotObservation}
    (c : Consistent all tracker.tasks) (few : all.card < maxTasks) (mem : slot.slot ∈ all) :
    Consistent all (takeSlot sampledAt tracker slot).tasks := by
  rcases takeSlot_cases sampledAt tracker slot c few with same | ⟨-, -, id, task, -, -, eq, kind⟩
  · rwa [same]
  · refine c.of_lookup mem ?_ eq
    rcases kind with rfl | rfl
    · exact found_own c
    · rw [sample_own]
      exact found_own c

theorem Consistent.takeSlots {sampledAt : Int} {sample : List SlotObservation}
    (c : Consistent all tracker.tasks) (few : all.card < maxTasks)
    (mem : ∀ slot ∈ sample, slot.slot ∈ all) :
    Consistent all (sample.foldl (InferenceTracker.takeSlot sampledAt) tracker).tasks := by
  induction sample generalizing tracker with
  | nil => exact c
  | cons slot sample ih =>
    exact ih (c.takeSlot few (mem slot (.head _))) fun s m => mem s (.tail _ m)

/-- The tasks when a sample is taken in: those observed later, and those it reports. -/
def sampled (sample : List SlotObservation) (sampledAt : Int) (tracker : InferenceTracker) :
    InferenceTracker :=
  { tracker with
    slotsAt := some sampledAt
    unidentifiedSlots :=
      ((sample.filter fun slot => slot.processing && slot.task.isNone).map (·.slot)).toFinset
    tasks := Dict.filter (fun key task => decide (sampledAt < task.observed) || reports sample key)
      tracker.tasks }

theorem slots_eq (tracker : InferenceTracker) (sample : List SlotObservation) (sampledAt : Int) :
    tracker.slots sample sampledAt = tracker ∨
      tracker.slots sample sampledAt =
        (sample.filter (·.processing)).foldl (takeSlot sampledAt)
          (sampled sample sampledAt tracker) := by
  unfold slots
  split
  · exact .inl rfl
  · exact .inr rfl

theorem Consistent.sampled {sample : List SlotObservation} {sampledAt : Int}
    (c : Consistent all tracker.tasks) :
    Consistent all (sampled sample sampledAt tracker).tasks := by
  refine c.of_subset fun key task here => ?_
  have here : (Dict.filter _ tracker.tasks).lookup key = some task := here
  rw [Dict.lookup_filter] at here
  exact lookup_of_filter here

theorem Consistent.step {event : TrackerEvent} (c : Consistent all tracker.tasks)
    (few : all.card < maxTasks) (mem : event.Within all) :
    Consistent all (step tracker event).tasks := by
  cases event with
  | log slot id observation now => exact c.log few mem
  | slots sample sampledAt deliveredAt =>
    simp only [InferenceTracker.step]
    rcases slots_eq tracker sample sampledAt with same | eq
    · rwa [same]
    · rw [eq]
      exact c.sampled.takeSlots few fun slot m => mem slot (List.mem_filter.mp m).1

end Step

/-- The tasks are kept apart in every state that is reached. -/
theorem consistent_run (few : all.card < maxTasks) {events : List TrackerEvent}
    (mem : ∀ event ∈ events, event.Within all) : Consistent all (run events).tasks := by
  induction events using List.reverseRecOn with
  | nil => exact consistent_empty all
  | append_singleton events event ih =>
    rw [run, List.foldl_append]
    exact (ih fun e m => mem e (List.mem_append_left _ m)).step few (mem event (by simp))

/-! ### Samples from before a task was last observed -/

section Newer

variable {all : Finset Nat} {tracker : InferenceTracker} {sampledAt : Int} {key : TaskKey}
  {task : Task}

theorem takeSlot_newer {slot : SlotObservation} (c : Consistent all tracker.tasks)
    (few : all.card < maxTasks) (here : tracker.tasks.lookup key = some task)
    (newer : sampledAt < task.observed) :
    (takeSlot sampledAt tracker slot).tasks.lookup key = some task := by
  rcases takeSlot_cases sampledAt tracker slot c few with same | ⟨-, old, id, made, -, -, eq, -⟩
  · rwa [same]
  · have apart : key.1 ≠ slot.slot := by
      intro same
      have := old key task here same
      omega
    have ne : key ≠ (slot.slot, id) := fun eq => apart (by rw [eq])
    rw [eq, if_neg ne, here]
    refine Option.filter_some_pos (stays_iff.mpr ⟨apart, ?_⟩)
    unfold keptMs
    omega

/-- A sample changes no task that was observed after it was taken. -/
theorem slots_newer {sample : List SlotObservation} (c : Consistent all tracker.tasks)
    (few : all.card < maxTasks) (mem : ∀ slot ∈ sample, slot.slot ∈ all)
    (here : tracker.tasks.lookup key = some task) (newer : sampledAt < task.observed) :
    (tracker.slots sample sampledAt).tasks.lookup key = some task := by
  have each : ∀ (slots : List SlotObservation) (tracker : InferenceTracker),
      Consistent all tracker.tasks → (∀ slot ∈ slots, slot.slot ∈ all) →
      tracker.tasks.lookup key = some task →
      (slots.foldl (takeSlot sampledAt) tracker).tasks.lookup key = some task := by
    intro slots
    induction slots with
    | nil => exact fun _ _ _ here => here
    | cons slot slots ih =>
      intro tracker c mem here
      exact ih _ (c.takeSlot few (mem slot (.head _))) (fun s m => mem s (.tail _ m))
        (takeSlot_newer c few here newer)
  rcases slots_eq tracker sample sampledAt with same | eq
  · rwa [same]
  · rw [eq]
    refine each _ _ c.sampled (fun slot m => mem slot (List.mem_filter.mp m).1) ?_
    have kept : (Dict.filter (fun key task => decide (sampledAt < task.observed) ||
        reports sample key) tracker.tasks).lookup key = some task := by
      rw [Dict.lookup_filter, here]
      exact Option.filter_some_pos (by simp [newer])
    exact kept

end Newer

/-! ### Tasks that have finished -/

/-- What may bring a finished task back: a sample taken later that reports it, or a line of
the log about it after half a minute. -/
def Revives (key : TaskKey) (finishedAt : Int) : TrackerEvent → Prop
  | .log slot id _ now => (slot, id) = key ∧ finishedAt + finishedMs < now
  | .slots sample sampledAt _ => finishedAt < sampledAt ∧ reports sample key = true

instance (key : TaskKey) (finishedAt : Int) : DecidablePred (Revives key finishedAt)
  | .log _ _ _ _ => inferInstanceAs (Decidable (_ ∧ _))
  | .slots _ _ _ => inferInstanceAs (Decidable (_ ∧ _))

/-- The task is not there, and the tracker knows why or half a minute has passed. -/
structure Gone (key : TaskKey) (finishedAt now : Int) (tracker : InferenceTracker) : Prop where
  absent : tracker.tasks.lookup key = none
  known : (∃ ts, tracker.finished.lookup key = some ts ∧ finishedAt ≤ ts) ∨
    finishedAt + finishedMs < now

section Finished

variable {all : Finset Nat} {tracker : InferenceTracker} {key : TaskKey} {finishedAt : Int}

theorem Gone.log {slot id : Nat} {observation : LogObservation} {before now : Int}
    (gone : Gone key finishedAt before tracker) (c : Consistent all tracker.tasks)
    (few : all.card < maxTasks) (le : finishedAt ≤ before) (later : before ≤ now)
    (still : ¬Revives key finishedAt (.log slot id observation now)) :
    Gone key finishedAt now (tracker.log slot id observation now) := by
  have known : (∃ ts, (Dict.filter (fun _ ts => decide (now - ts ≤ finishedMs))
      tracker.finished).lookup key = some ts ∧ finishedAt ≤ ts) ∨
        finishedAt + finishedMs < now := by
    rcases gone.known with ⟨ts, here, le⟩ | past
    · by_cases old : now - ts ≤ finishedMs
      · refine .inl ⟨ts, ?_, le⟩
        rw [Dict.lookup_filter, here]
        exact Option.filter_some_pos (by simp [old])
      · right; omega
    · right; omega
  by_cases finish : observation = .finish
  · simp only [InferenceTracker.log, if_pos finish]
    constructor
    · by_cases eq : key = (slot, id)
      · rw [eq, AList.lookup_erase]
      · rw [AList.lookup_erase_ne eq]
        exact gone.absent
    · by_cases eq : key = (slot, id)
      · exact .inl ⟨now, by rw [eq, AList.lookup_insert], by omega⟩
      · simpa only [AList.lookup_insert_ne eq] using known
  · by_cases done : (slot, id) ∈
        Dict.filter (fun _ ts => decide (now - ts ≤ finishedMs)) tracker.finished
    · simp only [InferenceTracker.log, if_neg finish, if_pos done]
      exact ⟨gone.absent, known⟩
    · have ne : key ≠ (slot, id) := by
        rintro rfl
        rcases known with ⟨ts, here, -⟩ | past
        · exact done (mem_of_lookup here)
        · exact still ⟨rfl, past⟩
      constructor
      · rw [log_tasks c few finish done, if_neg ne, gone.absent]
        rfl
      · simpa only [InferenceTracker.log, if_neg finish, if_neg done] using known

theorem takeSlot_finished (sampledAt : Int) (tracker : InferenceTracker) (slot : SlotObservation) :
    (takeSlot sampledAt tracker slot).finished = tracker.finished := by
  unfold takeSlot
  split
  · rfl
  · split
    · rfl
    · split
      · rfl
      · simp only
        split <;> rfl

/-- A busy slot that does not report the task, or that does in a sample from before its end. -/
theorem takeSlot_absent {sampledAt : Int} {slot : SlotObservation}
    (c : Consistent all tracker.tasks) (few : all.card < maxTasks)
    (absent : tracker.tasks.lookup key = none)
    (unnamed : slot.slot = key.1 → slot.task = some key.2 →
      ∃ ts, tracker.finished.lookup key = some ts ∧ sampledAt ≤ ts) :
    (takeSlot sampledAt tracker slot).tasks.lookup key = none := by
  rcases takeSlot_cases sampledAt tracker slot c few with same | ⟨-, -, id, task, named, done, eq, -⟩
  · rwa [same]
  · have ne : key ≠ (slot.slot, id) := by
      rintro rfl
      obtain ⟨ts, here, le⟩ := unnamed rfl named
      have := done ts here
      omega
    rw [eq, if_neg ne, absent]
    rfl

theorem takeSlots_absent {sampledAt : Int} {sample : List SlotObservation}
    (c : Consistent all tracker.tasks) (few : all.card < maxTasks)
    (mem : ∀ slot ∈ sample, slot.slot ∈ all) (absent : tracker.tasks.lookup key = none)
    (unnamed : ∀ slot ∈ sample, slot.slot = key.1 → slot.task = some key.2 →
      ∃ ts, tracker.finished.lookup key = some ts ∧ sampledAt ≤ ts) :
    (sample.foldl (takeSlot sampledAt) tracker).tasks.lookup key = none := by
  induction sample generalizing tracker with
  | nil => exact absent
  | cons slot sample ih =>
    refine ih (c.takeSlot few (mem slot (.head _))) (fun s m => mem s (.tail _ m))
      (takeSlot_absent c few absent (unnamed slot (.head _))) fun s m => ?_
    rw [takeSlot_finished]
    exact unnamed s (.tail _ m)

theorem takeSlots_finished (sampledAt : Int) (tracker : InferenceTracker)
    (sample : List SlotObservation) :
    (sample.foldl (takeSlot sampledAt) tracker).finished = tracker.finished := by
  induction sample generalizing tracker with
  | nil => rfl
  | cons slot sample ih => rw [List.foldl_cons, ih, takeSlot_finished]

theorem Gone.slots {sample : List SlotObservation} {before sampledAt deliveredAt : Int}
    (gone : Gone key finishedAt before tracker) (c : Consistent all tracker.tasks)
    (few : all.card < maxTasks) (mem : ∀ slot ∈ sample, slot.slot ∈ all)
    (later : before ≤ deliveredAt) (prompt : deliveredAt ≤ sampledAt + 10000)
    (still : ¬Revives key finishedAt (.slots sample sampledAt deliveredAt)) :
    Gone key finishedAt deliveredAt (tracker.slots sample sampledAt) := by
  have known := gone.known
  rcases slots_eq tracker sample sampledAt with same | eq
  · rw [same]
    exact ⟨gone.absent, known.imp_right fun past => by omega⟩
  · rw [eq]
    constructor
    · refine takeSlots_absent c.sampled few (fun slot m => mem slot (List.mem_filter.mp m).1) ?_ ?_
      · have kept : (Dict.filter (fun key task => decide (sampledAt < task.observed) ||
            reports sample key) tracker.tasks).lookup key = none := by
          rw [Dict.lookup_filter, gone.absent]
          rfl
        exact kept
      · intro slot m at' named
        obtain ⟨m, processing⟩ := List.mem_filter.mp m
        have reported : reports sample key = true :=
          List.any_eq_true.mpr ⟨slot, m, by simp [at', named, processing]⟩
        have early : sampledAt ≤ finishedAt := by
          by_contra late
          exact still ⟨by omega, reported⟩
        rcases known with ⟨ts, here, le⟩ | past
        · exact ⟨ts, here, by omega⟩
        · unfold finishedMs at past
          omega
    · rw [takeSlots_finished]
      exact known.imp_right fun past => by omega

theorem Gone.step {event : TrackerEvent} {before : Int} (gone : Gone key finishedAt before tracker)
    (c : Consistent all tracker.tasks) (few : all.card < maxTasks) (mem : event.Within all)
    (le : finishedAt ≤ before) (later : before ≤ event.time) (prompt : event.Prompt)
    (still : ¬Revives key finishedAt event) :
    Gone key finishedAt event.time (InferenceTracker.step tracker event) := by
  cases event with
  | log slot id observation now => exact gone.log c few le later still
  | slots sample sampledAt deliveredAt => exact gone.slots c few mem later prompt still

theorem Gone.run {events : List TrackerEvent} {before : Int}
    (gone : Gone key finishedAt before tracker) (c : Consistent all tracker.tasks)
    (few : all.card < maxTasks) (mem : ∀ event ∈ events, event.Within all)
    (le : finishedAt ≤ before) (timely : Timely events)
    (later : ∀ event ∈ events, before ≤ event.time)
    (still : ∀ event ∈ events, ¬Revives key finishedAt event) :
    (events.foldl InferenceTracker.step tracker).tasks.lookup key = none := by
  induction events generalizing tracker before with
  | nil => exact gone.absent
  | cons event events ih =>
    obtain ⟨next, ordered⟩ := List.pairwise_cons.mp timely.ordered
    have now := later event (.head _)
    refine ih (gone.step c few (mem event (.head _)) le now (timely.prompt event (.head _))
      (still event (.head _))) (c.step few (mem event (.head _))) (fun e m => mem e (.tail _ m))
      (by omega) ⟨ordered, fun e m => timely.prompt e (.tail _ m)⟩ next
      fun e m => still e (.tail _ m)

/-- After its last line a task is gone. -/
theorem gone_of_finish {slot id : Nat} {now : Int} :
    Gone (slot, id) now now (tracker.log slot id .finish now) := by
  constructor
  · simp only [InferenceTracker.log, if_true]
    exact AList.lookup_erase _ _
  · refine .inl ⟨now, ?_, le_rfl⟩
    simp only [InferenceTracker.log, if_true]
    exact AList.lookup_insert _

end Finished

/-! ### Phases -/

theorem log_phase {task : Task} {now : Int} (observation : LogObservation)
    (decoding : task.phase = .decode) : (task.log now observation).phase = .decode := by
  cases observation with
  | start => exact decoding
  | prefill tokens elapsedMs average progress => simp [Task.log, decoding]
  | decode tokens average recent => rfl
  | finish => exact decoding

theorem sample_phase {task : Task} {slot : SlotObservation} {sampledAt : Int}
    (decoding : task.phase = .decode) : (task.sample slot sampledAt).phase ≠ .prefill := by
  have keeps : ∀ task : Task, task.phase ≠ .prefill →
      (task.sampleGenerated slot.generated sampledAt).phase ≠ .prefill := by
    intro task ne
    unfold Task.sampleGenerated
    split
    · exact ne
    · split
      · simp
      · exact ne
  unfold Task.sample
  cases processed : slot.processed with
  | none =>
    simp only [Task.sampleProcessed, processed]
    refine keeps _ ?_
    simp only
    split <;> simp [decoding]
  | some count =>
    simp only [Task.sampleProcessed, processed]
    by_cases none : slot.generated = some 0
    · -- The slot says how far it is: the phase stays as it was.
      have available : slot.available = true := by simp [SlotObservation.available, none, processed]
      simp [Task.sampleGenerated, none, available, Task.unknownPhase, decoding]
    · simp only [none, and_false, if_false]
      refine keeps _ ?_
      simp only
      split <;> simp [decoding]

section Phase

variable {all : Finset Nat} {tracker : InferenceTracker} {key : TaskKey} {task : Task}

/-- A task that was observed in the last minute is found again. -/
theorem found_eq {tasks : Tasks} {now : Int} (here : tasks.lookup key = some task)
    (recent : now - task.observed ≤ keptMs) : found tasks key.1 key.2 now = task := by
  unfold found
  rw [Prod.eta, here, Option.filter_some_pos (by simpa using recent), Option.getD_some]

variable {after : Task}

theorem log_no_prefill {slot id : Nat} {observation : LogObservation} {now : Int}
    (c : Consistent all tracker.tasks) (few : all.card < maxTasks)
    (here : tracker.tasks.lookup key = some task) (decoding : task.phase = .decode)
    (recent : now - task.observed ≤ keptMs)
    (next : (tracker.log slot id observation now).tasks.lookup key = some after) :
    after.phase ≠ .prefill := by
  by_cases finish : observation = .finish
  · simp only [log, if_pos finish] at next
    by_cases eq : key = (slot, id)
    · rw [eq, AList.lookup_erase] at next
      cases next
    · rw [AList.lookup_erase_ne eq, here] at next
      obtain rfl := Option.some.inj next
      simp [decoding]
  · by_cases done : (slot, id) ∈
        Dict.filter (fun _ ts => decide (now - ts ≤ finishedMs)) tracker.finished
    · simp only [log, if_neg finish, if_pos done, here] at next
      obtain rfl := Option.some.inj next
      simp [decoding]
    · rw [log_tasks c few finish done] at next
      by_cases eq : key = (slot, id)
      · subst eq
        rw [if_pos rfl, found_eq here recent] at next
        obtain rfl := Option.some.inj next
        have stays := @log_phase { task with observed := now } now observation decoding
        simp [stays]
      · rw [if_neg eq, here] at next
        obtain rfl := Option.some.inj (Option.filter_eq_some_iff.mp next).1
        simp [decoding]

variable {sampledAt : Int}

/-- The other slots leave a task alone, unless it has not been observed for a minute. -/
theorem takeSlot_other {slot : SlotObservation} (c : Consistent all tracker.tasks)
    (few : all.card < maxTasks) (ne : slot.slot ≠ key.1) :
    (takeSlot sampledAt tracker slot).tasks.lookup key = tracker.tasks.lookup key ∨
      (takeSlot sampledAt tracker slot).tasks.lookup key =
        (tracker.tasks.lookup key).filter fun task => sampledAt - task.observed ≤ keptMs := by
  rcases takeSlot_cases sampledAt tracker slot c few with same | ⟨-, -, id, made, -, -, eq, -⟩
  · exact .inl (by rw [same])
  · right
    rw [eq, if_neg (fun eq => ne (by rw [eq]))]
    congr 1
    funext task
    simp [Stays, ne.symm]

/-- Its own slot leaves a task decoding, or makes its phase unknown, or takes it away. -/
theorem takeSlot_no_prefill {slot : SlotObservation} (c : Consistent all tracker.tasks)
    (few : all.card < maxTasks) (here : tracker.tasks.lookup key = some task)
    (decoding : task.phase = .decode) (recent : sampledAt - task.observed ≤ keptMs)
    (own : slot.slot = key.1)
    (next : (takeSlot sampledAt tracker slot).tasks.lookup key = some after) :
    after.phase ≠ .prefill := by
  rcases takeSlot_cases sampledAt tracker slot c few with
    same | ⟨-, -, id, made, -, -, eq, kind⟩
  · rw [same, here] at next
    obtain rfl := Option.some.inj next
    simp [decoding]
  · rw [eq] at next
    by_cases named : key = (slot.slot, id)
    · subst named
      rw [if_pos rfl] at next
      obtain rfl := Option.some.inj next
      rw [found_eq here recent] at kind
      rcases kind with rfl | rfl
      · simp [decoding]
      · exact sample_phase decoding
    · rw [if_neg named] at next
      have := (stays_iff.mp (Option.filter_eq_some_iff.mp next).2).1
      exact absurd own.symm this

theorem takeSlots_no_prefill_of_other {sample : List SlotObservation}
    (c : Consistent all tracker.tasks) (few : all.card < maxTasks)
    (mem : ∀ slot ∈ sample, slot.slot ∈ all) (others : ∀ slot ∈ sample, slot.slot ≠ key.1)
    (before : ∀ task, tracker.tasks.lookup key = some task → task.phase ≠ .prefill)
    (next : (sample.foldl (takeSlot sampledAt) tracker).tasks.lookup key = some after) :
    after.phase ≠ .prefill := by
  induction sample generalizing tracker with
  | nil => exact before after next
  | cons slot sample ih =>
    refine ih (c.takeSlot few (mem slot (.head _))) (fun s m => mem s (.tail _ m))
      (fun s m => others s (.tail _ m)) (fun task here => ?_) next
    rcases takeSlot_other c few (others slot (.head _)) with eq | eq
    · exact before task (eq ▸ here)
    · exact before task (lookup_of_filter (eq ▸ here))

theorem takeSlots_no_prefill {sample : List SlotObservation} (c : Consistent all tracker.tasks)
    (few : all.card < maxTasks) (mem : ∀ slot ∈ sample, slot.slot ∈ all)
    (once : (sample.map (·.slot)).Nodup) (here : tracker.tasks.lookup key = some task)
    (decoding : task.phase = .decode) (recent : sampledAt - task.observed ≤ keptMs)
    (next : (sample.foldl (takeSlot sampledAt) tracker).tasks.lookup key = some after) :
    after.phase ≠ .prefill := by
  induction sample generalizing tracker with
  | nil =>
    rw [List.foldl_nil, here] at next
    obtain rfl := Option.some.inj next
    simp [decoding]
  | cons slot sample ih =>
    obtain ⟨notMem, once⟩ := List.nodup_cons.mp once
    have c' : Consistent all (takeSlot sampledAt tracker slot).tasks :=
      c.takeSlot few (mem slot (.head _))
    by_cases own : slot.slot = key.1
    · refine takeSlots_no_prefill_of_other c' few (fun s m => mem s (.tail _ m)) ?_
        (fun task next => takeSlot_no_prefill c few here decoding recent own next) next
      intro s m same
      exact notMem (List.mem_map.mpr ⟨s, m, same.trans own.symm⟩)
    · refine ih c' (fun s m => mem s (.tail _ m)) once ?_ next
      rcases takeSlot_other c few own with eq | eq
      · rw [eq, here]
      · rw [eq, here, Option.filter_some_pos (by simpa using recent)]

theorem slots_no_prefill {sample : List SlotObservation} (c : Consistent all tracker.tasks)
    (few : all.card < maxTasks) (mem : ∀ slot ∈ sample, slot.slot ∈ all)
    (once : (sample.map (·.slot)).Nodup) (here : tracker.tasks.lookup key = some task)
    (decoding : task.phase = .decode) (recent : sampledAt - task.observed ≤ keptMs)
    (next : (tracker.slots sample sampledAt).tasks.lookup key = some after) :
    after.phase ≠ .prefill := by
  rcases slots_eq tracker sample sampledAt with same | eq
  · rw [same, here] at next
    obtain rfl := Option.some.inj next
    simp [decoding]
  · rw [eq] at next
    have busy : ∀ slot ∈ sample.filter (·.processing), slot.slot ∈ all :=
      fun slot m => mem slot (List.mem_filter.mp m).1
    have kept : (sampled sample sampledAt tracker).tasks.lookup key =
        (some task).filter fun task =>
          decide (sampledAt < task.observed) || reports sample key := by
      rw [← here]
      exact Dict.lookup_filter _ _ _
    by_cases stays : (decide (sampledAt < task.observed) || reports sample key) = true
    · rw [Option.filter_some, if_pos stays] at kept
      exact takeSlots_no_prefill c.sampled few busy
        (once.sublist (List.filter_sublist.map _)) kept decoding recent next
    · -- A task that the sample does not report does not come back with it.
      rw [Option.filter_some, if_neg stays] at kept
      have unnamed : ∀ slot ∈ sample.filter (·.processing), slot.slot = key.1 →
          slot.task ≠ some key.2 := by
        intro slot m own named
        obtain ⟨m, processing⟩ := List.mem_filter.mp m
        refine stays (Bool.or_eq_true_iff.mpr (.inr (List.any_eq_true.mpr ⟨slot, m, ?_⟩)))
        simp [own, named, processing]
      have absent := @takeSlots_absent all _ key sampledAt _ c.sampled few busy kept
        fun slot m own named => absurd named (unnamed slot m own)
      rw [absent] at next
      cases next

/-- A line of the log says when it is; a sample, when it was taken. -/
def TrackerEvent.observedAt : TrackerEvent → Int
  | .log _ _ _ now => now
  | .slots _ sampledAt _ => sampledAt

/-- A sample lists no slot twice. -/
def TrackerEvent.Once : TrackerEvent → Prop
  | .log _ _ _ _ => True
  | .slots sample _ _ => (sample.map (·.slot)).Nodup

theorem step_no_prefill {event : TrackerEvent} (c : Consistent all tracker.tasks)
    (few : all.card < maxTasks) (mem : event.Within all) (once : event.Once)
    (here : tracker.tasks.lookup key = some task) (decoding : task.phase = .decode)
    (recent : event.observedAt - task.observed ≤ keptMs)
    (next : (step tracker event).tasks.lookup key = some after) : after.phase ≠ .prefill := by
  cases event with
  | log slot id observation now => exact log_no_prefill c few here decoding recent next
  | slots sample sampledAt deliveredAt =>
    exact slots_no_prefill c few mem once here decoding recent next

end Phase

/-! ### Snapshots -/

/-- The values of the readings that have one. -/
def total (readings : List RateReading) : ℚ := (readings.filterMap (·.value)).sum

/-- An aggregate covers no more than it expects; it has the sum of the values if there are
any, and no value or zero if there are none; it expects nothing only of nothing. -/
structure Aggregates (readings : List RateReading) (result : RateReading) : Prop where
  covered : result.covered ≤ result.expected
  value : result.value = some (total readings) ∨
    result.value = none ∧ ∀ reading ∈ readings, reading.value = none
  nothing : result.expected = 0 → readings = []

theorem aggregate_aggregates {expected : Option Nat} {readings : List RateReading}
    (none : expected = some 0 → readings = []) :
    Aggregates readings (aggregate expected readings) := by
  unfold aggregate
  split
  · rename_i zero
    obtain rfl := none zero
    exact ⟨le_rfl, .inl rfl, fun _ => rfl⟩
  · simp only
    split
    · rename_i zero
      have nil : readings = [] := by
        rw [← List.length_eq_zero_iff]
        omega
      subst nil
      exact ⟨by simp [RateReading.empty], .inr ⟨rfl, by simp⟩, fun _ => rfl⟩
    · rename_i positive
      have few : readings.countP (·.value.isSome) ≤ readings.length := List.countP_le_length
      split
      · exact ⟨by simp only; omega, .inl rfl, fun zero => absurd zero positive⟩
      · rename_i uncovered
        refine ⟨by simp only; omega, .inr ⟨rfl, fun reading mem => ?_⟩,
          fun zero => absurd zero positive⟩
        rw [Nat.not_lt, Nat.le_zero, List.countP_eq_zero] at uncovered
        simpa using uncovered reading mem

theorem snapshot_aggregates (tracker : InferenceTracker) (now : Int) (activeHint : Option Nat) :
    let shot := tracker.snapshot now activeHint
    Aggregates (shot.tasks.map (·.prefill)) shot.prefill ∧
      Aggregates (shot.tasks.map (·.decode)) shot.decode := by
  intro shot
  have nothing : tracker.expected now activeHint = some 0 → shot.tasks = [] := by
    intro zero
    simp only [shot, snapshot, if_pos zero]
  exact ⟨aggregate_aggregates fun zero => by rw [nothing zero]; rfl,
    aggregate_aggregates fun zero => by rw [nothing zero]; rfl⟩

/-- A snapshot lists only tasks that are there. -/
theorem mem_of_snapshot {tracker : InferenceTracker} {now : Int} {activeHint : Option Nat}
    (c : Consistent all tracker.tasks) {task : InferenceTask}
    (mem : task ∈ (tracker.snapshot now activeHint).tasks) :
    ∃ here, tracker.tasks.lookup (task.slotId, task.taskId) = some here := by
  simp only [snapshot] at mem
  split at mem
  · cases mem
  · rw [listed, List.mem_insertionSort] at mem
    obtain ⟨⟨key, here⟩, entry, rfl⟩ := List.mem_map.mp mem
    have found : tracker.tasks.lookup key = some here := AList.mem_lookup_iff.mpr entry
    have own := c.keyed key here found
    exact ⟨here, by rw [← found, ← own]; rfl⟩

/-! ### All runs -/

theorem run_concat (before after : List TrackerEvent) :
    run (before ++ after) = after.foldl step (run before) :=
  List.foldl_append

/-- A task whose last line came is in no snapshot until something revives it. -/
theorem finished_stays (few : all.card < maxTasks) {before after : List TrackerEvent}
    {slot id : Nat} {now : Int} (timely : Timely (before ++ .log slot id .finish now :: after))
    (mem : ∀ event ∈ before ++ .log slot id .finish now :: after, event.Within all)
    (still : ∀ event ∈ after, ¬Revives (slot, id) now event) {time : Int} {activeHint : Option Nat}
    {task : InferenceTask}
    (shown : task ∈ ((run (before ++ .log slot id .finish now :: after)).snapshot time
      activeHint).tasks) :
    (task.slotId, task.taskId) ≠ (slot, id) := by
  obtain ⟨here, found⟩ := mem_of_snapshot (consistent_run few mem) shown
  intro same
  obtain ⟨-, ordered, -⟩ := List.pairwise_append.mp timely.ordered
  obtain ⟨next, ordered⟩ := List.pairwise_cons.mp ordered
  have c := consistent_run few fun event m => mem event (List.mem_append_left _ m)
  have c' : Consistent all ((run before).log slot id .finish now).tasks :=
    c.log few (mem (.log slot id .finish now) (by simp))
  have gone := gone_of_finish.run c' few (fun event m => mem event (by simp [m])) le_rfl
    ⟨ordered, fun event m => timely.prompt event (by simp [m])⟩ next still
  rw [run_concat, same] at found
  exact absurd (gone.symm.trans found) (by simp)

/-- **Tasks are kept apart.** In every state that is reached a slot has one task at most; a
finished task is not shown until something revives it; a sample taken before a task was last
observed leaves it alone; a task observed in the last minute does not go from decoding to
prefilling, in a sample that lists no slot twice; and aggregates add up what is shown. -/
theorem tracker_keeps_apart {all : Finset Nat} (few : all.card < maxTasks)
    {events : List TrackerEvent} (timely : Timely events)
    (mem : ∀ event ∈ events, event.Within all) :
    let tracker := run events
    (∀ key ∈ tracker.tasks, ∀ key' ∈ tracker.tasks, key.1 = key'.1 → key = key') ∧
    (∀ before slot id finishedAt after, events = before ++ .log slot id .finish finishedAt :: after →
      (∀ event ∈ after, ¬Revives (slot, id) finishedAt event) →
      ∀ now activeHint, ∀ task ∈ (tracker.snapshot now activeHint).tasks,
        (task.slotId, task.taskId) ≠ (slot, id)) ∧
    (∀ sample sampledAt, (∀ slot ∈ sample, slot.slot ∈ all) →
      ∀ key task, tracker.tasks.lookup key = some task → sampledAt < task.observed →
        (tracker.slots sample sampledAt).tasks.lookup key = some task) ∧
    (∀ event : TrackerEvent, event.Within all → event.Once →
      ∀ key task after, tracker.tasks.lookup key = some task → task.phase = .decode →
        event.observedAt - task.observed ≤ keptMs →
        (step tracker event).tasks.lookup key = some after → after.phase ≠ .prefill) ∧
    ∀ now activeHint, let shot := tracker.snapshot now activeHint
      Aggregates (shot.tasks.map (·.prefill)) shot.prefill ∧
        Aggregates (shot.tasks.map (·.decode)) shot.decode := by
  intro tracker
  have c : Consistent all tracker.tasks := consistent_run few mem
  refine ⟨c.apart, ?_, ?_, ?_, snapshot_aggregates tracker⟩
  · rintro before slot id finishedAt after rfl still now activeHint task shown
    exact finished_stays few timely mem still shown
  · intro sample sampledAt mem key task here newer
    exact slots_newer c few mem here newer
  · intro event mem once key task after here decoding recent next
    exact step_no_prefill c few mem once here decoding recent next

/-- A request of one slot, from its first line to its last, and a sample of the slot that was
taken before and comes after. -/
def oneTask : List TrackerEvent :=
  [.log 0 7 .start 1000, .log 0 7 (.decode 20 40 none) 3000, .log 0 7 .finish 5000,
    .slots [⟨0, some 7, true, some 10, some 20, none⟩] 4000 6000]

theorem tracker_keeps_apart_oneTask :
    Aggregates (((run oneTask).snapshot 6000 none).tasks.map (·.decode))
      ((run oneTask).snapshot 6000 none).decode ∧
    ∀ task ∈ ((run oneTask).snapshot 6000 none).tasks, (task.slotId, task.taskId) ≠ (0, 7) := by
  have timely : Timely oneTask := ⟨by decide, by decide⟩
  have facts := @tracker_keeps_apart {0} (by decide) oneTask timely (by decide)
  exact ⟨(facts.2.2.2.2 6000 none).2,
    facts.2.1 [.log 0 7 .start 1000, .log 0 7 (.decode 20 40 none) 3000] 0 7 5000 _ rfl
      (by decide) 6000 none⟩

def decoding : TrackerEvent := .log 0 7 (.decode 20 40 none) 0

/-- The same slot twice: first with nothing to say, then prefilling. -/
def listedTwice : List SlotObservation :=
  [⟨0, some 7, true, none, none, none⟩, ⟨0, some 7, true, some 9, some 0, none⟩]

/-- A task that is heard of again after a minute is another one, and may prefill again; and a
slot that a sample lists twice may first lose its phase. -/
theorem tracker_prefills_again :
    ((run [decoding]).tasks.lookup (0, 7)).map (·.phase) = some .decode ∧
    ((run [decoding, .log 0 7 (.prefill 9 100 40 none) 60001]).tasks.lookup (0, 7)).map
      (·.phase) = some .prefill ∧
    ((run [decoding, .slots listedTwice 6000 6000]).tasks.lookup (0, 7)).map
      (·.phase) = some .prefill := by
  decide

end InferenceTracker

end LlamaServerManager.Monitoring
