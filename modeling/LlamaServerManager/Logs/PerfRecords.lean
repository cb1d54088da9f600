import LlamaServerManager.Logs.PerfLines
import Mathlib.Data.List.Induction
import Mathlib.Data.List.Nodup

/-!
What the lines of a server's log say of its tasks, and what one line does to the loop over reads.

* `life`, `finished` — each task by itself: what its own lines say of it, and what is to be
  recorded of all of them.
* `Orderly` — every task is launched and released once, and not too many are open at a time.
* `Steps` — one line.
-/

namespace LlamaServerManager.Logs.Perf

variable {F : Type} (floats : Floats F)

/-! ### Events -/

/-- What a line means for its task. -/
inductive Event (F : Type) where
  | launch (slotId : Nat)
  | change (change : TaskPerfState F → TaskPerfState F)
  | release (stopTokens : Option Nat)
  | other

/-- The task of a line and what the line means for it. -/
def Line.event (line : Line F) : Option (Nat × Event F) :=
  line.ids.map fun (slotId, taskId) => (taskId,
    if line.isLaunch then .launch slotId
    else
      match summarize floats line with
      | some change => .change change
      | none => if line.isRelease then .release line.stopTokens else .other)

def Seen.launches (seen : Seen F) : Option Nat :=
  match seen.line.event floats with
  | some (taskId, .launch _) => some taskId
  | _ => none

def Seen.releases (seen : Seen F) : Option Nat :=
  match seen.line.event floats with
  | some (taskId, .release _) => some taskId
  | _ => none

def TaskPerfState.stamp (task : TaskPerfState F) (now : Int) : TaskPerfState F :=
  { task with updatedAtMs := now }

/-- A task when it is released. -/
def TaskPerfState.complete (task : TaskPerfState F) (now : Int) (stopTokens : Option Nat) :
    TaskPerfState F :=
  { task.stamp now with inputTokens := stopTokens, completed := true }

/-! ### One task by itself -/

/-- What is known of a task that is open. -/
def lifeStep (taskId : Nat) (life : Option (TaskPerfState F)) (seen : Seen F) :
    Option (TaskPerfState F) :=
  match seen.line.event floats with
  | none => life
  | some (id, event) =>
    if id = taskId then
      match event with
      | .launch slotId => some (newTask floats slotId taskId seen.now)
      | .change change => life.map fun task => change (task.stamp seen.now)
      | .release _ => none
      | .other => life.map fun task => task.stamp seen.now
    else life

/-- A task after some lines: open, with the last values parsed for it, or not. -/
def life (taskId : Nat) (lines : List (Seen F)) : Option (TaskPerfState F) :=
  lines.foldl (lifeStep floats taskId) none

/-- What a line finishes. -/
def finishedBy (before : List (Seen F)) (seen : Seen F) : List (TaskPerfState F) :=
  match seen.line.event floats with
  | some (taskId, .release stopTokens) =>
    ((life floats taskId before).map fun task => task.complete seen.now stopTokens).toList
  | _ => []

/-- The finished tasks, each at its release. -/
def finishedFrom (before : List (Seen F)) : List (Seen F) → List (TaskPerfState F)
  | [] => []
  | seen :: lines => finishedBy floats before seen ++ finishedFrom (before ++ [seen]) lines

def finished (lines : List (Seen F)) : List (TaskPerfState F) := finishedFrom floats [] lines

/-- The tasks that are open. -/
def openTasks (lines : List (Seen F)) : List Nat :=
  (lines.filterMap (Seen.launches floats)).filter fun taskId => (life floats taskId lines).isSome

/-- Each task is launched at most once and released at most once. -/
structure Once (lines : List (Seen F)) : Prop where
  launches : (lines.filterMap (Seen.launches floats)).Nodup
  releases : (lines.filterMap (Seen.releases floats)).Nodup

/-- Logs of a server: besides, no more tasks are open at a time than are tracked. -/
structure Orderly (lines : List (Seen F)) : Prop extends Once floats lines where
  open_ : ∀ before, before <+: lines → (openTasks floats before).length ≤ maxTrackedPerfTasks

section Life

variable {floats} {lines before after : List (Seen F)} {seen : Seen F} {taskId : Nat}
  {task : TaskPerfState F}

theorem summarize_keeps {line : Line F} {change : TaskPerfState F → TaskPerfState F}
    (found : summarize floats line = some change) (task : TaskPerfState F) :
    (change task).taskId = task.taskId ∧ (change task).completed = task.completed := by
  unfold summarize at found
  repeat' split at found
  all_goals cases found
  all_goals exact ⟨rfl, rfl⟩

theorem summarize_of_event {id : Nat} {change : TaskPerfState F → TaskPerfState F}
    (event : seen.line.event floats = some (id, .change change)) :
    summarize floats seen.line = some change := by
  unfold Line.event at event
  obtain ⟨⟨slotId, taskId⟩, -, eq⟩ := Option.map_eq_some_iff.mp event
  obtain ⟨-, eq⟩ := Prod.mk.inj eq
  split at eq
  · cases eq
  · split at eq
    · rename_i change' found
      exact Event.change.inj eq ▸ found
    · split at eq <;> cases eq

theorem event_change {id : Nat} {change : TaskPerfState F → TaskPerfState F}
    (event : seen.line.event floats = some (id, .change change)) (task : TaskPerfState F) :
    (change task).taskId = task.taskId ∧ (change task).completed = task.completed :=
  summarize_keeps (summarize_of_event event) task

theorem life_append : life floats taskId (before ++ [seen]) =
    lifeStep floats taskId (life floats taskId before) seen := by
  simp [life]

theorem finishedFrom_append (first : List (Seen F)) :
    finishedFrom floats before (first ++ after) =
      finishedFrom floats before first ++ finishedFrom floats (before ++ first) after := by
  induction first generalizing before with
  | nil => simp [finishedFrom]
  | cons seen first ih =>
    simp only [List.cons_append, finishedFrom, ih, List.append_assoc, List.nil_append]

theorem finished_append : finished floats (before ++ [seen]) =
    finished floats before ++ finishedBy floats before seen := by
  simp [finished, finishedFrom_append, finishedFrom]

/-- A task that is open was launched by the last line, or open before it. -/
theorem life_append_cases (alive : life floats taskId (before ++ [seen]) = some task) :
    (seen.launches floats = some taskId ∧ ∃ slotId, task = newTask floats slotId taskId seen.now) ∨
      ∃ old, life floats taskId before = some old ∧ task.taskId = old.taskId ∧
        task.completed = old.completed := by
  rw [life_append] at alive
  unfold lifeStep at alive
  split at alive
  · exact .inr ⟨task, alive, rfl, rfl⟩
  · rename_i id event found
    split at alive
    · rename_i same
      subst same
      cases event with
      | launch slotId =>
        refine .inl ⟨?_, slotId, (Option.some.inj alive).symm⟩
        unfold Seen.launches
        rw [found]
      | change change =>
        obtain ⟨old, open_, rfl⟩ := Option.map_eq_some_iff.mp alive
        exact .inr ⟨old, open_, event_change found (old.stamp seen.now)⟩
      | release stopTokens => cases alive
      | other =>
        obtain ⟨old, open_, rfl⟩ := Option.map_eq_some_iff.mp alive
        exact .inr ⟨old, open_, rfl, rfl⟩
    · exact .inr ⟨task, alive, rfl, rfl⟩

/-- An open task has its id, and is not completed. -/
theorem life_spec (alive : life floats taskId lines = some task) :
    task.taskId = taskId ∧ task.completed = false := by
  induction lines using List.reverseRecOn generalizing task with
  | nil => cases alive
  | append_singleton lines seen ih =>
    obtain ⟨-, slotId, rfl⟩ | ⟨old, open_, id, completed⟩ := life_append_cases alive
    · exact ⟨rfl, rfl⟩
    · exact ⟨id.trans (ih open_).1, completed.trans (ih open_).2⟩

theorem mem_launches_of_life (alive : life floats taskId lines = some task) :
    taskId ∈ lines.filterMap (Seen.launches floats) := by
  induction lines using List.reverseRecOn generalizing task with
  | nil => cases alive
  | append_singleton lines seen ih =>
    rw [List.filterMap_append, List.mem_append]
    obtain ⟨launch, -⟩ | ⟨old, open_, -⟩ := life_append_cases alive
    · exact .inr (List.mem_filterMap.mpr ⟨seen, List.mem_singleton_self _, launch⟩)
    · exact .inl (ih open_)

end Life

/-! ### One line -/

/-- What a line does to the loop over reads, where it does not release what was recorded last. -/
inductive Steps (seen : Seen F) (tail : Tail F) : Tail F → Prop
  | launch {taskId slotId : Nat}
    (event : seen.line.event floats = some (taskId, .launch slotId)) :
    Steps seen tail { tail with
      known := { tail.known with
        tasks := insertTask (newTask floats slotId taskId seen.now)
          (makeRoom seen tail.known.tasks) }
      perfChanged := true }
  | absent
    (none_ : ∀ taskId event, seen.line.event floats = some (taskId, event) →
      (∀ slotId, event ≠ .launch slotId) ∧ ∀ task ∈ tail.known.tasks, task.taskId ≠ taskId) :
    Steps seen tail tail
  | change {task : TaskPerfState F} {change : TaskPerfState F → TaskPerfState F}
    (event : seen.line.event floats = some (task.taskId, .change change))
    (mem : task ∈ tail.known.tasks) :
    Steps seen tail { tail with
      known := { tail.known with
        tasks := setTask (change (task.stamp seen.now)) tail.known.tasks }
      perfChanged := true }
  | release {task : TaskPerfState F} {stopTokens : Option Nat}
    (event : seen.line.event floats = some (task.taskId, .release stopTokens))
    (mem : task ∈ tail.known.tasks) :
    Steps seen tail {
      known := ⟨setTask (task.complete seen.now stopTokens) tail.known.tasks,
        some (task.complete seen.now stopTokens)⟩
      lastRecordedTaskId := some task.taskId
      perfChanged := true
      recorded := tail.recorded ++ [task.complete seen.now stopTokens] }
  | other {task : TaskPerfState F}
    (event : seen.line.event floats = some (task.taskId, .other))
    (mem : task ∈ tail.known.tasks) :
    Steps seen tail { tail with
      known := { tail.known with tasks := setTask (task.stamp seen.now) tail.known.tasks } }

section Lines

variable {floats} {seen : Seen F} {tail : Tail F}

theorem recordCompleted_same {lastCompleted : Option (TaskPerfState F)}
    {recorded : List (TaskPerfState F)} :
    recordCompleted lastCompleted (lastCompleted.map (·.taskId)) recorded =
      (lastCompleted.map (·.taskId), recorded) := by
  unfold recordCompleted
  cases lastCompleted with
  | none => rfl
  | some task => exact if_pos rfl

theorem Line.event_of_ids {line : Line F} {slotId taskId : Nat}
    (ids : line.ids = some (slotId, taskId)) :
    line.event floats = some (taskId,
      if line.isLaunch then .launch slotId
      else
        match summarize floats line with
        | some change => .change change
        | none => if line.isRelease then .release line.stopTokens else .other) := by
  unfold Line.event
  rw [ids]
  rfl

/-- **One line.** -/
theorem tailLine_steps
    (last : tail.lastRecordedTaskId = tail.known.lastCompleted.map (·.taskId))
    (fresh : ∀ taskId, seen.releases floats = some taskId → tail.lastRecordedTaskId ≠ some taskId) :
    Steps floats seen tail (tailLine floats tail seen) := by
  unfold tailLine parsePerfLine
  cases ids : seen.line.ids with
  | none =>
    refine .absent fun taskId event found => ?_
    unfold Line.event at found
    rw [ids] at found
    cases found
  | some pair =>
    obtain ⟨slotId, taskId⟩ := pair
    have event := @Line.event_of_ids _ floats _ _ _ ids
    by_cases launch : seen.line.isLaunch = true
    · simp only [launch, if_true] at event ⊢
      rw [last, recordCompleted_same]
      have step : Steps floats seen tail _ := Steps.launch event
      rwa [← last]
    · simp only [launch, if_false, Bool.false_eq_true] at event ⊢
      cases found : tail.known.tasks.find? fun task => task.taskId = taskId with
      | none =>
        refine .absent fun taskId' event' found' => ?_
        rw [event] at found'
        obtain ⟨rfl, rfl⟩ := Prod.mk.inj (Option.some.inj found')
        rw [List.find?_eq_none] at found
        constructor
        · intro slotId
          split
          · simp
          · split <;> simp
        · intro task mem same
          exact found task mem (by simpa using same)
      | some task =>
        have mem := List.mem_of_find?_eq_some found
        obtain rfl : task.taskId = taskId := by simpa using List.find?_some found
        dsimp only
        cases change : summarize floats seen.line with
        | some change =>
          rw [change] at event
          simp only [if_true]
          rw [last, recordCompleted_same, ← last]
          exact Steps.change event mem
        | none =>
          rw [change] at event
          by_cases release : seen.line.isRelease = true
          · simp only [release, if_true] at event ⊢
            have differs : tail.lastRecordedTaskId ≠ some task.taskId :=
              fresh task.taskId (by rw [Seen.releases, event])
            simp only [recordCompleted, differs, if_false]
            exact Steps.release event mem
          · simp only [release, if_false, Bool.false_eq_true] at event ⊢
            exact Steps.other event mem

end Lines

end LlamaServerManager.Logs.Perf
