import LlamaServerManager.Logs.PerfFinished
import Mathlib.Data.List.Perm.Subperm

/-!
Which tasks the two loops over a server's log record.

* `tracker_reads` — the loop over lines is the loop over reads of one line each.
* `tracker_recorded` — the loop over lines records the finished tasks.
* `file_recorded_iff` — when the loop over reads does.
* `recorded_iff` — both loops record the finished tasks, unless the loop over reads drops an open
  task to make room for another.
-/

namespace LlamaServerManager.Logs.Perf

variable {F : Type} {floats : Floats F}

/-! ### Lines one by one -/

section Tracker

variable {before watched : List (Seen F)} {seen : Seen F} {tail : Tail F}
  {tracker : RuntimePerfTracker F}

/-- What the two loops have in common. -/
structure Agrees (tracker : RuntimePerfTracker F) (tail : Tail F) : Prop where
  running : tracker.finished = false
  known : tracker.known = tail.known
  last : tracker.lastRecordedTaskId = tail.lastRecordedTaskId
  recorded : tracker.recorded = tail.recorded

theorem Agrees.line (agrees : Agrees tracker tail) (seen : Seen F) :
    Agrees (processLine floats tracker seen) (tailBatch floats tail [seen]) := by
  obtain ⟨running, known, last, recorded⟩ := agrees
  simp only [processLine, tailBatch, tailLine, List.foldl_cons, List.foldl_nil, running, known,
    last, recorded]
  cases changed : (parsePerfLine floats seen tail.known).1 with
  | false => exact ⟨rfl, rfl, rfl, rfl⟩
  | true => exact ⟨rfl, rfl, rfl, rfl⟩

/-- The loop over lines is the loop over reads of one line each. -/
theorem tracker_reads (watched : List (Seen F)) :
    Agrees (watched.foldl (processLine floats) .new)
      ((watched.map fun seen => [seen]).foldl (tailBatch floats) .start) := by
  induction watched using List.reverseRecOn with
  | nil => exact ⟨rfl, rfl, rfl, rfl⟩
  | append_singleton watched seen ih => simpa using ih.line seen

theorem Steps.stays_open {tail' : Tail F} (step : Steps floats seen tail tail')
    (unchanged : tail'.perfChanged = false)
    (open_ : ∀ task ∈ tail.known.tasks, task.completed = false) :
    ∀ task ∈ tail'.known.tasks, task.completed = false := by
  cases step with
  | launch | change | release => cases unchanged
  | absent none_ => exact open_
  | @other old event mem =>
    intro task taskMem
    obtain rfl | ⟨taskMem, -⟩ := mem_setTask taskMem
    · exact open_ old mem
    · exact open_ task taskMem

/-- Between reads of one line each, the table holds no completed task. -/
theorem open_line (tracks : Tracks floats before tail)
    (once : ((before ++ [seen]).filterMap (Seen.releases floats)).Nodup)
    (open_ : ∀ task ∈ tail.known.tasks, task.completed = false) :
    ∀ task ∈ (tailBatch floats tail [seen]).known.tasks, task.completed = false := by
  have step := (tracks.perfChanged false).step_line once
  unfold tailBatch
  dsimp only [List.foldl_cons, List.foldl_nil]
  split
  · intro task mem
    simpa using (List.mem_filter.mp mem).2
  · rename_i unchanged
    exact step.stays_open (Bool.eq_false_iff.mpr unchanged) open_

/-- Where no task is completed there is room for another. -/
theorem room_of_open (tracks : Tracks floats before tail)
    (once : Once floats (before ++ [seen])) (launches : (seen.launches floats).isSome)
    (open_ : ∀ task ∈ tail.known.tasks, task.completed = false)
    (bound : (openTasks floats (before ++ [seen])).length ≤ maxTrackedPerfTasks) :
    tail.known.tasks.length < maxTrackedPerfTasks := by
  obtain ⟨taskId, launches⟩ := Option.isSome_iff_exists.mp launches
  obtain ⟨slotId, event⟩ := Seen.event_of_launches launches
  have fresh := notMem_of_once once.launches launches
  have distinct : (taskId :: tail.known.tasks.map (·.taskId)).Nodup := by
    refine List.nodup_cons.mpr ⟨fun mem => ?_, tracks.ids⟩
    obtain ⟨task, taskMem, rfl⟩ := List.mem_map.mp mem
    exact fresh (tracks.launched task taskMem)
  have inside : taskId :: tail.known.tasks.map (·.taskId) ⊆
      openTasks floats (before ++ [seen]) := by
    intro id mem
    unfold openTasks
    rw [List.mem_filter, List.filterMap_append, List.mem_append]
    rcases List.mem_cons.mp mem with rfl | mem
    · refine ⟨.inr (by simp [launches]), ?_⟩
      rw [life_append, lifeStep, event]
      simp
    · obtain ⟨task, taskMem, rfl⟩ := List.mem_map.mp mem
      have launched := tracks.launched task taskMem
      refine ⟨.inl launched, ?_⟩
      have alive := tracks.life_ task taskMem
      rw [if_neg (by simp [open_ task taskMem])] at alive
      rw [life_other, alive]
      · rfl
      · rintro id event' found rfl
        rw [event] at found
        obtain ⟨rfl, -⟩ := Prod.mk.inj (Option.some.inj found)
        exact fresh launched
  have length := (List.subperm_of_subset distinct inside).length_le
  simp only [List.length_cons, List.length_map] at length
  omega

theorem Tracks.start : Tracks floats [] Tail.start := by
  refine ⟨List.nodup_nil, ?_, ?_, ?_, ?_, rfl, ?_⟩
  · intro task mem
    cases mem
  · intro task mem
    cases mem
  · intro task mem
    cases mem
  · intro taskId mem
    cases mem
  · intro taskId same
    cases same

theorem Whole.start (rest : List (Seen F)) : Whole floats [] rest Tail.start := by
  constructor
  · rfl
  · intro taskId task alive
    cases alive

/-- The loop over lines never drops an open task. -/
theorem spares_watched (orderly : Orderly floats watched) :
    SparesReads floats .start (watched.map fun seen => [seen]) := by
  suffices ∀ rest before tail, before ++ rest = watched → Tracks floats before tail →
      (∀ task ∈ tail.known.tasks, task.completed = false) →
      SparesReads floats tail (rest.map fun seen => [seen]) from
    this watched [] .start rfl Tracks.start fun task mem => by cases mem
  intro rest
  induction rest with
  | nil => exact fun _ _ _ _ _ => trivial
  | cons seen rest ih =>
    intro before tail split tracks open_
    have cut : before ++ [seen] ++ rest = watched := by simpa using split
    have once : Once floats (before ++ [seen]) := Once.left (cut ▸ orderly.toOnce)
    refine ⟨⟨fun launches full => ?_, trivial⟩, ih _ _ cut (tracks.read once.releases) ?_⟩
    · have room := room_of_open tracks once launches open_ (orderly.open_ _ ⟨rest, cut⟩)
      exact absurd full (Nat.not_le.mpr room)
    · exact open_line tracks once.releases open_

/-- **The loop over lines** records the finished tasks. -/
theorem tracker_recorded (orderly : Orderly floats watched) :
    (watched.foldl (processLine floats) .new).recorded = finished floats watched := by
  have flat : (watched.map fun seen => [seen]).flatten = watched := by
    rw [← List.flatMap_def, List.flatMap_singleton']
  have whole := (Whole.start _).reads Tracks.start
    (by rw [flat]; exact orderly.releases) (spares_watched orderly)
  rw [(tracker_reads watched).recorded, whole.recorded, flat]
  rfl

end Tracker

/-! ### The reads of a file -/

/-- The lines that are there, the reads, and what is left of a last line. -/
def fileReads (replay : List (Seen F)) (batches : List (List (Seen F)))
    (pending : Option (Seen F)) : List (List (Seen F)) :=
  replay :: batches ++ (pending.map fun seen => [seen]).toList

section File

variable {replay : List (Seen F)} {batches : List (List (Seen F))} {pending : Option (Seen F)}

theorem fileReads_flatten :
    (fileReads replay batches pending).flatten = replay ++ batches.flatten ++ pending.toList := by
  cases pending <;> simp [fileReads]

/-- A table is empty until a line has changed something. -/
theorem tailLine_unchanged {tail : Tail F}
    (empty : tail.perfChanged = true ∨ tail.known.tasks = []) (seen : Seen F) :
    (tailLine floats tail seen).perfChanged = true ∨
      (tailLine floats tail seen).known.tasks = [] := by
  unfold tailLine
  cases changed : (parsePerfLine floats seen tail.known).1 with
  | true => exact .inl (by simp [changed])
  | false =>
    rcases empty with already | empty
    · exact .inl (by simp [changed, already])
    · refine .inr ?_
      unfold parsePerfLine at changed ⊢
      rw [empty] at changed ⊢
      split at changed
      · simpa using empty
      · split at changed
        · cases changed
        · simp_all

/-- The lines that are there are a read like the others. -/
theorem tailReplay_start : tailReplay floats .start replay = tailBatch floats .start replay := by
  have empty : (replay.foldl (tailLine floats) .start).perfChanged = true ∨
      (replay.foldl (tailLine floats) .start).known.tasks = [] :=
    @lines_keep _ floats (fun _ tail => tail.perfChanged = true ∨ tail.known.tasks = [])
      (fun _ seen _ empty => tailLine_unchanged empty seen) [] _ (.inr rfl) replay
  have same : { (Tail.start : Tail F) with perfChanged := false } = .start := rfl
  unfold tailReplay tailBatch
  rw [same]
  dsimp only
  split
  · rfl
  · rename_i unchanged
    generalize replay.foldl (tailLine floats) .start = tail at empty unchanged
    obtain ⟨⟨tasks, lastCompleted⟩, last, changed, recorded⟩ := tail
    obtain rfl : tasks = [] := empty.resolve_left unchanged
    rfl

theorem tailLogFile_eq : tailLogFile floats replay batches pending =
    (fileReads replay batches pending).foldl (tailBatch floats) .start := by
  unfold tailLogFile fileReads
  cases pending <;> simp [tailReplay_start]

theorem file_recorded_iff
    (once : Once floats (replay ++ batches.flatten ++ pending.toList)) :
    (tailLogFile floats replay batches pending).recorded =
        finished floats (replay ++ batches.flatten ++ pending.toList) ↔
      SparesReads floats .start (fileReads replay batches pending) := by
  rw [← fileReads_flatten] at once ⊢
  rw [tailLogFile_eq]
  constructor
  · exact fun recorded => sparesReads_of Tracks.start once recorded
  · exact fun spares => ((Whole.start _).reads Tracks.start once.releases spares).recorded

end File

/-! ### Both loops -/

variable (floats) in
/-- The finished tasks, each once; the lines of a task that was not launched, or is released
already, might as well be missing. -/
structure Records (lines : List (Seen F)) (recorded : List (TaskPerfState F)) : Prop where
  /-- Each at its release, with the last values parsed for it before. -/
  finished : recorded = finished floats lines
  once : (recorded.map (·.taskId)).Nodup
  launched : ∀ taskId, taskId ∈ recorded.map (·.taskId) ↔
    ∃ first launch between release last, lines = first ++ launch :: between ++ release :: last ∧
      launch.launches floats = some taskId ∧ release.releases floats = some taskId
  stale : ∀ before seen after taskId event, lines = before ++ seen :: after →
    seen.line.event floats = some (taskId, event) → (∀ slotId, event ≠ .launch slotId) →
    life floats taskId before = none → Perf.finished floats (before ++ after) = recorded

theorem records_of {lines : List (Seen F)} {recorded : List (TaskPerfState F)}
    (once : Once floats lines) (eq : recorded = finished floats lines) :
    Records floats lines recorded := by
  subst eq
  refine ⟨rfl, once.releases.sublist finishedFrom_ids, fun taskId => mem_finished, ?_⟩
  rintro before seen after taskId event rfl found launch closed
  exact finished_stale found launch closed

/-- **Both loops record the finished tasks**, whatever the clock shows each of them and however
the lines are cut into reads, where and only where no launch in a read drops an open task that is
released later. -/
theorem recorded_iff (floats : Floats F) (watched replay : List (Seen F))
    (batches : List (List (Seen F))) (pending : Option (Seen F))
    (orderly : Orderly floats (replay ++ batches.flatten ++ pending.toList))
    (same : watched.map (·.line) =
      (replay ++ batches.flatten ++ pending.toList).map (·.line)) :
    (Records floats watched (watched.foldl (processLine floats) .new).recorded ∧
        Records floats (replay ++ batches.flatten ++ pending.toList)
          (tailLogFile floats replay batches pending).recorded ∧
        (watched.foldl (processLine floats) .new).recorded.map (·.unstamped) =
          (tailLogFile floats replay batches pending).recorded.map (·.unstamped)) ↔
      SparesReads floats .start (fileReads replay batches pending) := by
  have lines : List.Forall₂ SameLine watched (replay ++ batches.flatten ++ pending.toList) := by
    rw [← List.forall₂_eq_eq_eq, List.forall₂_map_left_iff, List.forall₂_map_right_iff] at same
    exact same
  have alike := orderly.sameLine lines
  rw [← file_recorded_iff orderly.toOnce]
  constructor
  · exact fun ⟨_, records, _⟩ => records.finished
  · intro recorded
    refine ⟨records_of alike.toOnce (tracker_recorded alike),
      records_of orderly.toOnce recorded, ?_⟩
    rw [tracker_recorded alike, recorded]
    exact finishedFrom_unstamped lines .nil

/-! ### Logs -/

theorem openTasks_le {lines : List (Seen F)} :
    (openTasks floats lines).length ≤ (lines.filterMap (Seen.launches floats)).length :=
  List.length_filter_le _ _

/-- A line of a launch or of a release, and nothing else. -/
def bareLine (taskId : Nat) (isLaunch : Bool) : Line Nat where
  ids := some (0, taskId)
  isLaunch
  isRelease := !isLaunch
  generation := none
  tg3s := none
  promptProgress := none
  prompt := none
  eval := none
  total := none
  draft := none
  stats := none
  stopTokens := none

def bareFloats : Floats Nat := ⟨0, (1000 * ·)⟩

def launchSeen (taskId : Nat) (now : Int) : Seen Nat :=
  ⟨bareLine taskId true, now, id, fun _ => List.Perm.refl _⟩

def releaseSeen (taskId : Nat) (now : Int) : Seen Nat :=
  ⟨bareLine taskId false, now, id, fun _ => List.Perm.refl _⟩

def generationSeen (taskId nDecoded tg : Nat) (now : Int) : Seen Nat :=
  ⟨{ bareLine taskId false with isRelease := false, generation := some (some nDecoded, some tg) },
    now, id, fun _ => List.Perm.refl _⟩

theorem two_tasks_recorded :
    let watched := [launchSeen 1 0, generationSeen 1 7 30 1, launchSeen 2 2, releaseSeen 1 3,
      releaseSeen 2 4]
    let batches := [[generationSeen 1 7 30 6, launchSeen 2 6], [releaseSeen 1 8]]
    (Records bareFloats watched (watched.foldl (processLine bareFloats) .new).recorded ∧
      Records bareFloats ([launchSeen 1 5] ++ batches.flatten ++ [releaseSeen 2 9])
        (tailLogFile bareFloats [launchSeen 1 5] batches (some (releaseSeen 2 9))).recorded ∧
      (watched.foldl (processLine bareFloats) .new).recorded.map (·.unstamped) =
        (tailLogFile bareFloats [launchSeen 1 5] batches
          (some (releaseSeen 2 9))).recorded.map (·.unstamped)) := by
  intro watched batches
  refine (recorded_iff bareFloats watched [launchSeen 1 5] batches (some (releaseSeen 2 9))
    ⟨⟨by decide, by decide⟩, fun before inside => ?_⟩ rfl).mpr ?_
  · have short := inside.length_le
    have launches := (List.length_filterMap_le (Seen.launches bareFloats) before)
    have few : maxTrackedPerfTasks = 1024 := rfl
    have open_ := @openTasks_le _ bareFloats before
    simp [batches] at short
    omega
  · refine ⟨⟨?_, trivial⟩, ⟨?_, ?_, trivial⟩, ⟨?_, trivial⟩, ⟨?_, trivial⟩, trivial⟩
    all_goals exact fun _ full => absurd full (by decide)

/-! ### A busy read -/

def taskLines (taskId : Nat) : List (Seen Nat) := [launchSeen taskId 1, releaseSeen taskId 1]

/-- Task 0 is open while others come and go, and then task 1 is launched. -/
def busyRead (ids : List Nat) : List (Seen Nat) :=
  launchSeen 0 0 :: ids.flatMap taskLines ++ [launchSeen 1 1, releaseSeen 0 1]

def doneTask (taskId : Nat) : TaskPerfState Nat :=
  (newTask bareFloats 0 taskId 1).complete 1 none

theorem tailLine_known (tail : Tail F) (seen : Seen F) :
    (tailLine floats tail seen).known = (parsePerfLine floats seen tail.known).2 := by
  unfold tailLine
  dsimp only
  split <;> rfl

theorem launch_known {known : Parsed Nat} {taskId : Nat} {now : Int}
    (fresh : ∀ task ∈ known.tasks, task.taskId ≠ taskId)
    (room : known.tasks.length < maxTrackedPerfTasks) :
    (parsePerfLine bareFloats (launchSeen taskId now) known).2.tasks =
      known.tasks ++ [newTask bareFloats 0 taskId now] := by
  have parsed : (parsePerfLine bareFloats (launchSeen taskId now) known).2.tasks =
      insertTask (newTask bareFloats 0 taskId now)
        (makeRoom (launchSeen taskId now) known.tasks) := rfl
  rw [parsed, makeRoom, if_neg (Nat.not_le.mpr room), insertTask, List.filter_eq_self.mpr]
  intro task mem
  exact decide_eq_true (fresh task mem)

theorem release_known {known : Parsed Nat} {tasks : List (TaskPerfState Nat)} {taskId : Nat}
    {now : Int} (last : known.tasks = tasks ++ [newTask bareFloats 0 taskId now])
    (fresh : ∀ task ∈ tasks, task.taskId ≠ taskId) :
    (parsePerfLine bareFloats (releaseSeen taskId now) known).2.tasks =
      tasks ++ [(newTask bareFloats 0 taskId now).complete now none] := by
  have found : known.tasks.find? (fun task => task.taskId = taskId) =
      some (newTask bareFloats 0 taskId now) := by
    rw [last, List.find?_append, List.find?_eq_none.mpr]
    · simp [newTask]
    · intro task mem
      simpa using fresh task mem
  have parsed : (parsePerfLine bareFloats (releaseSeen taskId now) known).2.tasks =
      setTask ((newTask bareFloats 0 taskId now).complete now none) known.tasks := by
    unfold parsePerfLine
    simp only [releaseSeen, bareLine, Bool.false_eq_true, if_false, found]
    rfl
  rw [parsed, last, setTask, List.map_append]
  congr 1
  · refine (List.map_congr_left fun task mem => ?_).trans (List.map_id tasks)
    exact if_neg (fresh task mem)
  · exact congrArg (fun task => [task]) (if_pos rfl)

theorem taskLines_known {tail : Tail Nat} {ids : List Nat} {taskId : Nat}
    (tasks : tail.known.tasks = newTask bareFloats 0 0 0 :: ids.map doneTask)
    (fresh : taskId ∉ 0 :: ids) (room : ids.length + 1 < maxTrackedPerfTasks) :
    ((taskLines taskId).foldl (tailLine bareFloats) tail).known.tasks =
      newTask bareFloats 0 0 0 :: (ids ++ [taskId]).map doneTask := by
  have others : ∀ task ∈ tail.known.tasks, task.taskId ≠ taskId := by
    rw [tasks]
    rintro task mem rfl
    rcases List.mem_cons.mp mem with rfl | mem
    · exact fresh List.mem_cons_self
    · obtain ⟨id, idMem, rfl⟩ := List.mem_map.mp mem
      exact fresh (List.mem_cons_of_mem 0 idMem)
  have launched := @launch_known tail.known taskId 1 others (by simpa [tasks] using room)
  have released := release_known launched others
  simp only [taskLines, List.foldl_cons, List.foldl_nil, tailLine_known]
  rw [released, tasks, List.map_append]
  rfl

theorem busy_known {ids : List Nat} (distinct : (0 :: ids).Nodup)
    (room : ids.length < maxTrackedPerfTasks) :
    ((ids.flatMap taskLines).foldl (tailLine bareFloats)
        (tailLine bareFloats .start (launchSeen 0 0))).known.tasks =
      newTask bareFloats 0 0 0 :: ids.map doneTask := by
  induction ids using List.reverseRecOn with
  | nil => rfl
  | append_singleton ids taskId ih =>
    rw [List.length_append, List.length_singleton] at room
    rw [← List.cons_append, List.nodup_append] at distinct
    rw [List.flatMap_append, List.foldl_append, List.flatMap_singleton]
    refine taskLines_known (ih distinct.1 (by omega)) (fun mem => ?_) room
    exact distinct.2.2 taskId mem taskId (List.mem_singleton_self _) rfl

theorem SparesLines.drop {tail : Tail F} {first last later : List (Seen F)}
    (spares : SparesLines floats tail (first ++ last) later) :
    SparesLines floats (first.foldl (tailLine floats) tail) last later := by
  induction first generalizing tail with
  | nil => exact spares
  | cons seen first ih => exact ih spares.2

/-- Task 0 is dropped for task 1. -/
theorem busyRead_drops {ids : List Nat} (distinct : (0 :: ids).Nodup)
    (full : maxTrackedPerfTasks = ids.length + 1) :
    ¬SparesReads bareFloats .start [[], busyRead ids] := by
  intro spares
  have known := busy_known distinct (by omega)
  have lines : SparesLines bareFloats .start (busyRead ids) [] := spares.2.1
  have last := (SparesLines.drop lines).1
  rw [List.foldl_cons] at last
  generalize List.foldl _ _ _ = tail at known last
  have inside : newTask bareFloats 0 0 0 ∈ tail.known.tasks := known ▸ List.mem_cons_self
  obtain ⟨oldest, found⟩ : ∃ oldest, oldestTask (launchSeen 1 1) tail.known.tasks = some oldest :=
    Option.isSome_iff_exists.mp (List.isSome_minOn?_of_mem inside)
  have first : oldest = newTask bareFloats 0 0 0 := by
    have mem := oldestTask_mem found
    rw [known] at mem
    rcases List.mem_cons.mp mem with first | mem
    · exact first
    · obtain ⟨id, -, rfl⟩ := List.mem_map.mp mem
      have least : (1 : Int) ≤ 0 := oldestTask_le found inside
      omega
  subst first
  exact last rfl (by simp [known, full]) _ found rfl (by decide)

/-- A task that is open was open before, or launched since. -/
theorem open_or_launched {before after : List (Seen F)} {taskId : Nat} {task : TaskPerfState F}
    (alive : life floats taskId (before ++ after) = some task) :
    (∃ old, life floats taskId before = some old) ∨
      taskId ∈ after.filterMap (Seen.launches floats) := by
  induction after using List.reverseRecOn generalizing task with
  | nil => exact .inl ⟨task, by simpa using alive⟩
  | append_singleton after seen ih =>
    rw [← List.append_assoc] at alive
    rw [List.filterMap_append, List.mem_append]
    obtain ⟨launches, -⟩ | ⟨old, open_, -⟩ := life_append_cases alive
    · exact .inr (.inr (List.mem_filterMap.mpr ⟨seen, List.mem_singleton_self _, launches⟩))
    · rcases ih open_ with open_ | launched
      · exact .inl open_
      · exact .inr (.inl launched)

theorem openTasks_append_le {before after : List (Seen F)}
    (once : ((before ++ after).filterMap (Seen.launches floats)).Nodup) :
    (openTasks floats (before ++ after)).length ≤
      (openTasks floats before).length + (after.filterMap (Seen.launches floats)).length := by
  have inside : openTasks floats (before ++ after) ⊆
      openTasks floats before ++ after.filterMap (Seen.launches floats) := by
    intro taskId mem
    obtain ⟨launched, alive⟩ := List.mem_filter.mp mem
    obtain ⟨task, alive⟩ := Option.isSome_iff_exists.mp alive
    rcases open_or_launched alive with ⟨old, open_⟩ | launched
    · refine List.mem_append_left _ (List.mem_filter.mpr ⟨mem_launches_of_life open_, ?_⟩)
      simp [open_]
    · exact List.mem_append_right _ launched
  have length := (List.subperm_of_subset (once.sublist List.filter_sublist) inside).length_le
  rwa [List.length_append] at length

theorem taskLines_launches (ids : List Nat) :
    (ids.flatMap taskLines).filterMap (Seen.launches bareFloats) = ids := by
  induction ids with
  | nil => rfl
  | cons taskId ids ih => exact congrArg (taskId :: ·) ih

theorem taskLines_releases (ids : List Nat) :
    (ids.flatMap taskLines).filterMap (Seen.releases bareFloats) = ids := by
  induction ids with
  | nil => rfl
  | cons taskId ids ih => exact congrArg (taskId :: ·) ih

theorem busyRead_launches (ids : List Nat) :
    (busyRead ids).filterMap (Seen.launches bareFloats) = 0 :: ids ++ [1] := by
  rw [busyRead, List.filterMap_append]
  exact congrArg (0 :: · ++ [1]) (taskLines_launches ids)

theorem busyRead_releases (ids : List Nat) :
    (busyRead ids).filterMap (Seen.releases bareFloats) = ids ++ [0] := by
  rw [busyRead, List.filterMap_append]
  exact congrArg (· ++ [0]) (taskLines_releases ids)

theorem busyRead_orderly {taskId : Nat} {ids : List Nat}
    (distinct : (0 :: 1 :: taskId :: ids).Nodup)
    (few : ids.length + 2 ≤ maxTrackedPerfTasks) :
    Orderly bareFloats (busyRead (taskId :: ids)) := by
  have launches : ((busyRead (taskId :: ids)).filterMap (Seen.launches bareFloats)).Nodup := by
    rw [busyRead_launches]
    refine (List.Perm.nodup_iff ?_).mp distinct
    exact .cons 0 (List.perm_append_singleton 1 (taskId :: ids)).symm
  have releases : ((busyRead (taskId :: ids)).filterMap (Seen.releases bareFloats)).Nodup := by
    rw [busyRead_releases]
    refine (List.Perm.nodup_iff (List.perm_append_singleton 0 (taskId :: ids))).mpr ?_
    exact distinct.sublist (.cons_cons 0 (List.sublist_cons_self 1 _))
  refine ⟨⟨launches, releases⟩, fun before inside => ?_⟩
  -- Once task `taskId` is released, it makes room for task 1.
  have start : [launchSeen 0 0] ++ taskLines taskId <+: busyRead (taskId :: ids) :=
    ⟨ids.flatMap taskLines ++ [launchSeen 1 1, releaseSeen 0 1], by simp [busyRead]⟩
  have opened : (openTasks bareFloats ([launchSeen 0 0] ++ taskLines taskId)).length ≤ 1 := by
    have launched : ([launchSeen 0 0] ++ taskLines taskId).filterMap (Seen.launches bareFloats) =
      [0, taskId] := rfl
    have closed : life bareFloats taskId ([launchSeen 0 0] ++ taskLines taskId) = none :=
      if_pos rfl
    rw [openTasks, launched, List.filter_cons, List.filter_cons, closed]
    split <;> simp
  rcases List.prefix_or_prefix_of_prefix inside start with inside | ⟨after, rfl⟩
  · have open_ := @openTasks_le _ bareFloats before
    have lines := List.length_filterMap_le (Seen.launches bareFloats) before
    have short := inside.length_le
    have bound : maxTrackedPerfTasks = 1024 := rfl
    simp only [taskLines, List.length_append, List.length_cons, List.length_nil] at short
    omega
  · have launched := inside.sublist.filterMap (Seen.launches bareFloats)
    have length := launched.length_le
    rw [busyRead_launches, List.filterMap_append, List.length_append] at length
    have prior : (([launchSeen 0 0] ++ taskLines taskId).filterMap
      (Seen.launches bareFloats)).length = 2 := rfl
    have open_ := openTasks_append_le (launches.sublist launched)
    simp only [List.length_append, List.length_cons, List.length_nil] at length
    omega

theorem busyRead_not_recorded :
    let ids := List.range' 2 1023
    Orderly bareFloats (busyRead ids) ∧
      ¬(Records bareFloats (busyRead ids)
            ((busyRead ids).foldl (processLine bareFloats) .new).recorded ∧
          Records bareFloats (busyRead ids)
            (tailLogFile bareFloats [] [busyRead ids] none).recorded ∧
          ((busyRead ids).foldl (processLine bareFloats) .new).recorded.map (·.unstamped) =
            (tailLogFile bareFloats [] [busyRead ids] none).recorded.map (·.unstamped)) := by
  intro ids
  have cons : ids = 2 :: List.range' 3 1022 := rfl
  have distinct : (0 :: 1 :: ids).Nodup := by
    refine List.nodup_cons.mpr ⟨by simp [ids], List.nodup_cons.mpr ⟨by simp [ids], ?_⟩⟩
    exact List.nodup_range'
  have orderly : Orderly bareFloats (busyRead ids) := by
    rw [cons] at distinct ⊢
    exact busyRead_orderly distinct (by simp [maxTrackedPerfTasks])
  refine ⟨orderly, fun ⟨_, records, _⟩ => ?_⟩
  refine busyRead_drops (distinct.sublist (.cons_cons 0 (List.sublist_cons_self 1 ids)))
    (by simp [ids, maxTrackedPerfTasks]) ?_
  have same : [] ++ [busyRead ids].flatten ++ (none : Option (Seen Nat)).toList = busyRead ids := by
    simp
  exact file_recorded_iff (same.symm ▸ orderly.toOnce) |>.mp (same.symm ▸ records.finished)

end LlamaServerManager.Logs.Perf
