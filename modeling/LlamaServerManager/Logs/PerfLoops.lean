import LlamaServerManager.Logs.PerfRecords

/-!
The loop over reads against the tasks that its lines finish, line by line.

* `Tracks` — what the loop knows after some lines.
* `SparesReads` — no launch drops an open task that is still to be released.
* `Whole` — every task that is finished is recorded, and the others are known.
-/

namespace LlamaServerManager.Logs.Perf

variable {F : Type} (floats : Floats F)

/-! ### What is known -/

/-- The table of a loop and what it has recorded, after some lines. -/
structure Tracks (before : List (Seen F)) (tail : Tail F) : Prop where
  ids : (tail.known.tasks.map (·.taskId)).Nodup
  /-- An entry that is not completed is what the lines of its task say. -/
  life_ : ∀ task ∈ tail.known.tasks,
    life floats task.taskId before = if task.completed then none else some task
  launched : ∀ task ∈ tail.known.tasks, task.taskId ∈ before.filterMap (Seen.launches floats)
  completed : ∀ task ∈ tail.known.tasks, task.completed = true →
    task.taskId ∈ tail.recorded.map (·.taskId)
  released : ∀ taskId ∈ tail.recorded.map (·.taskId),
    taskId ∈ before.filterMap (Seen.releases floats)
  last : tail.lastRecordedTaskId = tail.known.lastCompleted.map (·.taskId)
  recorded : ∀ taskId, tail.lastRecordedTaskId = some taskId →
    taskId ∈ tail.recorded.map (·.taskId)

section Tables

variable {tasks : List (TaskPerfState F)} {task other : TaskPerfState F} {seen : Seen F}

theorem mem_setTask (mem : other ∈ setTask task tasks) :
    other = task ∨ other ∈ tasks ∧ other.taskId ≠ task.taskId := by
  obtain ⟨old, mem, eq⟩ := List.mem_map.mp mem
  split at eq
  · exact .inl eq.symm
  · rename_i differs
    exact .inr ⟨eq ▸ mem, eq ▸ differs⟩

variable (task) in
theorem mem_setTask_of_mem (mem : other ∈ tasks) :
    other ∈ setTask task tasks ∨ other.taskId = task.taskId ∧ task ∈ setTask task tasks := by
  by_cases same : other.taskId = task.taskId
  · exact .inr ⟨same, List.mem_map.mpr ⟨other, mem, if_pos same⟩⟩
  · exact .inl (List.mem_map.mpr ⟨other, mem, if_neg same⟩)

@[simp] theorem setTask_ids :
    (setTask task tasks).map (·.taskId) = tasks.map (·.taskId) := by
  unfold setTask
  rw [List.map_map]
  refine List.map_congr_left fun old _ => ?_
  simp only [Function.comp_apply]
  split
  · rename_i same
    exact same.symm
  · rfl

theorem mem_insertTask :
    other ∈ insertTask task tasks ↔ other ∈ tasks ∧ other.taskId ≠ task.taskId ∨ other = task := by
  simp [insertTask]

theorem insertTask_ids (distinct : (tasks.map (·.taskId)).Nodup) :
    ((insertTask task tasks).map (·.taskId)).Nodup := by
  unfold insertTask
  rw [List.map_append, List.nodup_append]
  refine ⟨distinct.sublist (List.filter_sublist.map _), List.nodup_singleton _, ?_⟩
  intro id mem id' mem' same
  obtain ⟨old, mem, rfl⟩ := List.mem_map.mp mem
  simp_all

theorem makeRoom_sublist : (makeRoom seen tasks).Sublist tasks := by
  unfold makeRoom
  split
  · split
    · exact List.filter_sublist
    · exact List.Sublist.refl _
  · exact List.Sublist.refl _

variable (seen) in
/-- Room is made by the oldest task alone. -/
theorem mem_makeRoom (mem : task ∈ tasks) :
    task ∈ makeRoom seen tasks ∨ maxTrackedPerfTasks ≤ tasks.length ∧
      ∃ oldest, oldestTask seen tasks = some oldest ∧ task.taskId = oldest.taskId := by
  unfold makeRoom
  split
  · rename_i full
    split
    · rename_i oldest found
      by_cases same : task.taskId = oldest.taskId
      · exact .inr ⟨full, oldest, found, same⟩
      · exact .inl (List.mem_filter.mpr ⟨mem, by simpa using same⟩)
    · exact .inl mem
  · exact .inl mem

theorem oldestTask_mem (found : oldestTask seen tasks = some task) : task ∈ tasks :=
  (seen.order_perm tasks).mem_iff.mp (List.minOn?_mem found)

theorem oldestTask_le (found : oldestTask seen tasks = some task) (mem : other ∈ tasks) :
    task.updatedAtMs ≤ other.updatedAtMs := by
  have inside := (seen.order_perm tasks).mem_iff.mpr mem
  have least := @List.apply_get_minOn?_le_of_mem _ _ _ _ _
    (fun task : TaskPerfState F => task.updatedAtMs) _ _ inside
  unfold oldestTask at found
  rwa [Option.get_of_eq_some _ found] at least

theorem eq_of_taskId (distinct : (tasks.map (·.taskId)).Nodup) (mem : task ∈ tasks)
    (mem' : other ∈ tasks) (same : task.taskId = other.taskId) : task = other :=
  List.inj_on_of_nodup_map distinct mem mem' same

end Tables

section Steps

variable {floats} {before : List (Seen F)} {seen : Seen F} {tail tail' : Tail F}

theorem life_other {taskId : Nat}
    (other : ∀ id event, seen.line.event floats = some (id, event) → id ≠ taskId) :
    life floats taskId (before ++ [seen]) = life floats taskId before := by
  rw [life_append]
  unfold lifeStep
  split
  · rfl
  · rename_i id event found
    exact if_neg (other id event found)

theorem Tracks.perfChanged (tracks : Tracks floats before tail) (changed : Bool) :
    Tracks floats before { tail with perfChanged := changed } :=
  ⟨tracks.ids, tracks.life_, tracks.launched, tracks.completed, tracks.released, tracks.last,
    tracks.recorded⟩

theorem Tracks.retainOpen (tracks : Tracks floats before tail) :
    Tracks floats before
      { tail with known := { tail.known with tasks := retainOpen tail.known.tasks } } where
  ids := tracks.ids.sublist (List.filter_sublist.map _)
  life_ task mem := tracks.life_ task (List.mem_of_mem_filter mem)
  launched task mem := tracks.launched task (List.mem_of_mem_filter mem)
  completed task mem := tracks.completed task (List.mem_of_mem_filter mem)
  released := tracks.released
  last := tracks.last
  recorded := tracks.recorded

/-- A line that changes one entry. -/
theorem Tracks.set (tracks : Tracks floats before tail) {task task' : TaskPerfState F}
    (mem : task ∈ tail.known.tasks) (same : task'.taskId = task.taskId)
    (completed : task'.completed = task.completed)
    (alive : life floats task.taskId before = some task →
      life floats task.taskId (before ++ [seen]) = some task')
    (dead : life floats task.taskId before = none →
      life floats task.taskId (before ++ [seen]) = none)
    (other : ∀ id event, seen.line.event floats = some (id, event) → id = task.taskId) :
    Tracks floats (before ++ [seen])
      { tail with known := { tail.known with tasks := setTask task' tail.known.tasks } } where
  ids := by simpa using tracks.ids
  life_ old oldMem := by
    have entry := tracks.life_ task mem
    obtain rfl | ⟨oldMem, differs⟩ := mem_setTask oldMem
    · rw [same, completed]
      split at entry
      · rename_i done
        rw [if_pos done]
        exact dead entry
      · rename_i open_
        rw [if_neg open_]
        exact alive entry
    · rw [life_other fun id event found eq =>
        differs (by rw [← eq, other id event found, same])]
      exact tracks.life_ old oldMem
  launched old oldMem := by
    rw [List.filterMap_append, List.mem_append]
    obtain rfl | ⟨oldMem, -⟩ := mem_setTask oldMem
    · exact .inl (same ▸ tracks.launched task mem)
    · exact .inl (tracks.launched old oldMem)
  completed old oldMem done := by
    obtain rfl | ⟨oldMem, -⟩ := mem_setTask oldMem
    · exact same ▸ tracks.completed task mem (completed ▸ done)
    · exact tracks.completed old oldMem done
  released taskId recorded := by
    rw [List.filterMap_append, List.mem_append]
    exact .inl (tracks.released taskId recorded)
  last := tracks.last
  recorded := tracks.recorded

theorem Seen.launches_of {taskId slotId : Nat}
    (event : seen.line.event floats = some (taskId, .launch slotId)) :
    seen.launches floats = some taskId := by
  rw [Seen.launches, event]

theorem Seen.releases_of {taskId : Nat} {stopTokens : Option Nat}
    (event : seen.line.event floats = some (taskId, .release stopTokens)) :
    seen.releases floats = some taskId := by
  rw [Seen.releases, event]

/-- What happens once has not happened before. -/
theorem notMem_of_once {view : Seen F → Option Nat} {taskId : Nat}
    (once : ((before ++ [seen]).filterMap view).Nodup) (now : view seen = some taskId) :
    taskId ∉ before.filterMap view := by
  rw [List.filterMap_append, List.nodup_append] at once
  exact fun mem => once.2.2 taskId mem taskId (by simp [now]) rfl

theorem Tracks.launch (tracks : Tracks floats before tail) {taskId slotId : Nat}
    (event : seen.line.event floats = some (taskId, .launch slotId)) :
    Tracks floats (before ++ [seen]) { tail with
      known := { tail.known with
        tasks := insertTask (newTask floats slotId taskId seen.now)
          (makeRoom seen tail.known.tasks) }
      perfChanged := true } where
  ids := insertTask_ids (tracks.ids.sublist (makeRoom_sublist.map _))
  life_ task mem := by
    obtain ⟨mem, differs⟩ | rfl := mem_insertTask.mp mem
    · rw [life_other fun id event' found eq => differs ?_]
      · exact tracks.life_ task (makeRoom_sublist.subset mem)
      · rw [event] at found
        obtain ⟨rfl, -⟩ := Prod.mk.inj (Option.some.inj found)
        exact eq.symm
    · rw [life_append, lifeStep, event]
      simp [newTask]
  launched task mem := by
    rw [List.filterMap_append, List.mem_append]
    obtain ⟨mem, -⟩ | rfl := mem_insertTask.mp mem
    · exact .inl (tracks.launched task (makeRoom_sublist.subset mem))
    · exact .inr (List.mem_filterMap.mpr
        ⟨seen, List.mem_singleton_self _, Seen.launches_of event⟩)
  completed task mem done := by
    obtain ⟨mem, -⟩ | rfl := mem_insertTask.mp mem
    · exact tracks.completed task (makeRoom_sublist.subset mem) done
    · cases done
  released taskId recorded := by
    rw [List.filterMap_append, List.mem_append]
    exact .inl (tracks.released taskId recorded)
  last := tracks.last
  recorded := tracks.recorded

theorem Tracks.release (tracks : Tracks floats before tail) {task : TaskPerfState F}
    {stopTokens : Option Nat}
    (event : seen.line.event floats = some (task.taskId, .release stopTokens))
    (mem : task ∈ tail.known.tasks) :
    Tracks floats (before ++ [seen]) {
      known := ⟨setTask (task.complete seen.now stopTokens) tail.known.tasks,
        some (task.complete seen.now stopTokens)⟩
      lastRecordedTaskId := some task.taskId
      perfChanged := true
      recorded := tail.recorded ++ [task.complete seen.now stopTokens] } where
  ids := by simpa using tracks.ids
  life_ old oldMem := by
    obtain rfl | ⟨oldMem, differs⟩ := mem_setTask oldMem
    · rw [life_append, lifeStep, event]
      exact if_pos rfl
    · rw [life_other fun id event' found eq => differs ?_]
      · exact tracks.life_ old oldMem
      · rw [event] at found
        obtain ⟨rfl, -⟩ := Prod.mk.inj (Option.some.inj found)
        exact eq.symm
  launched old oldMem := by
    rw [List.filterMap_append, List.mem_append]
    obtain rfl | ⟨oldMem, -⟩ := mem_setTask oldMem
    · exact .inl (tracks.launched task mem)
    · exact .inl (tracks.launched old oldMem)
  completed old oldMem done := by
    rw [List.map_append, List.mem_append]
    obtain rfl | ⟨oldMem, -⟩ := mem_setTask oldMem
    · exact .inr (List.mem_singleton_self _)
    · exact .inl (tracks.completed old oldMem done)
  released taskId recorded := by
    rw [List.filterMap_append, List.mem_append]
    rw [List.map_append, List.mem_append] at recorded
    rcases recorded with recorded | recorded
    · exact .inl (tracks.released taskId recorded)
    · obtain rfl := List.mem_singleton.mp recorded
      exact .inr (List.mem_filterMap.mpr
        ⟨seen, List.mem_singleton_self _, Seen.releases_of event⟩)
  last := rfl
  recorded taskId same := by
    obtain rfl := Option.some.inj same
    simp [TaskPerfState.complete, TaskPerfState.stamp]

/-- **What a loop knows after one more line.** -/
theorem Tracks.steps (tracks : Tracks floats before tail) (step : Steps floats seen tail tail') :
    Tracks floats (before ++ [seen]) tail' := by
  cases step with
  | launch event => exact tracks.launch event
  | absent none_ =>
    refine ⟨tracks.ids, fun task mem => ?_, fun task mem => ?_, tracks.completed, ?_, tracks.last,
      tracks.recorded⟩
    · rw [life_other fun id event found eq => (none_ id event found).2 task mem eq.symm]
      exact tracks.life_ task mem
    · rw [List.filterMap_append, List.mem_append]
      exact .inl (tracks.launched task mem)
    · intro taskId recorded
      rw [List.filterMap_append, List.mem_append]
      exact .inl (tracks.released taskId recorded)
  | @change task change event mem =>
    have keeps := event_change event (task.stamp seen.now)
    refine (tracks.set mem keeps.1 keeps.2 ?_ ?_ ?_).perfChanged true
    · intro alive
      rw [life_append, lifeStep, event, alive]
      exact if_pos rfl
    · intro dead
      rw [life_append, lifeStep, event, dead]
      exact if_pos rfl
    · intro id event' found
      rw [event] at found
      exact (Prod.mk.inj (Option.some.inj found)).1.symm
  | release event mem => exact tracks.release event mem
  | @other task event mem =>
    refine tracks.set mem rfl rfl ?_ ?_ ?_
    · intro alive
      rw [life_append, lifeStep, event, alive]
      exact if_pos rfl
    · intro dead
      rw [life_append, lifeStep, event, dead]
      exact if_pos rfl
    · intro id event' found
      rw [event] at found
      exact (Prod.mk.inj (Option.some.inj found)).1.symm

theorem Tracks.step_line (tracks : Tracks floats before tail)
    (once : ((before ++ [seen]).filterMap (Seen.releases floats)).Nodup) :
    Steps floats seen tail (tailLine floats tail seen) :=
  tailLine_steps tracks.last fun taskId releases same =>
    notMem_of_once once releases (tracks.released taskId (tracks.recorded taskId same))

end Steps

/-! ### Whole reads -/

/-- The end of a read. -/
theorem tailBatch_eq (tail : Tail F) (batch : List (Seen F)) :
    tailBatch floats tail batch =
        { batch.foldl (tailLine floats) { tail with perfChanged := false } with
          known := { (batch.foldl (tailLine floats) { tail with perfChanged := false }).known with
            tasks := retainOpen
              (batch.foldl (tailLine floats) { tail with perfChanged := false }).known.tasks } } ∨
      tailBatch floats tail batch =
        batch.foldl (tailLine floats) { tail with perfChanged := false } := by
  unfold tailBatch
  dsimp only
  split
  · exact .inl rfl
  · exact .inr rfl

section Induction

variable {floats} {P : List (Seen F) → Tail F → Prop}

/-- What every line keeps. -/
theorem lines_keep
    (line : ∀ before seen tail, P before tail → P (before ++ [seen]) (tailLine floats tail seen))
    {before : List (Seen F)} {tail : Tail F} (holds : P before tail) (lines : List (Seen F)) :
    P (before ++ lines) (lines.foldl (tailLine floats) tail) := by
  induction lines generalizing before tail with
  | nil => simpa using holds
  | cons seen lines ih => simpa using ih (line before seen tail holds)

/-- What every line and the end of a read keep. -/
theorem reads_keep
    (line : ∀ before seen tail, P before tail → P (before ++ [seen]) (tailLine floats tail seen))
    (flag : ∀ before tail changed, P before tail → P before { tail with perfChanged := changed })
    (close : ∀ before tail, P before tail →
      P before { tail with known := { tail.known with tasks := retainOpen tail.known.tasks } })
    {before : List (Seen F)} {tail : Tail F} (holds : P before tail)
    (reads : List (List (Seen F))) :
    P (before ++ reads.flatten) (reads.foldl (tailBatch floats) tail) := by
  induction reads generalizing before tail with
  | nil => simpa using holds
  | cons batch reads ih =>
    have read := lines_keep line (flag before tail false holds) batch
    have closed : P (before ++ batch) (tailBatch floats tail batch) := by
      rcases tailBatch_eq floats tail batch with eq | eq
      · exact eq ▸ close _ _ read
      · exact eq ▸ read
    simpa using ih closed

end Induction

/-! ### Recorded -/

/-- A launch leaves the open tasks that are still to be released. -/
def SparesLine (seen : Seen F) (tail : Tail F) (rest : List (Seen F)) : Prop :=
  (seen.launches floats).isSome → maxTrackedPerfTasks ≤ tail.known.tasks.length →
    ∀ oldest ∈ oldestTask seen tail.known.tasks, oldest.completed = false →
      oldest.taskId ∉ rest.filterMap (Seen.releases floats)

/-- Every line of a read does, where `later` are the lines of the reads after it. -/
def SparesLines (tail : Tail F) (lines later : List (Seen F)) : Prop :=
  match lines with
  | [] => True
  | seen :: lines =>
    SparesLine floats seen tail (lines ++ later) ∧
      SparesLines (tailLine floats tail seen) lines later

/-- Every line of every read does. -/
def SparesReads (tail : Tail F) (reads : List (List (Seen F))) : Prop :=
  match reads with
  | [] => True
  | batch :: reads =>
    SparesLines floats { tail with perfChanged := false } batch reads.flatten ∧
      SparesReads (tailBatch floats tail batch) reads

/-- Every task that is finished is recorded, and every open one that is still to be released is
known. -/
structure Whole (before rest : List (Seen F)) (tail : Tail F) : Prop where
  recorded : tail.recorded = finished floats before
  known : ∀ taskId task, life floats taskId before = some task →
    task ∈ tail.known.tasks ∨ taskId ∉ rest.filterMap (Seen.releases floats)

section Recorded

variable {floats} {before rest : List (Seen F)} {seen : Seen F} {tail tail' : Tail F}

theorem finishedBy_eq_nil
    (other : ∀ taskId stopTokens, seen.line.event floats ≠ some (taskId, .release stopTokens)) :
    finishedBy floats before seen = [] := by
  unfold finishedBy
  split
  · rename_i taskId stopTokens found
    exact absurd found (other taskId stopTokens)
  · rfl

theorem notMem_rest {view : Seen F → Option Nat} {taskId : Nat}
    (notMem : taskId ∉ (seen :: rest).filterMap view) : taskId ∉ rest.filterMap view :=
  fun mem => notMem ((List.sublist_cons_self seen rest).filterMap view |>.subset mem)

theorem Whole.launch (whole : Whole floats before (seen :: rest) tail)
    (tracks : Tracks floats before tail) {taskId slotId : Nat}
    (event : seen.line.event floats = some (taskId, .launch slotId))
    (spares : SparesLine floats seen tail rest) :
    Whole floats (before ++ [seen]) rest { tail with
      known := { tail.known with
        tasks := insertTask (newTask floats slotId taskId seen.now)
          (makeRoom seen tail.known.tasks) }
      perfChanged := true } where
  recorded := by
    rw [finished_append, finishedBy_eq_nil (by simp [event]), List.append_nil]
    exact whole.recorded
  known id task alive := by
    by_cases same : taskId = id
    · subst same
      rw [life_append, lifeStep, event] at alive
      obtain rfl : newTask floats slotId taskId seen.now = task := by simpa using alive
      exact .inl (mem_insertTask.mpr (.inr rfl))
    · have old : life floats id before = some task := by
        rw [← alive, life_other]
        intro id' event' found
        rw [event] at found
        obtain ⟨rfl, -⟩ := Prod.mk.inj (Option.some.inj found)
        exact same
      obtain ⟨rfl, open_⟩ := life_spec old
      rcases whole.known _ task old with mem | spared
      · rcases mem_makeRoom seen mem with stays | ⟨full, oldest, found, victim⟩
        · exact .inl (mem_insertTask.mpr (.inl ⟨stays, fun eq => same eq.symm⟩))
        · obtain rfl := eq_of_taskId tracks.ids mem (oldestTask_mem found) victim
          have launches : (seen.launches floats).isSome := by simp [Seen.launches_of event]
          exact .inr (spares launches full task found open_)
      · exact .inr (notMem_rest spared)

/-- A line that changes one entry. -/
theorem Whole.set (whole : Whole floats before (seen :: rest) tail)
    (tracks : Tracks floats before tail) {task task' : TaskPerfState F}
    (mem : task ∈ tail.known.tasks) (same : task'.taskId = task.taskId)
    {event : Event F} (found : seen.line.event floats = some (task.taskId, event))
    (launch : ∀ slotId, event ≠ .launch slotId)
    (release : ∀ stopTokens, event ≠ .release stopTokens)
    (alive : life floats task.taskId before = some task →
      life floats task.taskId (before ++ [seen]) = some task') :
    Whole floats (before ++ [seen]) rest
      { tail with known := { tail.known with tasks := setTask task' tail.known.tasks } } where
  recorded := by
    rw [finished_append, finishedBy_eq_nil, List.append_nil]
    · exact whole.recorded
    · intro taskId stopTokens released
      rw [found] at released
      exact release stopTokens (Prod.mk.inj (Option.some.inj released)).2
  known id now alive' := by
    obtain ⟨launches, -⟩ | ⟨old, open_, -⟩ := life_append_cases alive'
    · unfold Seen.launches at launches
      rw [found] at launches
      cases event with
      | launch slotId => exact absurd rfl (launch slotId)
      | change | release | other => cases launches
    · rcases whole.known id old open_ with oldMem | spared
      · obtain ⟨rfl, -⟩ := life_spec open_
        by_cases eq : old.taskId = task.taskId
        · obtain rfl := eq_of_taskId tracks.ids oldMem mem eq
          rw [alive open_] at alive'
          obtain rfl := Option.some.inj alive'
          rcases mem_setTask_of_mem task' mem with stays | ⟨-, set⟩
          · obtain rfl | ⟨-, differs⟩ := mem_setTask stays
            · exact .inl stays
            · exact absurd same.symm differs
          · exact .inl set
        · rw [life_other (by simpa [found] using fun h => eq h.symm), open_] at alive'
          obtain rfl := Option.some.inj alive'
          rcases mem_setTask_of_mem task' oldMem with stays | ⟨same', -⟩
          · exact .inl stays
          · exact absurd (same'.trans same) eq
      · exact .inr (notMem_rest spared)

theorem Whole.release (whole : Whole floats before (seen :: rest) tail)
    (tracks : Tracks floats before tail) {task : TaskPerfState F} {stopTokens : Option Nat}
    (event : seen.line.event floats = some (task.taskId, .release stopTokens))
    (mem : task ∈ tail.known.tasks)
    (once : ((before ++ [seen]).filterMap (Seen.releases floats)).Nodup) :
    Whole floats (before ++ [seen]) rest {
      known := ⟨setTask (task.complete seen.now stopTokens) tail.known.tasks,
        some (task.complete seen.now stopTokens)⟩
      lastRecordedTaskId := some task.taskId
      perfChanged := true
      recorded := tail.recorded ++ [task.complete seen.now stopTokens] } where
  recorded := by
    have open_ : ¬task.completed = true := fun done =>
      notMem_of_once once (Seen.releases_of event)
        (tracks.released _ (tracks.completed task mem done))
    have alive := tracks.life_ task mem
    rw [if_neg open_] at alive
    rw [finished_append, finishedBy, event, whole.recorded]
    simp [alive]
  known id now alive' := by
    by_cases same : task.taskId = id
    · rw [life_append, lifeStep, event] at alive'
      simp [same] at alive'
    · rw [life_other (by simpa [event] using same)] at alive'
      rcases whole.known id now alive' with nowMem | spared
      · rcases mem_setTask_of_mem (task.complete seen.now stopTokens) nowMem with
          stays | ⟨eq, -⟩
        · exact .inl stays
        · exact absurd (eq.symm.trans (life_spec alive').1) same
      · exact .inr (notMem_rest spared)

theorem Whole.steps (whole : Whole floats before (seen :: rest) tail)
    (tracks : Tracks floats before tail) (step : Steps floats seen tail tail')
    (once : ((before ++ [seen]).filterMap (Seen.releases floats)).Nodup)
    (spares : SparesLine floats seen tail rest) : Whole floats (before ++ [seen]) rest tail' := by
  cases step with
  | launch event => exact whole.launch tracks event spares
  | absent none_ =>
    constructor
    · rw [finished_append, whole.recorded]
      suffices finishedBy floats before seen = [] by simp [this]
      unfold finishedBy
      split
      · rename_i taskId stopTokens found
        cases alive : life floats taskId before with
        | none => rfl
        | some task =>
          rcases whole.known taskId task alive with mem | spared
          · exact absurd (life_spec alive).1 ((none_ _ _ found).2 task mem)
          · exact absurd (List.mem_filterMap.mpr
              ⟨seen, List.mem_cons_self, Seen.releases_of found⟩) spared
      · rfl
    · intro taskId task alive
      obtain ⟨launches, -⟩ | ⟨old, open_, -⟩ := life_append_cases alive
      · unfold Seen.launches at launches
        split at launches
        · rename_i slotId found
          exact absurd rfl ((none_ _ _ found).1 slotId)
        · cases launches
      · rcases whole.known taskId old open_ with mem | spared
        · rw [life_other, open_] at alive
          · exact .inl (Option.some.inj alive ▸ mem)
          · rintro id event found rfl
            exact (none_ _ _ found).2 old mem (life_spec open_).1
        · exact .inr (notMem_rest spared)
  | @change task change event mem =>
    have keeps := event_change event (task.stamp seen.now)
    have set := whole.set tracks mem keeps.1 event (nofun) (nofun) fun alive => by
      rw [life_append, lifeStep, event, alive]
      exact if_pos rfl
    exact ⟨set.recorded, set.known⟩
  | release event mem => exact whole.release tracks event mem once
  | @other task event mem =>
    refine whole.set tracks mem rfl event (nofun) (nofun) fun alive => ?_
    rw [life_append, lifeStep, event, alive]
    exact if_pos rfl

end Recorded

end LlamaServerManager.Logs.Perf
