import LlamaServerManager.Logs.PerfLoops

/-!
The loop over reads against the tasks that its lines finish, over whole runs.

* `Whole.reads` — nothing is missed where no launch drops an open task that is still to be
  released.
* `Lost` — a task that will not be recorded any more.
* `sparesReads_of` — only there is nothing missed.
-/

namespace LlamaServerManager.Logs.Perf

variable {F : Type} (floats : Floats F)

section Runs

variable {floats} {before rest batch later : List (Seen F)} {batches : List (List (Seen F))}
  {seen : Seen F} {tail tail' : Tail F} {taskId : Nat}

/-! ### Runs -/

theorem Tracks.line (tracks : Tracks floats before tail)
    (once : ((before ++ [seen]).filterMap (Seen.releases floats)).Nodup) :
    Tracks floats (before ++ [seen]) (tailLine floats tail seen) :=
  tracks.steps (tracks.step_line once)

theorem once_left {view : Seen F → Option Nat} (once : ((before ++ rest).filterMap view).Nodup) :
    (before.filterMap view).Nodup :=
  once.sublist ((List.sublist_append_left before rest).filterMap view)

theorem Tracks.lines (tracks : Tracks floats before tail)
    (once : ((before ++ batch).filterMap (Seen.releases floats)).Nodup) :
    Tracks floats (before ++ batch) (batch.foldl (tailLine floats) tail) :=
  @lines_keep _ _ (fun before tail => (before.filterMap (Seen.releases floats)).Nodup →
      Tracks floats before tail)
    (fun _ _ _ holds once => (holds (once_left once)).line once) _ _ (fun _ => tracks) batch once

theorem Tracks.read (tracks : Tracks floats before tail)
    (once : ((before ++ batch).filterMap (Seen.releases floats)).Nodup) :
    Tracks floats (before ++ batch) (tailBatch floats tail batch) := by
  have read := (tracks.perfChanged false).lines once
  rcases tailBatch_eq floats tail batch with eq | eq
  · exact eq ▸ read.retainOpen
  · exact eq ▸ read

theorem Whole.perfChanged (whole : Whole floats before rest tail) (changed : Bool) :
    Whole floats before rest { tail with perfChanged := changed } :=
  ⟨whole.recorded, whole.known⟩

theorem Whole.retainOpen (whole : Whole floats before rest tail) :
    Whole floats before rest
      { tail with known := { tail.known with tasks := retainOpen tail.known.tasks } } where
  recorded := whole.recorded
  known taskId task alive := (whole.known taskId task alive).imp_left fun mem =>
    List.mem_filter.mpr ⟨mem, by simp [(life_spec alive).2]⟩

theorem Whole.lines (whole : Whole floats before (batch ++ later) tail)
    (tracks : Tracks floats before tail)
    (once : ((before ++ batch).filterMap (Seen.releases floats)).Nodup)
    (spares : SparesLines floats tail batch later) :
    Whole floats (before ++ batch) later (batch.foldl (tailLine floats) tail) := by
  induction batch generalizing before tail with
  | nil => simpa using whole
  | cons seen batch ih =>
    rw [← List.singleton_append, ← List.append_assoc] at once
    have now := once_left once
    have next := whole.steps tracks (tracks.step_line now) now spares.1
    simpa using ih next (tracks.line now) once spares.2

/-- **Nothing is missed** where no launch drops an open task that is still to be released. -/
theorem Whole.reads (whole : Whole floats before batches.flatten tail)
    (tracks : Tracks floats before tail)
    (once : ((before ++ batches.flatten).filterMap (Seen.releases floats)).Nodup)
    (spares : SparesReads floats tail batches) :
    Whole floats (before ++ batches.flatten) [] (batches.foldl (tailBatch floats) tail) := by
  induction batches generalizing before tail with
  | nil => simpa using whole
  | cons batch batches ih =>
    rw [List.flatten_cons, ← List.append_assoc] at once
    have read := (whole.perfChanged false).lines (tracks.perfChanged false) (once_left once)
      spares.1
    have closed : Whole floats (before ++ batch) batches.flatten (tailBatch floats tail batch) := by
      rcases tailBatch_eq floats tail batch with eq | eq
      · exact eq ▸ read.retainOpen
      · exact eq ▸ read
    simpa using ih closed (tracks.read (once_left once)) once spares.2

/-! ### Lost tasks -/

/-- A task that is neither in the table nor recorded. -/
structure Missing (taskId : Nat) (tail : Tail F) : Prop where
  tasks : taskId ∉ tail.known.tasks.map (·.taskId)
  recorded : taskId ∉ tail.recorded.map (·.taskId)

theorem Missing.steps (missing : Missing taskId tail) (step : Steps floats seen tail tail')
    (launch : seen.launches floats ≠ some taskId) : Missing taskId tail' := by
  cases step with
  | @launch id slotId event =>
    refine ⟨fun mem => ?_, missing.recorded⟩
    obtain ⟨task, mem, eq⟩ := List.mem_map.mp mem
    obtain ⟨mem, -⟩ | rfl := mem_insertTask.mp mem
    · exact missing.tasks (eq ▸ List.mem_map_of_mem (makeRoom_sublist.subset mem))
    · exact launch (eq ▸ Seen.launches_of event)
  | absent none_ => exact missing
  | change event mem => exact ⟨by simpa using missing.tasks, missing.recorded⟩
  | @release task stopTokens event mem =>
    refine ⟨by simpa using missing.tasks, fun recorded => ?_⟩
    rw [List.map_append, List.mem_append] at recorded
    rcases recorded with recorded | recorded
    · exact missing.recorded recorded
    · obtain rfl : taskId = task.taskId := List.mem_singleton.mp recorded
      exact missing.tasks (List.mem_map_of_mem mem)
  | other event mem => exact ⟨by simpa using missing.tasks, missing.recorded⟩

variable (floats) in
/-- A task that was launched and is gone without a record. -/
structure Lost (taskId : Nat) (before : List (Seen F)) (tail : Tail F) : Prop where
  tracks : Tracks floats before tail
  launched : taskId ∈ before.filterMap (Seen.launches floats)
  missing : Missing taskId tail

theorem Once.left (once : Once floats (before ++ rest)) : Once floats before :=
  ⟨once_left once.launches, once_left once.releases⟩

theorem Lost.line (lost : Lost floats taskId before tail) (once : Once floats (before ++ [seen])) :
    Lost floats taskId (before ++ [seen]) (tailLine floats tail seen) where
  tracks := lost.tracks.line once.releases
  launched := by
    rw [List.filterMap_append, List.mem_append]
    exact .inl lost.launched
  missing := lost.missing.steps (lost.tracks.step_line once.releases) fun launch =>
    notMem_of_once once.launches launch lost.launched

theorem Lost.perfChanged (lost : Lost floats taskId before tail) (changed : Bool) :
    Lost floats taskId before { tail with perfChanged := changed } :=
  ⟨lost.tracks.perfChanged changed, lost.launched, lost.missing.tasks, lost.missing.recorded⟩

theorem Lost.retainOpen (lost : Lost floats taskId before tail) :
    Lost floats taskId before
      { tail with known := { tail.known with tasks := retainOpen tail.known.tasks } } where
  tracks := lost.tracks.retainOpen
  launched := lost.launched
  missing := ⟨fun mem => lost.missing.tasks ((List.filter_sublist.map _).subset mem),
    lost.missing.recorded⟩

theorem Lost.foldl (lost : Lost floats taskId before tail) (once : Once floats (before ++ batch)) :
    Lost floats taskId (before ++ batch) (batch.foldl (tailLine floats) tail) :=
  @lines_keep _ _ (fun before tail => Once floats before → Lost floats taskId before tail)
    (fun _ _ _ holds once => (holds once.left).line once) _ _ (fun _ => lost) batch once

/-- A lost task stays lost. -/
theorem Lost.reads (lost : Lost floats taskId before tail)
    (once : Once floats (before ++ batches.flatten)) :
    Lost floats taskId (before ++ batches.flatten) (batches.foldl (tailBatch floats) tail) :=
  @reads_keep _ _ (fun before tail => Once floats before → Lost floats taskId before tail)
    (fun _ _ _ holds once => (holds once.left).line once)
    (fun _ _ changed holds once => (holds once).perfChanged changed)
    (fun _ _ holds once => (holds once).retainOpen) _ _ (fun _ => lost) batches once

theorem Seen.event_of_launches (launches : seen.launches floats = some taskId) :
    ∃ slotId, seen.line.event floats = some (taskId, .launch slotId) := by
  unfold Seen.launches at launches
  split at launches
  · rename_i id slotId event
    exact ⟨slotId, Option.some.inj launches ▸ event⟩
  · cases launches

theorem Seen.event_of_releases (releases : seen.releases floats = some taskId) :
    ∃ stopTokens, seen.line.event floats = some (taskId, .release stopTokens) := by
  unfold Seen.releases at releases
  split at releases
  · rename_i id stopTokens event
    exact ⟨stopTokens, Option.some.inj releases ▸ event⟩
  · cases releases

/-- An open task stays open until it is released. -/
theorem life_stays {task : TaskPerfState F} (alive : life floats taskId before = some task)
    (release : seen.releases floats ≠ some taskId) :
    ∃ task', life floats taskId (before ++ [seen]) = some task' := by
  rw [life_append, lifeStep, alive]
  split
  · exact ⟨task, rfl⟩
  · rename_i id event found
    split
    · rename_i same
      subst same
      cases event with
      | launch slotId => exact ⟨_, rfl⟩
      | change change => exact ⟨_, rfl⟩
      | release stopTokens => exact absurd (Seen.releases_of found) release
      | other => exact ⟨_, rfl⟩
    · exact ⟨task, rfl⟩

/-- An open task that is still to be released is finished. -/
theorem finished_of_open {task : TaskPerfState F} (alive : life floats taskId before = some task)
    (release : taskId ∈ rest.filterMap (Seen.releases floats)) :
    taskId ∈ (finishedFrom floats before rest).map (·.taskId) := by
  induction rest generalizing before task with
  | nil => cases release
  | cons seen rest ih =>
    rw [finishedFrom, List.map_append, List.mem_append]
    by_cases now : seen.releases floats = some taskId
    · obtain ⟨stopTokens, event⟩ := Seen.event_of_releases now
      refine .inl ?_
      rw [finishedBy, event]
      simp [alive, TaskPerfState.complete, TaskPerfState.stamp, (life_spec alive).1]
    · obtain ⟨task', alive'⟩ := life_stays alive now
      obtain ⟨line, mem, releases⟩ := List.mem_filterMap.mp release
      rcases List.mem_cons.mp mem with rfl | mem
      · exact absurd releases now
      · exact .inr (ih alive' (List.mem_filterMap.mpr ⟨line, mem, releases⟩))

theorem Steps.of_launch {slotId : Nat}
    (event : seen.line.event floats = some (taskId, .launch slotId))
    (step : Steps floats seen tail tail') :
    tail'.known.tasks = insertTask (newTask floats slotId taskId seen.now)
        (makeRoom seen tail.known.tasks) ∧ tail'.recorded = tail.recorded := by
  cases step with
  | launch found =>
    rw [event] at found
    obtain ⟨rfl, eq⟩ := Prod.mk.inj (Option.some.inj found)
    obtain rfl := Event.launch.inj eq
    exact ⟨rfl, rfl⟩
  | absent none_ => exact absurd rfl ((none_ _ _ event).1 slotId)
  | change found mem => rw [event] at found; cases found
  | release found mem => rw [event] at found; cases found
  | other found mem => rw [event] at found; cases found

/-- The task that a launch drops is lost, if it is still to be released. -/
theorem lost_of_dropped {oldest : TaskPerfState F} (tracks : Tracks floats before tail)
    (once : Once floats (before ++ seen :: rest)) (launches : (seen.launches floats).isSome)
    (full : maxTrackedPerfTasks ≤ tail.known.tasks.length)
    (found : oldestTask seen tail.known.tasks = some oldest)
    (release : oldest.taskId ∈ rest.filterMap (Seen.releases floats)) :
    Lost floats oldest.taskId (before ++ [seen]) (tailLine floats tail seen) := by
  obtain ⟨taskId, launches⟩ := Option.isSome_iff_exists.mp launches
  obtain ⟨slotId, event⟩ := Seen.event_of_launches launches
  have launched := tracks.launched oldest (oldestTask_mem found)
  have ahead : Once floats (before ++ [seen]) := by
    rw [← List.singleton_append, ← List.append_assoc] at once
    exact once.left
  obtain ⟨tasks, recorded⟩ := (tracks.step_line ahead.releases).of_launch event
  refine ⟨tracks.line ahead.releases, ?_, ?_, ?_⟩
  · rw [List.filterMap_append, List.mem_append]
    exact .inl launched
  · rw [tasks]
    intro mem
    obtain ⟨task, mem, same⟩ := List.mem_map.mp mem
    obtain ⟨mem, -⟩ | rfl := mem_insertTask.mp mem
    · unfold makeRoom at mem
      rw [if_pos full, found] at mem
      simp [same] at mem
    · have same : taskId = oldest.taskId := same
      exact notMem_of_once ahead.launches launches (same ▸ launched)
  · rw [recorded]
    intro recorded
    have once := once.releases
    rw [List.filterMap_append, List.nodup_append] at once
    exact once.2.2 _ (tracks.released _ recorded) _
      ((List.sublist_cons_self seen rest).filterMap _ |>.subset release) rfl

/-- Where nothing is lost, no launch drops an open task that is still to be released. -/
theorem sparesLines_of (tracks : Tracks floats before tail)
    (once : Once floats (before ++ (batch ++ later)))
    (found : ∀ taskId, Lost floats taskId (before ++ batch) (batch.foldl (tailLine floats) tail) →
      taskId ∉ (finished floats (before ++ (batch ++ later))).map (·.taskId)) :
    SparesLines floats tail batch later := by
  induction batch generalizing before tail with
  | nil => trivial
  | cons seen batch ih =>
    have split : before ++ (seen :: batch ++ later) = (before ++ [seen]) ++ (batch ++ later) := by
      simp
    refine ⟨fun launches full oldest victim open_ release => ?_,
      @ih (before ++ [seen]) _ ?_ ?_ ?_⟩
    · have lost := lost_of_dropped tracks once launches full victim release
      refine found oldest.taskId ?_ ?_
      · rw [split, ← List.append_assoc] at once
        simpa using lost.foldl once.left
      · have alive := tracks.life_ oldest (oldestTask_mem victim)
        rw [if_neg (by simp [open_])] at alive
        rw [finished, finishedFrom_append, List.map_append, List.mem_append]
        refine .inr (finished_of_open alive ?_)
        exact (List.sublist_cons_self seen _).filterMap _ |>.subset release
    · rw [split] at once
      exact tracks.line once.left.releases
    · exact split ▸ once
    · intro taskId lost
      rw [← split]
      exact found taskId (by simpa using lost)

theorem sparesReads_of (tracks : Tracks floats before tail)
    (once : Once floats (before ++ batches.flatten))
    (recorded : (batches.foldl (tailBatch floats) tail).recorded =
      finished floats (before ++ batches.flatten)) : SparesReads floats tail batches := by
  induction batches generalizing before tail with
  | nil => trivial
  | cons batch batches ih =>
    have ahead : Once floats (before ++ batch) := by
      rw [List.flatten_cons, ← List.append_assoc] at once
      exact once.left
    refine ⟨sparesLines_of (tracks.perfChanged false) once ?_,
      @ih (before ++ batch) _ ?_ ?_ ?_⟩
    · intro taskId lost
      have closed : Lost floats taskId (before ++ batch) (tailBatch floats tail batch) := by
        rcases tailBatch_eq floats tail batch with eq | eq
        · exact eq ▸ lost.retainOpen
        · exact eq ▸ lost
      have final := @Lost.reads _ _ _ batches _ _ closed (by simpa using once)
      rw [← List.flatten_cons, ← recorded]
      exact final.missing.recorded
    · exact tracks.read ahead.releases
    · simpa using once
    · simpa using recorded

end Runs

end LlamaServerManager.Logs.Perf
