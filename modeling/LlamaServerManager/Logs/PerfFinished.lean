import LlamaServerManager.Logs.PerfLost
import Mathlib.Data.List.Forall2

/-!
The tasks that the lines of a log finish.

* `mem_finished` — they are those that were launched and then released.
* `finished_stale` — the lines of a task that is not open change nothing.
* `finishedFrom_unstamped` — what the clock shows changes nothing but the stamps.
-/

namespace LlamaServerManager.Logs.Perf

variable {F : Type} {floats : Floats F}

/-! ### Finished tasks -/

section Finished

variable {before lines : List (Seen F)} {seen : Seen F} {taskId : Nat}

theorem finishedBy_ids : ((finishedBy floats before seen).map (·.taskId)).Sublist
    (seen.releases floats).toList := by
  unfold finishedBy Seen.releases
  split
  · rename_i id stopTokens event
    cases alive : life floats id before with
    | none => exact List.nil_sublist _
    | some task =>
      have same : task.taskId = id := (life_spec alive).1
      simp [TaskPerfState.complete, TaskPerfState.stamp, same]
  · exact List.nil_sublist _

theorem finishedFrom_ids : ((finishedFrom floats before lines).map (·.taskId)).Sublist
    (lines.filterMap (Seen.releases floats)) := by
  induction lines generalizing before with
  | nil => exact List.Sublist.refl _
  | cons seen lines ih =>
    have first : (seen.releases floats).toList ++ lines.filterMap (Seen.releases floats) =
        (seen :: lines).filterMap (Seen.releases floats) := by
      cases releases : seen.releases floats <;> simp [releases]
    rw [finishedFrom, List.map_append, ← first]
    exact finishedBy_ids.append ih

/-- A finished task was open when it was released. -/
theorem open_of_finished (mem : taskId ∈ (finishedFrom floats before lines).map (·.taskId)) :
    ∃ first release last, lines = first ++ release :: last ∧
      release.releases floats = some taskId ∧
      ∃ task, life floats taskId (before ++ first) = some task := by
  induction lines generalizing before with
  | nil => cases mem
  | cons seen lines ih =>
    rw [finishedFrom, List.map_append, List.mem_append] at mem
    rcases mem with mem | mem
    · have releases := finishedBy_ids.subset mem
      refine ⟨[], seen, lines, rfl, by simpa using releases, ?_⟩
      obtain ⟨task, found, rfl⟩ := List.mem_map.mp mem
      unfold finishedBy at found
      split at found
      · rename_i id stopTokens event
        obtain ⟨old, alive, rfl⟩ := Option.map_eq_some_iff.mp (Option.mem_toList.mp found)
        have same : old.taskId = id := (life_spec alive).1
        exact ⟨old, by simpa [TaskPerfState.complete, TaskPerfState.stamp, same] using alive⟩
      · cases found
    · obtain ⟨first, release, last, rfl, releases, alive⟩ := ih mem
      exact ⟨seen :: first, release, last, rfl, releases, by simpa using alive⟩

/-- **The finished tasks** are those that were launched and then released. -/
theorem mem_finished : taskId ∈ (finished floats lines).map (·.taskId) ↔
    ∃ first launch between release last, lines = first ++ launch :: between ++ release :: last ∧
      launch.launches floats = some taskId ∧ release.releases floats = some taskId := by
  constructor
  · intro mem
    obtain ⟨opened, release, last, rfl, releases, task, alive⟩ := open_of_finished mem
    obtain ⟨launch, mem, launches⟩ := List.mem_filterMap.mp (mem_launches_of_life alive)
    obtain ⟨first, between, rfl⟩ := List.append_of_mem mem
    exact ⟨first, launch, between, release, last, rfl, launches, releases⟩
  · rintro ⟨first, launch, between, release, last, rfl, launches, releases⟩
    obtain ⟨slotId, event⟩ := Seen.event_of_launches launches
    have alive : life floats taskId (first ++ [launch]) =
        some (newTask floats slotId taskId launch.now) := by
      rw [life_append, lifeStep, event]
      exact if_pos rfl
    have released : taskId ∈ (between ++ release :: last).filterMap (Seen.releases floats) :=
      List.mem_filterMap.mpr
        ⟨release, List.mem_append_right between List.mem_cons_self, releases⟩
    have split : first ++ launch :: between ++ release :: last =
        (first ++ [launch]) ++ (between ++ release :: last) := by simp
    rw [finished, split, finishedFrom_append, List.map_append, List.mem_append]
    exact .inr (finished_of_open alive released)

theorem finishedFrom_congr {before' : List (Seen F)}
    (lives : ∀ taskId, life floats taskId before = life floats taskId before') :
    finishedFrom floats before lines = finishedFrom floats before' lines := by
  induction lines generalizing before before' with
  | nil => rfl
  | cons seen lines ih =>
    rw [finishedFrom, finishedFrom]
    congr 1
    · unfold finishedBy
      simp only [lives]
    · exact ih fun taskId => by rw [life_append, life_append, lives]

/-- A line of a task that is not open finishes nothing and changes nothing. -/
theorem finished_stale {after : List (Seen F)} {event : Event F}
    (found : seen.line.event floats = some (taskId, event))
    (launch : ∀ slotId, event ≠ .launch slotId) (closed : life floats taskId before = none) :
    finished floats (before ++ after) = finished floats (before ++ seen :: after) := by
  have none_ : finishedBy floats before seen = [] := by
    unfold finishedBy
    split
    · rename_i id stopTokens released
      rw [found] at released
      obtain ⟨rfl, -⟩ := Prod.mk.inj (Option.some.inj released)
      rw [closed]
      rfl
    · rfl
  rw [finished, finished, finishedFrom_append, finishedFrom_append, finishedFrom, List.nil_append,
    none_, List.nil_append]
  congr 1
  refine finishedFrom_congr fun id => ?_
  rw [life_append, lifeStep, found]
  dsimp only
  split
  · rename_i same
    subst same
    rw [closed]
    cases event with
    | launch slotId => exact absurd rfl (launch slotId)
    | change | release | other => rfl
  · rfl

end Finished

/-! ### Clocks -/

/-- A task without what the clock showed. -/
def TaskPerfState.unstamped (task : TaskPerfState F) : TaskPerfState F :=
  { task with startedAtMs := 0, updatedAtMs := 0 }

section Clocks

/-- The same line, read at another time. -/
abbrev SameLine (seen seen' : Seen F) : Prop := seen.line = seen'.line

theorem summarize_unstamped {line : Line F} {change : TaskPerfState F → TaskPerfState F}
    (found : summarize floats line = some change) (task : TaskPerfState F) :
    (change task).unstamped = (change task.unstamped).unstamped := by
  unfold summarize at found
  repeat' split at found
  all_goals cases found
  all_goals rfl

theorem map_unstamped {update update' : TaskPerfState F → TaskPerfState F}
    {life life' : Option (TaskPerfState F)}
    (lives : life.map (·.unstamped) = life'.map (·.unstamped))
    (keeps : ∀ task task', task.unstamped = task'.unstamped →
      (update task).unstamped = (update' task').unstamped) :
    (life.map update).map (·.unstamped) = (life'.map update').map (·.unstamped) := by
  cases life with
  | none =>
    cases life' with
    | none => rfl
    | some task' => cases lives
  | some task =>
    cases life' with
    | none => cases lives
    | some task' => exact congrArg some (keeps task task' (Option.some.inj lives))

theorem lifeStep_unstamped {seen seen' : Seen F} {taskId : Nat}
    {life life' : Option (TaskPerfState F)} (same : SameLine seen seen')
    (lives : life.map (·.unstamped) = life'.map (·.unstamped)) :
    (lifeStep floats taskId life seen).map (·.unstamped) =
      (lifeStep floats taskId life' seen').map (·.unstamped) := by
  unfold lifeStep
  rw [← same]
  split
  · exact lives
  · rename_i id event found
    split
    · cases event with
      | launch slotId => rfl
      | change change =>
        refine map_unstamped lives fun task task' eq => ?_
        have stamped := summarize_unstamped (summarize_of_event found)
        rw [stamped (task.stamp seen.now), stamped (task'.stamp seen'.now)]
        exact congrArg (fun task => (change task).unstamped) eq
      | release stopTokens => rfl
      | other => exact map_unstamped lives fun task task' eq => eq
    · exact lives

theorem life_unstamped {lines lines' : List (Seen F)} (same : List.Forall₂ SameLine lines lines')
    (taskId : Nat) : (life floats taskId lines).map (·.unstamped) =
      (life floats taskId lines').map (·.unstamped) := by
  suffices ∀ start start' : Option (TaskPerfState F),
      start.map (·.unstamped) = start'.map (·.unstamped) →
      (lines.foldl (lifeStep floats taskId) start).map (·.unstamped) =
        (lines'.foldl (lifeStep floats taskId) start').map (·.unstamped) from this none none rfl
  induction same with
  | nil => exact fun _ _ lives => lives
  | cons line _ ih => exact fun _ _ lives => ih _ _ (lifeStep_unstamped line lives)

theorem finishedFrom_unstamped {lines lines' before before' : List (Seen F)}
    (same : List.Forall₂ SameLine lines lines') (past : List.Forall₂ SameLine before before') :
    (finishedFrom floats before lines).map (·.unstamped) =
      (finishedFrom floats before' lines').map (·.unstamped) := by
  induction same generalizing before before' with
  | nil => rfl
  | @cons seen seen' lines lines' line _ ih =>
    rw [finishedFrom, finishedFrom, List.map_append, List.map_append]
    congr 1
    · unfold finishedBy
      rw [← line]
      split
      · rename_i taskId stopTokens _
        have released : (((life floats taskId before).map fun task =>
            task.complete seen.now stopTokens).map (·.unstamped)) =
            ((life floats taskId before').map fun task =>
              task.complete seen'.now stopTokens).map (·.unstamped) :=
          map_unstamped (life_unstamped past taskId) fun task task' eq => congrArg
            (fun task => { task with inputTokens := stopTokens, completed := true }) eq
        rw [← Option.toList_map, ← Option.toList_map, released]
      · rfl
    · exact ih (List.rel_append past (.cons line .nil))

theorem filterMap_sameLine {view : Seen F → Option Nat} {lines lines' : List (Seen F)}
    (blind : ∀ seen seen', SameLine seen seen' → view seen = view seen')
    (same : List.Forall₂ SameLine lines lines') : lines.filterMap view = lines'.filterMap view := by
  induction same with
  | nil => rfl
  | cons line _ ih => rw [List.filterMap_cons, List.filterMap_cons, blind _ _ line, ih]

theorem launches_sameLine (seen seen' : Seen F) (same : SameLine seen seen') :
    seen.launches floats = seen'.launches floats := by
  rw [Seen.launches, Seen.launches, same]

theorem releases_sameLine (seen seen' : Seen F) (same : SameLine seen seen') :
    seen.releases floats = seen'.releases floats := by
  rw [Seen.releases, Seen.releases, same]

/-- The same log is as orderly at another time. -/
theorem Orderly.sameLine {lines lines' : List (Seen F)} (orderly : Orderly floats lines)
    (same : List.Forall₂ SameLine lines' lines) : Orderly floats lines' where
  launches := filterMap_sameLine launches_sameLine same ▸ orderly.launches
  releases := filterMap_sameLine releases_sameLine same ▸ orderly.releases
  open_ before' inside := by
    have past : List.Forall₂ SameLine before' (lines.take before'.length) := by
      have taken := List.forall₂_take before'.length same
      rwa [← List.prefix_iff_eq_take.mp inside] at taken
    have eq : openTasks floats before' = openTasks floats (lines.take before'.length) := by
      unfold openTasks
      rw [filterMap_sameLine launches_sameLine past]
      refine List.filter_congr fun taskId _ => ?_
      have lives := congrArg Option.isSome (@life_unstamped _ floats _ _ past taskId)
      rwa [Option.isSome_map, Option.isSome_map] at lives
    rw [eq]
    exact orderly.open_ _ (List.take_prefix _ lines)

end Clocks

end LlamaServerManager.Logs.Perf
