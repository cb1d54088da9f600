import LlamaServerManager.Downloads.Queue
import Mathlib.Algebra.GroupWithZero.Nat
import Mathlib.Data.List.Count

/-!
The downloads manager from an empty one on, without a crash and without I/O errors
(`commands/download.rs`): what the commands do under the scheduler lock, and what a batch does when
it ends, each as one step. A batch ends with its completed files registered as artifacts: where
`register_completed_download_artifacts` refuses one of them (it is gone, or no managed path),
`persist_terminal_entry` records nothing, which is left out here as an I/O error.

* `Holds` — what every step keeps: `downloads.json` has the entries of the queue and a rest, and
  every accepted task is once in the queue, the active entries, the rest or what was let go;
* `Held.persist` — the queue is written.
-/

namespace LlamaServerManager.Downloads.Manager

open Lib

/-- The three collections of the manager and `downloads.json`, with two histories of
tasks that the conservation is stated about. -/
structure State where
  /-- `download_queue` -/
  queue : List PersistedQueueEntry
  /-- `download_active_entries` -/
  active : List PersistedQueueEntry
  /-- `download_active_batches` -/
  batches : List String
  /-- `downloads.json` -/
  persisted : List PersistedQueueEntry
  /-- History: the tasks that were accepted. -/
  accepted : List DownloadTask
  /-- History: the tasks the user has cancelled, removed or cleared. -/
  released : List DownloadTask
deriving DecidableEq, Repr

def start : State := ⟨[], [], [], [], [], []⟩

def State.persist (s : State) : State :=
  { s with persisted := persistManagerQueue s.queue s.persisted }

/-- `active_download_slot_count` -/
def State.slotCount (s : State) : Nat :=
  let fileSlots := (s.active.map fun entry => max entry.files.length 1).sum
  if fileSlots > 0 then fileSlots else s.batches.length

/-- The user lets the files go that do not stay. -/
def State.retain (s : State) (keep : MsFileEntry → Bool) : State :=
  { s with
    queue := retainFiles keep s.queue
    active := retainFiles keep s.active
    released := s.released ++ droppedTasks keep s.persisted ++ droppedTasks keep s.active }

/-- The operations of the manager that change a collection, each under its locks from
first to last. -/
inductive Step where
  /-- `enqueue_download_queue`, of an entry that it accepts. -/
  | enqueue (entry : PersistedQueueEntry)
  /-- `process_download_queue_inner` -/
  | start (limit : Nat)
  /-- `update_manager_file_state` -/
  | patch (taskId : String) (patch : FileStatePatch)
  /-- The retry hand-off of a batch. -/
  | retry (id : String)
  /-- The end of a batch; the keys of the flags that are set. -/
  | finish (id : String) (error : Option String) (cancelFlags pauseFlags : List String)
  /-- `pause_file_download` -/
  | pause (taskId : String) (runId : Option String) (newId : String)
  /-- `pause_all_downloads` -/
  | pauseAll (activeRunIds : List String)
  /-- `resume_download_task` -/
  | resume (taskId newId : String) (addedAt : Nat) (uuids : Uuids)
  /-- `resume_all_downloads` -/
  | resumeAll (uuids : Uuids)
  /-- `remove_download_queue_entry` -/
  | removeEntry (id : String)
  /-- `remove_manager_file` -/
  | removeTask (taskId : String)
  /-- `clear_download_tasks_by_status` -/
  | clear (statuses : List String)
  /-- `cancel_all_downloads` -/
  | cancelAll

def enqueue (entry : PersistedQueueEntry) (s : State) : State :=
  let entry := enqueued entry
  if entry.files = [] ∨ entry.id ∈ entryIds s.queue then s
  else
    { s with
      queue := s.queue ++ [entry]
      accepted := s.accepted ++ entry.tasks }.persist

def processDownloadQueueInner (limit : Nat) (s : State) : State :=
  if limit ≤ s.slotCount then s
  else match s.queue.filter isRestoreRunnable with
    | [] => if s.queue = [] then s else { s with queue := [] }.persist
    | entry :: queue =>
      { s with
        queue
        active := putEntry (started entry) s.active
        batches := s.batches ++ [entry.id] }.persist

def updateManagerFileState (taskId : String) (patch : FileStatePatch) (s : State) : State :=
  if taskId ∈ taskIds s.active then
    { s with active := updateFileState taskId patch false s.active }
  else if taskId ∈ taskIds s.queue then
    { s with queue := updateFileState taskId patch false s.queue }.persist
  else s

def retry (id : String) (s : State) : Option State :=
  match s.active.find? (·.id = id) with
  | none => some { s with batches := s.batches.filter (· ≠ id) }
  | some entry =>
    if entry.retries < entry.maxRetries ∧
        (retried entry).files.any (fun file => !isTerminalDownloadFile file) then
      some { s with
        batches := s.batches.filter (· ≠ id)
        active := removeEntry id s.active
        queue := retried entry :: s.queue }.persist
    else none

def finish (id : String) (error : Option String) (cancelFlags pauseFlags : List String)
    (s : State) : State :=
  match s.active.find? (·.id = id) with
  | none => { s with batches := s.batches.filter (· ≠ id) }
  | some entry =>
    let entry := settleUnfinished error entry
    let keep := staysRecorded cancelFlags pauseFlags
    { s with
      batches := s.batches.filter (· ≠ id)
      active := removeEntry id s.active
      persisted := persistTerminalEntry keep s.queue entry s.persisted
      released := s.released ++ droppedTasks keep [entry] }

/-- Where no file of the queue is paused, flags are set only. -/
def pauseFileDownload (taskId : String) (runId : Option String) (newId : String) (s : State) :
    State :=
  match takeQueuedFileForPause s.queue newId taskId runId with
  | none => s
  | some (paused, queue) =>
    { s with queue, persisted := removeTaskFromEntries taskId s.persisted ++ [paused] }

def pauseAllDownloads (activeRunIds : List String) (s : State) : State :=
  let queue := s.queue.map pausedEntry
  { s with
    active := markPausing activeRunIds s.active
    persisted := persistManagerQueue queue s.persisted
    queue := queue.filter (·.status ≠ "paused") }

def resumeDownloadTask (taskId newId : String) (addedAt : Nat) (uuids : Uuids) (s : State) :
    State :=
  if taskId ∈ taskIds s.active ∨ taskId ∈ taskIds s.queue then s
  else match findTask taskId s.persisted with
    | none => s
    | some (entry, file) =>
      { s with
        persisted := takeTask taskId false s.persisted
        queue := s.queue ++ [resumedEntry newId addedAt uuids entry file] }.persist

def removeDownloadQueueEntry (id : String) (s : State) : State :=
  { s with
    queue := removeEntry id s.queue
    released := s.released ++
      tasks (s.queue.filter fun entry => entry.id = id ∧ isRuntimeQueued entry) }.persist

def removeManagerFile (taskId : String) (s : State) : State :=
  { s.retain (fun file => file.taskId ≠ some taskId) with
    persisted := removeTaskFromEntries taskId s.persisted }

def clearDownloadTasksByStatus (statuses : List String) (s : State) : State :=
  let t := s.retain fun file => !file.status.any statuses.contains
  { t with
    persisted := (clearTasksByStatus statuses s.persisted).filter
      (fun entry => entry.id ∉ entryIds t.queue) ++ t.queue
    batches := t.batches.filter fun id => id ∉ entryIds s.active ∨ id ∈ entryIds t.active }

def cancelAllDownloads (s : State) : State :=
  let persisted := persistManagerQueue [] s.persisted
  { s with
    queue := []
    persisted := retainFiles isCompletedOrError persisted
    released := s.released ++ tasks (s.persisted.filter isRuntimeQueued) ++
      droppedTasks isCompletedOrError persisted }

def next (s : State) : Step → Option State
  | .enqueue entry => some (enqueue entry s)
  | .start limit => some (processDownloadQueueInner limit s)
  | .patch taskId patch => some (updateManagerFileState taskId patch s)
  | .retry id => retry id s
  | .finish id error cancelFlags pauseFlags => some (finish id error cancelFlags pauseFlags s)
  | .pause taskId runId newId => some (pauseFileDownload taskId runId newId s)
  | .pauseAll activeRunIds => some (pauseAllDownloads activeRunIds s)
  | .resume taskId newId addedAt uuids => some (resumeDownloadTask taskId newId addedAt uuids s)
  | .resumeAll uuids =>
    some { s with queue := resumeAllDownloads uuids s.queue s.persisted }.persist
  | .removeEntry id => some (removeDownloadQueueEntry id s)
  | .removeTask taskId => some (removeManagerFile taskId s)
  | .clear statuses => some (clearDownloadTasksByStatus statuses s)
  | .cancelAll => some (cancelAllDownloads s)

def machine : Machine State Step := ⟨start, next⟩

/-! ### What the callers see to -/

/-- The statuses the workers write. -/
def workerStatuses : List String := ["active", "paused", "error", "completed", "cancelled"]

def ids (s : State) : List String := entryIds (s.persisted ++ s.queue ++ s.active)

/-- What the callers see to. An entry that is accepted has retries left, an id of its own and a
task id for every file, and no task id is accepted twice. The worker of a file writes while its
batch is active, and only statuses of its own. A batch that is handed back for a retry has no file
that is being paused, and is not at its last retry (`lastRetry_lost`). The entry of a paused or
resumed file has an id of its own. -/
def Regular (s : State) : Step → Prop
  | .enqueue entry =>
    entry.retries < entry.maxRetries ∧ entry.id ∉ ids s ∧
      (∀ file ∈ entry.files, file.taskId.isSome) ∧
      ((s.accepted ++ entry.tasks).map (·.taskId)).Nodup
  | .patch taskId patch =>
    taskId ∈ taskIds s.active ∧ ∀ status ∈ patch.status, status ∈ workerStatuses
  | .retry id => ∀ entry ∈ s.active, entry.id = id →
      entry.retries + 1 < entry.maxRetries ∧ ∀ file ∈ entry.files, file.status ≠ some "pausing"
  | .pause _ _ newId => newId ∉ ids s
  | .resume _ newId _ _ => newId ∉ ids s
  | _ => True

/-! ### The entries of each place -/

section Entries

variable {e : PersistedQueueEntry} {file : MsFileEntry} {entries : List PersistedQueueEntry}

structure Sound (e : PersistedQueueEntry) : Prop where
  retries : e.retries < e.maxRetries
  files : e.files ≠ []
  named : ∀ file ∈ e.files, file.taskId.isSome
  known : ∀ file ∈ e.files, statusIn fileStatuses file

/-- An entry of `downloads.json` that is not in the queue. -/
structure Resting (e : PersistedQueueEntry) : Prop extends Sound e where
  unqueued : isRuntimeQueued e = false
  paused : e.status = "paused" →
    ∀ file ∈ e.files, statusIn ["queued", "paused", "completed", "cancelled"] file

/-- An entry of the queue. -/
structure Waiting (e : PersistedQueueEntry) : Prop extends Sound e where
  idle : ∀ file ∈ e.files, idle file
  settled : e.Settled
  status : e.status ∈ ["queued", "completed", "cancelled"]

structure Running (e : PersistedQueueEntry) : Prop extends Sound e where
  unqueued : isRuntimeQueued e = false

theorem known_of_idle (h : idle file) : statusIn fileStatuses file :=
  h.mono (by simp [fileStatuses])

theorem Sound.settled (h : Sound e) : Sound e.settled := ⟨h.retries, h.files, h.named, h.known⟩

theorem Resting.of_settled (h : Sound e) (unqueued : isRuntimeQueued e = false) :
    Resting e.settled where
  toSound := h.settled
  unqueued := isRuntimeQueued_settled unqueued
  paused := statusIn_of_paused h.known

theorem Resting.settled (h : Resting e) : Resting e.settled := .of_settled h.toSound h.unqueued

/-- A batch that waits for its files. -/
theorem Waiting.of_queued (h : Sound e) (files : ∀ file ∈ e.files, Downloads.idle file)
    (queued : e.status = "queued") (some_ : ∃ file ∈ e.files, isTerminalDownloadFile file = false) :
    Waiting e where
  toSound := h
  idle := files
  settled := by
    obtain ⟨file, mem, waits⟩ := some_
    unfold PersistedQueueEntry.Settled
    rw [deriveEntryStatus_idle files, if_neg]
    rintro ⟨-, all⟩
    exact Bool.false_ne_true (waits.symm.trans (List.all_eq_true.mp all file mem))
  status := by simp [queued]

theorem Waiting.unqueued_iff (h : Waiting e) :
    isRuntimeQueued e = false ↔ isRestoreRunnable e = false := by
  have retries := h.retries
  have status := h.status
  simp only [List.mem_cons, List.not_mem_nil, or_false] at status
  rcases status with is_ | is_ | is_ <;> simp [isRuntimeQueued, isRestoreRunnable, is_, retries]

theorem Waiting.resting (h : Waiting e) (unqueued : isRuntimeQueued e = false) : Resting e where
  toSound := h.toSound
  unqueued := unqueued
  paused := by
    intro paused
    have status := h.status
    simp [paused] at status

/-! ### What becomes of them -/

/-- The files that stay. -/
theorem mem_retainFiles {keep : MsFileEntry → Bool} (mem : e ∈ retainFiles keep entries) :
    ∃ before ∈ entries,
      e = ({ before with files := before.files.filter keep } : PersistedQueueEntry).settled ∧
        e.files ≠ [] := by
  obtain ⟨mapped, nonempty⟩ := List.mem_filter.mp mem
  obtain ⟨before, there, rfl⟩ := List.mem_map.mp mapped
  exact ⟨before, there, rfl, by simpa using nonempty⟩

section Retain

variable {keep : MsFileEntry → Bool}

theorem Sound.retain (h : Sound e) (nonempty : e.files.filter keep ≠ []) :
    Sound { e with files := e.files.filter keep } :=
  ⟨h.retries, nonempty, fun file mem => h.named file (List.mem_filter.mp mem).1,
    fun file mem => h.known file (List.mem_filter.mp mem).1⟩

theorem resting_retainFiles (h : ∀ e ∈ entries, Resting e) :
    ∀ e ∈ retainFiles keep entries, Resting e := by
  intro e mem
  obtain ⟨before, there, rfl, nonempty⟩ := mem_retainFiles mem
  exact .of_settled ((h before there).retain nonempty) (h before there).unqueued

theorem running_retainFiles (h : ∀ e ∈ entries, Running e) :
    ∀ e ∈ retainFiles keep entries, Running e := by
  intro e mem
  obtain ⟨before, there, rfl, nonempty⟩ := mem_retainFiles mem
  exact ⟨((h before there).retain nonempty).settled,
    isRuntimeQueued_settled (e := { before with files := before.files.filter keep })
      (h before there).unqueued⟩

theorem waiting_retainFiles (h : ∀ e ∈ entries, Waiting e) :
    ∀ e ∈ retainFiles keep entries, Waiting e := by
  intro e mem
  obtain ⟨before, there, rfl, nonempty⟩ := mem_retainFiles mem
  have waits := h before there
  have files : ∀ file ∈ before.files.filter keep, idle file :=
    fun file mem => waits.idle file (List.mem_filter.mp mem).1
  refine ⟨(waits.retain nonempty).settled, files,
    PersistedQueueEntry.settled_settled _, ?_⟩
  show deriveEntryStatus { before with files := before.files.filter keep } ∈ _
  rw [deriveEntryStatus_idle files]
  split
  · split <;> simp
  · exact waits.status

end Retain

theorem waiting_enqueued (retries : e.retries < e.maxRetries) (files : e.files ≠ [])
    (named : ∀ file ∈ e.files, file.taskId.isSome) : Waiting (enqueued e) := by
  have queued : ∀ file ∈ (enqueued e).files, file.status = some "queued" := by
    intro file mem
    obtain ⟨before, -, rfl⟩ := List.mem_map.mp mem
    rfl
  have idles : ∀ file ∈ (enqueued e).files, idle file :=
    fun file mem => ⟨"queued", by simp, queued file mem⟩
  have some_ : (enqueued e).files ≠ [] := fun none => files (List.map_eq_nil_iff.mp none)
  obtain ⟨first, mem⟩ := List.exists_mem_of_ne_nil _ some_
  refine .of_queued ⟨retries, some_, ?_, fun file mem => known_of_idle (idles file mem)⟩ idles rfl
    ⟨first, mem, by simp [isTerminalDownloadFile, queued first mem]⟩
  intro file mem
  obtain ⟨before, there, rfl⟩ := List.mem_map.mp mem
  exact named before there

theorem running_started (h : Waiting e) : Running (started e) where
  retries := h.retries
  files := fun none => h.files (List.map_eq_nil_iff.mp none)
  named := by
    intro file mem
    obtain ⟨before, there, rfl⟩ := List.mem_map.mp mem
    have named := h.named before there
    split
    · exact named
    · exact named
  known := by
    intro file mem
    obtain ⟨before, there, rfl⟩ := List.mem_map.mp mem
    split
    · exact h.known before there
    · exact ⟨"active", by simp [fileStatuses], rfl⟩
  unqueued := by simp [isRuntimeQueued, started]

/-- A batch is handed back to the queue before its last retry. -/
theorem waiting_retried (h : Running e) (more : e.retries + 1 < e.maxRetries)
    (ended : ∀ file ∈ e.files, file.status ≠ some "pausing")
    (unfinished : (retried e).files.any fun file => !isTerminalDownloadFile file) :
    Waiting (retried e) := by
  have idles : ∀ file ∈ (retried e).files, idle file := by
    intro file mem
    obtain ⟨before, there, rfl⟩ := List.mem_map.mp mem
    split
    · exact ⟨"queued", by simp, rfl⟩
    · next other =>
      obtain ⟨status, known, is_⟩ := h.known before there
      have pausing := ended before there
      simp only [fileStatuses, List.mem_cons, List.not_mem_nil, or_false] at known
      rw [is_] at other pausing
      refine ⟨status, ?_, is_⟩
      rcases known with rfl | rfl | rfl | rfl | rfl | rfl | rfl <;> simp at other pausing ⊢
  obtain ⟨file, mem, waits⟩ := List.any_eq_true.mp unfinished
  refine .of_queued ⟨more, fun none => h.files (List.map_eq_nil_iff.mp none), ?_,
    fun file mem => known_of_idle (idles file mem)⟩ idles rfl ⟨file, mem, by simpa using waits⟩
  intro file mem
  obtain ⟨before, there, rfl⟩ := List.mem_map.mp mem
  have named := h.named before there
  split
  · exact named
  · exact named

theorem sound_settleUnfinished (h : Running e) (error : Option String) :
    Sound (settleUnfinished error e) where
  retries := h.retries
  files := fun none => h.files (List.map_eq_nil_iff.mp none)
  named := by
    intro file mem
    obtain ⟨before, there, rfl⟩ := List.mem_map.mp mem
    have named := h.named before there
    split
    · exact named
    · exact named
  known := by
    intro file mem
    obtain ⟨before, there, rfl⟩ := List.mem_map.mp mem
    split
    · exact ⟨"error", by simp [fileStatuses], rfl⟩
    · exact h.known before there

theorem resting_pausedEntry (h : Waiting e) : Resting (pausedEntry e) := by
  have files : ∀ file ∈ (pausedEntry e).files,
      statusIn ["queued", "paused", "completed", "cancelled"] file := by
    intro file mem
    obtain ⟨before, there, rfl⟩ := List.mem_map.mp mem
    split
    · exact (h.idle before there).mono (by simp)
    · exact ⟨"paused", by simp, rfl⟩
  refine ⟨⟨h.retries, fun none => h.files (List.map_eq_nil_iff.mp none), ?_, ?_⟩, ?_,
    fun _ => files⟩
  · intro file mem
    obtain ⟨before, there, rfl⟩ := List.mem_map.mp mem
    have named := h.named before there
    split
    · exact named
    · exact named
  · exact fun file mem => (files file mem).mono (by simp [fileStatuses])
  · simp [isRuntimeQueued, pausedEntry]

theorem running_markPausing (h : ∀ e ∈ entries, Running e) (activeRunIds : List String) :
    ∀ e ∈ markPausing activeRunIds entries, Running e := by
  intro e mem
  obtain ⟨before, there, rfl⟩ := List.mem_map.mp mem
  have running := h before there
  let marked : PersistedQueueEntry := { before with
    files := before.files.map fun (file : MsFileEntry) =>
      if file.runId.any activeRunIds.contains then { file with status := some "pausing" }
      else file }
  have sound : Sound marked := by
    refine ⟨running.retries, fun none => running.files (List.map_eq_nil_iff.mp none), ?_, ?_⟩
    · intro file mem
      obtain ⟨f, there, rfl⟩ := List.mem_map.mp mem
      have named := running.named f there
      split
      · exact named
      · exact named
    · intro file mem
      obtain ⟨f, there, rfl⟩ := List.mem_map.mp mem
      split
      · exact ⟨"pausing", by simp [fileStatuses], rfl⟩
      · exact running.known f there
  exact ⟨sound.settled, isRuntimeQueued_settled (e := marked) running.unqueued⟩

theorem running_updateFileState {taskId : String} {patch : FileStatePatch}
    (written : ∀ status ∈ patch.status, status ∈ workerStatuses) (h : ∀ e ∈ entries, Running e)
    (changed : Bool) : ∀ e ∈ updateFileState taskId patch changed entries, Running e := by
  induction entries generalizing changed with
  | nil => exact List.forall_mem_nil _
  | cons first entries ih =>
    have running := h first List.mem_cons_self
    have patched : Running { first with
        files := first.files.map fun file =>
          if file.taskId = some taskId then applyFilePatch file patch else file } := by
      refine ⟨⟨running.retries, fun none => running.files (List.map_eq_nil_iff.mp none), ?_, ?_⟩,
        running.unqueued⟩
      · intro file mem
        obtain ⟨f, there, rfl⟩ := List.mem_map.mp mem
        have named := running.named f there
        split
        · exact named
        · exact named
      · intro file mem
        obtain ⟨f, there, rfl⟩ := List.mem_map.mp mem
        have known := running.known f there
        split
        · cases status : patch.status with
          | none => simpa [statusIn, applyFilePatch, status] using known
          | some new =>
            have listed := written new (by simp [status])
            have sub : workerStatuses ⊆ fileStatuses := by simp [workerStatuses, fileStatuses]
            exact ⟨new, sub listed, by simp [applyFilePatch, status]⟩
        · exact known
    intro e mem
    rw [updateFileState] at mem
    rcases List.mem_cons.mp mem with rfl | mem
    · split
      · exact ⟨patched.settled, isRuntimeQueued_settled patched.unqueued⟩
      · exact patched
    · exact ih (fun e mem => h e (List.mem_cons_of_mem _ mem)) _ e mem

end Entries

/-! ### The invariant -/

/-- The entries, each once. -/
def State.all (s : State) (rest : List PersistedQueueEntry) : List PersistedQueueEntry :=
  rest ++ s.queue ++ s.active

structure Held (s : State) (rest : List PersistedQueueEntry) : Prop where
  ids : (entryIds (s.all rest)).Nodup
  resting : ∀ e ∈ rest, Resting e
  waiting : ∀ e ∈ s.queue, Waiting e
  running : ∀ e ∈ s.active, Running e
  accounted : s.accepted.Perm (s.released ++ tasks (s.all rest))
  unique : (s.accepted.map (·.taskId)).Nodup

/-- The file has the entries of the queue and the rest. -/
structure Holds (s : State) (rest : List PersistedQueueEntry) : Prop extends Held s rest where
  disk : s.persisted.Perm (rest ++ s.queue)

section Steps

variable {s : State} {rest : List PersistedQueueEntry}

theorem Held.taskIds_nodup (h : Held s rest) : (taskIds (s.all rest)).Nodup := by
  have ids := (h.accounted.map (·.taskId)).nodup_iff.mp h.unique
  rw [List.map_append, taskIds_eq] at ids
  exact (List.nodup_append.mp ids).2.1

theorem taskIds_append (a b : List PersistedQueueEntry) :
    taskIds (a ++ b) = taskIds a ++ taskIds b := by
  rw [taskIds, allFiles_append, List.filterMap_append]
  rfl

theorem Held.unique_waiting (h : Held s rest) : (entryIds (rest ++ s.queue)).Nodup := by
  have ids := h.ids
  rw [State.all, entryIds, List.map_append] at ids
  exact (List.nodup_append.mp ids).1

theorem Held.unique_active (h : Held s rest) : (entryIds s.active).Nodup := by
  have ids := h.ids
  rw [State.all, entryIds, List.map_append] at ids
  exact (List.nodup_append.mp ids).2.1

theorem Held.apart (h : Held s rest) {e other : PersistedQueueEntry} (mem : e ∈ rest ++ s.queue)
    (active : other ∈ s.active) : e.id ≠ other.id := by
  have ids := h.ids
  rw [State.all, entryIds, List.map_append] at ids
  exact (List.nodup_append.mp ids).2.2 _ (List.mem_map_of_mem mem) _ (List.mem_map_of_mem active)

theorem Held.unique_tasks (h : Held s rest) : (taskIds (rest ++ s.queue)).Nodup := by
  have unique := h.taskIds_nodup
  rw [State.all, taskIds_append] at unique
  exact (List.nodup_append.mp unique).1

theorem Holds.unique_persisted (h : Holds s rest) : (entryIds s.persisted).Nodup :=
  (h.disk.map _).nodup_iff.mpr h.unique_waiting

/-- The queue is written. -/
theorem Held.persist (kept gone : List PersistedQueueEntry) (h : Held s kept)
    (disk : s.persisted.Perm (kept ++ gone))
    (waiting : ∀ e ∈ gone, isRuntimeQueued e = true ∨ e.id ∈ entryIds s.queue) :
    Holds s.persist (kept.map (·.settled)) := by
  refine ⟨⟨?_, ?_, h.waiting, h.running, ?_, h.unique⟩, ?_⟩
  · have same : entryIds (s.persist.all (kept.map (·.settled))) = entryIds (s.all kept) := by
      simp [State.all, State.persist, PersistedQueueEntry.settled, Function.comp_def]
    rw [same]
    exact h.ids
  · intro e mem
    obtain ⟨before, there, rfl⟩ := List.mem_map.mp mem
    exact (h.resting before there).settled
  · have same : tasks (s.persist.all (kept.map (·.settled))) = tasks (s.all kept) := by
      simp only [State.all, State.persist, tasks_append]
      rw [tasks_settled]
    rw [same]
    exact h.accounted
  · exact persistManagerQueue_perm disk h.unique_waiting h.unique_tasks
      (fun e mem => ⟨(h.resting e mem).unqueued, (h.resting e mem).files⟩) waiting

theorem holds_start : Holds start [] :=
  ⟨⟨List.nodup_nil, List.forall_mem_nil _, List.forall_mem_nil _, List.forall_mem_nil _,
    List.Perm.refl _, List.nodup_nil⟩, List.Perm.refl _⟩

theorem not_mem_ids (h : Holds s rest) {id : String} (new : id ∉ ids s) :
    id ∉ entryIds (s.all rest) := by
  intro mem
  have sub : (entryIds (s.all rest)).Subset (ids s) := by
    have disk := h.disk
    intro id mem
    simp only [State.all, List.map_append, List.mem_append] at mem
    simp only [ids, List.map_append, List.mem_append]
    refine mem.imp_left fun mem => ?_
    rcases mem with mem | mem
    · refine Or.inl (((disk.map (·.id)).mem_iff).mpr ?_)
      rw [List.map_append]
      exact List.mem_append_left _ mem
    · exact Or.inr mem
  exact new (sub mem)

end Steps

end LlamaServerManager.Downloads.Manager
