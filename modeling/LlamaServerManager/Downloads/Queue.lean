import LlamaServerManager.Downloads.Inflight

/-!
The queue of the downloads (`commands/download.rs`): the batches that wait (`download_queue`), those
that run (`download_active_entries`) and what is kept of them in `downloads.json`
(`persist_manager_queue`, `persist_terminal_entry`), as functions on lists of entries; and the tasks
of a list of entries, which these functions move.

* `persistManagerQueue_perm` — what the file holds after the queue was written to it.
-/

namespace LlamaServerManager.Downloads

variable {e entry : PersistedQueueEntry} {entries queue persisted : List PersistedQueueEntry}

/-! ### The entries of the queue -/

def isRuntimeQueued (entry : PersistedQueueEntry) : Bool :=
  entry.status = "" ∨ entry.status = "queued"

def isRestoreRunnable (entry : PersistedQueueEntry) : Bool :=
  (entry.status = "" ∨ entry.status = "queued" ∨ entry.status = "active") ∧
    entry.retries < entry.maxRetries

abbrev entryIds (entries : List PersistedQueueEntry) : List String :=
  entries.map fun entry => entry.id

/-- `persist_manager_queue` -/
def persistManagerQueue (queue persisted : List PersistedQueueEntry) : List PersistedQueueEntry :=
  let persisted := persisted.filter fun entry => !isRuntimeQueued entry
  let persisted := persisted.filter fun entry => entry.id ∉ entryIds queue
  remaining (taskIds queue) persisted ++ queue

/-- The new ids of the files that one call refreshes. -/
structure Uuids where
  taskId : MsFileEntry → String
  runId : MsFileEntry → String

def refreshDownloadFileIdentity (uuids : Uuids) (file : MsFileEntry) : MsFileEntry :=
  { file with
    taskId := some (file.taskId.getD (uuids.taskId file))
    runId := some (uuids.runId file)
    version := some (file.version.getD 0 + 1)
    status := some "queued"
    error := none }

def isPaused (file : MsFileEntry) : Bool :=
  file.status = some "paused" ∨ file.status = some "pausing"

/-- `refresh_paused_entry_for_resume`; `none` where it finds no file. -/
def refreshPausedEntryForResume (uuids : Uuids) (entry : PersistedQueueEntry) :
    Option PersistedQueueEntry :=
  if entry.files.any isPaused then
    some { entry with
      files := entry.files.map fun file =>
        if isPaused file then refreshDownloadFileIdentity uuids file else file
      status := "queued" }
  else none

/-- The loop of `resume_all_downloads` over what is persisted. -/
def resumeAllDownloads (uuids : Uuids) (runtime : List PersistedQueueEntry) :
    List PersistedQueueEntry → List PersistedQueueEntry
  | [] => runtime
  | entry :: entries =>
    if entry.status = "paused" ∧ entry.id ∉ entryIds runtime then
      resumeAllDownloads uuids
        (runtime ++ (refreshPausedEntryForResume uuids entry).toList) entries
    else resumeAllDownloads uuids runtime entries

def hasTask (taskId : String) (file : MsFileEntry) : Bool := file.taskId = some taskId

/-- The file `resume_download_task` takes, and the entry it is of. -/
def findTask (taskId : String) (entries : List PersistedQueueEntry) :
    Option (PersistedQueueEntry × MsFileEntry) :=
  entries.findSome? fun entry => (entry.files.find? (hasTask taskId)).map (entry, ·)

/-- What it leaves of the entries; `taken` once it has the file. -/
def takeTask (taskId : String) : Bool → List PersistedQueueEntry → List PersistedQueueEntry
  | _, [] => []
  | taken, entry :: entries =>
    let found := entry.files.any (hasTask taskId)
    let kept :=
      if found then
        (if taken then entry
          else { entry with files := entry.files.eraseP (hasTask taskId) }).settled
      else entry
    (if kept.files.isEmpty then [] else [kept]) ++ takeTask taskId (taken || found) entries

def resumedEntry (id : String) (addedAt : Nat) (uuids : Uuids) (entry : PersistedQueueEntry)
    (file : MsFileEntry) : PersistedQueueEntry where
  id := id
  repoId := entry.repoId
  source := entry.source
  files := [refreshDownloadFileIdentity uuids file]
  saveDir := entry.saveDir
  addedAt := addedAt
  status := "queued"
  retries := entry.retries
  maxRetries := entry.maxRetries

/-- The file `pause_file_download` takes out of the queue. -/
def isPausable (taskId : String) (runId : Option String) (file : MsFileEntry) : Bool :=
  file.taskId = some taskId ∧ (runId = none ∨ file.runId = runId) ∧ !isTerminalDownloadFile file

/-- The entry the file becomes. -/
def pausedFile (newId : String) (entry : PersistedQueueEntry) (file : MsFileEntry) :
    PersistedQueueEntry :=
  { entry with
    id := newId
    files := [{ file with status := some "paused" }]
    status := "paused" }

/-- `take_queued_file_for_pause`, before the entries without files go. -/
def takeQueuedFile (pausable : MsFileEntry → Bool) (newId : String) :
    List PersistedQueueEntry → Option (PersistedQueueEntry × List PersistedQueueEntry)
  | [] => none
  | entry :: entries =>
    match entry.files.find? pausable with
    | some file =>
      some (pausedFile newId entry file,
        { entry with files := entry.files.eraseP pausable }.settled :: entries)
    | none => (takeQueuedFile pausable newId entries).map fun (paused, entries) =>
      (paused, entry :: entries)

def takeQueuedFileForPause (queue : List PersistedQueueEntry) (newId taskId : String)
    (runId : Option String) : Option (PersistedQueueEntry × List PersistedQueueEntry) :=
  (takeQueuedFile (isPausable taskId runId) newId queue).map fun (paused, queue) =>
    (paused, queue.filter fun entry => !entry.files.isEmpty)

/-- What `enqueue_download_queue` makes of an entry. -/
def enqueued (entry : PersistedQueueEntry) : PersistedQueueEntry :=
  { entry with
    status := "queued"
    files := entry.files.map fun file =>
      { file with version := some (file.version.getD 0), status := some "queued", error := none } }

/-- What `process_download_queue_inner` makes of an entry. -/
def started (entry : PersistedQueueEntry) : PersistedQueueEntry :=
  { entry with
    files := entry.files.map fun file =>
      if isTerminalDownloadFile file then file
      else { file with status := some "active", error := none }
    status := "active" }

/-- What the retry hand-off makes of an entry. -/
def retried (entry : PersistedQueueEntry) : PersistedQueueEntry :=
  { entry with
    retries := entry.retries + 1
    status := "queued"
    files := entry.files.map fun file =>
      if file.status = some "error" ∨ file.status = some "paused" ∨ file.status = some "active" then
        { file with status := some "queued", error := none }
      else file }

/-- `settle_unfinished_download_files` -/
def settleUnfinished (error : Option String) (entry : PersistedQueueEntry) : PersistedQueueEntry :=
  let settle (file : MsFileEntry) : MsFileEntry :=
    if file.status = some "active" ∨ file.status = some "queued" then
      { file with
        status := some "error"
        error := some (error.getD "Download worker exited without a final result") }
    else file
  { entry with files := entry.files.map settle }.settled

/-- `cleanup_requested`; the keys whose flags are set. -/
def cleanupRequested (cancelFlags pauseFlags : List String) (file : MsFileEntry) : Bool :=
  (file.runId.or file.taskId).any fun key => cancelFlags.contains key && !pauseFlags.contains key

/-- The files whose records `persist_terminal_entry` keeps. -/
def staysRecorded (cancelFlags pauseFlags : List String) (file : MsFileEntry) : Bool :=
  file.status ≠ some "cancelled" && !cleanupRequested cancelFlags pauseFlags file

/-- `persist_terminal_entry` -/
def persistTerminalEntry (keep : MsFileEntry → Bool) (queue : List PersistedQueueEntry)
    (entry : PersistedQueueEntry) (persisted : List PersistedQueueEntry) :
    List PersistedQueueEntry :=
  let entry := { entry with files := entry.files.filter keep }
  let persisted := persisted.filter fun saved => saved.id ≠ entry.id ∧ saved.id ∉ entryIds queue
  persisted ++ queue ++ (if entry.files.isEmpty then [] else [entry.settled])

/-- What `pause_all_downloads` makes of an entry of the queue. -/
def pausedEntry (entry : PersistedQueueEntry) : PersistedQueueEntry :=
  { entry with
    status := "paused"
    files := entry.files.map fun file =>
      if isTerminalDownloadFile file then file else { file with status := some "paused" } }

/-- The files `retain_cancel_all_terminal_entries` keeps. -/
def isCompletedOrError (file : MsFileEntry) : Bool :=
  file.status = some "completed" ∨ file.status = some "error"

/-! ### The status of an entry -/

/-- The statuses of files. -/
def fileStatuses : List String :=
  ["queued", "active", "pausing", "paused", "error", "completed", "cancelled"]

def statusIn (statuses : List String) (file : MsFileEntry) : Prop :=
  ∃ status ∈ statuses, file.status = some status

theorem statusIn.mono {some_ more : List String} {file : MsFileEntry}
    (h : statusIn some_ file) (sub : some_ ⊆ more) : statusIn more file := by
  obtain ⟨status, mem, is_⟩ := h
  exact ⟨status, sub mem, is_⟩

/-- What the files do not say stays. -/
theorem deriveEntryStatus_cases (entry : PersistedQueueEntry) :
    deriveEntryStatus entry ∈ ["active", "error", "paused", "completed", "cancelled"] ∨
      deriveEntryStatus entry = entry.status := by
  unfold deriveEntryStatus
  split
  · simp
  · split
    · simp
    · split
      · simp
      · split
        · split <;> simp
        · exact Or.inr rfl

theorem isRuntimeQueued_settled (idle : isRuntimeQueued e = false) :
    isRuntimeQueued e.settled = false := by
  unfold isRuntimeQueued PersistedQueueEntry.settled at *
  rcases deriveEntryStatus_cases e with known | same
  · simp only [List.mem_cons, List.not_mem_nil, or_false] at known
    rcases known with h | h | h | h | h <;> simp [h]
  · rwa [show ({ e with status := deriveEntryStatus e } : PersistedQueueEntry).status = e.status
      from same]

/-- An entry that is paused has no file that runs or that failed. -/
theorem statusIn_of_paused (known : ∀ file ∈ e.files, statusIn fileStatuses file)
    (paused : deriveEntryStatus e = "paused") :
    ∀ file ∈ e.files, statusIn ["queued", "paused", "completed", "cancelled"] file := by
  have running : e.files.any
      (fun file => file.status = some "active" ∨ file.status = some "pausing") = false := by
    by_contra some_
    rw [Bool.not_eq_false] at some_
    rw [deriveEntryStatus, if_pos some_] at paused
    exact absurd paused (by decide)
  have failed : e.files.any (fun file => file.status = some "error") = false := by
    by_contra some_
    rw [Bool.not_eq_false] at some_
    rw [deriveEntryStatus, if_neg (by rw [running]; exact Bool.false_ne_true), if_pos some_]
      at paused
    exact absurd paused (by decide)
  intro file mem
  obtain ⟨status, listed, is_⟩ := known file mem
  have quiet := List.any_eq_false.mp running file mem
  have sound := List.any_eq_false.mp failed file mem
  rw [is_] at quiet sound
  refine ⟨status, ?_, is_⟩
  simp only [fileStatuses, List.mem_cons, List.not_mem_nil, or_false] at listed ⊢
  rcases listed with rfl | rfl | rfl | rfl | rfl | rfl | rfl <;> simp at quiet sound ⊢

/-- The statuses of the files of the queue. -/
abbrev idle : MsFileEntry → Prop := statusIn ["queued", "completed", "cancelled"]

theorem deriveEntryStatus_idle (files : ∀ file ∈ e.files, idle file) :
    deriveEntryStatus e =
      if e.files ≠ [] ∧ e.files.all isTerminalDownloadFile then
        if e.files.all fun file => file.status = some "completed" then "completed" else "cancelled"
      else e.status := by
  have none_ (p : MsFileEntry → Bool) (not : ∀ file, idle file → p file = false) :
      ¬ e.files.any p = true := by
    rw [List.any_eq_true]
    rintro ⟨file, mem, held⟩
    exact Bool.false_ne_true ((not file (files file mem)).symm.trans held)
  have split (p : MsFileEntry → Bool) (not : ∀ status ∈ ["queued", "completed", "cancelled"],
      ∀ file : MsFileEntry, file.status = some status → p file = false) : ¬ e.files.any p = true :=
    none_ p fun file ⟨status, mem, is_⟩ => not status mem file is_
  rw [deriveEntryStatus, if_neg (split _ ?_), if_neg (split _ ?_), if_neg (split _ ?_)]
  all_goals
    intro status mem file is_
    simp only [List.mem_cons, List.not_mem_nil, or_false] at mem
    rcases mem with rfl | rfl | rfl <;> simp [is_]

/-! ### Tasks -/

/-- A task, and what is to be downloaded for it. -/
structure DownloadTask where
  taskId : String
  repoId : String
  source : String
  saveDir : String
  name : String
  path : String
deriving DecidableEq, Repr

def PersistedQueueEntry.task (entry : PersistedQueueEntry) (file : MsFileEntry) :
    Option DownloadTask :=
  file.taskId.map fun id => ⟨id, entry.repoId, entry.source, entry.saveDir, file.name, file.path⟩

def PersistedQueueEntry.tasks (entry : PersistedQueueEntry) : List DownloadTask :=
  entry.files.filterMap entry.task

def tasks (entries : List PersistedQueueEntry) : List DownloadTask :=
  entries.flatMap PersistedQueueEntry.tasks

@[simp] theorem tasks_nil : tasks [] = [] := rfl

@[simp] theorem tasks_cons : tasks (e :: entries) = e.tasks ++ tasks entries := rfl

@[simp] theorem tasks_append (a b : List PersistedQueueEntry) :
    tasks (a ++ b) = tasks a ++ tasks b := List.flatMap_append

theorem tasks_perm {a b : List PersistedQueueEntry} (h : a.Perm b) : (tasks a).Perm (tasks b) :=
  h.flatMap_right _

theorem taskIds_eq (entries : List PersistedQueueEntry) :
    (tasks entries).map (·.taskId) = taskIds entries := by
  induction entries with
  | nil => rfl
  | cons e entries ih =>
    have first : e.tasks.map (·.taskId) = e.files.filterMap fun file => file.taskId := by
      unfold PersistedQueueEntry.tasks
      rw [List.map_filterMap]
      refine List.filterMap_congr fun file _ => ?_
      cases h : file.taskId <;> simp [PersistedQueueEntry.task, h]
    rw [tasks_cons, List.map_append, ih, first, taskIds, taskIds, allFiles_cons,
      List.filterMap_append]

/-- The entries are changed in what is no part of their tasks. -/
theorem tasks_map {f : PersistedQueueEntry → PersistedQueueEntry}
    (same : ∀ e ∈ entries, (f e).tasks = e.tasks) : tasks (entries.map f) = tasks entries := by
  unfold tasks
  rw [List.flatMap_map]
  exact List.flatMap_congr same

theorem filterMap_task {f : MsFileEntry → MsFileEntry}
    (same : ∀ file ∈ e.files, e.task (f file) = e.task file) :
    (e.files.map f).filterMap e.task = e.tasks := by
  rw [List.filterMap_map]
  exact List.filterMap_congr same

theorem tasks_settled (entries : List PersistedQueueEntry) :
    tasks (entries.map (·.settled)) = tasks entries :=
  tasks_map (f := PersistedQueueEntry.settled) fun _ _ => rfl

theorem tasks_enqueued : (enqueued e).tasks = e.tasks := by
  refine filterMap_task (e := e) fun file _ => ?_
  rfl

theorem tasks_started : (started e).tasks = e.tasks := by
  refine filterMap_task (e := e) fun file _ => ?_
  split <;> rfl

theorem tasks_retried : (retried e).tasks = e.tasks := by
  refine filterMap_task (e := e) fun file _ => ?_
  split <;> rfl

theorem tasks_pausedEntry : (pausedEntry e).tasks = e.tasks := by
  refine filterMap_task (e := e) fun file _ => ?_
  split <;> rfl

theorem tasks_settleUnfinished {error : Option String} :
    (settleUnfinished error e).tasks = e.tasks := by
  refine filterMap_task (e := e) fun file _ => ?_
  split <;> rfl

theorem tasks_markPausing (activeRunIds : List String) (entries : List PersistedQueueEntry) :
    tasks (markPausing activeRunIds entries) = tasks entries := by
  refine tasks_map fun e _ => filterMap_task (e := e) fun file _ => ?_
  split <;> rfl

theorem tasks_updateFileState (taskId : String) (patch : FileStatePatch) (changed : Bool)
    (entries : List PersistedQueueEntry) :
    tasks (updateFileState taskId patch changed entries) = tasks entries := by
  induction entries generalizing changed with
  | nil => rfl
  | cons first entries ih =>
    rw [updateFileState, tasks_cons, tasks_cons, ih]
    congr 1
    have patched : (first.files.map fun file =>
        if file.taskId = some taskId then applyFilePatch file patch else file).filterMap
          first.task = first.tasks := by
      refine filterMap_task fun file _ => ?_
      split <;> rfl
    split
    · exact patched
    · exact patched

theorem tasks_refresh {uuids : Uuids} {refreshed : PersistedQueueEntry}
    (named : ∀ file ∈ e.files, file.taskId.isSome)
    (h : refreshPausedEntryForResume uuids e = some refreshed) : refreshed.tasks = e.tasks := by
  unfold refreshPausedEntryForResume at h
  split at h
  · obtain rfl := Option.some.inj h
    refine filterMap_task (e := e) fun file mem => ?_
    split
    · obtain ⟨id, found⟩ := Option.isSome_iff_exists.mp (named file mem)
      simp [PersistedQueueEntry.task, refreshDownloadFileIdentity, found]
    · rfl
  · cases h

theorem tasks_nonempty (entries : List PersistedQueueEntry) :
    tasks (entries.filter fun entry => !entry.files.isEmpty) = tasks entries := by
  induction entries with
  | nil => rfl
  | cons e entries ih =>
    cases files : e.files with
    | nil => simp [PersistedQueueEntry.tasks, files, ih]
    | cons file more => simp [files, ih]

/-- The tasks of the files that do not stay. -/
def droppedTasks (keep : MsFileEntry → Bool) (entries : List PersistedQueueEntry) :
    List DownloadTask :=
  entries.flatMap fun entry => (entry.files.filter fun file => !keep file).filterMap entry.task

@[simp] theorem droppedTasks_append (keep : MsFileEntry → Bool) (a b : List PersistedQueueEntry) :
    droppedTasks keep (a ++ b) = droppedTasks keep a ++ droppedTasks keep b := List.flatMap_append

theorem droppedTasks_perm (keep : MsFileEntry → Bool) {a b : List PersistedQueueEntry}
    (h : a.Perm b) : (droppedTasks keep a).Perm (droppedTasks keep b) :=
  h.flatMap_right _

/-- The tasks of the files that stay and of those that do not. -/
theorem tasks_retainFiles (keep : MsFileEntry → Bool) (entries : List PersistedQueueEntry) :
    (tasks (retainFiles keep entries) ++ droppedTasks keep entries).Perm (tasks entries) := by
  have kept : tasks (retainFiles keep entries) =
      entries.flatMap fun e => (e.files.filter keep).filterMap e.task := by
    unfold retainFiles
    rw [tasks_nonempty, tasks, List.flatMap_map]
    rfl
  rw [kept]
  refine (List.flatMap_append_perm _ _ _).trans (List.Perm.flatMap_left _ fun e _ => ?_)
  rw [← List.filterMap_append]
  exact (List.filter_append_perm keep e.files).filterMap _

/-! ### The files that stay -/

theorem entryIds_retainFiles (keep : MsFileEntry → Bool) (entries : List PersistedQueueEntry) :
    (entryIds (retainFiles keep entries)).Sublist (entryIds entries) := by
  have filtered := (List.filter_sublist (p := fun e : PersistedQueueEntry => !e.files.isEmpty)
    (l := entries.map fun e => ({ e with files := e.files.filter keep } :
      PersistedQueueEntry).settled)).map (·.id)
  rwa [List.map_map] at filtered

theorem retainFiles_append (keep : MsFileEntry → Bool) (a b : List PersistedQueueEntry) :
    retainFiles keep (a ++ b) = retainFiles keep a ++ retainFiles keep b := by
  simp [retainFiles]

theorem retainFiles_perm (keep : MsFileEntry → Bool) {a b : List PersistedQueueEntry}
    (h : a.Perm b) : (retainFiles keep a).Perm (retainFiles keep b) :=
  (h.map _).filter _

/-! ### The file -/

theorem dead_of_unique {kept : List PersistedQueueEntry}
    (unique : (taskIds (kept ++ queue)).Nodup) :
    ∀ e ∈ kept, ∀ file ∈ e.files, isLive (taskIds queue) file = false := by
  intro e mem file fileMem
  rw [Bool.eq_false_iff]
  intro live
  obtain ⟨id, queued, found⟩ := isLive_iff.mp live
  have there : id ∈ taskIds kept :=
    List.mem_filterMap.mpr ⟨file, List.mem_flatMap.mpr ⟨e, mem, fileMem⟩, found⟩
  rw [taskIds, allFiles_append, List.filterMap_append] at unique
  exact (List.nodup_append.mp unique).2.2 id there id queued rfl

theorem persistTerminalEntry_eq (keep : MsFileEntry → Bool) :
    persistTerminalEntry keep queue entry persisted =
      persisted.filter (fun saved => saved.id ≠ entry.id ∧ saved.id ∉ entryIds queue) ++ queue ++
        retainFiles keep [entry] := by
  refine congrArg (fun more => persisted.filter
    (fun saved => saved.id ≠ entry.id ∧ saved.id ∉ entryIds queue) ++ queue ++ more) ?_
  show (if (entry.files.filter keep).isEmpty = true then [] else _) =
    List.filter (fun entry : PersistedQueueEntry => !entry.files.isEmpty) [_]
  cases empty : (entry.files.filter keep).isEmpty with
  | true =>
    rw [if_pos rfl, List.filter_cons_of_neg]
    · rfl
    · show ¬ (!(entry.files.filter keep).isEmpty) = true
      rw [empty]
      exact Bool.false_ne_true
  | false =>
    rw [if_neg Bool.false_ne_true, List.filter_cons_of_pos]
    · rfl
    · show (!(entry.files.filter keep).isEmpty) = true
      rw [empty]
      rfl

/-- **What is left of the file, and the queue.** -/
theorem persistManagerQueue_perm {kept gone : List PersistedQueueEntry}
    (disk : persisted.Perm (kept ++ gone)) (ids : (entryIds (kept ++ queue)).Nodup)
    (unique : (taskIds (kept ++ queue)).Nodup)
    (resting : ∀ e ∈ kept, isRuntimeQueued e = false ∧ e.files ≠ [])
    (waiting : ∀ e ∈ gone, isRuntimeQueued e = true ∨ e.id ∈ entryIds queue) :
    (persistManagerQueue queue persisted).Perm (kept.map (·.settled) ++ queue) := by
  refine List.Perm.append_right queue ?_
  rw [List.filter_filter]
  have stays : ∀ e ∈ kept, (decide (e.id ∉ entryIds queue) && !isRuntimeQueued e) = true := by
    intro e mem
    have other : e.id ∉ entryIds queue := fun queued => by
      rw [entryIds, List.map_append] at ids
      exact (List.nodup_append.mp ids).2.2 e.id (List.mem_map_of_mem mem) e.id queued rfl
    simp [other, (resting e mem).1]
  have goes : ∀ e ∈ gone, ¬ (decide (e.id ∉ entryIds queue) && !isRuntimeQueued e) = true := by
    intro e mem
    rcases waiting e mem with queued | queued <;> simp [queued]
  have filtered := disk.filter fun e => decide (e.id ∉ entryIds queue) && !isRuntimeQueued e
  rw [List.filter_append, List.filter_eq_self.mpr stays, List.filter_eq_nil_iff.mpr goes,
    List.append_nil] at filtered
  refine ((filtered.map _).filter _).trans (List.Perm.of_eq ?_)
  have same : ∀ e ∈ kept, withoutLive (taskIds queue) e = e.settled := by
    intro e mem
    have all : e.files.filter (fun file => !isLive (taskIds queue) file) = e.files := by
      apply List.filter_eq_self.mpr
      intro file fileMem
      rw [dead_of_unique unique e mem file fileMem]
      rfl
    unfold withoutLive
    rw [all]
  rw [List.map_congr_left same]
  apply List.filter_eq_self.mpr
  intro e mem
  obtain ⟨before, there, rfl⟩ := List.mem_map.mp mem
  simpa [PersistedQueueEntry.settled] using (resting before there).2

end LlamaServerManager.Downloads
