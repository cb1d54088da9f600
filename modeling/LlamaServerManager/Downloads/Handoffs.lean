import LlamaServerManager.Downloads.Manager

/-!
The steps of the downloads manager that move whole entries: a batch is accepted, started, handed
back for a retry and recorded when it ends; the user removes, clears, cancels and pauses. Each keeps
`Holds` of some rest.
-/

namespace LlamaServerManager.Downloads.Manager

open Lib

section Steps

variable {s t : State} {rest : List PersistedQueueEntry}

theorem holds_enqueue {entry : PersistedQueueEntry} (h : Holds s rest)
    (regular : Regular s (.enqueue entry)) : ∃ rest, Holds (enqueue entry s) rest := by
  obtain ⟨retries, new, named, unique⟩ := regular
  unfold enqueue
  dsimp only
  split
  · exact ⟨rest, h⟩
  · next accepted =>
    have files : entry.files ≠ [] := fun none => accepted (Or.inl (by simp [enqueued, none]))
    have same := tasks_enqueued (e := entry)
    have notMem := not_mem_ids h new
    refine ⟨_, Held.persist rest s.queue ⟨?_, h.resting, ?_, h.running, ?_, ?_⟩
      h.disk ?_⟩
    · have moved : (entryIds (rest ++ (s.queue ++ [enqueued entry]) ++ s.active)).Perm
          (entry.id :: entryIds (s.all rest)) := by
        refine List.perm_iff_count.mpr fun id => ?_
        simp only [State.all, entryIds, List.map_append, List.count_append, List.count_cons,
          List.map_cons, List.map_nil, enqueued, List.count_nil]
        omega
      exact moved.nodup_iff.mpr (List.nodup_cons.mpr ⟨notMem, h.ids⟩)
    · intro e mem
      rcases List.mem_append.mp mem with old | new
      · exact h.waiting e old
      · rw [List.mem_singleton.mp new]
        exact waiting_enqueued retries files named
    · refine List.perm_iff_count.mpr fun task => ?_
      have accounted := h.accounted.count_eq task
      simp only [State.all, tasks_append, List.count_append, tasks_cons, tasks_nil,
        List.append_nil, same] at accounted ⊢
      omega
    · rwa [same]
    · intro e mem
      rw [entryIds, List.map_append]
      exact Or.inr (List.mem_append_left _ (List.mem_map_of_mem mem))

variable {id : String}

theorem removeEntry_of_not_mem {entries : List PersistedQueueEntry}
    (other : id ∉ entryIds entries) : removeEntry id entries = entries := by
  refine List.filter_eq_self.mpr fun e mem => decide_eq_true fun same => other ?_
  exact same ▸ List.mem_map_of_mem mem

/-- The entry of an id, and the others. -/
theorem perm_removeEntry {entry : PersistedQueueEntry} {entries : List PersistedQueueEntry}
    (unique : (entryIds entries).Nodup) (found : entries.find? (·.id = id) = some entry) :
    entries.Perm (entry :: removeEntry id entries) := by
  induction entries with
  | nil => cases found
  | cons first entries ih =>
    obtain ⟨other, unique⟩ := List.nodup_cons.mp unique
    by_cases same : first.id = id
    · rw [List.find?_cons_of_pos (by simpa using same)] at found
      obtain rfl := Option.some.inj found
      have gone : removeEntry id (first :: entries) = removeEntry id entries :=
        List.filter_cons_of_neg (by simpa using same)
      rw [gone, removeEntry_of_not_mem (same ▸ other)]
    · rw [List.find?_cons_of_neg (by simpa using same)] at found
      have stays : removeEntry id (first :: entries) = first :: removeEntry id entries :=
        List.filter_cons_of_pos (by simpa using same)
      rw [stays]
      exact ((ih unique found).cons first).trans (List.Perm.swap entry first _)

theorem holds_start_batch (limit : Nat) (h : Holds s rest) :
    ∃ rest, Holds (processDownloadQueueInner limit s) rest := by
  unfold processDownloadQueueInner
  split
  · exact ⟨rest, h⟩
  · let waits (e : PersistedQueueEntry) := !isRestoreRunnable e
    have parts : (s.queue.filter isRestoreRunnable ++ s.queue.filter waits).Perm s.queue :=
      List.filter_append_perm isRestoreRunnable s.queue
    have dropped : ∀ e ∈ s.queue.filter waits, Resting e := by
      intro e mem
      obtain ⟨mem, stuck⟩ := List.mem_filter.mp mem
      have waiting := h.waiting e mem
      exact waiting.resting (waiting.unqueued_iff.mpr (by simpa [waits] using stuck))
    have resting : ∀ e ∈ rest ++ s.queue.filter waits, Resting e := fun e mem =>
      (List.mem_append.mp mem).elim (h.resting e) (dropped e)
    split
    · next none_ =>
      split
      · exact ⟨rest, h⟩
      · rw [none_, List.nil_append] at parts
        refine ⟨_, Held.persist (rest ++ s.queue.filter waits) []
          ⟨?_, resting, List.forall_mem_nil _, h.running, ?_, h.unique⟩ ?_
          (List.forall_mem_nil _)⟩
        · have moved : (entryIds (rest ++ s.queue.filter waits ++ [] ++ s.active)).Perm
              (entryIds (s.all rest)) := by
            rw [List.append_nil]
            exact ((parts.append_left rest).append_right s.active).map _
          exact moved.nodup_iff.mpr h.ids
        · refine h.accounted.trans (List.Perm.append_left _ (tasks_perm ?_))
          simp only [State.all, List.append_nil]
          exact ((parts.symm.append_left rest).append_right s.active)
        · rw [List.append_nil]
          exact h.disk.trans (parts.symm.append_left rest)
    · next entry queue found =>
      have listed : ∀ e ∈ entry :: queue, e ∈ s.queue ∧ isRestoreRunnable e = true :=
        fun e mem => List.mem_filter.mp (found ▸ mem)
      obtain ⟨there, runnable⟩ := listed entry List.mem_cons_self
      have waiting := h.waiting entry there
      rw [found] at parts
      have other : entry.id ∉ entryIds s.active := by
        intro active
        obtain ⟨running, mem, same⟩ := List.mem_map.mp active
        exact h.apart (List.mem_append_right _ there) mem same.symm
      have put : putEntry (started entry) s.active = s.active ++ [started entry] := by
        unfold putEntry
        rw [show (started entry).id = entry.id from rfl, removeEntry_of_not_mem other]
      rw [put]
      refine ⟨_, Held.persist (rest ++ s.queue.filter waits) (entry :: queue)
        ⟨?_, resting, fun e mem => h.waiting e (listed e (List.mem_cons_of_mem _ mem)).1, ?_, ?_,
          h.unique⟩ ?_ ?_⟩
      · have counted := (parts.map (·.id)).count_eq
        have moved : (entryIds (rest ++ s.queue.filter waits ++ queue ++
            (s.active ++ [started entry]))).Perm (entryIds (s.all rest)) := by
          refine List.perm_iff_count.mpr fun id => ?_
          have counted := counted id
          simp only [State.all, entryIds, List.map_append, List.count_append, List.map_cons,
            List.map_nil, List.cons_append, List.count_cons, List.count_nil, started]
            at counted ⊢
          omega
        exact moved.nodup_iff.mpr h.ids
      · intro e mem
        rcases List.mem_append.mp mem with old | new
        · exact h.running e old
        · rw [List.mem_singleton.mp new]
          exact running_started waiting
      · refine List.perm_iff_count.mpr fun task => ?_
        have accounted := h.accounted.count_eq task
        have counted := (tasks_perm parts).count_eq task
        simp only [State.all, tasks_append, List.count_append, tasks_cons, tasks_nil,
          List.append_nil, tasks_started, List.cons_append] at accounted counted ⊢
        omega
      · refine h.disk.trans (List.perm_iff_count.mpr fun e => ?_)
        have counted := parts.count_eq e
        simp only [List.count_append] at counted ⊢
        omega
      · intro e mem
        rcases List.mem_cons.mp mem with rfl | mem
        · refine Or.inl (Bool.not_eq_false _ ▸ fun unqueued => ?_)
          exact Bool.false_ne_true ((waiting.unqueued_iff.mp unqueued).symm.trans runnable)
        · exact Or.inr (List.mem_map_of_mem mem)

theorem holds_patch {taskId : String} {patch : FileStatePatch} (h : Holds s rest)
    (regular : Regular s (.patch taskId patch)) :
    Holds (updateManagerFileState taskId patch s) rest := by
  obtain ⟨active, written⟩ := regular
  rw [updateManagerFileState, if_pos active]
  refine ⟨⟨?_, h.resting, h.waiting, running_updateFileState written h.running false, ?_, h.unique⟩,
    h.disk⟩
  · have ids := h.ids
    rw [State.all, entryIds, List.map_append] at ids ⊢
    rwa [Inflight.ids_updateFileState]
  · have accounted := h.accounted
    rw [State.all, tasks_append] at accounted ⊢
    rwa [tasks_updateFileState]

theorem holds_retry (h : Holds s rest) (regular : Regular s (.retry id))
    (hn : retry id s = some t) : ∃ rest, Holds t rest := by
  unfold retry at hn
  split at hn
  · obtain rfl := Option.some.inj hn
    exact ⟨rest, ⟨h.ids, h.resting, h.waiting, h.running, h.accounted, h.unique⟩, h.disk⟩
  · next entry found =>
    split at hn
    · next again =>
      obtain rfl := Option.some.inj hn
      have there := List.mem_of_find?_eq_some found
      have same : entry.id = id := by simpa using List.find?_some found
      obtain ⟨more, ended⟩ := regular entry there same
      have parts := perm_removeEntry h.unique_active found
      refine ⟨_, Held.persist rest s.queue
        ⟨?_, h.resting, ?_, fun e mem => h.running e (List.mem_filter.mp mem).1, ?_, h.unique⟩
        h.disk fun e mem => Or.inr (List.mem_cons_of_mem _ (List.mem_map_of_mem mem))⟩
      · have counted := (parts.map (·.id)).count_eq
        have moved : (entryIds (rest ++ (retried entry :: s.queue) ++ removeEntry id s.active)).Perm
            (entryIds (s.all rest)) := by
          refine List.perm_iff_count.mpr fun id => ?_
          have counted := counted id
          simp only [State.all, entryIds, List.map_append, List.count_append, List.map_cons,
            List.count_cons, retried] at counted ⊢
          omega
        exact moved.nodup_iff.mpr h.ids
      · intro e mem
        rcases List.mem_cons.mp mem with rfl | mem
        · exact waiting_retried (h.running entry there) more ended again.2
        · exact h.waiting e mem
      · refine List.perm_iff_count.mpr fun task => ?_
        have accounted := h.accounted.count_eq task
        have counted := (tasks_perm parts).count_eq task
        simp only [State.all, tasks_append, List.count_append, tasks_cons, tasks_retried]
          at accounted counted ⊢
        omega
    · cases hn

/-- The batch ends; what is recorded of it rests. -/
theorem holds_finish_found (error : Option String) (cancelFlags pauseFlags : List String)
    {entry : PersistedQueueEntry} (h : Holds s rest)
    (found : s.active.find? (·.id = id) = some entry) :
    Holds (finish id error cancelFlags pauseFlags s) (rest ++
      retainFiles (staysRecorded cancelFlags pauseFlags) [settleUnfinished error entry]) := by
  let keep := staysRecorded cancelFlags pauseFlags
  let settled := settleUnfinished error entry
  let recorded := retainFiles keep [settled]
  rw [finish, found]
  have there := List.mem_of_find?_eq_some found
  have sound := sound_settleUnfinished (h.running entry there) error
  have unqueued : isRuntimeQueued settled = false :=
    isRuntimeQueued_settled (h.running entry there).unqueued
  have apart : ∀ e ∈ rest, e.id ≠ settled.id ∧ e.id ∉ entryIds s.queue := by
    intro e mem
    have waiting := h.unique_waiting
    rw [entryIds, List.map_append] at waiting
    have other : e.id ≠ entry.id := h.apart (List.mem_append_left _ mem) there
    refine ⟨other, fun queued => ?_⟩
    exact (List.nodup_append.mp waiting).2.2 e.id (List.mem_map_of_mem mem) e.id queued rfl
  have parts := perm_removeEntry h.unique_active found
  refine ⟨⟨?_, ?_, h.waiting, fun e mem => h.running e (List.mem_filter.mp mem).1, ?_,
    h.unique⟩, ?_⟩
  · have named : (entryIds recorded).Sublist [entry.id] := entryIds_retainFiles keep [settled]
    have moved : (entryIds (rest ++ s.queue ++ removeEntry id s.active) ++ [entry.id]).Perm
        (entryIds (s.all rest)) := by
      refine List.perm_iff_count.mpr fun other => ?_
      have counted := (parts.map (·.id)).count_eq other
      simp only [State.all, entryIds, List.map_append, List.count_append, List.map_cons,
        List.count_cons, List.count_nil] at counted ⊢
      omega
    have nodup := (moved.nodup_iff.mpr h.ids).sublist ((List.Sublist.refl _).append named)
    have again : (entryIds (rest ++ s.queue ++ removeEntry id s.active) ++ entryIds recorded).Perm
        (entryIds (rest ++ recorded ++ s.queue ++ removeEntry id s.active)) := by
      refine List.perm_iff_count.mpr fun other => ?_
      simp only [entryIds, List.map_append, List.count_append]
      omega
    exact again.nodup_iff.mp nodup
  · intro e mem
    rcases List.mem_append.mp mem with old | new
    · exact h.resting e old
    · obtain ⟨before, listed, rfl, nonempty⟩ := mem_retainFiles new
      obtain rfl := List.mem_singleton.mp listed
      exact .of_settled (sound.retain nonempty) unqueued
  · refine List.perm_iff_count.mpr fun task => ?_
    have accounted := h.accounted.count_eq task
    have counted := (tasks_perm parts).count_eq task
    have split := (tasks_retainFiles keep [settled]).count_eq task
    simp only [State.all, tasks_append, List.count_append, tasks_cons, tasks_nil,
      List.append_nil, keep, settled, tasks_settleUnfinished]
      at accounted counted split ⊢
    omega
  · show (persistTerminalEntry keep s.queue settled s.persisted).Perm _
    rw [persistTerminalEntry_eq]
    have stays : ∀ e ∈ rest, decide (e.id ≠ settled.id ∧ e.id ∉ entryIds s.queue) = true :=
      fun e mem => decide_eq_true (apart e mem)
    have goes : ∀ e ∈ s.queue, ¬ decide (e.id ≠ settled.id ∧ e.id ∉ entryIds s.queue) = true :=
      fun e mem => by simp [List.mem_map_of_mem mem]
    have filtered := h.disk.filter fun saved =>
      saved.id ≠ settled.id ∧ saved.id ∉ entryIds s.queue
    rw [List.filter_append, List.filter_eq_self.mpr stays, List.filter_eq_nil_iff.mpr goes,
      List.append_nil] at filtered
    refine List.perm_iff_count.mpr fun e => ?_
    have counted := filtered.count_eq e
    simp only [List.count_append, settled, keep] at counted ⊢
    omega

theorem holds_finish {error : Option String} {cancelFlags pauseFlags : List String}
    (h : Holds s rest) : ∃ rest, Holds (finish id error cancelFlags pauseFlags s) rest := by
  cases found : s.active.find? (·.id = id) with
  | none =>
    rw [finish, found]
    exact ⟨rest, ⟨h.ids, h.resting, h.waiting, h.running, h.accounted, h.unique⟩, h.disk⟩
  | some entry => exact ⟨_, holds_finish_found error cancelFlags pauseFlags h found⟩

/-! ### What the user lets go -/

section Retain

variable (keep : MsFileEntry → Bool)

/-- The files go from every place. -/
theorem held_retain (h : Holds s rest) (persisted : List PersistedQueueEntry)
    (batches : List String) :
    Held { s.retain keep with persisted, batches } (retainFiles keep rest) := by
  refine ⟨?_, resting_retainFiles h.resting, waiting_retainFiles h.waiting,
    running_retainFiles h.running, ?_, h.unique⟩
  · have sub := entryIds_retainFiles keep (s.all rest)
    rw [State.all, retainFiles_append, retainFiles_append] at sub
    exact h.ids.sublist sub
  · refine List.perm_iff_count.mpr fun task => ?_
    have accounted := h.accounted.count_eq task
    have split := (tasks_retainFiles keep (s.all rest)).count_eq task
    have disk := (droppedTasks_perm keep h.disk).count_eq task
    simp only [State.all, State.retain, retainFiles_append, droppedTasks_append, tasks_append,
      List.count_append] at accounted split disk ⊢
    omega

end Retain

/-- What is in the file and not in the queue. -/
theorem filter_unqueued {rest queue : List PersistedQueueEntry}
    (ids : (entryIds (rest ++ queue)).Nodup) :
    (rest ++ queue).filter (fun e => e.id ∉ entryIds queue) = rest := by
  rw [entryIds, List.map_append] at ids
  have apart : ∀ e ∈ rest, decide (e.id ∉ entryIds queue) = true := fun e mem =>
    decide_eq_true fun queued =>
      (List.nodup_append.mp ids).2.2 e.id (List.mem_map_of_mem mem) e.id queued rfl
  have queued : ∀ e ∈ queue, ¬ decide (e.id ∉ entryIds queue) = true := fun e mem => by
    simp [List.mem_map_of_mem mem]
  rw [List.filter_append, List.filter_eq_self.mpr apart, List.filter_eq_nil_iff.mpr queued,
    List.append_nil]

theorem holds_removeTask {taskId : String} (h : Holds s rest) :
    Holds (removeManagerFile taskId s)
      (retainFiles (fun file => file.taskId ≠ some taskId) rest) := by
  refine ⟨held_retain _ h _ _, ?_⟩
  have disk := retainFiles_perm (fun file => decide (file.taskId ≠ some taskId)) h.disk
  rwa [retainFiles_append] at disk

theorem holds_clear {statuses : List String} (h : Holds s rest) :
    Holds (clearDownloadTasksByStatus statuses s)
      (retainFiles (fun file => !file.status.any statuses.contains) rest) := by
  have held := held_retain (fun file => !file.status.any statuses.contains) h
  refine ⟨held _ _, ?_⟩
  have disk := retainFiles_perm (fun file => !file.status.any statuses.contains) h.disk
  rw [retainFiles_append] at disk
  have unqueued := filter_unqueued (held [] []).unique_waiting
  have filtered := disk.filter fun e => e.id ∉ entryIds
    (retainFiles (fun file => !file.status.any statuses.contains) s.queue)
  exact (filtered.trans (.of_eq unqueued)).append_right _

theorem holds_removeEntry (h : Holds s rest) :
    ∃ rest, Holds (removeDownloadQueueEntry id s) rest := by
  let named (e : PersistedQueueEntry) := decide (e.id = id)
  let recorded := (s.queue.filter named).filter fun e => !isRuntimeQueued e
  let removed := s.queue.filter fun e => e.id = id ∧ isRuntimeQueued e
  have parts : (removeEntry id s.queue ++ recorded ++ removed).Perm s.queue := by
    have first := List.filter_append_perm named s.queue
    have second := List.filter_append_perm isRuntimeQueued (s.queue.filter named)
    rw [List.filter_filter] at second
    have others : s.queue.filter (fun e => !named e) = removeEntry id s.queue :=
      List.filter_congr fun e _ => by simp [named]
    have removes : s.queue.filter (fun e => isRuntimeQueued e && named e) = removed :=
      List.filter_congr fun e _ => by simp [named, Bool.and_comm]
    rw [others] at first
    rw [removes] at second
    refine List.perm_iff_count.mpr fun e => ?_
    have first := first.count_eq e
    have second := second.count_eq e
    simp only [List.count_append, recorded] at first second ⊢
    omega
  have resting : ∀ e ∈ rest ++ recorded, Resting e := by
    intro e mem
    rcases List.mem_append.mp mem with old | new
    · exact h.resting e old
    · obtain ⟨mem, unqueued⟩ := List.mem_filter.mp new
      exact (h.waiting e (List.mem_filter.mp mem).1).resting (by simpa using unqueued)
  refine ⟨_, Held.persist (rest ++ recorded) (removeEntry id s.queue ++ removed)
    ⟨?_, resting, fun e mem => h.waiting e (List.mem_filter.mp mem).1, h.running, ?_, h.unique⟩
    ?_ ?_⟩
  · have moved : (entryIds (rest ++ recorded ++ removeEntry id s.queue ++ s.active) ++
        entryIds removed).Perm (entryIds (s.all rest)) := by
      refine List.perm_iff_count.mpr fun other => ?_
      have counted := (parts.map (·.id)).count_eq other
      simp only [State.all, entryIds, List.map_append, List.count_append] at counted ⊢
      omega
    exact (List.nodup_append.mp (moved.nodup_iff.mpr h.ids)).1
  · refine List.perm_iff_count.mpr fun task => ?_
    have accounted := h.accounted.count_eq task
    have counted := (tasks_perm parts).count_eq task
    simp only [State.all, tasks_append, List.count_append, removed] at accounted counted ⊢
    omega
  · refine h.disk.trans (List.perm_iff_count.mpr fun e => ?_)
    have counted := parts.count_eq e
    simp only [List.count_append] at counted ⊢
    omega
  · intro e mem
    rcases List.mem_append.mp mem with stays | goes
    · exact Or.inr (List.mem_map_of_mem stays)
    · have queued := (List.mem_filter.mp goes).2
      exact Or.inl (of_decide_eq_true queued).2

theorem holds_cancelAll (h : Holds s rest) : ∃ rest, Holds (cancelAllDownloads s) rest := by
  let unqueued (e : PersistedQueueEntry) := !isRuntimeQueued e
  have parts := List.filter_append_perm isRuntimeQueued s.queue
  have disk : s.persisted.Perm
      (rest ++ s.queue.filter unqueued ++ s.queue.filter isRuntimeQueued) := by
    refine h.disk.trans (List.perm_iff_count.mpr fun e => ?_)
    have counted := parts.count_eq e
    simp only [List.count_append, unqueued] at counted ⊢
    omega
  have resting : ∀ e ∈ rest ++ s.queue.filter unqueued, Resting e := by
    intro e mem
    rcases List.mem_append.mp mem with old | new
    · exact h.resting e old
    · obtain ⟨mem, idle⟩ := List.mem_filter.mp new
      exact (h.waiting e mem).resting (by simpa [unqueued] using idle)
  have queued : (s.persisted.filter isRuntimeQueued).Perm (s.queue.filter isRuntimeQueued) := by
    have filtered := h.disk.filter isRuntimeQueued
    rwa [List.filter_append, List.filter_eq_nil_iff.mpr fun e mem =>
      Bool.eq_false_iff.mp (h.resting e mem).unqueued, List.nil_append] at filtered
  let cleared : State := { s with
    queue := []
    released := s.released ++ tasks (s.persisted.filter isRuntimeQueued) }
  have held : Holds cleared.persist ((rest ++ s.queue.filter unqueued).map (·.settled)) := by
    refine Held.persist _ _ ⟨?_, resting, List.forall_mem_nil _, h.running, ?_, h.unique⟩ disk
      fun e mem => Or.inl (List.mem_filter.mp mem).2
    · have moved : (entryIds (rest ++ s.queue.filter unqueued ++ [] ++ s.active) ++
          entryIds (s.queue.filter isRuntimeQueued)).Perm (entryIds (s.all rest)) := by
        refine List.perm_iff_count.mpr fun other => ?_
        have counted := (parts.map (·.id)).count_eq other
        simp only [State.all, entryIds, List.map_append, List.count_append, List.map_nil,
          List.count_nil, unqueued] at counted ⊢
        omega
      exact (List.nodup_append.mp (moved.nodup_iff.mpr h.ids)).1
    · refine List.perm_iff_count.mpr fun task => ?_
      have accounted := h.accounted.count_eq task
      have counted := (tasks_perm parts).count_eq task
      have queued := (tasks_perm queued).count_eq task
      simp only [State.all, tasks_append, List.count_append, cleared, tasks_nil, List.count_nil,
        unqueued] at accounted counted queued ⊢
      omega
  let again := retainFiles isCompletedOrError ((rest ++ s.queue.filter unqueued).map (·.settled))
  have written : cleared.persist.persisted = persistManagerQueue [] s.persisted := rfl
  refine ⟨again, ⟨?_, resting_retainFiles held.resting, List.forall_mem_nil _, h.running, ?_,
    h.unique⟩, ?_⟩
  · have sub := entryIds_retainFiles isCompletedOrError
      ((rest ++ s.queue.filter unqueued).map (·.settled))
    have ids : (entryIds ((rest ++ s.queue.filter unqueued).map (·.settled) ++ [] ++
      s.active)).Nodup := held.ids
    show (entryIds (again ++ [] ++ s.active)).Nodup
    rw [List.append_nil, entryIds, List.map_append] at ids ⊢
    exact ids.sublist (sub.append_right _)
  · refine List.perm_iff_count.mpr fun task => ?_
    have accounted := held.accounted.count_eq task
    have split := (tasks_retainFiles isCompletedOrError
      ((rest ++ s.queue.filter unqueued).map (·.settled))).count_eq task
    have dropped := (droppedTasks_perm isCompletedOrError held.disk).count_eq task
    rw [written] at dropped
    simp only [State.all, State.persist, tasks_append, List.count_append, cleared,
      cancelAllDownloads, again, List.append_nil] at accounted split dropped ⊢
    omega
  · have disk := retainFiles_perm isCompletedOrError held.disk
    rw [written, retainFiles_append] at disk
    exact disk

theorem holds_pauseAll {activeRunIds : List String} (h : Holds s rest) :
    ∃ rest, Holds (pauseAllDownloads activeRunIds s) rest := by
  let queue := s.queue.map pausedEntry
  have sameIds : entryIds (rest ++ queue) = entryIds (rest ++ s.queue) := by
    simp only [entryIds, List.map_append, queue, List.map_map]
    rfl
  have sameTasks : tasks queue = tasks s.queue := tasks_map fun e _ => tasks_pausedEntry
  have resting : ∀ e ∈ queue, Resting e := by
    intro e mem
    obtain ⟨before, there, rfl⟩ := List.mem_map.mp mem
    exact resting_pausedEntry (h.waiting before there)
  have disk : (persistManagerQueue queue s.persisted).Perm (rest.map (·.settled) ++ queue) := by
    refine persistManagerQueue_perm h.disk ?_ ?_
      (fun e mem => ⟨(h.resting e mem).unqueued, (h.resting e mem).files⟩) ?_
    · rw [sameIds]
      exact h.unique_waiting
    · rw [← taskIds_eq, tasks_append, sameTasks, ← tasks_append, taskIds_eq]
      exact h.unique_tasks
    · intro e mem
      refine Or.inr ?_
      show e.id ∈ (s.queue.map pausedEntry).map _
      rw [List.map_map]
      exact List.mem_map_of_mem (f := (·.id) ∘ pausedEntry) mem
  have none_ : queue.filter (·.status ≠ "paused") = [] := by
    refine List.filter_eq_nil_iff.mpr fun e mem => ?_
    obtain ⟨before, -, rfl⟩ := List.mem_map.mp mem
    simp [pausedEntry]
  have same : pauseAllDownloads activeRunIds s =
      { s with
        active := markPausing activeRunIds s.active
        persisted := persistManagerQueue queue s.persisted
        queue := [] } := by
    rw [pauseAllDownloads, none_]
  rw [same]
  refine ⟨rest.map (·.settled) ++ queue, ⟨?_, ?_, List.forall_mem_nil _,
    running_markPausing h.running _, ?_, h.unique⟩, by rwa [List.append_nil]⟩
  · show (entryIds (rest.map (·.settled) ++ queue ++ [] ++ markPausing activeRunIds s.active)).Nodup
    have settled : entryIds (rest.map (·.settled) ++ queue) = entryIds (rest ++ queue) := by
      simp only [entryIds, List.map_append, List.map_map]
      rfl
    rw [List.append_nil, entryIds, List.map_append, Inflight.ids_markPausing]
    rw [entryIds] at settled
    rw [settled, sameIds, ← List.map_append]
    exact h.ids
  · intro e mem
    rcases List.mem_append.mp mem with old | new
    · obtain ⟨before, there, rfl⟩ := List.mem_map.mp old
      exact (h.resting before there).settled
    · exact resting e new
  · have accounted := h.accounted
    simp only [State.all, tasks_append, tasks_settled, sameTasks, tasks_markPausing,
      List.append_nil] at accounted ⊢
    exact accounted

end Steps

end LlamaServerManager.Downloads.Manager
