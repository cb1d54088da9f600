import LlamaServerManager.Downloads.Conservation

/-!
The restart of the downloads manager (`restore_runtime_queue_from_disk` of `commands/download.rs`):
the queue is made of `downloads.json` and, laid over it, `downloads_inflight.json`.

* `crash_conserves`, `handOff_crash_conserves` — a crash between the steps of the manager, or
  between the two writes of a hand-off, loses and doubles no task;
* `resume_crash_loses` — between the two writes of `resume_download_task` it does.
-/

namespace LlamaServerManager.Downloads.Manager

open Lib

/-- `normalize_crash_recovered_entry` -/
def normalizeCrashRecoveredEntry (entry : PersistedQueueEntry) : PersistedQueueEntry :=
  let status :=
    if entry.status = "active" ∨ entry.status = "pausing" then "paused" else entry.status
  { entry with
    status
    files := entry.files.map fun file =>
      if file.status = some "active" ∨ file.status = some "pausing" then
        { file with status := some "paused" }
      else if file.status = none then { file with status := some status }
      else file }

/-- `merge_crash_recovered_inflight`; the entries that are not there yet are pushed. -/
def mergeCrashRecoveredInflight : List PersistedQueueEntry → List PersistedQueueEntry →
    List PersistedQueueEntry
  | queue, [] => queue
  | queue, entry :: inflight =>
    let entry := normalizeCrashRecoveredEntry entry
    mergeCrashRecoveredInflight
      (if entry.id ∈ entryIds queue then
        queue.map fun other => if other.id = entry.id then entry else other
      else queue ++ [entry]) inflight

/-- `prepare_restored_entry` -/
def prepareRestoredEntry (autoResume : Bool) (uuids : Uuids) (entry : PersistedQueueEntry) :
    PersistedQueueEntry :=
  let entry := normalizeCrashRecoveredEntry entry
  if autoResume ∧ entry.status = "paused" ∧ entry.retries < entry.maxRetries then
    match refreshPausedEntryForResume uuids entry with
    | some refreshed => refreshed
    | none =>
      if entry.files.any fun file => file.status = some "queued" then
        { entry with status := "queued" }
      else entry
  else entry

/-- What the restart finds of the files: whether an entry is valid, and what is there of a file. -/
structure Host where
  valid : PersistedQueueEntry → Bool
  downloaded : PersistedQueueEntry → MsFileEntry → Option Nat
  size : PersistedQueueEntry → MsFileEntry → Nat

def restored (host : Host) (autoResume : Bool) (uuids : Uuids)
    (persisted inflight : List PersistedQueueEntry) : List PersistedQueueEntry :=
  ((mergeCrashRecoveredInflight persisted inflight).filter host.valid).map fun entry =>
    let entry := prepareRestoredEntry autoResume uuids entry
    { entry with
      files := entry.files.map fun file =>
        { file with downloaded := host.downloaded entry file, size := host.size entry file } }

/-- The memory and the files after the restart: `downloads.json` has what was restored, the queue
what of it can run, and `downloads_inflight.json` is empty, as nothing is active. -/
def restoreRuntimeQueueFromDisk (host : Host) (autoResume : Bool) (uuids : Uuids)
    (persisted inflight : List PersistedQueueEntry) :
    State × List PersistedQueueEntry :=
  let queue := restored host autoResume uuids persisted inflight
  (⟨queue.filter isRestoreRunnable, [], [], queue, [], []⟩, [])

/-! ### The merge -/

section Merge

variable {e entry : PersistedQueueEntry} {queue inflight : List PersistedQueueEntry}

theorem tasks_normalize : (normalizeCrashRecoveredEntry e).tasks = e.tasks := by
  refine filterMap_task (e := e) fun file _ => ?_
  split
  · rfl
  · split <;> rfl

theorem named_normalize (named : ∀ file ∈ e.files, file.taskId.isSome) :
    ∀ file ∈ (normalizeCrashRecoveredEntry e).files, file.taskId.isSome := by
  intro file mem
  obtain ⟨before, there, rfl⟩ := List.mem_map.mp mem
  have named := named before there
  split
  · exact named
  · split
    · exact named
    · exact named

theorem tasks_prepare (autoResume : Bool) (uuids : Uuids)
    (named : ∀ file ∈ e.files, file.taskId.isSome) :
    (prepareRestoredEntry autoResume uuids e).tasks = e.tasks := by
  unfold prepareRestoredEntry
  dsimp only
  split
  · split
    · next refreshed found =>
      exact (tasks_refresh (named_normalize named) found).trans tasks_normalize
    · split
      · exact tasks_normalize (e := e)
      · exact tasks_normalize
  · exact tasks_normalize

/-- An entry takes the place of the one of its id. -/
theorem tasks_replace {p : PersistedQueueEntry → Bool} (unique : (entryIds queue).Nodup)
    (there : e.id ∈ entryIds queue)
    (holds : ∀ other, p other = decide (other.id ∉ entryIds inflight))
    (new : e.id ∉ entryIds inflight) :
    (tasks ((queue.map fun other => if other.id = e.id then e else other).filter p)).Perm
      (e.tasks ++ tasks (queue.filter fun other => other.id ∉ e.id :: entryIds inflight)) := by
  induction queue with
  | nil => cases there
  | cons first queue ih =>
    obtain ⟨other, unique⟩ := List.nodup_cons.mp unique
    by_cases same : first.id = e.id
    · have rest : queue.map (fun other => if other.id = e.id then e else other) = queue := by
        refine (List.map_congr_left fun o mem => if_neg fun is_ => other ?_).trans (List.map_id' _)
        exact List.mem_map.mpr ⟨o, mem, is_.trans same.symm⟩
      have kept : queue.filter p =
          queue.filter fun other => other.id ∉ e.id :: entryIds inflight := by
        refine List.filter_congr fun o mem => ?_
        have apart : o.id ≠ e.id := fun is_ =>
          other (List.mem_map.mpr ⟨o, mem, is_.trans same.symm⟩)
        rw [holds]
        simp [apart]
      rw [List.map_cons, if_pos same, rest, List.filter_cons_of_pos (by simp [holds, new]),
        List.filter_cons_of_neg (by simp [same]), tasks_cons, kept]
    · have there : e.id ∈ entryIds queue :=
        (List.mem_cons.mp there).resolve_left fun is_ => same is_.symm
      have ih := ih unique there
      rw [List.map_cons, if_neg same]
      by_cases out : first.id ∈ entryIds inflight
      · rw [List.filter_cons_of_neg (by simpa [holds] using out),
          List.filter_cons_of_neg (by simp [out])]
        exact ih
      · rw [List.filter_cons_of_pos (by simpa [holds] using out),
          List.filter_cons_of_pos (by simpa [same] using out), tasks_cons, tasks_cons]
        exact (ih.append_left _).trans (List.perm_append_comm_assoc _ _ _)

/-- What is in the one file only, and what is in the other. -/
theorem tasks_merge (unique : (entryIds queue).Nodup) (once : (entryIds inflight).Nodup) :
    (tasks (mergeCrashRecoveredInflight queue inflight)).Perm
      (tasks (queue.filter fun entry => entry.id ∉ entryIds inflight) ++ tasks inflight) := by
  induction inflight generalizing queue with
  | nil =>
    rw [mergeCrashRecoveredInflight, List.filter_eq_self.mpr fun e _ => by simp [entryIds],
      tasks_nil, List.append_nil]
  | cons e inflight ih =>
    obtain ⟨new, once⟩ := List.nodup_cons.mp once
    let f := normalizeCrashRecoveredEntry e
    have merged (queue' : List PersistedQueueEntry) (unique : (entryIds queue').Nodup)
        (first : (tasks (queue'.filter fun entry => entry.id ∉ entryIds inflight)).Perm
          (f.tasks ++ tasks (queue.filter fun entry => entry.id ∉ entryIds (e :: inflight)))) :
        (tasks (mergeCrashRecoveredInflight queue' inflight)).Perm
          (tasks (queue.filter fun entry => entry.id ∉ entryIds (e :: inflight)) ++
            tasks (e :: inflight)) := by
      refine (ih unique once).trans ((first.append_right _).trans ?_)
      rw [tasks_cons, ← tasks_normalize (e := e)]
      refine List.perm_iff_count.mpr fun task => ?_
      simp only [List.count_append, f]
      omega
    rw [mergeCrashRecoveredInflight]
    split
    · next there =>
      have ids : entryIds (queue.map fun other => if other.id = f.id then f else other) =
          entryIds queue := by
        rw [entryIds, List.map_map]
        refine List.map_congr_left fun other _ => ?_
        rw [Function.comp_apply]
        split
        · next same => exact same.symm
        · rfl
      exact merged _ (ids ▸ unique) (tasks_replace unique there (fun _ => rfl) new)
    · next out =>
      refine merged _ ?_ ?_
      · rw [entryIds, List.map_append]
        refine List.Nodup.append unique (List.nodup_singleton _) fun id mem same => out ?_
        rwa [show id = f.id from List.mem_singleton.mp same] at mem
      · have kept : queue.filter (fun entry => entry.id ∉ entryIds inflight) =
            queue.filter fun entry => entry.id ∉ entryIds (e :: inflight) := by
          refine List.filter_congr fun other mem => ?_
          have apart : other.id ≠ e.id := fun same =>
            out (List.mem_map.mpr ⟨other, mem, same⟩)
          simp [apart]
        have pushed : [normalizeCrashRecoveredEntry e].filter
            (fun entry => entry.id ∉ entryIds inflight) = [normalizeCrashRecoveredEntry e] :=
          List.filter_eq_self.mpr fun other mem => by
            rw [List.mem_singleton.mp mem]
            exact decide_eq_true new
        rw [List.filter_append, tasks_append, kept, pushed, tasks_cons, tasks_nil,
          List.append_nil]
        exact List.perm_append_comm

theorem mem_merge (mem : e ∈ mergeCrashRecoveredInflight queue inflight) :
    e ∈ queue ∨ ∃ entry ∈ inflight, e = normalizeCrashRecoveredEntry entry := by
  induction inflight generalizing queue with
  | nil => exact Or.inl mem
  | cons first inflight ih =>
    rcases ih mem with there | ⟨entry, listed, rfl⟩
    · split at there
      · obtain ⟨other, old, rfl⟩ := List.mem_map.mp there
        split
        · exact Or.inr ⟨first, List.mem_cons_self, rfl⟩
        · exact Or.inl old
      · rcases List.mem_append.mp there with old | new
        · exact Or.inl old
        · exact Or.inr ⟨first, List.mem_cons_self, List.mem_singleton.mp new⟩
    · exact Or.inr ⟨entry, List.mem_cons_of_mem _ listed, rfl⟩

end Merge

/-! ### Crashes -/

section Crashes

variable {host : Host} {autoResume : Bool} {uuids : Uuids} {s t : State}
  {persisted inflight rest kept replaced : List PersistedQueueEntry}

/-- The entries of `downloads_inflight.json` are the active ones, with statuses of their own. -/
structure Mirrors (active inflight : List PersistedQueueEntry) : Prop where
  same : (inflight.map fun e => (e.id, e.tasks)).Perm (active.map fun e => (e.id, e.tasks))
  named : ∀ e ∈ inflight, ∀ file ∈ e.files, file.taskId.isSome

theorem Mirrors.ids (h : Mirrors s.active inflight) :
    (entryIds inflight).Perm (entryIds s.active) := by
  have ids := h.same.map Prod.fst
  rwa [List.map_map, List.map_map] at ids

theorem Mirrors.tasks (h : Mirrors s.active inflight) :
    (tasks inflight).Perm (tasks s.active) := by
  have all := h.same.flatMap_right Prod.snd
  rwa [List.flatMap_map, List.flatMap_map] at all

/-- Nothing that is valid is lost in the restart. -/
theorem tasks_restored (named : ∀ e ∈ persisted ++ inflight, ∀ file ∈ e.files, file.taskId.isSome)
    (valid : ∀ e ∈ mergeCrashRecoveredInflight persisted inflight, host.valid e = true) :
    tasks (restored host autoResume uuids persisted inflight) =
      tasks (mergeCrashRecoveredInflight persisted inflight) := by
  unfold restored
  rw [List.filter_eq_self.mpr valid]
  refine tasks_map fun e mem => ?_
  have names : ∀ file ∈ e.files, file.taskId.isSome := by
    rcases mem_merge mem with old | ⟨entry, there, rfl⟩
    · exact named e (List.mem_append_left _ old)
    · exact named_normalize (named entry (List.mem_append_right _ there))
  refine Eq.trans ?_ (tasks_prepare autoResume uuids names)
  refine filterMap_task (e := prepareRestoredEntry autoResume uuids e) fun file _ => ?_
  rfl

/-- What is on disk at a crash: entries the other file replaces, and others. -/
theorem restored_perm (kept replaced : List PersistedQueueEntry)
    (disk : persisted.Perm (kept ++ replaced))
    (unique : (entryIds persisted).Nodup) (once : (entryIds inflight).Nodup)
    (apart : ∀ e ∈ kept, e.id ∉ entryIds inflight)
    (there : ∀ e ∈ replaced, e.id ∈ entryIds inflight)
    (named : ∀ e ∈ persisted ++ inflight, ∀ file ∈ e.files, file.taskId.isSome)
    (valid : ∀ e ∈ mergeCrashRecoveredInflight persisted inflight, host.valid e = true) :
    (tasks (restored host autoResume uuids persisted inflight)).Perm
      (tasks kept ++ tasks inflight) := by
  rw [tasks_restored named valid]
  refine (tasks_merge unique once).trans (List.Perm.append_right _ (tasks_perm ?_))
  have stays : ∀ e ∈ kept, decide (e.id ∉ entryIds inflight) = true :=
    fun e mem => decide_eq_true (apart e mem)
  have goes : ∀ e ∈ replaced, ¬ decide (e.id ∉ entryIds inflight) = true :=
    fun e mem out => of_decide_eq_true out (there e mem)
  have filtered := disk.filter fun e => e.id ∉ entryIds inflight
  rwa [List.filter_append, List.filter_eq_self.mpr stays, List.filter_eq_nil_iff.mpr goes,
    List.append_nil] at filtered

theorem Holds.named (h : Holds s rest) :
    ∀ e ∈ s.persisted, ∀ file ∈ e.files, file.taskId.isSome := by
  intro e mem
  rcases List.mem_append.mp (h.disk.subset mem) with there | there
  · exact (h.resting e there).named
  · exact (h.waiting e there).named

theorem Holds.named_both (h : Holds s rest) (mirrors : Mirrors t.active inflight) :
    ∀ e ∈ s.persisted ++ inflight, ∀ file ∈ e.files, file.taskId.isSome := fun e mem =>
  (List.mem_append.mp mem).elim (h.named e) (mirrors.named e)

/-- Between the steps of the manager. -/
theorem Holds.crash (h : Holds s rest) (mirrors : Mirrors s.active inflight)
    (valid : ∀ e ∈ mergeCrashRecoveredInflight s.persisted inflight, host.valid e = true) :
    s.accepted.Perm
      (s.released ++ tasks (restored host autoResume uuids s.persisted inflight)) := by
  have ids := mirrors.ids
  have found : (tasks (restored host autoResume uuids s.persisted inflight)).Perm
      (tasks (rest ++ s.queue) ++ tasks inflight) := by
    refine restored_perm _ [] (by rw [List.append_nil]; exact h.disk) h.unique_persisted
      (ids.nodup_iff.mpr h.unique_active) (fun e mem there => ?_) (List.forall_mem_nil _)
      (h.named_both mirrors) valid
    obtain ⟨other, active, same⟩ := List.mem_map.mp (ids.subset there)
    exact h.apart mem active same.symm
  refine List.perm_iff_count.mpr fun task => ?_
  have accounted := h.accounted.count_eq task
  have found := found.count_eq task
  have mirrored := mirrors.tasks.count_eq task
  simp only [State.all, tasks_append, List.count_append] at accounted found ⊢
  omega

/-! ### Hand-offs -/

theorem find_active {id : String} (active : ∃ e ∈ s.active, e.id = id) :
    ∃ entry, s.active.find? (·.id = id) = some entry := by
  obtain ⟨e, mem, same⟩ := active
  exact Option.isSome_iff_exists.mp (List.find?_isSome.mpr ⟨e, mem, decide_eq_true same⟩)

theorem Mirrors.remove (h : Mirrors s.active inflight) (id : String) :
    Mirrors (removeEntry id s.active) (removeEntry id inflight) := by
  refine ⟨?_, fun e mem => h.named e (List.mem_filter.mp mem).1⟩
  have others := h.same.filter fun pair => pair.1 ≠ id
  rwa [List.filter_map, List.filter_map] at others

theorem Mirrors.put (h : Mirrors s.active inflight) {e : PersistedQueueEntry}
    (named : ∀ file ∈ e.files, file.taskId.isSome) :
    Mirrors (putEntry e s.active) (putEntry e inflight) := by
  refine ⟨?_, fun other mem => ?_⟩
  · have others := (h.remove e.id).same
    unfold putEntry
    rw [List.map_append, List.map_append]
    exact others.append_right _
  · rcases List.mem_append.mp mem with old | new
    · exact (h.remove e.id).named other old
    · rwa [List.mem_singleton.mp new]

/-- The batch is in both files. -/
theorem Holds.crash_start {entry : PersistedQueueEntry} (h : Holds s rest)
    (mirrors : Mirrors s.active inflight) (there : entry ∈ s.queue)
    (valid : ∀ e ∈ mergeCrashRecoveredInflight s.persisted (putEntry (started entry) inflight),
      host.valid e = true) :
    s.accepted.Perm (s.released ++ tasks (restored host autoResume uuids s.persisted
      (putEntry (started entry) inflight))) := by
  have ids := h.ids
  have running := running_started (h.waiting entry there)
  have other : (started entry).id ∉ entryIds s.active := fun active => by
    obtain ⟨a, mem, same⟩ := List.mem_map.mp active
    exact h.apart (List.mem_append_right _ there) mem same.symm
  have put : putEntry (started entry) s.active = s.active ++ [started entry] := by
    unfold putEntry
    rw [removeEntry_of_not_mem other]
  have mirrored := mirrors.put running.named
  have parts := List.perm_cons_erase there
  let u : State := { s with active := putEntry (started entry) s.active }
  have all : Mirrors u.active (putEntry (started entry) inflight) := mirrored
  have names := all.ids
  have shape : entryIds u.active = entryIds s.active ++ [entry.id] := by
    show entryIds (putEntry (started entry) s.active) = _
    rw [put, entryIds, List.map_append]
    rfl
  have moved : (entryIds (rest ++ s.queue.erase entry) ++ entryIds u.active).Perm
      (entryIds (s.all rest)) := by
    rw [shape]
    refine List.perm_iff_count.mpr fun id => ?_
    have counted := (parts.map (·.id)).count_eq id
    simp only [State.all, entryIds, List.map_append, List.count_append, List.map_cons,
      List.count_cons, List.count_nil] at counted ⊢
    omega
  have nodup := List.nodup_append.mp (moved.nodup_iff.mpr ids)
  have found : (tasks (restored host autoResume uuids s.persisted
      (putEntry (started entry) inflight))).Perm
      (tasks (rest ++ s.queue.erase entry) ++ tasks (putEntry (started entry) inflight)) := by
    refine restored_perm _ [entry] ?_ h.unique_persisted (names.nodup_iff.mpr nodup.2.1)
      (fun e mem active => nodup.2.2 e.id (List.mem_map_of_mem mem) e.id (names.subset active) rfl)
      (fun e mem => ?_) (h.named_both all) valid
    · refine h.disk.trans (List.perm_iff_count.mpr fun e => ?_)
      have counted := parts.count_eq e
      simp only [List.count_append, List.count_cons, List.count_nil] at counted ⊢
      omega
    · rw [List.mem_singleton.mp mem]
      refine names.symm.subset ?_
      rw [shape]
      exact List.mem_append_right _ List.mem_cons_self
  refine List.perm_iff_count.mpr fun task => ?_
  have accounted := h.accounted.count_eq task
  have found := found.count_eq task
  have same := all.tasks.count_eq task
  have counted := (tasks_perm parts).count_eq task
  simp only [State.all, tasks_append, List.count_append, tasks_cons, tasks_nil, put,
    tasks_started, List.append_nil, u] at accounted found same counted ⊢
  omega

/-- The batch is back in the queue, and in the other file. -/
theorem Holds.crash_retry {id : String} (h : Holds s rest) (regular : Regular s (.retry id))
    (hn : retry id s = some t) (active : ∃ e ∈ s.active, e.id = id)
    (mirrors : Mirrors s.active inflight)
    (valid : ∀ e ∈ mergeCrashRecoveredInflight t.persisted inflight, host.valid e = true) :
    s.accepted.Perm
      (s.released ++ tasks (restored host autoResume uuids t.persisted inflight)) := by
  obtain ⟨rest', ht⟩ := holds_retry h regular hn
  obtain ⟨entry, found⟩ := find_active active
  rw [retry, found] at hn
  simp only [Option.ite_none_right_eq_some, Option.some.injEq] at hn
  obtain ⟨-, rfl⟩ := hn
  have parts := perm_removeEntry h.unique_active found
  have named := mirrors.ids
  have others := ht.ids
  have disk : (persistManagerQueue (retried entry :: s.queue) s.persisted).Perm
      (rest' ++ (retried entry :: s.queue)) := ht.disk
  have moved : (entryIds (rest' ++ s.queue) ++ entryIds s.active).Nodup := by
    refine (List.Perm.nodup_iff (List.perm_iff_count.mpr fun id => ?_)).mp others
    have counted := (parts.map (·.id)).count_eq id
    simp only [State.all, State.persist, entryIds, List.map_append, List.count_append,
      List.map_cons, List.count_cons, retried] at counted ⊢
    omega
  have apart := (List.nodup_append.mp moved).2.2
  have found_ : (tasks (restored host autoResume uuids
      (persistManagerQueue (retried entry :: s.queue) s.persisted) inflight)).Perm
      (tasks (rest' ++ s.queue) ++ tasks inflight) := by
    refine restored_perm _ [retried entry] ?_ ht.unique_persisted
      (named.nodup_iff.mpr h.unique_active)
      (fun e mem there => apart e.id (List.mem_map_of_mem mem) e.id (named.subset there) rfl)
      (fun e mem => ?_) (ht.named_both mirrors) valid
    · refine disk.trans (List.perm_iff_count.mpr fun e => ?_)
      simp only [List.count_append, List.count_cons, List.count_nil]
      omega
    · rw [List.mem_singleton.mp mem]
      show entry.id ∈ _
      exact named.symm.subset (List.mem_map_of_mem (List.mem_of_find?_eq_some found))
  refine List.perm_iff_count.mpr fun task => ?_
  have accounted := ht.accounted.count_eq task
  have found_ := found_.count_eq task
  have same := mirrors.tasks.count_eq task
  have counted := (tasks_perm parts).count_eq task
  simp only [State.all, State.persist, tasks_append, List.count_append, tasks_cons,
    tasks_retried] at accounted found_ same counted ⊢
  omega

/-- The batch is recorded, and in the other file as it was. -/
theorem Holds.crash_finish {id : String} {error : Option String}
    {cancelFlags pauseFlags : List String} (h : Holds s rest)
    (active : ∃ e ∈ s.active, e.id = id) (mirrors : Mirrors s.active inflight)
    (valid : ∀ e ∈ mergeCrashRecoveredInflight
      (finish id error cancelFlags pauseFlags s).persisted inflight, host.valid e = true) :
    s.accepted.Perm (s.released ++ tasks (restored host autoResume uuids
      (finish id error cancelFlags pauseFlags s).persisted inflight)) := by
  obtain ⟨entry, found⟩ := find_active active
  have ht := holds_finish_found error cancelFlags pauseFlags h found
  let recorded := retainFiles (staysRecorded cancelFlags pauseFlags)
    [settleUnfinished error entry]
  have named := mirrors.ids
  have queue : (finish id error cancelFlags pauseFlags s).queue = s.queue := by
    rw [finish, found]
  have found_ : (tasks (restored host autoResume uuids
      (finish id error cancelFlags pauseFlags s).persisted inflight)).Perm
      (tasks (rest ++ s.queue) ++ tasks inflight) := by
    refine restored_perm _ recorded ?_ ht.unique_persisted (named.nodup_iff.mpr h.unique_active)
      (fun e mem there => ?_) (fun e mem => ?_) (ht.named_both mirrors) valid
    · refine ht.disk.trans (List.perm_iff_count.mpr fun e => ?_)
      rw [queue]
      simp only [List.count_append, recorded]
      omega
    · obtain ⟨other, running, same⟩ := List.mem_map.mp (named.subset there)
      exact h.apart mem running same.symm
    · have same : e.id ∈ [entry.id] :=
        (entryIds_retainFiles _ [settleUnfinished error entry]).subset (List.mem_map_of_mem mem)
      rw [List.mem_singleton.mp same]
      exact named.symm.subset (List.mem_map_of_mem (List.mem_of_find?_eq_some found))
  refine List.perm_iff_count.mpr fun task => ?_
  have accounted := h.accounted.count_eq task
  have found_ := found_.count_eq task
  have same := mirrors.tasks.count_eq task
  simp only [State.all, tasks_append, List.count_append] at accounted found_ same ⊢
  omega

/-- What is on disk in a hand-off between its two writes, and in the other file after it. -/
structure Window where
  persisted : List PersistedQueueEntry
  inflight : List PersistedQueueEntry
  after : List PersistedQueueEntry

/-- The hand-offs of a batch that is there: from the queue, back to it, and to its record. -/
def handOff (s t : State) (inflight : List PersistedQueueEntry) : Step → Option Window
  | .start limit =>
    if limit ≤ s.slotCount then none
    else (s.queue.filter isRestoreRunnable).head?.map fun entry =>
      let inflight := putEntry (started entry) inflight
      ⟨s.persisted, inflight, inflight⟩
  | .retry id | .finish id _ _ _ =>
    if ∃ entry ∈ s.active, entry.id = id then
      some ⟨t.persisted, inflight, removeEntry id inflight⟩
    else none
  | _ => none

/-- **A crash between the steps of the manager loses no task**: in a run whose steps are `Regular`,
when the entries of `downloads_inflight.json` are the active ones and what is on disk is valid, the
restart has every task that was accepted and not let go, once. -/
theorem crash_conserves (steps : List Step) (s : State) (run : machine.run start steps = some s)
    (regular : machine.Along (fun s step _ => Regular s step) start steps) (host : Host)
    (autoResume : Bool) (uuids : Uuids) (inflight : List PersistedQueueEntry)
    (mirrors : Mirrors s.active inflight)
    (valid : ∀ e ∈ mergeCrashRecoveredInflight s.persisted inflight, host.valid e = true) :
    s.accepted.Perm (s.released ++ tasks
      (restoreRuntimeQueueFromDisk host autoResume uuids s.persisted inflight).1.persisted) := by
  obtain ⟨rest, h⟩ := holds_run run regular
  exact h.crash mirrors valid

/-- Nothing is found of the files. -/
def bareHost : Host := ⟨fun _ => true, fun _ _ => none, fun _ file => file.size⟩

def sampleUuids : Uuids := ⟨fun _ => "", fun _ => "r"⟩

/-- What runs is resumed after the crash, beside what was completed. -/
theorem interrupted_crash :
    ∃ s, machine.run start interrupted = some s ∧
      (restored bareHost true sampleUuids s.persisted s.active).map
        (fun entry => entry.files.map (·.status)) = [[some "completed", some "queued"]] ∧
      s.accepted.Perm (s.released ++ tasks (restoreRuntimeQueueFromDisk bareHost true sampleUuids
        s.persisted s.active).1.persisted) := by
  refine ⟨_, rfl, ?_, ?_⟩
  · decide
  · exact crash_conserves interrupted _ rfl (by decide) bareHost true sampleUuids _
      ⟨List.Perm.refl _, by decide⟩ fun _ _ => rfl

/-- **Nor does a crash in a hand-off**, between its two writes; and after it the entries
of `downloads_inflight.json` are the active ones again. The window is what is on disk
when one of the files is written and the other is not. -/
theorem handOff_crash_conserves (steps : List Step) (s t : State)
    (run : machine.run start steps = some s)
    (regular : machine.Along (fun s step _ => Regular s step) start steps) (host : Host)
    (autoResume : Bool) (uuids : Uuids) (inflight : List PersistedQueueEntry)
    (mirrors : Mirrors s.active inflight) (step : Step) (regularStep : Regular s step)
    (hn : machine.next s step = some t) (window : Window)
    (handsOff : handOff s t inflight step = some window)
    (valid : ∀ e ∈ mergeCrashRecoveredInflight window.persisted window.inflight,
      host.valid e = true) :
    s.accepted.Perm (s.released ++ tasks (restoreRuntimeQueueFromDisk host autoResume uuids
        window.persisted window.inflight).1.persisted) ∧
      Mirrors t.active window.after := by
  obtain ⟨rest, h⟩ := holds_run run regular
  cases step with
  | start limit =>
    cases hn
    simp only [handOff, Option.ite_none_left_eq_some, Option.map_eq_some_iff] at handsOff
    obtain ⟨slot, entry, first, rfl⟩ := handsOff
    obtain ⟨queue, found⟩ := List.head?_eq_some_iff.mp first
    have there : entry ∈ s.queue :=
      (List.mem_filter.mp (found ▸ List.mem_cons_self : entry ∈ s.queue.filter _)).1
    refine ⟨h.crash_start mirrors there valid, ?_⟩
    rw [processDownloadQueueInner, if_neg slot, found]
    exact mirrors.put (running_started (h.waiting entry there)).named
  | retry id =>
    simp only [handOff, Option.ite_none_right_eq_some, Option.some.injEq] at handsOff
    obtain ⟨active, rfl⟩ := handsOff
    refine ⟨h.crash_retry regularStep hn active mirrors valid, ?_⟩
    have same : t.active = removeEntry id s.active := by
      replace hn : retry id s = some t := hn
      obtain ⟨entry, found⟩ := find_active active
      rw [retry, found] at hn
      simp only [Option.ite_none_right_eq_some, Option.some.injEq] at hn
      rw [← hn.2]
      rfl
    rw [same]
    exact mirrors.remove id
  | finish id error cancelFlags pauseFlags =>
    cases hn
    simp only [handOff, Option.ite_none_right_eq_some, Option.some.injEq] at handsOff
    obtain ⟨active, rfl⟩ := handsOff
    refine ⟨h.crash_finish active mirrors valid, ?_⟩
    have same : (finish id error cancelFlags pauseFlags s).active = removeEntry id s.active := by
      obtain ⟨entry, found⟩ := find_active active
      rw [finish, found]
    rw [same]
    exact mirrors.remove id
  | _ => cases handsOff

/-- The process dies when the batch is written to the other file, and not yet taken out of the
queue. -/
theorem accepted_crash :
    ∃ s t window, machine.run start [.enqueue (batch "e" [("a", "", 0)])] = some s ∧
      machine.next s (.start 1) = some t ∧ handOff s t [] (.start 1) = some window ∧
      s.accepted.Perm (s.released ++ tasks (restoreRuntimeQueueFromDisk bareHost true sampleUuids
        window.persisted window.inflight).1.persisted) ∧
      Mirrors t.active window.after := by
  refine ⟨_, _, _, rfl, rfl, rfl, ?_⟩
  exact handOff_crash_conserves [.enqueue (batch "e" [("a", "", 0)])] _ _ rfl (by decide) bareHost
    true sampleUuids [] ⟨List.Perm.refl _, List.forall_mem_nil _⟩ (.start 1) trivial rfl _ rfl
    fun _ _ => rfl

end Crashes

/-- The first write of `resume_download_task` takes the file out of the record, the second puts it
in the queue; in between it is nowhere. -/
theorem resume_crash_loses :
    ∃ s, machine.run start [.enqueue (batch "e" [("a", "", 0)]), .pause "a" none "p"] = some s ∧
      s.accepted.map (·.taskId) = ["a"] ∧ s.released = [] ∧
      restored bareHost true sampleUuids (takeTask "a" false s.persisted) s.active = [] :=
  ⟨_, rfl, by decide⟩

end LlamaServerManager.Downloads.Manager
