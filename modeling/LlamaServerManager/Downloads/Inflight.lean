import LlamaServerManager.Downloads.Snapshot
import LlamaServerManager.Lib.Snapshots

/-!
`downloads_inflight.json` (`commands/download.rs`): the batches that run, for the restart after a
crash. Workers copy `download_active_entries` into it (`persist_active_entries_snapshot`,
`persist_inflight_snapshot`), the scheduler edits it when a batch starts or ends
(`update_inflight_state`).

A step is what one thread does under one lock; the file is what a crash leaves. No file and a file
without entries are one.

* `finished_stays_out` — a batch that has ended does not come back.
* `stays_inflight_iff` — when a batch that runs stays in the file.
* `handOff_stays` — that is so after a hand-off during which nobody copies.
-/

namespace LlamaServerManager.Downloads

open Lib Lib.Snapshots

structure FileStatePatch where
  runId : Option String := none
  downloaded : Option Nat := none
  size : Option Nat := none
  version : Option Nat := none
  status : Option String := none
  error : Option (Option String) := none
deriving DecidableEq, Repr

def applyFilePatch (file : MsFileEntry) (patch : FileStatePatch) : MsFileEntry :=
  { file with
    runId := patch.runId.or file.runId
    downloaded := patch.downloaded.or file.downloaded
    size := patch.size.getD file.size
    version := patch.version.or file.version
    status := patch.status.or file.status
    error := patch.error.getD file.error }

/-! ### The active entries -/

/-- The loop of `update_manager_file_state`. Once a file was found, the statuses of the entries that
follow are taken anew too. -/
def updateFileState (taskId : String) (patch : FileStatePatch) :
    Bool → List PersistedQueueEntry → List PersistedQueueEntry
  | _, [] => []
  | changed, entry :: entries =>
    let changed := changed || entry.files.any (·.taskId = some taskId)
    let entry := { entry with
      files := entry.files.map fun file =>
        if file.taskId = some taskId then applyFilePatch file patch else file }
    (if changed then entry.settled else entry) :: updateFileState taskId patch changed entries

/-- The files that stay, with the entries that have one. -/
def retainFiles (keep : MsFileEntry → Bool) (entries : List PersistedQueueEntry) :
    List PersistedQueueEntry :=
  (entries.map fun entry => { entry with files := entry.files.filter keep }.settled).filter
    fun entry => !entry.files.isEmpty

def removeTaskFromEntries (taskId : String) : List PersistedQueueEntry → List PersistedQueueEntry :=
  retainFiles fun file => file.taskId ≠ some taskId

/-- `clear_download_tasks_by_status` -/
def clearTasksByStatus (statuses : List String) :
    List PersistedQueueEntry → List PersistedQueueEntry :=
  retainFiles fun file => !file.status.any statuses.contains

/-- `pause_all_downloads` -/
def markPausing (activeRunIds : List String) (entries : List PersistedQueueEntry) :
    List PersistedQueueEntry :=
  entries.map fun entry =>
    { entry with
      files := entry.files.map fun (file : MsFileEntry) =>
        if file.runId.any activeRunIds.contains then { file with status := some "pausing" }
        else file }.settled

def removeEntry (id : String) (entries : List PersistedQueueEntry) : List PersistedQueueEntry :=
  entries.filter (·.id ≠ id)

/-- `insert` into the map; in the file, `retain` and `push`. -/
def putEntry (entry : PersistedQueueEntry) (entries : List PersistedQueueEntry) :
    List PersistedQueueEntry :=
  removeEntry entry.id entries ++ [entry]

namespace Inflight

/-- What is done to `download_active_entries`. -/
inductive Change where
  | insert (entry : PersistedQueueEntry)
  | remove (id : String)
  | patch (taskId : String) (patch : FileStatePatch)
  | pause (activeRunIds : List String)
  | removeTask (taskId : String)
  | clearStatuses (statuses : List String)
deriving DecidableEq, Repr

/-- What `update_inflight_state` and `clear_inflight_state` do to the file. -/
inductive Edit where
  | push (entry : PersistedQueueEntry)
  | remove (id : String)
  | removeTask (taskId : String)
  | clearStatuses (statuses : List String)
  | clear
deriving DecidableEq, Repr

def Change.apply : Change → List PersistedQueueEntry → List PersistedQueueEntry
  | .insert entry => putEntry entry
  | .remove id => removeEntry id
  | .patch taskId update => updateFileState taskId update false
  | .pause activeRunIds => markPausing activeRunIds
  | .removeTask taskId => removeTaskFromEntries taskId
  | .clearStatuses statuses => clearTasksByStatus statuses

def Edit.apply : Edit → List PersistedQueueEntry → List PersistedQueueEntry
  | .push entry => putEntry entry
  | .remove id => removeEntry id
  | .removeTask taskId => removeTaskFromEntries taskId
  | .clearStatuses statuses => clearTasksByStatus statuses
  | .clear => fun _ => []

def setup :
    Setup (List PersistedQueueEntry) (List PersistedQueueEntry) Change Edit where
  change := Change.apply
  capture := id
  edit := Edit.apply

abbrev State := Snapshots.State (List PersistedQueueEntry) (List PersistedQueueEntry)

abbrev Step := Snapshots.Step Change Edit

/-- A process starts with what the last one left in the file. -/
def start (file : List PersistedQueueEntry) : State where
  source := []
  file := file
  generation := 0
  persisted := 0
  pending := none
  held := []
  locked := none

def machine (file : List PersistedQueueEntry) : Machine State Step :=
  Snapshots.machine setup (start file)

/-! ### Ids -/

variable {id : String} {entries : List PersistedQueueEntry}

def Names (id : String) (entries : List PersistedQueueEntry) : Prop := id ∈ entries.map (·.id)

instance (id : String) : DecidablePred (Names id) := fun entries =>
  inferInstanceAs (Decidable (id ∈ entries.map (·.id)))

theorem names_removeEntry {other : String} :
    Names id (removeEntry other entries) ↔ Names id entries ∧ id ≠ other := by
  unfold Names removeEntry
  simp only [List.mem_map, List.mem_filter, decide_eq_true_eq]
  constructor
  · rintro ⟨entry, ⟨mem, ne⟩, rfl⟩
    exact ⟨⟨entry, mem, rfl⟩, ne⟩
  · rintro ⟨⟨entry, mem, rfl⟩, ne⟩
    exact ⟨entry, ⟨mem, ne⟩, rfl⟩

theorem names_putEntry {entry : PersistedQueueEntry} :
    Names id (putEntry entry entries) ↔ Names id entries ∨ id = entry.id := by
  unfold putEntry
  have split : Names id (removeEntry entry.id entries ++ [entry]) ↔
      Names id (removeEntry entry.id entries) ∨ id = entry.id := by
    unfold Names
    rw [List.map_append, List.mem_append, List.map_singleton, List.mem_singleton]
  rw [split, names_removeEntry]
  constructor
  · exact Or.imp_left And.left
  · intro named
    by_cases same : id = entry.id
    · exact .inr same
    · exact .inl ⟨named.resolve_right same, same⟩

theorem Names.of_retainFiles {keep : MsFileEntry → Bool}
    (named : Names id (retainFiles keep entries)) : Names id entries := by
  obtain ⟨kept, mem, rfl⟩ := List.mem_map.mp named
  obtain ⟨entry, there, rfl⟩ := List.mem_map.mp (List.mem_filter.mp mem).1
  exact List.mem_map.mpr ⟨entry, there, rfl⟩

theorem ids_updateFileState {taskId : String} {patch : FileStatePatch} {changed : Bool} :
    (updateFileState taskId patch changed entries).map (·.id) = entries.map (·.id) := by
  induction entries generalizing changed with
  | nil => rfl
  | cons entry entries ih =>
    simp only [updateFileState, List.map_cons, ih]
    split <;> rfl

theorem ids_markPausing {activeRunIds : List String} :
    (markPausing activeRunIds entries).map (·.id) = entries.map (·.id) := by
  unfold markPausing
  rw [List.map_map]
  rfl

/-- The change or the edit puts the batch there. -/
def Change.Starts (id : String) (change : Change) : Prop :=
  ∃ entry, change = .insert entry ∧ entry.id = id

def Edit.Starts (id : String) (edit : Edit) : Prop := ∃ entry, edit = .push entry ∧ entry.id = id

theorem Change.not_names_apply {change : Change} (other : ¬ change.Starts id)
    (out : ¬ Names id entries) : ¬ Names id (change.apply entries) := by
  cases change with
  | insert entry =>
    intro named
    rcases names_putEntry.mp named with before | rfl
    · exact out before
    · exact other ⟨entry, rfl, rfl⟩
  | remove removed => exact fun named => out (names_removeEntry.mp named).1
  | patch taskId update =>
    intro named
    exact out (by unfold Names at named ⊢; rwa [Change.apply, ids_updateFileState] at named)
  | pause activeRunIds =>
    intro named
    exact out (by unfold Names at named ⊢; rwa [Change.apply, ids_markPausing] at named)
  | removeTask taskId => exact fun named => out (Names.of_retainFiles named)
  | clearStatuses statuses => exact fun named => out (Names.of_retainFiles named)

theorem Edit.not_names_apply {edit : Edit} (other : ¬ edit.Starts id)
    (out : ¬ Names id entries) : ¬ Names id (edit.apply entries) := by
  cases edit with
  | push entry =>
    intro named
    rcases names_putEntry.mp named with before | rfl
    · exact out before
    · exact other ⟨entry, rfl, rfl⟩
  | remove removed => exact fun named => out (names_removeEntry.mp named).1
  | removeTask taskId => exact fun named => out (Names.of_retainFiles named)
  | clearStatuses statuses => exact fun named => out (Names.of_retainFiles named)
  | clear => exact nofun

/-! ### Runs -/

variable {file : List PersistedQueueEntry} {s t : State}

theorem stamped_start (file : List PersistedQueueEntry) : Stamped (start file) :=
  ⟨nofun, le_rfl, nofun⟩

theorem stamped_of_reachable (reached : (machine file).Reachable s) : Stamped s := by
  obtain ⟨steps, hr⟩ := reached
  exact (stamped_start file).run hr

/-- The step is the start of a batch, or a part of it. -/
def Starts (id : String) : Step → Prop
  | .change change => change.Starts id
  | .edit edit _ => edit.Starts id
  | _ => False

theorem keeps_out {step : Step} (other : ¬ Starts id step) :
    Keeps setup (fun entries => ¬ Names id entries) s step := by
  cases step with
  | change change => exact Change.not_names_apply other
  | edit edit outcome => exact Edit.not_names_apply other
  | _ => trivial

theorem keeps_out_of_forall {steps : List Step} (others : ∀ step ∈ steps, ¬ Starts id step) :
    (machine file).Along
      (fun s step _ => Keeps setup (fun entries => ¬ Names id entries) s step) s steps :=
  (Machine.along_of_forall_mem others).imp fun _ _ _ other => keeps_out other

/-- **A batch that has ended stays out of the file.** It is not active when its removal takes the
lock; whatever the other threads do, and whatever snapshots of it are under way, it is not in the
file again before it is started again. -/
theorem finished_stays_out (file : List PersistedQueueEntry) (id : String) (s t : State)
    (reached : (machine file).Reachable s) (ended : ¬ Names id s.source) (mid after : List Step)
    (run : (machine file).run s (.lock :: mid ++ .edit (.remove id) .done :: after) = some t)
    (others : ∀ step ∈ mid ++ after, ¬ Starts id step) : ¬ Names id t.file := by
  have stamped := stamped_of_reachable reached
  obtain ⟨removing, first, rest⟩ := (machine file).run_append.mp run
  obtain ⟨removed, removal, last⟩ := (machine file).run_cons_eq_some.mp rest
  have free : s.locked = none := by
    obtain ⟨_, locks, -⟩ := (machine file).run_cons_eq_some.mp first
    simpa [machine, Snapshots.machine, next] using Option.isSome_of_eq_some locks
  have fenced : Fenced setup (fun entries => ¬ Names id entries) removing := by
    have open_ : Fenced setup (fun entries => ¬ Names id entries) s := .of_unlocked free ended
    refine open_.run stamped first ?_
    refine (keeps_out_of_forall ?_).imp fun _ _ _ keeps _ _ => keeps
    intro step mem
    rcases List.mem_cons.mp mem with rfl | mem
    · exact fun starts => starts
    · exact others step (List.mem_append_left _ mem)
  have settled : Settled setup (fun entries => ¬ Names id entries) removed :=
    fenced.edit removal fun named => (names_removeEntry.mp named).2 rfl
  have removes : next setup removing (.edit (.remove id) .done) = some removed := removal
  exact (settled.run ((stamped.run first).next removes) last
    (keeps_out_of_forall fun step mem => others step (List.mem_append_right _ mem))).file

/-- A snapshot of a batch is under way when the batch ends. -/
theorem finished_stays_out_sample :
    ∃ s t, (machine []).run (start []) [.lock, .edit (.push (batch "b" [])) .done,
        .change (.insert (batch "b" [])), .capture, .change (.remove "b")] = some s ∧
      (machine []).run s (.lock :: [] ++ .edit (.remove "b") .done :: [.persist 0 .done]) = some t ∧
      ¬ Names "b" t.file := by
  refine ⟨_, _, rfl, rfl, ?_⟩
  refine finished_stays_out [] "b" _ _ ⟨[.lock, .edit (.push (batch "b" [])) .done,
    .change (.insert (batch "b" [])), .capture, .change (.remove "b")], rfl⟩ (by decide) []
    [.persist 0 .done] rfl fun step mem => ?_
  rw [List.mem_singleton.mp mem]
  exact id

/-- A batch that runs stays in the file, whatever the other threads do, as long as nobody takes it
from the active entries or from the file. -/
def Stays (file : List PersistedQueueEntry) (id : String) (s : State) : Prop :=
  ∀ steps t, (machine file).run s steps = some t →
    (machine file).Along (fun s step _ => Keeps setup (Names id) s step) s steps → Names id t.file

/-- **When a batch stays in the file**: it is in the file and active, and it is in every
snapshot under way that is newer than the file. An older snapshot does no harm, as it is
not written any more. -/
theorem stays_inflight_iff (file : List PersistedQueueEntry) (id : String) (s : State)
    (reached : (machine file).Reachable s) :
    Stays file id s ↔ Names id s.file ∧ Names id s.source ∧
      ∀ snapshot ∈ s.held ++ s.pending.toList,
        s.persisted < snapshot.generation → Names id snapshot.content := by
  refine (settled_iff (stamped_of_reachable reached)).trans ?_
  exact ⟨fun h => ⟨h.file, h.source, h.newer⟩, fun ⟨file, source, newer⟩ => ⟨file, source, newer⟩⟩

theorem stays_inflight_sample :
    ∃ s, (machine []).run (start []) [.lock, .edit (.push (batch "b" [])) .done,
        .change (.insert (batch "b" [])), .capture] = some s ∧ Stays [] "b" s := by
  refine ⟨_, rfl, (stays_inflight_iff [] "b" _ ⟨[.lock, .edit (.push (batch "b" [])) .done,
    .change (.insert (batch "b" [])), .capture], rfl⟩).mpr ?_⟩
  decide

/-- **A hand-off during which nobody copies** (from the lock on the file to the
insertion in the active entries) leaves the batch in the file until it is taken from
there. A copy of that window lacks the batch, and its write would drop it. -/
theorem handOff_stays (file : List PersistedQueueEntry) (entry : PersistedQueueEntry)
    (s pushed t : State) (reached : (machine file).Reachable s) (mid window after : List Step)
    (pushes : (machine file).run s (.lock :: mid ++ [.edit (.push entry) .done]) = some pushed)
    (run : (machine file).run pushed (window ++ .change (.insert entry) :: after) = some t)
    (quiet : .capture ∉ mid ++ window)
    (keeps : (machine file).Along (fun s step _ => Keeps setup (Names entry.id) s step) pushed
      (window ++ .change (.insert entry) :: after)) : Names entry.id t.file := by
  have stamped := stamped_of_reachable reached
  obtain ⟨pushing, first, push⟩ := (machine file).run_concat.mp pushes
  have free : s.locked = none := by
    obtain ⟨_, locks, -⟩ := (machine file).run_cons_eq_some.mp first
    simpa [machine, Snapshots.machine, next] using Option.isSome_of_eq_some locks
  have quietMid : .capture ∉ .lock :: mid := by
    intro mem
    rcases List.mem_cons.mp mem with same | mem
    · cases same
    · exact quiet (List.mem_append_left _ mem)
  have edits : next setup pushing (.edit (.push entry) .done) = some pushed := push
  have resting : Resting (Names entry.id) pushed :=
    ((Quiet.of_unlocked stamped free).run first quietMid).edit edits (names_putEntry.mpr (.inr rfl))
  have stampedPushed : Stamped pushed := (stamped.run first).next edits
  obtain ⟨waiting, waited, rest⟩ := (machine file).run_append.mp run
  obtain ⟨keepsWindow, keepsRest⟩ := keeps.of_append waited
  obtain ⟨inserted, inserts, last⟩ := (machine file).run_cons_eq_some.mp rest
  have rested : Resting (Names entry.id) waiting :=
    resting.run stampedPushed waited (fun mem => quiet (List.mem_append_right _ mem)) keepsWindow
  have changes : next setup waiting (.change (.insert entry)) = some inserted := inserts
  have settled : Settled setup (Names entry.id) inserted :=
    rested.change changes (names_putEntry.mpr (.inr rfl))
  have stampedInserted : Stamped inserted := (stampedPushed.run waited).next changes
  exact (settled.run stampedInserted last (keepsRest inserted inserts).2).file

theorem handOff_stays_sample :
    ∃ s t, (machine []).run (start []) [.lock, .edit (.push (batch "b" [])) .done] = some s ∧
      (machine []).run s ([] ++ .change (.insert (batch "b" [])) :: [.capture, .persist 0 .done]) =
        some t ∧ Names "b" t.file := by
  refine ⟨_, _, rfl, rfl, handOff_stays [] (batch "b" []) (start []) _ _ ⟨[], rfl⟩ [] []
    [.capture, .persist 0 .done] rfl rfl (by decide) ?_⟩
  exact fun _ _ => ⟨fun named => names_putEntry.mpr (.inr rfl),
    fun _ _ => ⟨trivial, fun _ _ => ⟨trivial, trivial⟩⟩⟩

/-- A copy between the two steps of a hand-off is newer than the file, and without the batch. -/
theorem handOff_overtaken (file : List PersistedQueueEntry) (entry : PersistedQueueEntry) :
    ∃ t, (machine file).run (start file) [.lock, .edit (.push entry) .done, .capture,
        .change (.insert entry), .persist 0 .done] = some t ∧
      Names entry.id t.source ∧ t.file = [] :=
  ⟨_, rfl, names_putEntry.mpr (.inr rfl), rfl⟩

end Inflight

end LlamaServerManager.Downloads
