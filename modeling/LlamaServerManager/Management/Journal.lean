import LlamaServerManager.Lib.Except
import LlamaServerManager.Lib.Json
import Mathlib.Data.List.Nodup

/-!
The task journal of the management host (`journal.rs`, `history.rs` and the methods of
`Host` in `management/mod.rs`): the list of tasks in memory and the one in `tasks.json`.

A write of the file is atomic. It can fail before it took place, or be reported as failed
after it (`protect_file` and `sync_parent` run behind the rename).
-/

namespace LlamaServerManager.Management

open Lib.Json

/-- `task.status`. -/
inductive TaskStatus where
  | queued
  | running
  | succeeded
  | failed
  | cancelled
  | interrupted
  /-- A text that no version of the program writes. -/
  | other (text : String)
deriving DecidableEq, Repr

/-- Queued or running. -/
def TaskStatus.active (status : TaskStatus) : Bool := status = .queued ∨ status = .running

/-- `FINISHED`. -/
def finished : List TaskStatus := [.succeeded, .failed, .cancelled, .interrupted]

structure Failure where
  code : String
  message : String
  retryable : Bool := false
deriving DecidableEq, Repr

structure Task where
  id : String
  operation : String
  requestDigest : String
  idempotencyKey : Option String
  status : TaskStatus
  createdAt : Int
  updatedAt : Int
  result : Option Value := none
  error : Option Failure := none
deriving Repr

/-- What becomes of a write of `tasks.json`. -/
inductive Write where
  | done
  | failed (error : Failure)
  /-- The file is replaced, and the failure is of a call behind that. -/
  | late (error : Failure)
deriving DecidableEq, Repr

/-- The tasks in `tasks.json`, if there is one, and those in memory. -/
structure Journal where
  disk : Option (List Task)
  tasks : List Task

/-- `persist_tasks`: the result, and the file. -/
def persistTasks (write : Write) (tasks : List Task) (disk : Option (List Task)) :
    Except Failure Unit × Option (List Task) :=
  match write with
  | .done => (.ok (), some tasks)
  | .failed error => (.error error, disk)
  | .late error => (.error error, some tasks)

/-- The first task with the id is changed. -/
def updateFirst (id : String) (f : Task → Task) : List Task → List Task
  | [] => []
  | task :: tasks => if task.id = id then f task :: tasks else task :: updateFirst id f tasks

def findTask (id : String) (tasks : List Task) : Except Failure Task :=
  (tasks.find? (·.id = id)).elim (.error ⟨"NOT_FOUND", "task not found", false⟩) .ok

/-! ### Before a task is executed -/

/-- The loop of `enqueue`, with a bound on its rounds: the oldest task that is not active
goes while there are too many. -/
def evictRounds : Nat → List Task → List Task
  | 0, tasks => tasks
  | rounds + 1, tasks =>
    if 200 ≤ tasks.length then
      match tasks.findIdx? fun task => !task.status.active with
      | some index => evictRounds rounds (tasks.eraseIdx index)
      | none => tasks
    else tasks

def evict (tasks : List Task) : List Task := evictRounds tasks.length tasks

namespace Journal

/-- The list is written, and then the one in memory. -/
def commit (write : Write) (next : List Task) (journal : Journal) :
    Except Failure Unit × Journal :=
  let (result, disk) := persistTasks write next journal.disk
  (result, ⟨disk, if result.toOption.isSome then next else journal.tasks⟩)

def enqueue (write : Write) (task : Task) (journal : Journal) : Except Failure Unit × Journal :=
  journal.commit write (evict journal.tasks ++ [task])

def begin (write : Write) (now : Int) (id : String) (journal : Journal) :
    Except Failure Bool × Journal :=
  match findTask id journal.tasks with
  | .error error => (.error error, journal)
  | .ok task =>
    if task.status ≠ .queued then (.ok false, journal)
    else
      let (result, journal) := journal.commit write
        (updateFirst id (fun task => { task with status := .running, updatedAt := now })
          journal.tasks)
      (result.map fun _ => true, journal)

/-! ### Cancelling and recording -/

/-- How `cancel_task` answers. -/
inductive Cancellation where
  | requested
  | status (status : TaskStatus)
deriving DecidableEq, Repr

/-- `cancel_task`. `qualified` is the answer of `checkpoint_qualification::cancel`. Besides
the answer it says whether the worker is notified. -/
def cancel (write : Write) (now : Int) (qualified : Bool) (id : String) (journal : Journal) :
    Except Failure Cancellation × Bool × Journal :=
  match findTask id journal.tasks with
  | .error error => (.error error, false, journal)
  | .ok task =>
    if task.status = .running ∧ task.operation = "checkpoints.validate" then
      if qualified then (.ok .requested, false, journal)
      else (.error ⟨"VALIDATION_NOT_RUNNING", "validation is preparing or has already finished; " ++
        "query tasks.get and retry cancellation if still running", false⟩, false, journal)
    else if task.status = .running then
      (.error ⟨"TASK_RUNNING", "operation has started; use the resource stop/pause command " ++
        "and query tasks.get", false⟩, false, journal)
    else if task.status = .queued then
      let (result, journal) := journal.commit write
        (updateFirst id (fun task => { task with
          status := .cancelled
          updatedAt := now
          error := some ⟨"CANCELLED", "cancelled before side effects started", false⟩ })
          journal.tasks)
      (result.map fun _ => .status .cancelled, result.toOption.isSome, journal)
    else (.ok (.status task.status), false, journal)

/-- What `update_task` makes of a task. `size` is the length of a value's text. -/
def recorded (size : Value → Nat) (now : Int) (status : TaskStatus)
    (result : Except Failure Value) (task : Task) : Task :=
  let task := { task with status, updatedAt := now }
  match result with
  | .ok value =>
    { task with result := some (if size value > 128 * 1024 then
        .object [("result_omitted", .bool true),
          ("reason", .string "task snapshot exceeds 128 KiB; query the resource")]
      else value) }
  | .error error => { task with error := some error }

/-- `update_task`: what happened is published, whether or not it can be written. -/
def update (size : Value → Nat) (write : Write) (now : Int) (id : String) (status : TaskStatus)
    (result : Except Failure Value) (journal : Journal) : Except Failure Unit × Journal :=
  match journal.tasks.find? (·.id = id) with
  | none => (.error ⟨"NOT_FOUND", "task disappeared", false⟩, journal)
  | some _ =>
    let tasks := updateFirst id (recorded size now status result) journal.tasks
    let (result, disk) := persistTasks write tasks journal.disk
    (result, ⟨disk, tasks⟩)

end Journal

/-! ### Removing history -/

inductive Selection where
  | one (id : String)
  | finished (statuses : Option (List TaskStatus))
deriving DecidableEq, Repr

namespace Selection

def check (tasks : List Task) : Selection → Except Failure Unit
  | one id => do
    let task ← findTask id tasks
    if task.status ∈ Management.finished then .ok ()
    else .error ⟨"TASK_ACTIVE", "only finished task records can be deleted; " ++
      "queued and running tasks are protected", false⟩
  | finished (some statuses) =>
    if statuses = [] ∨ statuses.length > Management.finished.length ∨ ¬ statuses.Nodup ∨
        ∃ status ∈ statuses, status ∉ Management.finished then
      .error ⟨"VALIDATION", "statuses must be a non-empty subset of " ++
        "succeeded, failed, cancelled, interrupted", false⟩
    else .ok ()
  | finished none => .ok ()

def selected (task : Task) : Selection → Bool
  | one id => task.id = id
  | finished statuses => decide (task.status ∈ Management.finished) &&
      statuses.all (task.status ∈ ·)

end Selection

/-- What a removal answers: the ids removed, and how many tasks are left. -/
structure Removed where
  deletedIds : List String
  retainedCount : Nat
deriving DecidableEq, Repr

/-- `history::remove`. -/
def Journal.remove (write : Write) (selection : Selection) (journal : Journal) :
    Except Failure Removed × Journal :=
  match selection.check journal.tasks with
  | .error error => (.error error, journal)
  | .ok _ =>
    let deletedIds := (journal.tasks.filter (selection.selected ·)).map (·.id)
    if deletedIds = [] then (.ok ⟨[], journal.tasks.length⟩, journal)
    else
      let (result, journal) := journal.commit write
        (journal.tasks.filter fun task => !selection.selected task)
      (result.map fun _ => ⟨deletedIds, journal.tasks.length⟩, journal)

/-! ### Starting -/

/-- A task that was active when its host died. -/
def interrupted (now : Int) (task : Task) : Task :=
  if task.status.active then
    { task with
      status := .interrupted
      updatedAt := now
      error := some ⟨"INTERRUPTED",
        "host exited before recording completion; inspect resource state before retrying", false⟩ }
  else task

/-- The tasks `start` finds: none is active any more. -/
def recovered (now : Int) (disk : Option (List Task)) : List Task :=
  (disk.getD []).map (interrupted now)

end LlamaServerManager.Management
