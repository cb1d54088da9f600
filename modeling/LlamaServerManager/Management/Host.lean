import LlamaServerManager.Lib.Machine
import LlamaServerManager.Lib.Text
import LlamaServerManager.Management.Journal
import Mathlib.Data.List.Basic

/-!
The management host (`Host` in `management/mod.rs`) as a machine: requests, the workers of
the tasks they queue, the locks of the resources these work on (`scheduling.rs`), and hosts
that die and start again. A step is one critical section, or one point at which a worker
awaits something.

The catalog of operations, what they do, and SHA-256 over JSON text are parameters.
-/

namespace LlamaServerManager.Management

open Lib Lib.Json

/-! ### Requests -/

structure Request where
  version : Nat
  id : String
  token : String
  operation : String
  arguments : Value
  idempotencyKey : Option String
deriving Repr

/-- An entry of the catalog. -/
structure Operation where
  name : String
  permission : String
  validate : Value → Except Failure Unit

/-- What the host relies on besides its journal. -/
structure Environment where
  token : String
  /-- `catalog::find`. -/
  find : String → Option Operation
  /-- `wire::digest` of the JSON text of an operation and its arguments. -/
  digest : String → Value → String
  /-- The length of the text of a value. -/
  size : Value → Nat
  /-- `redact_command_secrets`. -/
  redactCommandSecrets : String → String

/-- What a request comes to once it is valid. -/
inductive Route where
  | capabilities
  | list
  | get (id : String)
  | cancel (id : String)
  | remove (selection : Selection)
  | read (operation : String) (arguments : Value)
  /-- A task, with the idempotency key wherever the request had it. -/
  | queue (request : Request)
deriving Repr

def failure (code message : String) : Failure := ⟨code, message, false⟩

/-- `args.remove(name)`. -/
def removeField (name : String) : Value → Value
  | .object fields => .object (fields.filter (·.1 ≠ name))
  | value => value

/-- The key is taken out of the arguments. -/
def liftKey (request : Request) : Except Failure Request :=
  match request.arguments.get "idempotency_key" with
  | none => .ok request
  | some value =>
    match value.asStr with
    | none => .error (failure "VALIDATION" "idempotency_key must be a string")
    | some key =>
      if ∃ existing ∈ request.idempotencyKey, existing ≠ key then
        .error (failure "VALIDATION" "conflicting idempotency keys")
      else .ok { request with
        arguments := removeField "idempotency_key" request.arguments
        idempotencyKey := some key }

def TaskStatus.ofText : String → TaskStatus
  | "queued" => .queued
  | "running" => .running
  | "succeeded" => .succeeded
  | "failed" => .failed
  | "cancelled" => .cancelled
  | "interrupted" => .interrupted
  | text => .other text

/-- The statuses of a request that is valid: strings. -/
def statuses (arguments : Value) : Option (List TaskStatus) :=
  (arguments.get "statuses").map fun value =>
    ((value.asArray.getD []).filterMap Value.asStr).map TaskStatus.ofText

def argumentId (arguments : Value) : String := ((arguments.get "id").bind Value.asStr).getD ""

/-- What an operation of the host itself comes to. -/
def hostRoute (operation : Operation) (request : Request) : Except Failure Route :=
  let cleanup (selection : Selection) : Except Failure Route :=
    if request.idempotencyKey.isSome then
      .error (failure "VALIDATION" "task history cleanup does not accept idempotency keys")
    else .ok (.remove selection)
  match operation.name with
  | "service.capabilities" => .ok .capabilities
  | "tasks.list" => .ok .list
  | "tasks.get" => .ok (.get (argumentId request.arguments))
  | "tasks.cancel" => .ok (.cancel (argumentId request.arguments))
  | "tasks.delete" => cleanup (.one (argumentId request.arguments))
  | "tasks.clear" => cleanup (.finished (statuses request.arguments))
  | name =>
    if operation.permission = "read" then .ok (.read name request.arguments)
    else .ok (.queue request)

/-- The part of `execute` that takes no lock. -/
def route (env : Environment) (request : Request) : Except Failure Route := do
  if request.version ≠ 1 then
    .error (failure "VERSION_MISMATCH" "management protocol version mismatch")
  if request.token ≠ env.token then
    .error (failure "UNAUTHORIZED" "management authentication failed")
  let request ← liftKey request
  if request.id.utf8ByteSize > 128 ∨
      ∃ key ∈ request.idempotencyKey, key.isEmpty ∨ key.utf8ByteSize > 128 then
    .error (failure "VALIDATION" "invalid request identity")
  let operation ← (env.find request.operation).elim
    (.error (failure "NOT_FOUND" "unknown management operation")) .ok
  operation.validate request.arguments
  hostRoute operation request

/-! ### Workers -/

/-- What `prepare` gave, and the lock of the resource. -/
abbrev Preparation := Except Failure (Value × Nat)

/-- Where a worker is. -/
inductive Phase where
  /-- The task is queued, its `Notify` not yet registered. -/
  | accepted
  | spawned
  | preparing
  | waiting (prepared : Value) (lock : Nat)
  | prepared (preparation : Preparation)
  /-- `begin_task` returned an error, which is to be recorded. -/
  | unstarted (error : Failure) (lock : Option Nat)
  | begun (preparation : Preparation)
  | dispatching (lock : Nat)
  | finished (result : Except Failure Value)
  | closing (lock : Option Nat)
deriving Repr

/-- The task `execute` spawns for a queued operation, with how far it has come; its
guard of the resource's lock is part of the phase. -/
structure Worker where
  id : String
  operation : String
  arguments : Value
  /-- A permit of its `Notify`. -/
  notified : Bool := false
  phase : Phase := .accepted
deriving Repr

namespace Phase

def preparationLock : Preparation → Option Nat
  | .ok (_, lock) => some lock
  | .error _ => none

/-- The lock whose guard the worker holds. -/
def held : Phase → Option Nat
  | .prepared preparation | .begun preparation => preparationLock preparation
  | .unstarted _ lock | .closing lock => lock
  | .dispatching lock => some lock
  | _ => none

/-- The lock the worker refers to: one it holds, or awaits. -/
def refers : Phase → Option Nat
  | .waiting _ lock => some lock
  | phase => phase.held

/-- The task has not begun. -/
def early : Phase → Bool
  | .accepted | .spawned | .preparing | .waiting .. | .prepared _ => true
  | _ => false

/-- The task has begun, and its end is not recorded. -/
def late : Phase → Bool
  | .begun _ | .dispatching _ | .finished _ => true
  | _ => false

/-- The task can still be dispatched. -/
def open_ : Phase → Bool
  | .begun _ => true
  | phase => phase.early

def isUnstarted : Phase → Bool
  | .unstarted .. => true
  | _ => false

end Phase

/-- `resource_key`. -/
def resourceKey (operation : String) (arguments : Value) : String :=
  let domain := String.ofList (operation.toList.takeWhile (· ≠ '.'))
  if domain = "instances" ∨ domain = "presets" ∨ domain = "checkpoints" then
    "instance:" ++ ((arguments.get "id").bind Value.asStr).getD "create"
  else domain

def Worker.key (worker : Worker) : String := resourceKey worker.operation worker.arguments

/-- The memory of a running host. Nothing of it survives a crash; what does is
`State.disk`. -/
structure Host where
  tasks : List Task
  /-- Locks by their resource. The map does not keep a lock alive. -/
  locks : List (String × Nat) := []
  nextLock : Nat := 0
  /-- The ids with a registered `Notify`. -/
  cancellations : List String := []
  workers : List Worker := []

namespace Host

def worker (id : String) (host : Host) : Option Worker := host.workers.find? (·.id = id)

def setWorker (id : String) (f : Worker → Worker) (host : Host) : Host :=
  { host with workers := host.workers.map fun worker => if worker.id = id then f worker else worker }

def enter (id : String) (phase : Phase) (host : Host) : Host :=
  host.setWorker id ({ · with phase })

/-- The lock of the key that some worker refers to, or a new one, in the map without the
locks nobody refers to. -/
def lockOf (key : String) (host : Host) : Nat × Host :=
  let locks := host.locks.filter fun (_, lock) =>
    host.workers.any fun worker => worker.phase.refers = some lock
  match locks.lookup key with
  | some lock => (lock, { host with locks })
  | none =>
    (host.nextLock, { host with
      locks := (key, host.nextLock) :: locks
      nextLock := host.nextLock + 1 })

def free (lock : Nat) (host : Host) : Bool :=
  host.workers.all fun worker => worker.phase.held ≠ some lock

end Host

/-! ### The machine -/

/-- What a request that was valid is answered. -/
inductive Reply where
  | capabilities
  | tasks (tasks : List Task)
  | task (task : Task)
  | cancellation (id : String) (cancellation : Journal.Cancellation)
  | removed (removed : Removed)
  | read (value : Value)
  | accepted (id : String)
  | replayed (id : String) (status : TaskStatus)
deriving Repr

/-- What has happened. -/
inductive Event where
  | replied (route : Route) (reply : Except Failure Reply)
  /-- `begin_task` returned true, with what `tasks.json` held then. -/
  | began (id : String) (disk : Option (List Task))
  | dispatched (id : String)
  | crashed

/-- `tasks.json`, the host if one is running, and two histories: the ids that were drawn
and what has happened, the earliest first. -/
structure State where
  disk : Option (List Task)
  host : Option Host
  /-- The ids that were drawn so far. -/
  ids : List String
  log : List Event

/-- What the surroundings contribute to the section of a request. -/
structure Chance where
  write : Write
  uuid : String
  now : Int
  qualified : Bool
  /-- The result of an operation that only reads. -/
  result : Except Failure Value

/-- What a worker does next, with what the surroundings decide in it. Its phase says
which of these it can do. -/
inductive Work where
  | register
  | check
  | prepare (result : Except Failure Value)
  | lock
  | notified
  | begin (write : Write) (now : Int)
  | dispatch
  /-- The operation has come to an end, with a result that holds no secrets. -/
  | finish (result : Except Failure Value)
  | record (write : Write) (now : Int)
  | close
deriving Repr

/-- A step of the system: the host starts or dies, a request is handled under the lock
of the journal, or a worker goes on. -/
inductive Label where
  | start (write : Write) (now : Int)
  | crash
  | request (request : Request) (chance : Chance)
  | work (id : String) (work : Work)

/-- The section of `execute` that queues a task. The id it draws is returned if it is used. -/
def queue (env : Environment) (chance : Chance) (request : Request) (journal : Journal) :
    Except Failure Reply × Journal :=
  let digest := env.digest request.operation request.arguments
  match request.idempotencyKey.bind fun key =>
      journal.tasks.find? (·.idempotencyKey = some key) with
  | some task =>
    if task.requestDigest ≠ digest then
      (.error (failure "IDEMPOTENCY_CONFLICT"
        "idempotency key was used with different arguments"), journal)
    else (.ok (.replayed task.id task.status), journal)
  | none =>
    if 32 ≤ journal.tasks.countP (·.status.active) then
      (.error (failure "BUSY" "management task queue is full"), journal)
    else
      let (result, journal) := journal.enqueue chance.write
        { id := chance.uuid
          operation := request.operation
          requestDigest := digest
          idempotencyKey := request.idempotencyKey
          status := .queued
          createdAt := chance.now
          updatedAt := chance.now }
      (result.map fun _ => .accepted chance.uuid, journal)

/-- A request, with the tasks in memory and on disk. -/
def answer (env : Environment) (chance : Chance) (journal : Journal) :
    Route → Except Failure Reply × Bool × Journal
  | .capabilities => (.ok .capabilities, false, journal)
  | .list => (.ok (.tasks journal.tasks.reverse), false, journal)
  | .get id => ((findTask id journal.tasks).map .task, false, journal)
  | .cancel id =>
    let (result, notify, journal) :=
      journal.cancel chance.write chance.now chance.qualified id
    (result.map (.cancellation id), notify, journal)
  | .remove selection =>
    let (result, journal) := journal.remove chance.write selection
    (result.map .removed, false, journal)
  | .read _ _ => (chance.result.map .read, false, journal)
  | .queue request =>
    let (result, journal) := queue env chance request journal
    (result, false, journal)

/-- The worker of a task that was accepted. -/
def spawn (request : Request) : Except Failure Reply → List Worker
  | .ok (.accepted id) =>
    [{ id, operation := request.operation, arguments := request.arguments }]
  | _ => []

/-- What follows the section: the worker is notified, or there is a new one. -/
def after (route : Route) (reply : Except Failure Reply) (notify : Bool) (host : Host) : Host :=
  match route with
  | .cancel id =>
    if notify ∧ id ∈ host.cancellations then
      host.setWorker id ({ · with notified := true })
    else host
  | .queue request => { host with workers := host.workers ++ spawn request reply }
  | _ => host

def serve (env : Environment) (chance : Chance) (host : Host) (route : Route) (s : State) :
    State :=
  let (reply, notify, journal) := answer env chance ⟨s.disk, host.tasks⟩ route
  { disk := journal.disk
    host := some (after route reply notify { host with tasks := journal.tasks })
    ids := chance.uuid :: s.ids
    log := s.log ++ [.replied route reply] }

/-- `begin_task`, and what the worker goes on with. -/
def beginTask (write : Write) (now : Int) (worker : Worker) (preparation : Preparation)
    (host : Host) (s : State) : State :=
  let (result, journal) := Journal.begin write now worker.id ⟨s.disk, host.tasks⟩
  let host := { host with tasks := journal.tasks }
  let lock := Phase.preparationLock preparation
  match result with
  | .ok true =>
    { s with
      disk := journal.disk
      host := some (host.enter worker.id (.begun preparation))
      log := s.log ++ [.began worker.id journal.disk] }
  | .ok false =>
    { s with disk := journal.disk, host := some (host.enter worker.id (.closing lock)) }
  | .error error =>
    { s with disk := journal.disk, host := some (host.enter worker.id (.unstarted error lock)) }

/-- The status a task that was executed ends with. -/
def endStatus (operation : String) : Except Failure Value → TaskStatus
  | .ok _ => .succeeded
  | .error error =>
    if operation = "checkpoints.validate" ∧ error.code = "CANCELLED" then .cancelled else .failed

/-- A worker records how its task ended. -/
def recordEnd (env : Environment) (write : Write) (now : Int) (worker : Worker)
    (status : TaskStatus) (result : Except Failure Value) (lock : Option Nat) (host : Host)
    (s : State) : State :=
  let (_, journal) :=
    Journal.update env.size write now worker.id status result ⟨s.disk, host.tasks⟩
  let host := { host with tasks := journal.tasks }
  { s with disk := journal.disk, host := some (host.enter worker.id (.closing lock)) }

def safeError (env : Environment) (error : Failure) : Failure :=
  { error with message := Text.takeChars 4096 (env.redactCommandSecrets error.message) }

/-- What is recorded of a task that could not begin. -/
def startFailure (env : Environment) (error : Failure) : Failure :=
  safeError env
    (failure "TASK_START_PERSIST_FAILED" ("operation was not executed: " ++ error.message))

/-- A worker goes on, if that is what it does next. -/
def advance (env : Environment) (worker : Worker) (host : Host) (s : State) :
    Phase → Work → Option State
  | .accepted, .register =>
    let host := { host with cancellations := worker.id :: host.cancellations }
    some { s with host := some (host.enter worker.id .spawned) }
  | .spawned, .check =>
    let queued := host.tasks.any fun task => task.id = worker.id ∧ task.status = .queued
    let phase : Phase := if queued then .preparing else .closing none
    some { s with host := some (host.enter worker.id phase) }
  | .preparing, .prepare (.error error) =>
    some { s with host := some (host.enter worker.id (.prepared (.error error))) }
  | .preparing, .prepare (.ok prepared) =>
    let (lock, host) := host.lockOf worker.key
    some { s with host := some (host.enter worker.id (.waiting prepared lock)) }
  | .waiting prepared lock, .lock =>
    if host.free lock then
      some { s with host := some (host.enter worker.id (.prepared (.ok (prepared, lock)))) }
    else none
  | .preparing, .notified | .waiting _ _, .notified =>
    if worker.notified then some { s with host := some (host.enter worker.id (.closing none)) }
    else none
  | .prepared preparation, .begin write now =>
    some (beginTask write now worker preparation host s)
  | .unstarted error lock, .record write now =>
    some (recordEnd env write now worker .failed (.error (startFailure env error)) lock host s)
  | .begun (.ok (_, lock)), .dispatch =>
    some { s with
      host := some (host.enter worker.id (.dispatching lock))
      log := s.log ++ [.dispatched worker.id] }
  | .begun (.error error), .finish _ =>
    some { s with host := some (host.enter worker.id (.finished (.error error))) }
  | .dispatching _, .finish result =>
    some { s with host := some (host.enter worker.id (.finished result)) }
  | .finished result, .record write now =>
    some (recordEnd env write now worker (endStatus worker.operation result) result none host s)
  | .closing _, .close =>
    some { s with host := some { host with
      cancellations := host.cancellations.filter (· ≠ worker.id)
      workers := host.workers.filter (·.id ≠ worker.id) } }
  | _, _ => none

/-- `start`: the host is there once the journal is written. -/
def startHost (write : Write) (now : Int) (s : State) : State :=
  let tasks := recovered now s.disk
  let (result, disk) := persistTasks write tasks s.disk
  { s with disk, host := if result.toOption.isSome then some { tasks } else none }

def next (env : Environment) (s : State) : Label → Option State
  | .start write now => if s.host.isNone then some (startHost write now s) else none
  | .crash => some { s with host := none, log := s.log ++ [.crashed] }
  | .request request chance =>
    match s.host, route env request with
    | some host, .ok route =>
      -- An id is never drawn twice.
      if chance.uuid ∈ s.ids then none else some (serve env chance host route s)
    | some _, .error _ => some s
    | none, _ => none
  | .work id work =>
    match s.host with
    | none => none
    | some host => (host.worker id).bind fun worker => advance env worker host s worker.phase work

/-- The history of a data directory that was empty. -/
def machine (env : Environment) : Machine State Label where
  init := ⟨none, none, [], []⟩
  next := next env

end LlamaServerManager.Management
