import LlamaServerManager.Management.Host

/-!
What a step of the management host can do to its tasks, their workers and the log: one
constructor for each kind of step (`Change`), and the lemma that says it of the machine
(`next_change`).
-/

namespace LlamaServerManager.Management

open Lib Lib.Json

/-! ### Lists of tasks -/

/-- A change that keeps a field keeps the list of that field. -/
theorem map_updateFirst {β : Type} {field : Task → β} {id : String} {f : Task → Task}
    (keeps : ∀ task, field (f task) = field task) (tasks : List Task) :
    (updateFirst id f tasks).map field = tasks.map field := by
  induction tasks with
  | nil => rfl
  | cons t tasks ih =>
    rw [updateFirst]
    split
    · rw [List.map_cons, List.map_cons, keeps]
    · rw [List.map_cons, List.map_cons, ih]

theorem evictRounds_sublist (rounds : Nat) (tasks : List Task) :
    (evictRounds rounds tasks).Sublist tasks := by
  induction rounds generalizing tasks with
  | zero => exact .refl _
  | succ rounds ih =>
    rw [evictRounds]
    split
    · split
      · next index _ => exact (ih _).trans (List.eraseIdx_sublist _ index)
      · exact .refl _
    · exact .refl _

theorem evict_sublist (tasks : List Task) : (evict tasks).Sublist tasks :=
  evictRounds_sublist _ tasks

/-- Only tasks that are not active are evicted. -/
theorem mem_evictRounds {task : Task} (active : task.status.active = true) (rounds : Nat)
    {tasks : List Task} (mem : task ∈ tasks) : task ∈ evictRounds rounds tasks := by
  induction rounds generalizing tasks with
  | zero => exact mem
  | succ rounds ih =>
    rw [evictRounds]
    split
    · split
      · next index found =>
          refine ih ?_
          obtain ⟨lt, idle, -⟩ := List.findIdx?_eq_some_iff_getElem.mp found
          obtain ⟨k, bound, rfl⟩ := List.mem_iff_getElem.mp mem
          refine List.mem_eraseIdx_iff_getElem.mpr ⟨k, bound, ?_, rfl⟩
          rintro rfl
          rw [active] at idle
          cases idle
      · exact mem
    · exact mem

theorem findTask_eq_ok {id : String} {tasks : List Task} {task : Task}
    (h : findTask id tasks = .ok task) : task ∈ tasks ∧ task.id = id := by
  have found := elim_eq_ok.mp h
  exact ⟨List.mem_of_find?_eq_some found, by simpa using List.find?_some found⟩

/-! ### What a step sees and changes -/

/-- What the properties of the journal are about. -/
structure View where
  written : List Task
  tasks : List Task
  workers : List Worker
  ids : List String
  log : List Event

def State.tasks (s : State) : List Task := (s.host.map (·.tasks)).getD []

def State.workers (s : State) : List Worker := (s.host.map (·.workers)).getD []

def State.view (s : State) : View := ⟨s.disk.getD [], s.tasks, s.workers, s.ids, s.log⟩

/-- What a write of `next` leaves on disk and in memory, and whether it is reported. -/
inductive Outcome (next written tasks : List Task) : Bool → List Task → List Task → Prop where
  | done : Outcome next written tasks true next next
  | late : Outcome next written tasks false next tasks
  | failed : Outcome next written tasks false written tasks

/-- A failure leaves the tasks in memory as they were. -/
theorem Outcome.unchanged {next written tasks written' tasks' : List Task}
    (outcome : Outcome next written tasks false written' tasks') : tasks' = tasks := by
  cases outcome <;> rfl

/-- The steps of a worker that change nothing else. -/
inductive Moves : Phase → Phase → Prop where
  | register : Moves .accepted .spawned
  | check : Moves .spawned .preparing
  | absent : Moves .spawned (.closing none)
  | unprepared (error : Failure) : Moves .preparing (.prepared (.error error))
  | wait (prepared : Value) (lock : Nat) : Moves .preparing (.waiting prepared lock)
  | lock (prepared : Value) (lock : Nat) :
      Moves (.waiting prepared lock) (.prepared (.ok (prepared, lock)))
  | notified : Moves .preparing (.closing none)
  | waitingNotified (prepared : Value) (lock : Nat) : Moves (.waiting prepared lock) (.closing none)
  /-- `begin_task` returned false. -/
  | notBegun (preparation : Preparation) :
      Moves (.prepared preparation) (.closing (Phase.preparationLock preparation))
  | notPrepared (error : Failure) : Moves (.begun (.error error)) (.finished (.error error))
  | finish (lock : Nat) (result : Except Failure Value) : Moves (.dispatching lock) (.finished result)

/-- The worker is in another phase. -/
def movedTo (id : String) (phase : Phase) (workers : List Worker) : List Worker :=
  workers.map fun worker => if worker.id = id then { worker with phase } else worker

/-- Permits of the worker do not matter to its task. -/
def notify (id : String) (workers : List Worker) : List Worker :=
  workers.map fun worker => if worker.id = id then { worker with notified := true } else worker

/-- A reply to a request that changed nothing. -/
structure Harmless (env : Environment) (tasks : List Task) (route : Route)
    (reply : Except Failure Reply) : Prop where
  accepted : ∀ id, reply ≠ .ok (.accepted id)
  cancelled : ∀ id, reply = .ok (.cancellation id (.status .cancelled)) →
    ∃ task ∈ tasks, task.id = id ∧ task.status = .cancelled
  replayed : ∀ id status, reply = .ok (.replayed id status) → ∃ request key, route = .queue request ∧
    request.idempotencyKey = some key ∧ ∃ task ∈ tasks, task.id = id ∧
      task.idempotencyKey = some key ∧
      task.requestDigest = env.digest request.operation request.arguments

/-- The task a request queues. -/
structure Queued (env : Environment) (request : Request) (uuid : String) (tasks : List Task)
    (task : Task) : Prop where
  id : task.id = uuid
  key : task.idempotencyKey = request.idempotencyKey
  digest : task.requestDigest = env.digest request.operation request.arguments
  status : task.status = .queued
  fresh : ∀ key, task.idempotencyKey = some key → ∀ other ∈ tasks, other.idempotencyKey ≠ some key

/-- A change of a task that is its status and what goes with it. -/
structure Restatus (status : TaskStatus) (f : Task → Task) : Prop where
  status : ∀ task, (f task).status = status
  id : ∀ task, (f task).id = task.id
  key : ∀ task, (f task).idempotencyKey = task.idempotencyKey
  digest : ∀ task, (f task).requestDigest = task.requestDigest

/-- The host dies, or is started. -/
inductive Restart : View → View → Prop where
  | crash (written tasks workers ids log) :
      Restart ⟨written, tasks, workers, ids, log⟩ ⟨written, [], [], ids, log ++ [.crashed]⟩
  | start (now : Int) (written ids log) :
      Restart ⟨written, [], [], ids, log⟩
        ⟨written.map (interrupted now), written.map (interrupted now), [], ids, log⟩
  /-- The host does not start, whether or not the journal was written. -/
  | notStarted (now : Int) (written written' ids log)
      (either : written' = written ∨ written' = written.map (interrupted now)) :
      Restart ⟨written, [], [], ids, log⟩ ⟨written', [], [], ids, log⟩

/-- A step of a host that is there. -/
inductive Change (env : Environment) : View → View → Prop where
  | refused (v : View) : Change env v v
  | answered (written tasks workers ids log) (uuid : String) (route : Route)
      (reply : Except Failure Reply) (harmless : Harmless env tasks route reply) :
      Change env ⟨written, tasks, workers, ids, log⟩
        ⟨written, tasks, workers, uuid :: ids, log ++ [.replied route reply]⟩
  | queued {written' tasks' : List Task} (written tasks workers ids log) (uuid : String)
      (request : Request) (task : Task) (made : Queued env request uuid tasks task)
      (fresh : uuid ∉ ids)
      (outcome : Outcome (evict tasks ++ [task]) written tasks true written' tasks') :
      Change env ⟨written, tasks, workers, ids, log⟩
        ⟨written', tasks', workers ++ [⟨uuid, request.operation, request.arguments, false,
          .accepted⟩], uuid :: ids,
          log ++ [.replied (.queue request) (.ok (.accepted uuid))]⟩
  | notQueued {written' tasks' : List Task} (written tasks workers ids log) (uuid : String)
      (request : Request) (task : Task) (error : Failure)
      (made : Queued env request uuid tasks task) (fresh : uuid ∉ ids)
      (outcome : Outcome (evict tasks ++ [task]) written tasks false written' tasks') :
      Change env ⟨written, tasks, workers, ids, log⟩
        ⟨written', tasks', workers, uuid :: ids, log ++ [.replied (.queue request) (.error error)]⟩
  | cancelled {written' tasks' : List Task} {f : Task → Task} (written tasks workers ids log)
      (uuid id : String) (task : Task) (mem : task ∈ tasks) (eq : task.id = id)
      (was : task.status = .queued) (becomes : Restatus .cancelled f)
      (outcome : Outcome (updateFirst id f tasks) written tasks true written' tasks')
      (workers' : List Worker) (same : workers' = workers ∨ workers' = notify id workers) :
      Change env ⟨written, tasks, workers, ids, log⟩ ⟨written', tasks', workers', uuid :: ids,
        log ++ [.replied (.cancel id) (.ok (.cancellation id (.status .cancelled)))]⟩
  | notCancelled {written' tasks' : List Task} {f : Task → Task} (written tasks workers ids log)
      (uuid id : String) (task : Task) (error : Failure) (mem : task ∈ tasks) (eq : task.id = id)
      (was : task.status = .queued) (becomes : Restatus .cancelled f)
      (outcome : Outcome (updateFirst id f tasks) written tasks false written' tasks') :
      Change env ⟨written, tasks, workers, ids, log⟩ ⟨written', tasks', workers, uuid :: ids,
        log ++ [.replied (.cancel id) (.error error)]⟩
  | removed {written' tasks' : List Task} {ok : Bool} (written tasks workers ids log)
      (uuid : String) (selection : Selection) (reply : Except Failure Removed)
      (checked : selection.check tasks = .ok ())
      (outcome : Outcome (tasks.filter fun task => !selection.selected task) written tasks ok
        written' tasks') :
      Change env ⟨written, tasks, workers, ids, log⟩ ⟨written', tasks', workers, uuid :: ids,
        log ++ [.replied (.remove selection) (reply.map .removed)]⟩
  | moved {worker : Worker} {phase : Phase} (written tasks workers ids log)
      (mem : worker ∈ workers) (moves : Moves worker.phase phase) :
      Change env ⟨written, tasks, workers, ids, log⟩
        ⟨written, tasks, movedTo worker.id phase workers, ids, log⟩
  | began {worker : Worker} {preparation : Preparation} {f : Task → Task}
      (written tasks workers ids log) (mem : worker ∈ workers)
      (phase : worker.phase = .prepared preparation) (task : Task) (known : task ∈ tasks)
      (eq : task.id = worker.id) (was : task.status = .queued) (becomes : Restatus .running f) :
      Change env ⟨written, tasks, workers, ids, log⟩
        ⟨updateFirst worker.id f tasks, updateFirst worker.id f tasks,
          movedTo worker.id (.begun preparation) workers, ids,
          log ++ [.began worker.id (some (updateFirst worker.id f tasks))]⟩
  | notBegun {worker : Worker} {preparation : Preparation} {f : Task → Task}
      {written' tasks' : List Task} (written tasks workers ids log) (error : Failure)
      (mem : worker ∈ workers) (phase : worker.phase = .prepared preparation)
      (becomes : Restatus .running f)
      (absent : (∀ task ∈ tasks, task.id ≠ worker.id) ∨
        ∃ task ∈ tasks, task.id = worker.id ∧ task.status = .queued)
      (outcome : Outcome (updateFirst worker.id f tasks) written tasks false written' tasks') :
      Change env ⟨written, tasks, workers, ids, log⟩
        ⟨written', tasks', movedTo worker.id
          (.unstarted error (Phase.preparationLock preparation)) workers, ids, log⟩
  | recorded {worker : Worker} {f : Task → Task} {written' : List Task}
      (written tasks workers ids log) (status : TaskStatus) (lock : Option Nat)
      (mem : worker ∈ workers)
      (from_ : worker.phase.isUnstarted = true ∧ status = .failed ∨
        (∃ result, worker.phase = .finished result) ∧ status ∈ finished)
      (becomes : Restatus status f)
      (either : written' = written ∨ written' = updateFirst worker.id f tasks) :
      Change env ⟨written, tasks, workers, ids, log⟩
        ⟨written', updateFirst worker.id f tasks, movedTo worker.id (.closing lock) workers,
          ids, log⟩
  | dispatched {worker : Worker} (written tasks workers ids log) (prepared : Value) (lock : Nat)
      (mem : worker ∈ workers) (phase : worker.phase = .begun (.ok (prepared, lock))) :
      Change env ⟨written, tasks, workers, ids, log⟩
        ⟨written, tasks, movedTo worker.id (.dispatching lock) workers, ids,
          log ++ [.dispatched worker.id]⟩
  | closed (written tasks workers ids log) (id : String) :
      Change env ⟨written, tasks, workers, ids, log⟩
        ⟨written, tasks, workers.filter (·.id ≠ id), ids, log⟩

/-! ### The machine takes such steps -/

theorem Journal.commit_cases (write : Write) (next : List Task) (journal : Journal) :
    (∃ written', journal.commit write next = (.ok (), ⟨some written', next⟩) ∧ written' = next) ∨
      ∃ error disk', journal.commit write next = (.error error, ⟨disk', journal.tasks⟩) ∧
        (disk' = journal.disk ∨ disk' = some next) := by
  cases write with
  | done => exact .inl ⟨next, rfl, rfl⟩
  | failed error => exact .inr ⟨error, _, rfl, .inl rfl⟩
  | late error => exact .inr ⟨error, _, rfl, .inr rfl⟩

/-- A write that was reported as failed. -/
theorem outcome_of_failed {next tasks : List Task} {disk disk' : Option (List Task)}
    (either : disk' = disk ∨ disk' = some next) :
    Outcome next (disk.getD []) tasks false (disk'.getD []) tasks := by
  rcases either with rfl | rfl
  · exact .failed
  · exact .late

variable {env : Environment}

theorem queue_change (chance : Chance) (request : Request) (disk : Option (List Task))
    (tasks : List Task) (workers : List Worker) (ids : List String) (log : List Event)
    (fresh : chance.uuid ∉ ids) {reply : Except Failure Reply} {journal : Journal}
    (h : queue env chance request ⟨disk, tasks⟩ = (reply, journal)) :
    Change env ⟨disk.getD [], tasks, workers, ids, log⟩
      ⟨journal.disk.getD [], journal.tasks, workers ++ spawn request reply, chance.uuid :: ids,
        log ++ [.replied (.queue request) reply]⟩ := by
  have refused : ∀ error, Change env ⟨disk.getD [], tasks, workers, ids, log⟩
      ⟨disk.getD [], tasks, workers ++ spawn request (.error error), chance.uuid :: ids,
        log ++ [.replied (.queue request) (.error error)]⟩ := by
    intro error
    rw [spawn, List.append_nil]
    · exact .answered _ _ _ _ _ _ _ _
        ⟨fun _ eq => (nomatch eq), fun _ eq => (nomatch eq), fun _ _ eq => (nomatch eq)⟩
    · rintro _ ⟨⟩
  unfold queue at h
  dsimp only at h
  split at h
  · next task found =>
      obtain ⟨key, keyed, found⟩ := Option.bind_eq_some_iff.mp found
      have known : task.idempotencyKey = some key := by simpa using List.find?_some found
      split at h
      · cases h
        exact refused _
      · next same =>
          cases h
          rw [spawn, List.append_nil]
          · refine .answered _ _ _ _ _ _ _ _
              ⟨fun _ eq => (nomatch eq), fun _ eq => (nomatch eq), fun id status eq => ?_⟩
            cases eq
            exact ⟨request, key, rfl, keyed, task, List.mem_of_find?_eq_some found, rfl, known,
              not_not.mp same⟩
          · rintro _ ⟨⟩
  · next none =>
      split at h
      · cases h
        exact refused _
      · have made : Queued env request chance.uuid tasks
            { id := chance.uuid
              operation := request.operation
              requestDigest := env.digest request.operation request.arguments
              idempotencyKey := request.idempotencyKey
              status := .queued
              createdAt := chance.now
              updatedAt := chance.now } := by
          refine ⟨rfl, rfl, rfl, rfl, fun key keyed other mem eq => ?_⟩
          rw [show request.idempotencyKey = some key from keyed, Option.bind_some] at none
          simpa [eq] using List.find?_eq_none.mp none other mem
        unfold Journal.enqueue at h
        rcases Journal.commit_cases chance.write _ ⟨disk, tasks⟩ with
          ⟨written', eq, rfl⟩ | ⟨error, disk', eq, either⟩
        · rw [eq] at h
          cases h
          exact .queued _ _ _ _ _ _ _ _ made fresh .done
        · rw [eq] at h
          cases h
          rw [Except.map, spawn, List.append_nil]
          · exact .notQueued _ _ _ _ _ _ _ _ _ made fresh (outcome_of_failed either)
          · rintro _ ⟨⟩

theorem cancel_change (chance : Chance) (id : String) (disk : Option (List Task))
    (tasks : List Task) (workers workers' : List Worker) (ids : List String) (log : List Event)
    {result : Except Failure Journal.Cancellation} {notified : Bool} {journal : Journal}
    (h : Journal.cancel chance.write chance.now chance.qualified id ⟨disk, tasks⟩ =
      (result, notified, journal))
    (same : workers' = workers ∨ notified = true ∧ workers' = notify id workers) :
    Change env ⟨disk.getD [], tasks, workers, ids, log⟩
      ⟨journal.disk.getD [], journal.tasks, workers', chance.uuid :: ids,
        log ++ [.replied (.cancel id) (result.map (.cancellation id))]⟩ := by
  have quiet : ∀ result : Except Failure Journal.Cancellation,
      (result = .ok (.status .cancelled) → ∃ task ∈ tasks, task.id = id ∧ task.status = .cancelled) →
      Change env ⟨disk.getD [], tasks, workers, ids, log⟩
        ⟨disk.getD [], tasks, workers, chance.uuid :: ids,
          log ++ [.replied (.cancel id) (result.map (.cancellation id))]⟩ := by
    intro result found
    refine .answered _ _ _ _ _ _ _ _ ⟨?_, ?_, ?_⟩
    · rintro other eq
      cases result <;> cases eq
    · rintro other eq
      cases result with
      | error e => cases eq
      | ok c =>
        cases eq
        exact found rfl
    · rintro other status eq
      cases result <;> cases eq
  unfold Journal.cancel at h
  split at h
  · cases h
    obtain rfl : workers' = workers := by simpa using same
    exact quiet _ fun eq => (nomatch eq)
  · next task found =>
      obtain ⟨mem, eq⟩ := findTask_eq_ok found
      split at h
      · split at h
        · cases h
          obtain rfl : workers' = workers := by simpa using same
          exact quiet _ fun eq => (nomatch eq)
        · cases h
          obtain rfl : workers' = workers := by simpa using same
          exact quiet _ fun eq => (nomatch eq)
      · split at h
        · cases h
          obtain rfl : workers' = workers := by simpa using same
          exact quiet _ fun eq => (nomatch eq)
        · split at h
          · next was =>
              have becomes : Restatus .cancelled fun task : Task => { task with
                  status := .cancelled
                  updatedAt := chance.now
                  error := some ⟨"CANCELLED", "cancelled before side effects started", false⟩ } :=
                ⟨fun _ => rfl, fun _ => rfl, fun _ => rfl, fun _ => rfl⟩
              rcases Journal.commit_cases chance.write _ ⟨disk, tasks⟩ with
                ⟨written', done, rfl⟩ | ⟨error, disk', failed, either⟩
              · rw [done] at h
                cases h
                exact .cancelled _ _ _ _ _ _ _ task mem eq was becomes .done workers'
                  (same.imp_right And.right)
              · rw [failed] at h
                cases h
                obtain rfl : workers' = workers := by simpa [Except.toOption] using same
                exact .notCancelled _ _ _ _ _ _ _ task error mem eq was becomes
                  (outcome_of_failed either)
          · cases h
            obtain rfl : workers' = workers := by simpa using same
            exact quiet _ fun said =>
              ⟨task, mem, eq, Journal.Cancellation.status.inj (Except.ok.inj said)⟩

theorem remove_change (chance : Chance) (selection : Selection) (disk : Option (List Task))
    (tasks : List Task) (workers : List Worker) (ids : List String) (log : List Event)
    {result : Except Failure Removed} {journal : Journal}
    (h : Journal.remove chance.write selection ⟨disk, tasks⟩ = (result, journal)) :
    Change env ⟨disk.getD [], tasks, workers, ids, log⟩
      ⟨journal.disk.getD [], journal.tasks, workers, chance.uuid :: ids,
        log ++ [.replied (.remove selection) (result.map .removed)]⟩ := by
  have quiet : ∀ result : Except Failure Removed,
      Change env ⟨disk.getD [], tasks, workers, ids, log⟩
        ⟨disk.getD [], tasks, workers, chance.uuid :: ids,
          log ++ [.replied (.remove selection) (result.map .removed)]⟩ := by
    intro result
    refine .answered _ _ _ _ _ _ _ _ ⟨?_, ?_, ?_⟩
    · rintro other eq
      cases result <;> cases eq
    · rintro other eq
      cases result <;> cases eq
    · rintro other status eq
      cases result <;> cases eq
  unfold Journal.remove at h
  split at h
  · cases h
    exact quiet _
  · next checked =>
      dsimp only at h
      split at h
      · cases h
        exact quiet _
      · rcases Journal.commit_cases chance.write _ ⟨disk, tasks⟩ with
          ⟨written', done, rfl⟩ | ⟨error, disk', failed, either⟩
        · rw [done] at h
          cases h
          exact .removed _ _ _ _ _ _ _ _ checked .done
        · rw [failed] at h
          cases h
          exact .removed _ _ _ _ _ _ _ _ checked (outcome_of_failed either)

variable {host : Host}

theorem serve_change (chance : Chance) {s : State} (here : s.host = some host)
    (fresh : chance.uuid ∉ s.ids) (route : Route) :
    Change env s.view (serve env chance host route s).view := by
  obtain ⟨disk, _, ids, log⟩ := s
  cases here
  cases route with
  | capabilities =>
    exact .answered _ _ _ _ _ _ _ _ ⟨fun _ eq => (nomatch eq),
      fun _ eq => (nomatch eq), fun _ _ eq => (nomatch eq)⟩
  | list =>
    exact .answered _ _ _ _ _ _ _ _ ⟨fun _ eq => (nomatch eq),
      fun _ eq => (nomatch eq), fun _ _ eq => (nomatch eq)⟩
  | get id =>
    refine .answered _ _ _ _ _ _ _ _ ⟨fun _ eq => ?_, fun _ eq => ?_, fun _ _ eq => ?_⟩
    all_goals cases found : findTask id host.tasks <;> rw [found] at eq <;> cases eq
  | read operation arguments =>
    refine .answered _ _ _ _ _ _ _ _ ⟨fun _ eq => ?_, fun _ eq => ?_, fun _ _ eq => ?_⟩
    all_goals cases result : chance.result <;> rw [result] at eq <;> cases eq
  | cancel id =>
    obtain ⟨⟨result, notified, journal⟩, eq⟩ : ∃ answered, Journal.cancel chance.write chance.now
        chance.qualified id ⟨disk, host.tasks⟩ = answered := ⟨_, rfl⟩
    have change : ∀ workers', _ → Change env _ _ := fun workers' => cancel_change chance id disk
      host.tasks host.workers workers' ids log eq
    unfold serve answer
    dsimp only
    rw [eq]
    unfold after
    dsimp only
    split
    · next permitted => exact change _ (.inr ⟨permitted.1, rfl⟩)
    · exact change _ (.inl rfl)
  | remove selection =>
    exact remove_change chance selection disk host.tasks host.workers ids log rfl
  | queue request =>
    exact queue_change chance request disk host.tasks host.workers ids log fresh rfl

variable {worker : Worker}

theorem worker_eq_some {id : String} (h : host.worker id = some worker) :
    worker ∈ host.workers ∧ worker.id = id :=
  ⟨List.mem_of_find?_eq_some h, by simpa using List.find?_some h⟩

theorem updateFirst_absent {id : String} {f : Task → Task} {tasks : List Task}
    (absent : ∀ task ∈ tasks, task.id ≠ id) : updateFirst id f tasks = tasks := by
  induction tasks with
  | nil => rfl
  | cons t tasks ih =>
    rw [updateFirst, if_neg (absent t List.mem_cons_self),
      ih fun task mem => absent task (List.mem_cons_of_mem _ mem)]

theorem findTask_absent {id : String} {tasks : List Task} {error : Failure}
    (h : findTask id tasks = .error error) : ∀ task ∈ tasks, task.id ≠ id := by
  unfold findTask at h
  cases found : tasks.find? (·.id = id) with
  | none => simpa using List.find?_eq_none.mp found
  | some task =>
    rw [found] at h
    cases h

theorem beginTask_change (write : Write) (now : Int) {preparation : Preparation} {s : State}
    (here : s.host = some host) (mem : worker ∈ host.workers)
    (phase : worker.phase = .prepared preparation) :
    Change env s.view (beginTask write now worker preparation host s).view := by
  obtain ⟨disk, _, ids, log⟩ := s
  cases here
  have becomes : Restatus .running fun task : Task =>
      { task with status := .running, updatedAt := now } :=
    ⟨fun _ => rfl, fun _ => rfl, fun _ => rfl, fun _ => rfl⟩
  unfold beginTask Journal.begin
  cases found : findTask worker.id host.tasks with
  | error error =>
    exact .notBegun _ _ _ _ _ _ mem phase becomes (.inl (findTask_absent found)) .failed
  | ok task =>
    obtain ⟨known, eq⟩ := findTask_eq_ok found
    by_cases was : task.status = .queued
    · dsimp only
      rw [if_neg (not_not.mpr was)]
      rcases Journal.commit_cases write _ ⟨disk, host.tasks⟩ with
        ⟨written', done, rfl⟩ | ⟨error, disk', failed, either⟩
      · rw [done]
        exact .began _ _ _ _ _ mem phase task known eq was becomes
      · rw [failed]
        exact .notBegun _ _ _ _ _ _ mem phase becomes (.inr ⟨task, known, eq, was⟩)
          (outcome_of_failed either)
    · dsimp only
      rw [if_pos was]
      exact .moved _ _ _ _ _ mem (phase ▸ .notBegun preparation)

theorem recordEnd_change (write : Write) (now : Int) {status : TaskStatus}
    {result : Except Failure Value} {lock : Option Nat} {s : State} (here : s.host = some host)
    (mem : worker ∈ host.workers) (from_ : worker.phase.isUnstarted = true ∧ status = .failed ∨
      (∃ result, worker.phase = .finished result) ∧ status ∈ finished) :
    Change env s.view (recordEnd env write now worker status result lock host s).view := by
  obtain ⟨disk, _, ids, log⟩ := s
  cases here
  have becomes : Restatus status (Journal.recorded env.size now status result) := by
    unfold Journal.recorded
    cases result <;> exact ⟨fun _ => rfl, fun _ => rfl, fun _ => rfl, fun _ => rfl⟩
  unfold recordEnd Journal.update
  cases found : host.tasks.find? (·.id = worker.id) with
  | none =>
    have absent : ∀ task ∈ host.tasks, task.id ≠ worker.id := by
      simpa using List.find?_eq_none.mp found
    have change : Change env _ _ := .recorded (disk.getD []) host.tasks host.workers ids log
      status lock mem from_ becomes (.inl rfl)
    rw [updateFirst_absent absent] at change
    exact change
  | some task =>
    cases write with
    | done => exact .recorded _ _ _ _ _ status lock mem from_ becomes (.inr rfl)
    | late error => exact .recorded _ _ _ _ _ status lock mem from_ becomes (.inr rfl)
    | failed error => exact .recorded _ _ _ _ _ status lock mem from_ becomes (.inl rfl)

theorem endStatus_finished (operation : String) (result : Except Failure Value) :
    endStatus operation result ∈ finished := by
  unfold endStatus
  cases result with
  | ok value => exact List.mem_cons_self
  | error error =>
    dsimp only
    split <;> simp [finished]

theorem lockOf_workers (key : String) (host : Host) :
    (host.lockOf key).2.workers = host.workers ∧ (host.lockOf key).2.tasks = host.tasks := by
  unfold Host.lockOf
  dsimp only
  split <;> exact ⟨rfl, rfl⟩

theorem advance_change {s t : State} (here : s.host = some host) (mem : worker ∈ host.workers)
    {work : Work} (h : advance env worker host s worker.phase work = some t) :
    Change env s.view t.view := by
  -- A move of the worker that leaves everything else.
  have moved : ∀ {phase : Phase} {host' : Host}, Moves worker.phase phase →
      host'.workers = host.workers → host'.tasks = host.tasks →
      Change env s.view { s with host := some (host'.enter worker.id phase) : State }.view := by
    intro phase host' moves workers tasks
    obtain ⟨disk, _, ids, log⟩ := s
    cases here
    have change : Change env _ _ := .moved (disk.getD []) host.tasks host.workers ids log mem moves
    rw [← workers, ← tasks] at change
    unfold State.view State.tasks State.workers
    rw [Option.map_some, Option.map_some, ← workers, ← tasks]
    exact change
  generalize at_ : worker.phase = phase at h
  unfold advance at h
  split at h
  · cases h
    exact moved (at_ ▸ .register) rfl rfl
  · cases h
    split
    · exact moved (at_ ▸ .check) rfl rfl
    · exact moved (at_ ▸ .absent) rfl rfl
  · cases h
    exact moved (at_ ▸ .unprepared _) rfl rfl
  · cases h
    obtain ⟨workers, tasks⟩ := lockOf_workers worker.key host
    exact moved (at_ ▸ .wait _ _) workers tasks
  · split at h
    · cases h
      exact moved (at_ ▸ .lock _ _) rfl rfl
    · cases h
  · split at h
    · cases h
      exact moved (at_ ▸ .notified) rfl rfl
    · cases h
  · split at h
    · cases h
      exact moved (at_ ▸ .waitingNotified _ _) rfl rfl
    · cases h
  · cases h
    exact beginTask_change _ _ here mem at_
  · cases h
    exact recordEnd_change _ _ here mem (.inl ⟨at_ ▸ rfl, rfl⟩)
  · cases h
    obtain ⟨disk, _, ids, log⟩ := s
    cases here
    exact .dispatched _ _ _ _ _ _ _ mem at_
  · cases h
    exact moved (at_ ▸ .notPrepared _) rfl rfl
  · cases h
    exact moved (at_ ▸ .finish _ _) rfl rfl
  · cases h
    exact recordEnd_change _ _ here mem (.inr ⟨⟨_, at_⟩, endStatus_finished _ _⟩)
  · cases h
    obtain ⟨disk, _, ids, log⟩ := s
    cases here
    exact .closed _ _ _ _ _ _
  · cases h

theorem advance_isSome {s t : State} {phase : Phase} {work : Work}
    (h : advance env worker host s phase work = some t) :
    t.host.isSome = true := by
  unfold advance at h
  split at h
  case h_5 | h_6 | h_7 =>
    split at h
    · cases h
      rfl
    · cases h
  case h_8 =>
    cases h
    unfold beginTask
    dsimp only
    split <;> rfl
  all_goals cases h
  all_goals rfl

theorem startHost_restart (write : Write) (now : Int) {s : State} (here : s.host = none) :
    Restart s.view (startHost write now s).view := by
  obtain ⟨disk, _, ids, log⟩ := s
  cases here
  cases write with
  | done => exact .start now _ _ _
  | failed error => exact .notStarted now _ _ _ _ (.inl rfl)
  | late error => exact .notStarted now _ _ _ _ (.inr rfl)

/-- **What a step of the machine can do.** -/
theorem next_cases {s t : State} {label : Label} (h : next env s label = some t) :
    (label = .crash ∨ s.host = none) ∧ Restart s.view t.view ∨
      (label ≠ .crash ∧ s.host.isSome ∧ t.host.isSome) ∧ Change env s.view t.view := by
  cases label with
  | start write now =>
    obtain ⟨gone, eq⟩ := Option.ite_none_right_eq_some.mp h
    cases eq
    have here := Option.isNone_iff_eq_none.mp gone
    exact .inl ⟨.inr here, startHost_restart write now here⟩
  | crash =>
    cases h
    exact .inl ⟨.inl rfl, .crash _ _ _ _ _⟩
  | request request chance =>
    simp only [next] at h
    split at h
    · next host route here _ =>
        split at h
        · cases h
        · next fresh =>
            cases h
            exact .inr ⟨⟨by simp, by simp [here], rfl⟩, serve_change chance here fresh route⟩
    · next host _ here _ =>
        cases h
        exact .inr ⟨⟨by simp, by simp [here], by simp [here]⟩, .refused _⟩
    · cases h
  | work id work =>
    simp only [next] at h
    split at h
    · cases h
    · next host here =>
        obtain ⟨worker, found, h⟩ := Option.bind_eq_some_iff.mp h
        refine .inr ⟨⟨by simp, by simp [here], advance_isSome h⟩, ?_⟩
        exact advance_change here (worker_eq_some found).1 h

end LlamaServerManager.Management
