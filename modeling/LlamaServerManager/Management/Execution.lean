import LlamaServerManager.Management.Invariant

/-!
Tasks are executed at most once, over hosts that die and start again
(`executed_at_most_once`): what begins was written, what was cancelled does not begin, and
of one resource only one task is worked on.
-/

namespace LlamaServerManager.Management

open Lib Lib.Json

/-! ### Locks of resources -/

/-- Who refers to a lock finds it under his resource, and one worker holds it. -/
structure Locked (locks : List (String × Nat)) (nextLock : Nat) (workers : List Worker) : Prop where
  named : ∀ worker ∈ workers, ∀ lock, worker.phase.refers = some lock → (worker.key, lock) ∈ locks
  keys : (locks.map (·.1)).Nodup
  numbers : (locks.map (·.2)).Nodup
  below : ∀ p ∈ locks, p.2 < nextLock
  held : ∀ worker ∈ workers, ∀ other ∈ workers, ∀ lock, worker.phase.held = some lock →
    other.phase.held = some lock → worker.id = other.id

section Locks

variable {locks : List (String × Nat)} {nextLock : Nat} {workers : List Worker}

theorem Phase.refers_of_held {phase : Phase} {lock : Nat} (h : phase.held = some lock) :
    phase.refers = some lock := by
  cases phase <;> first | exact h | cases h

theorem Locked.nil : Locked [] 0 [] :=
  ⟨fun _ mem => (nomatch mem), List.nodup_nil, List.nodup_nil, fun _ mem => (nomatch mem),
    fun _ mem => (nomatch mem)⟩

/-- Workers that refer to no lock but those they referred to, and hold none they did not
hold. -/
theorem Locked.staff {workers' : List Worker} (h : Locked locks nextLock workers)
    (same : ∀ worker ∈ workers', worker.phase.refers = none ∨ ∃ old ∈ workers, old.id = worker.id ∧
      old.key = worker.key ∧
      (∀ lock, worker.phase.refers = some lock → old.phase.refers = some lock) ∧
      ∀ lock, worker.phase.held = some lock → old.phase.held = some lock) :
    Locked locks nextLock workers' where
  named worker mem lock refers := by
    rcases same worker mem with none | ⟨old, there, -, key, same, -⟩
    · rw [none] at refers
      cases refers
    · exact key ▸ h.named old there lock (same lock refers)
  keys := h.keys
  numbers := h.numbers
  below := h.below
  held worker mem other mem' lock holds holds' := by
    rcases same worker mem with none | ⟨old, there, eq, -, -, same₁⟩
    · cases none.symm.trans (Phase.refers_of_held holds)
    · rcases same other mem' with none | ⟨old', there', eq', -, -, same₂⟩
      · cases none.symm.trans (Phase.refers_of_held holds')
      · rw [← eq, ← eq']
        exact h.held old there old' there' lock (same₁ lock holds) (same₂ lock holds')

theorem Locked.moved {worker : Worker} {phase : Phase} (h : Locked locks nextLock workers)
    (once : (workers.map (·.id)).Nodup) (mem : worker ∈ workers)
    (refers : ∀ lock, phase.refers = some lock → worker.phase.refers = some lock)
    (held : ∀ lock, phase.held = some lock → worker.phase.held = some lock) :
    Locked locks nextLock (movedTo worker.id phase workers) := by
  refine h.staff fun other mem' => .inr ?_
  obtain ⟨old, there, rfl⟩ := List.mem_map.mp mem'
  refine ⟨old, there, ?_⟩
  split
  · next eq =>
      have : old = worker := List.inj_on_of_nodup_map once there mem eq
      exact this ▸ ⟨rfl, rfl, refers, held⟩
  · exact ⟨rfl, rfl, fun _ => id, fun _ => id⟩

/-- A worker gets in line for the lock of its resource. -/
theorem Locked.wait {host : Host} {worker : Worker} (prepared : Value)
    (h : Locked host.locks host.nextLock host.workers) (once : (host.workers.map (·.id)).Nodup)
    (mem : worker ∈ host.workers) :
    Locked (host.lockOf worker.key).2.locks (host.lockOf worker.key).2.nextLock
      (movedTo worker.id (.waiting prepared (host.lockOf worker.key).1) host.workers) := by
  set used := host.locks.filter fun entry =>
    host.workers.any fun worker => worker.phase.refers = some entry.2 with used_eq
  have kept : ∀ other ∈ host.workers, ∀ lock, other.phase.refers = some lock →
      (other.key, lock) ∈ used := by
    intro other there lock refers
    refine List.mem_filter.mpr ⟨h.named other there lock refers, ?_⟩
    exact List.any_eq_true.mpr ⟨other, there, by simpa using refers⟩
  have sub : used.Sublist host.locks := List.filter_sublist
  -- Whichever lock it is, the map holds those in use, and this one under the resource.
  suffices at_ : ∀ lock locks nextLock, host.lockOf worker.key =
      (lock, { host with locks, nextLock }) → (∀ p ∈ used, p ∈ locks) ∧ (worker.key, lock) ∈ locks ∧
        (locks.map (·.1)).Nodup ∧ (locks.map (·.2)).Nodup ∧ ∀ p ∈ locks, p.2 < nextLock by
    obtain ⟨lock, locks, nextLock, eq⟩ : ∃ lock locks nextLock, host.lockOf worker.key =
        (lock, { host with locks, nextLock }) := by
      unfold Host.lockOf
      dsimp only
      split <;> exact ⟨_, _, _, rfl⟩
    obtain ⟨all, mine, keys, numbers, below⟩ := at_ lock locks nextLock eq
    rw [eq]
    refine ⟨?_, keys, numbers, below, ?_⟩
    · intro other mem' lock' refers
      obtain ⟨old, there, rfl⟩ := List.mem_map.mp mem'
      revert refers
      split
      · next same =>
          intro refers
          cases refers
          have : old = worker := List.inj_on_of_nodup_map once there mem same
          exact this ▸ mine
      · exact fun refers => all _ (kept old there lock' refers)
    · intro other mem₁ other' mem₂ lock' holds holds'
      rcases mem_movedTo mem₁ with ⟨there, -⟩ | ⟨-, waits⟩
      · rcases mem_movedTo mem₂ with ⟨there', -⟩ | ⟨-, waits⟩
        · exact h.held other there other' there' lock' holds holds'
        · rw [waits] at holds'
          cases holds'
      · rw [waits] at holds
        cases holds
  intro lock locks nextLock eq
  unfold Host.lockOf at eq
  dsimp only at eq
  rw [← used_eq] at eq
  split at eq
  · next found =>
      cases eq
      refine ⟨fun _ mem => mem, ?_, h.keys.sublist (sub.map _), h.numbers.sublist (sub.map _),
        fun p mem => h.below p (sub.subset mem)⟩
      obtain ⟨before, after, eq, -⟩ := List.lookup_eq_some_iff.mp found
      rw [eq]
      exact List.mem_append_right _ List.mem_cons_self
  · next none =>
      cases eq
      have below : ∀ p ∈ used, p.2 < host.nextLock := fun p mem => h.below p (sub.subset mem)
      refine ⟨fun p mem => List.mem_cons_of_mem _ mem, List.mem_cons_self, ?_, ?_, ?_⟩
      · refine List.nodup_cons.mpr ⟨fun mem => ?_, h.keys.sublist (sub.map _)⟩
        obtain ⟨p, mem, eq⟩ := List.mem_map.mp mem
        have := List.lookup_eq_none_iff.mp none p mem
        rw [eq] at this
        simp at this
      · refine List.nodup_cons.mpr ⟨fun mem => ?_, h.numbers.sublist (sub.map _)⟩
        obtain ⟨p, mem, eq⟩ := List.mem_map.mp mem
        exact absurd (below p mem) (by simp [eq])
      · intro p mem
        rcases List.mem_cons.mp mem with rfl | mem
        · exact Nat.lt_succ_self _
        · exact Nat.lt_succ_of_lt (below p mem)

/-- A worker gets the lock it waits for, which is free. -/
theorem Locked.acquire {host : Host} {worker : Worker} {prepared : Value} {lock : Nat}
    (h : Locked host.locks host.nextLock host.workers) (once : (host.workers.map (·.id)).Nodup)
    (mem : worker ∈ host.workers) (waits : worker.phase = .waiting prepared lock)
    (free : host.free lock = true) :
    Locked host.locks host.nextLock
      (movedTo worker.id (.prepared (.ok (prepared, lock))) host.workers) := by
  have nobody : ∀ other ∈ host.workers, other.phase.held ≠ some lock := by
    intro other there
    simpa using List.all_eq_true.mp free other there
  refine ⟨?_, h.keys, h.numbers, h.below, ?_⟩
  · intro other mem' lock' refers
    obtain ⟨old, there, rfl⟩ := List.mem_map.mp mem'
    revert refers
    split
    · next same =>
        intro refers
        cases refers
        have : old = worker := List.inj_on_of_nodup_map once there mem same
        exact this ▸ h.named worker mem lock (waits ▸ rfl)
    · exact fun refers => h.named old there lock' refers
  · intro other mem₁ other' mem₂ lock' holds holds'
    rcases mem_movedTo mem₁ with ⟨there, -⟩ | ⟨eq, acquired⟩
    · rcases mem_movedTo mem₂ with ⟨there', -⟩ | ⟨-, acquired⟩
      · exact h.held other there other' there' lock' holds holds'
      · rw [acquired] at holds'
        cases holds'
        exact absurd holds (nobody other there)
    · rcases mem_movedTo mem₂ with ⟨there', -⟩ | ⟨eq', -⟩
      · rw [acquired] at holds
        cases holds
        exact absurd holds' (nobody other' there')
      · exact eq.trans eq'.symm

/-- The locks of the host that is there. -/
def LocksHeld (s : State) : Prop :=
  ∀ host, s.host = some host → Locked host.locks host.nextLock host.workers

theorem after_locked (host : Host) (route : Route) (reply : Except Failure Reply) (notified : Bool)
    (h : Locked host.locks host.nextLock host.workers) :
    Locked (after route reply notified host).locks (after route reply notified host).nextLock
      (after route reply notified host).workers := by
  unfold after
  split
  · split
    · refine h.staff fun worker mem => .inr ?_
      obtain ⟨old, there, rfl⟩ := List.mem_map.mp mem
      refine ⟨old, there, ?_⟩
      split <;> exact ⟨rfl, rfl, fun _ => id, fun _ => id⟩
    · exact h
  · next request =>
      refine h.staff fun worker mem => ?_
      rcases List.mem_append.mp mem with mem | mem
      · exact .inr ⟨worker, mem, rfl, rfl, fun _ => id, fun _ => id⟩
      · unfold spawn at mem
        split at mem
        · cases List.mem_singleton.mp mem
          exact .inl rfl
        · cases mem
  · exact h

theorem advance_locked {env : Environment} {worker : Worker} {s t : State} {host : Host}
    (h : Locked host.locks host.nextLock host.workers) (once : (host.workers.map (·.id)).Nodup)
    (mem : worker ∈ host.workers) {work : Work}
    (step : advance env worker host s worker.phase work = some t) : LocksHeld t := by
  have none : ∀ {phase : Phase}, phase.refers = none → ∀ {locks : List (String × Nat)}
      {nextLock : Nat}, Locked locks nextLock host.workers →
      Locked locks nextLock (movedTo worker.id phase host.workers) := by
    intro phase free locks nextLock h
    refine h.moved once mem (fun lock refers => ?_) fun lock holds => ?_
    · rw [free] at refers
      cases refers
    · rw [Phase.refers_of_held holds] at free
      cases free
  have same : ∀ phase : Phase, phase.refers = worker.phase.refers →
      phase.held = worker.phase.held →
      Locked host.locks host.nextLock (movedTo worker.id phase host.workers) :=
    fun _ refers held => h.moved once mem (fun _ eq => refers ▸ eq) fun _ eq => held ▸ eq
  generalize at_ : worker.phase = phase at step
  rw [at_] at same
  unfold advance at step
  split at step
  · cases step
    rintro _ ⟨⟩
    exact none rfl h
  · cases step
    rintro _ ⟨⟩
    split <;> exact none rfl h
  · cases step
    rintro _ ⟨⟩
    exact none rfl h
  · next prepared =>
      cases step
      rintro _ ⟨⟩
      have waits := h.wait prepared once mem
      rw [← (lockOf_workers worker.key host).1] at waits
      exact waits
  · split at step
    · next free =>
        cases step
        rintro _ ⟨⟩
        exact h.acquire once mem at_ free
    · cases step
  · split at step
    · cases step
      rintro _ ⟨⟩
      exact none rfl h
    · cases step
  · split at step
    · cases step
      rintro _ ⟨⟩
      exact none rfl h
    · cases step
  · next preparation _ _ =>
      cases step
      unfold beginTask LocksHeld
      dsimp only
      split
      all_goals rintro _ ⟨⟩
      · exact same (.begun preparation) rfl rfl
      · exact same (.closing _) rfl rfl
      · exact same (.unstarted _ _) rfl rfl
  · next lock _ _ =>
      cases step
      rintro _ ⟨⟩
      exact same (.closing lock) rfl rfl
  · next lock =>
      cases step
      rintro _ ⟨⟩
      exact same (.dispatching lock) rfl rfl
  · cases step
    rintro _ ⟨⟩
    exact none rfl h
  · cases step
    rintro _ ⟨⟩
    exact none rfl h
  · cases step
    rintro _ ⟨⟩
    exact none rfl h
  · cases step
    rintro _ ⟨⟩
    refine h.staff fun other there => .inr ?_
    exact ⟨other, List.mem_of_mem_filter there, rfl, rfl, fun _ => id, fun _ => id⟩
  · cases step

theorem reachable_locked {env : Environment} {s : State} (h : (machine env).Reachable s) :
    LocksHeld s := by
  refine h.strong_invariant (P := LocksHeld) (by rintro _ ⟨⟩) ?_
  intro s label t reached step locked
  obtain ⟨-, working⟩ := reachable_inv reached
  change next env s label = some t at step
  cases label with
  | start write now =>
    obtain ⟨-, eq⟩ := Option.ite_none_right_eq_some.mp step
    cases eq
    intro host here
    unfold startHost at here
    dsimp only at here
    split at here
    · cases here
      exact .nil
    · cases here
  | crash =>
    cases step
    exact fun _ none => (nomatch none)
  | request request chance =>
    simp only [next] at step
    split at step
    · next host route here _ =>
        split at step
        · cases step
        · cases step
          rintro _ ⟨⟩
          exact after_locked { host with tasks := _ } _ _ _ (locked host here)
    · cases step
      exact locked
    · cases step
  | work id work =>
    simp only [next] at step
    split at step
    · cases step
    · next host here =>
        obtain ⟨worker, found, step⟩ := Option.bind_eq_some_iff.mp step
        have once : (host.workers.map (·.id)).Nodup := by
          have once := working.once
          unfold State.view State.workers at once
          rwa [here] at once
        exact advance_locked (locked host here) once (worker_eq_some found).1 step

end Locks

/-! ### Statuses that are final -/

/-- Every task with the id has the status. -/
def Stands (id : String) (status : TaskStatus) (tasks : List Task) : Prop :=
  ∀ task ∈ tasks, task.id = id → task.status = status

/-- The task with the id, if it is still there, has a final status, and no worker is about
to record that it could not begin. -/
structure Settled (id : String) (status : TaskStatus) (v : View) : Prop where
  drawn : id ∈ v.ids
  stands : Stands id status v.tasks
  started : (∃ task ∈ v.tasks, task.id = id) → ∀ worker ∈ v.workers, worker.id = id →
    worker.phase.isUnstarted = false

theorem Stands.sub {id : String} {status : TaskStatus} {tasks next : List Task}
    (h : Stands id status tasks) (sub : ∀ task ∈ next, task.id = id → task ∈ tasks) :
    Stands id status next :=
  fun task mem eq => h task (sub task mem eq) eq

/-- What an operation makes of the task keeps it final. -/
theorem Stands.outcome {id : String} {status : TaskStatus}
    {next written tasks written' tasks' : List Task} {ok : Bool}
    (outcome : Outcome next written tasks ok written' tasks') (stands : Stands id status tasks)
    (new : Stands id status next) :
    Stands id status tasks' ∧ (Stands id status written → Stands id status written') := by
  cases outcome with
  | done => exact ⟨new, fun _ => new⟩
  | late => exact ⟨stands, fun _ => new⟩
  | failed => exact ⟨stands, fun h => h⟩

section Final

variable {env : Environment} {id : String} {status : TaskStatus}

theorem Queued.stands {request : Request} {uuid : String} {tasks : List Task} {task : Task}
    {ids : List String} (made : Queued env request uuid tasks task) (fresh : uuid ∉ ids)
    (drawn : id ∈ ids) : ∀ other ∈ evict tasks ++ [task], other.id = id → other ∈ tasks := by
  intro other mem eq
  rcases List.mem_append.mp mem with mem | mem
  · exact (evict_sublist tasks).subset mem
  · rw [List.mem_singleton.mp mem, made.id] at eq
    exact absurd (eq ▸ drawn) fresh

/-- A task that was not final is changed, so it is another one. -/
theorem Restatus.stands {next : TaskStatus} {f : Task → Task} {other : String}
    {tasks : List Task} {ids : List String} (becomes : Restatus next f) (known : Known ids tasks)
    (ne : (∃ task ∈ tasks, task.id = id) → other ≠ id) :
    ∀ task ∈ updateFirst other f tasks, task.id = id → task ∈ tasks := by
  intro task mem eq
  rcases mem_updateFirst_of_nodup known.once mem with ⟨mem, -⟩ | ⟨old, there, same, rfl⟩
  · exact mem
  · rw [becomes.id] at eq
    exact absurd (same.symm.trans eq) (ne ⟨old, there, eq⟩)

/-- **A final status is kept**, in memory and, if it is there, on disk. -/
theorem Settled.change {v v' : View} (final : status ∈ finished) (listed : Listed env v)
    (working : Working v) (h : Settled id status v) (change : Change env v v') :
    Settled id status v' ∧ (Stands id status v.written → Stands id status v'.written) := by
  -- The same workers, with the tasks an operation left.
  have edited : ∀ {written tasks workers ids log written' tasks' next uuid log' ok},
      Settled id status ⟨written, tasks, workers, ids, log⟩ →
      Outcome next written tasks ok written' tasks' →
      (∀ task ∈ next, task.id = id → task ∈ tasks) → ∀ workers' : List Worker,
      (∀ worker ∈ workers', worker.phase.isUnstarted = true → ∃ old ∈ workers,
        old.id = worker.id ∧ old.phase = worker.phase) →
      Settled id status ⟨written', tasks', workers', uuid :: ids, log'⟩ ∧
        (Stands id status written → Stands id status written') := by
    intro written tasks workers ids log written' tasks' next uuid log' ok h outcome new workers' same
    obtain ⟨stands, kept⟩ := Stands.outcome outcome h.stands (h.stands.sub new)
    refine ⟨⟨List.mem_cons_of_mem _ h.drawn, stands, ?_⟩, kept⟩
    rintro ⟨task, mem, eq⟩ worker there mine
    by_contra is
    obtain ⟨old, there, eq', phase⟩ := same worker there (Bool.not_eq_false _ ▸ is)
    have known : task ∈ tasks := by
      cases outcome with
      | done => exact new task mem eq
      | late | failed => exact mem
    rw [← phase] at is
    exact is (h.started ⟨task, known, eq⟩ old there (eq'.trans mine))
  -- The task an operation changes is not final.
  have other : ∀ {tasks : List Task} {task : Task}, Stands id status tasks → task ∈ tasks →
      task.status.active = true → task.id ≠ id := by
    intro tasks task stands mem active eq
    rw [stands task mem eq] at active
    revert active final
    cases status <;> simp [finished, TaskStatus.active]
  cases change with
  | refused v => exact ⟨h, fun h => h⟩
  | answered written tasks workers ids log uuid route reply harmless =>
    exact ⟨⟨List.mem_cons_of_mem _ h.drawn, h.stands, h.started⟩, fun h => h⟩
  | queued written tasks workers ids log uuid request task made fresh outcome =>
    refine edited h outcome (made.stands fresh h.drawn) _ fun worker mem is => ?_
    rcases List.mem_append.mp mem with mem | mem
    · exact ⟨worker, mem, rfl, rfl⟩
    · cases List.mem_singleton.mp mem
      cases is
  | notQueued written tasks workers ids log uuid request task error made fresh outcome =>
    exact edited h outcome (made.stands fresh h.drawn) _ fun worker mem _ => ⟨worker, mem, rfl, rfl⟩
  | cancelled written tasks workers ids log uuid target task mem eq was becomes outcome workers'
      same =>
    refine edited h outcome (becomes.stands listed.tasks fun _ => eq ▸ other h.stands mem
      (by rw [was]; rfl)) _ fun worker there _ => ?_
    rcases same with rfl | rfl
    · exact ⟨worker, there, rfl, rfl⟩
    · exact mem_notify there
  | notCancelled written tasks workers ids log uuid target task error mem eq was becomes outcome =>
    exact edited h outcome (becomes.stands listed.tasks fun _ => eq ▸ other h.stands mem
      (by rw [was]; rfl)) _ fun worker there _ => ⟨worker, there, rfl, rfl⟩
  | removed written tasks workers ids log uuid selection reply checked outcome =>
    exact edited h outcome (fun task mem _ => List.mem_of_mem_filter mem) _
      fun worker there _ => ⟨worker, there, rfl, rfl⟩
  | @moved worker phase written tasks workers ids log mem moves =>
    refine ⟨⟨h.drawn, h.stands, fun there other mem' eq => ?_⟩, fun h => h⟩
    rcases mem_movedTo mem' with ⟨mem', -⟩ | ⟨-, is⟩
    · exact h.started there other mem' eq
    · rw [is]
      exact moves.to.2.2.1
  | @began worker preparation f written tasks workers ids log mem phase task known eq was becomes =>
    have ne := other h.stands known (by rw [was]; rfl)
    have new : ∀ task ∈ updateFirst worker.id f tasks, task.id = id → task ∈ tasks :=
      becomes.stands listed.tasks fun _ => eq ▸ ne
    refine ⟨⟨h.drawn, h.stands.sub new, ?_⟩, fun _ => h.stands.sub new⟩
    rintro ⟨task', mem', eq'⟩ other there mine
    rcases mem_movedTo there with ⟨there, -⟩ | ⟨-, is⟩
    · exact h.started ⟨task', new task' mem' eq', eq'⟩ other there mine
    · rw [is]
      rfl
  | @notBegun worker preparation f written' tasks' written tasks workers ids log error mem phase
      becomes absent outcome =>
    have absent : (∃ task ∈ tasks, task.id = id) → worker.id ≠ id := by
      rintro ⟨task, known, eq⟩ mine
      rcases absent with absent | ⟨task', known', eq', was⟩
      · exact absent task known (eq.trans mine.symm)
      · exact other h.stands known' (by rw [was]; rfl) (eq'.trans mine)
    have new : ∀ task ∈ updateFirst worker.id f tasks, task.id = id → task ∈ tasks :=
      becomes.stands listed.tasks absent
    obtain ⟨stands, kept⟩ := Stands.outcome outcome h.stands (h.stands.sub new)
    refine ⟨⟨h.drawn, stands, ?_⟩, kept⟩
    rintro ⟨task, mem', eq⟩ other there mine
    have there' : ∃ task ∈ tasks, task.id = id := by
      cases outcome with
      | late | failed => exact ⟨task, mem', eq⟩
    rcases mem_movedTo there with ⟨there, -⟩ | ⟨same, -⟩
    · exact h.started there' other there mine
    · exact absurd (same.symm.trans mine) (absent there')
  | @recorded worker f written' written tasks workers ids log next lock mem from_ becomes either =>
    have absent : (∃ task ∈ tasks, task.id = id) → worker.id ≠ id := by
      rintro ⟨task, known, eq⟩ mine
      rcases from_ with ⟨is, -⟩ | ⟨⟨result, is⟩, -⟩
      · rw [h.started ⟨task, known, eq⟩ worker mem mine] at is
        cases is
      · have running := working.late worker mem (is ▸ rfl) task known (eq.trans mine.symm)
        exact other h.stands known (by rw [running]; rfl) eq
    have new : ∀ task ∈ updateFirst worker.id f tasks, task.id = id → task ∈ tasks :=
      becomes.stands listed.tasks absent
    refine ⟨⟨h.drawn, h.stands.sub new, ?_⟩, fun stands => ?_⟩
    · rintro ⟨task, mem', eq⟩ other there mine
      rcases mem_movedTo there with ⟨there, -⟩ | ⟨-, is⟩
      · exact h.started ⟨task, new task mem' eq, eq⟩ other there mine
      · rw [is]
        rfl
    · rcases either with rfl | rfl
      · exact stands
      · exact h.stands.sub new
  | @dispatched worker written tasks workers ids log prepared lock mem phase =>
    refine ⟨⟨h.drawn, h.stands, fun there other mem' eq => ?_⟩, fun h => h⟩
    rcases mem_movedTo mem' with ⟨mem', -⟩ | ⟨-, is⟩
    · exact h.started there other mem' eq
    · rw [is]
      rfl
  | closed written tasks workers ids log other =>
    exact ⟨⟨h.drawn, h.stands, fun there worker mem =>
      h.started there worker (List.mem_of_mem_filter mem)⟩, fun h => h⟩

theorem interrupted_final {task : Task} (now : Int) (final : task.status ∈ finished) :
    (interrupted now task).status = task.status := by
  unfold interrupted
  rw [if_neg]
  revert final
  cases task.status <;> simp [finished, TaskStatus.active]

/-- A status that was written outlives the host. -/
theorem Settled.restart {v v' : View} (final : status ∈ finished) (h : Settled id status v)
    (written : Stands id status v.written) (restart : Restart v v') :
    Settled id status v' ∧ Stands id status v'.written := by
  have reread : ∀ {tasks : List Task} (now : Int), Stands id status tasks →
      Stands id status (tasks.map (interrupted now)) := by
    intro tasks now stands task mem eq
    obtain ⟨old, there, rfl⟩ := List.mem_map.mp mem
    have same : (interrupted now old).id = old.id := by
      unfold interrupted
      split <;> rfl
    have was := stands old there (same.symm.trans eq)
    rw [interrupted_final now (was ▸ final), was]
  cases restart with
  | crash => exact ⟨⟨h.drawn, fun _ mem => (nomatch mem), fun _ _ mem => (nomatch mem)⟩, written⟩
  | start now =>
    exact ⟨⟨h.drawn, reread now written, fun _ _ mem => (nomatch mem)⟩, reread now written⟩
  | notStarted now _ _ _ _ either =>
    rcases either with rfl | rfl
    · exact ⟨h, written⟩
    · exact ⟨⟨h.drawn, h.stands, h.started⟩, reread now written⟩

end Final

/-! ### What a step keeps of the journal -/

section Journals

variable {env : Environment}

/-- **Active tasks are not removed.** -/
theorem Change.active {v v' : View} (listed : Listed env v) (change : Change env v v')
    {task : Task} (mem : task ∈ v.tasks) (active : task.status.active = true) :
    ∃ task' ∈ v'.tasks, task'.id = task.id := by
  have updated : ∀ {id : String} {status : TaskStatus} {f : Task → Task} {tasks : List Task},
      Restatus status f → task ∈ tasks → ∃ task' ∈ updateFirst id f tasks, task'.id = task.id := by
    intro id status f tasks becomes mem
    have there : task.ident ∈ (updateFirst id f tasks).map Task.ident :=
      becomes.ident id tasks ▸ List.mem_map_of_mem mem
    obtain ⟨new, there, eq⟩ := List.mem_map.mp there
    exact ⟨new, there, congrArg Prod.fst eq⟩
  have outcome : ∀ {next written tasks written' tasks' : List Task} {ok : Bool},
      Outcome next written tasks ok written' tasks' → task ∈ tasks →
      (∃ task' ∈ next, task'.id = task.id) → ∃ task' ∈ tasks', task'.id = task.id := by
    intro next written tasks written' tasks' ok outcome mem new
    cases outcome with
    | done => exact new
    | late | failed => exact ⟨task, mem, rfl⟩
  cases change with
  | refused | answered | moved | dispatched | closed => exact ⟨task, mem, rfl⟩
  | queued _ _ _ _ _ _ _ _ _ _ wrote | notQueued _ _ _ _ _ _ _ _ _ _ _ wrote =>
    exact outcome wrote mem
      ⟨task, List.mem_append_left _ (mem_evictRounds active _ mem), rfl⟩
  | cancelled _ _ _ _ _ _ _ _ _ _ _ becomes wrote =>
    exact outcome wrote mem (updated becomes mem)
  | notCancelled _ _ _ _ _ _ _ _ _ _ _ _ becomes wrote =>
    exact outcome wrote mem (updated becomes mem)
  | removed written tasks workers ids log uuid selection reply checked wrote =>
    refine outcome wrote mem ⟨task, List.mem_filter.mpr ⟨mem, ?_⟩, rfl⟩
    have idle : task.status ∉ finished := by
      revert active
      cases task.status <;> simp [finished, TaskStatus.active]
    cases selection with
    | finished statuses => simp [Selection.selected, idle]
    | one id =>
      obtain ⟨found, is, checked⟩ := bind_eq_ok.mp checked
      obtain ⟨there, eq⟩ := findTask_eq_ok is
      have ne : task.id ≠ id := by
        intro same
        rw [eq_of_id listed.tasks.once there mem (eq.trans same.symm), if_neg idle] at checked
        cases checked
      simp [Selection.selected, ne]
  | began _ _ _ _ _ _ _ _ _ _ _ becomes => exact updated becomes mem
  | notBegun _ _ _ _ _ _ _ _ becomes _ wrote => exact outcome wrote mem (updated becomes mem)
  | recorded _ _ _ _ _ _ _ _ _ becomes => exact updated becomes mem

/-- The write a step makes, if it gets to it. -/
def Label.write : Label → Option Write
  | .start write _ | .work _ (.begin write _) | .work _ (.record write _) => some write
  | .request _ chance => some chance.write
  | _ => none

/-- Nothing was changed, or `tasks.json` is the list in memory. -/
def Synced (before after : Journal) : Prop :=
  after = before ∨ after.disk = some after.tasks

theorem cancel_synced (now : Int) (qualified : Bool) (id : String) (journal : Journal) :
    Synced journal (journal.cancel .done now qualified id).2.2 := by
  unfold Journal.cancel
  split
  · exact .inl rfl
  · split
    · split <;> exact .inl rfl
    · split
      · exact .inl rfl
      · split
        · exact .inr rfl
        · exact .inl rfl

theorem remove_synced (selection : Selection) (journal : Journal) :
    Synced journal (journal.remove .done selection).2 := by
  unfold Journal.remove
  split
  · exact .inl rfl
  · dsimp only
    split
    · exact .inl rfl
    · exact .inr rfl

theorem queue_synced (chance : Chance) (request : Request) (journal : Journal)
    (done : chance.write = .done) : Synced journal (queue env chance request journal).2 := by
  unfold queue Journal.enqueue
  rw [done]
  dsimp only
  split
  · split <;> exact .inl rfl
  · split
    · exact .inl rfl
    · exact .inr rfl

theorem answer_synced (chance : Chance) (journal : Journal) (route : Route)
    (done : chance.write = .done) : Synced journal (answer env chance journal route).2.2 := by
  cases route with
  | capabilities | list | get | read => exact .inl rfl
  | cancel id =>
    unfold answer
    rw [done]
    exact cancel_synced chance.now chance.qualified id journal
  | remove selection =>
    unfold answer
    rw [done]
    exact remove_synced selection journal
  | queue request => exact queue_synced chance request journal done

theorem begin_synced (now : Int) (id : String) (journal : Journal) :
    Synced journal (journal.begin .done now id).2 := by
  unfold Journal.begin
  split
  · exact .inl rfl
  · split
    · exact .inl rfl
    · exact .inr rfl

theorem update_synced (size : Value → Nat) (now : Int) (id : String) (status : TaskStatus)
    (result : Except Failure Value) (journal : Journal) :
    Synced journal (journal.update size .done now id status result).2 := by
  unfold Journal.update
  split
  · exact .inl rfl
  · exact .inr rfl

def State.journal (s : State) : Journal := ⟨s.disk, s.tasks⟩

theorem after_tasks (route : Route) (reply : Except Failure Reply) (notified : Bool) (host : Host) :
    (after route reply notified host).tasks = host.tasks := by
  unfold after
  split
  · split <;> rfl
  · rfl
  · rfl

theorem advance_synced {worker : Worker} {s t : State} {host : Host} (here : s.host = some host)
    {phase : Phase} {work : Work} {id : String}
    (done : ∀ write ∈ (Label.work id work).write, write = .done)
    (h : advance env worker host s phase work = some t) : Synced s.journal t.journal := by
  obtain ⟨disk, _, ids, log⟩ := s
  cases here
  unfold advance at h
  split at h
  case h_4 =>
    cases h
    refine .inl (congrArg (Journal.mk disk) ?_)
    exact (lockOf_workers worker.key host).2
  case h_5 | h_6 | h_7 =>
    split at h
    · cases h
      exact .inl rfl
    · cases h
  case h_8 write now =>
    cases h
    cases done write rfl
    have synced := begin_synced now worker.id ⟨disk, host.tasks⟩
    revert synced
    unfold beginTask
    dsimp only
    split <;> exact fun synced => synced
  case h_9 write now =>
    cases h
    cases done write rfl
    exact update_synced _ now worker.id _ _ ⟨disk, host.tasks⟩
  case h_13 write now =>
    cases h
    cases done write rfl
    exact update_synced _ now worker.id _ _ ⟨disk, host.tasks⟩
  all_goals cases h
  all_goals exact .inl rfl

theorem next_synced {s t : State} {label : Label} (alive : label ≠ .crash)
    (done : ∀ write ∈ label.write, write = .done) (h : next env s label = some t) :
    Synced s.journal t.journal := by
  cases label with
  | crash => exact absurd rfl alive
  | start write now =>
    cases done write rfl
    obtain ⟨-, eq⟩ := Option.ite_none_right_eq_some.mp h
    cases eq
    exact .inr rfl
  | request request chance =>
    simp only [next] at h
    split at h
    · next host route here _ =>
        split at h
        · cases h
        · cases h
          have synced : Synced ⟨s.disk, host.tasks⟩
              (answer env chance ⟨s.disk, host.tasks⟩ route).2.2 :=
            answer_synced chance ⟨s.disk, host.tasks⟩ route (done chance.write rfl)
          have before : s.journal = ⟨s.disk, host.tasks⟩ := by
            unfold State.journal State.tasks
            rw [here]
            rfl
          rw [before]
          unfold serve State.journal State.tasks
          dsimp only [Option.map_some, Option.getD_some]
          rw [after_tasks]
          exact synced
    · cases h
      exact .inl rfl
    · cases h
  | work id work =>
    simp only [next] at h
    split at h
    · cases h
    · next host here =>
        obtain ⟨worker, -, h⟩ := Option.bind_eq_some_iff.mp h
        exact advance_synced here done h

/-- A request with a key that was answered before gets the same task. -/
theorem replays {s t : State} {host : Host} (reached : (machine env).Reachable s)
    (here : s.host = some host) {id key : String} {request raw : Request} {chance : Chance}
    (keyed : request.idempotencyKey = some key)
    (answered : Answers env s.log id key (env.digest request.operation request.arguments))
    {task : Task} (mem : task ∈ host.tasks) (eq : task.id = id)
    (valid : route env raw = .ok (.queue request))
    (step : next env s (.request raw chance) = some t) :
    t.log = s.log ++ [.replied (.queue request) (.ok (.replayed id task.status))] := by
  obtain ⟨listed, -⟩ := reachable_inv reached
  have tasks : s.tasks = host.tasks := by
    unfold State.tasks
    rw [here]
    rfl
  have known : task ∈ s.tasks := tasks ▸ mem
  obtain ⟨-, told⟩ := listed.answered id key _ answered
  obtain ⟨has, digest⟩ := told task (.inl known) eq
  -- No other task has the key.
  have first : host.tasks.find? (·.idempotencyKey = some key) = some task := by
    cases found : host.tasks.find? (·.idempotencyKey = some key) with
    | none =>
      have := List.find?_eq_none.mp found task mem
      simp [has] at this
    | some other =>
      have there := List.mem_of_find?_eq_some found
      have its : other.idempotencyKey = some key := by simpa using List.find?_some found
      have once : (host.tasks.filterMap (·.idempotencyKey)).Nodup := tasks ▸ listed.tasks.keys
      rw [eq_of_key once there mem its has]
  simp only [next, here, valid] at step
  split at step
  · cases step
  · cases step
    unfold serve answer queue
    dsimp only
    rw [keyed, Option.bind_some, first]
    dsimp only
    rw [if_neg (not_not.mpr digest), eq]

end Journals

/-! ### Histories -/

section Histories

variable {env : Environment}

def Phase.isDispatching : Phase → Bool
  | .dispatching _ => true
  | _ => false

/-- Of one resource, one task is worked on. -/
def Serial (host : Host) : Prop :=
  ∀ worker ∈ host.workers, ∀ other ∈ host.workers, worker.phase.isDispatching = true →
    other.phase.isDispatching = true → worker.key = other.key → worker.id = other.id

theorem Locked.serial {host : Host} (h : Locked host.locks host.nextLock host.workers) :
    Serial host := by
  intro worker mem other mem' at_ at_' same
  obtain ⟨lock, holds⟩ : ∃ lock, worker.phase = .dispatching lock := by
    cases phase : worker.phase with
    | dispatching lock => exact ⟨lock, rfl⟩
    | _ => rw [phase] at at_; cases at_
  obtain ⟨lock', holds'⟩ : ∃ lock, other.phase = .dispatching lock := by
    cases phase : other.phase with
    | dispatching lock => exact ⟨lock, rfl⟩
    | _ => rw [phase] at at_'; cases at_'
  have mine := h.named worker mem lock (holds ▸ rfl)
  have its := h.named other mem' lock' (holds' ▸ rfl)
  have one : (worker.key, lock) = (other.key, lock') :=
    List.inj_on_of_nodup_map h.keys mine its same
  have eq : lock = lock' := congrArg Prod.snd one
  exact h.held worker mem other mem' lock (holds ▸ rfl) (by rw [holds', eq]; rfl)

/-- A final status is kept by every run of the host, and beyond it if it was written. -/
theorem settled_run {s t : State} {labels : List Label} {id : String} {status : TaskStatus}
    (final : status ∈ finished) (reached : (machine env).Reachable s)
    (settled : Settled id status s.view) (here : s.host.isSome = true)
    (ran : (machine env).run s labels = some t) :
    ((∀ label ∈ labels, label ≠ .crash) → Stands id status t.tasks) ∧
      (Stands id status (s.disk.getD []) →
        Stands id status t.tasks ∧ Stands id status (t.disk.getD [])) := by
  constructor
  · intro alive
    have along := Machine.along_of_forall_mem (M := machine env) (s := s) alive
    refine (Machine.run_preserves_along (P := fun s => (machine env).Reachable s ∧
      s.host.isSome = true ∧ Settled id status s.view) ?_ along ran
      ⟨reached, here, settled⟩).2.2.stands
    rintro s label t step alive ⟨reached, here, settled⟩
    obtain ⟨listed, working⟩ := reachable_inv reached
    rcases next_cases step with ⟨gone | gone, -⟩ | ⟨⟨-, -, here'⟩, change⟩
    · exact absurd gone alive
    · rw [gone] at here
      cases here
    · exact ⟨reached.next step, here', (settled.change final listed working change).1⟩
  · intro written
    obtain ⟨-, settled', written'⟩ := Machine.run_preserves (P := fun s =>
      (machine env).Reachable s ∧ Settled id status s.view ∧ Stands id status s.view.written)
      (by
        rintro s label t step ⟨reached, settled, written⟩
        obtain ⟨listed, working⟩ := reachable_inv reached
        rcases next_cases step with ⟨-, restart⟩ | ⟨-, change⟩
        · exact ⟨reached.next step, settled.restart final written restart⟩
        · obtain ⟨settled', kept⟩ := settled.change final listed working change
          exact ⟨reached.next step, settled', kept written⟩)
      ran ⟨reached, settled, written⟩
    exact ⟨settled'.stands, written'⟩

/-- **Tasks are executed at most once**, whatever fails or dies: not twice, not unless it
was written that they begin, and not after they were cancelled. Of one resource one task is
worked on at a time. A request that was answered before gets the same task while that is
retained; active tasks are not removed; an operation that wrote leaves `tasks.json` equal to
the list in memory. A final status is kept while the host lives, and, once it is in
`tasks.json`, from then on. -/
theorem executed_at_most_once {s : State} (reached : (machine env).Reachable s) :
    s.log.Pairwise InOrder ∧ Justified s.log ∧ (∀ host, s.host = some host → Serial host) ∧
    (∀ host id key request raw chance task t, s.host = some host →
      request.idempotencyKey = some key →
      Answers env s.log id key (env.digest request.operation request.arguments) →
      task ∈ host.tasks → task.id = id → route env raw = .ok (.queue request) →
      next env s (.request raw chance) = some t →
      t.log = s.log ++ [.replied (.queue request) (.ok (.replayed id task.status))]) ∧
    (∀ label t, label ≠ .crash → next env s label = some t →
      (∀ task ∈ s.tasks, task.status.active = true → ∃ task' ∈ t.tasks, task'.id = task.id) ∧
      ((∀ write ∈ label.write, write = .done) → Synced s.journal t.journal)) ∧
    (∀ task ∈ s.tasks, task.status ∈ finished →
      (∀ worker ∈ s.workers, worker.id = task.id → worker.phase.isUnstarted = false) →
      ∀ labels t, (machine env).run s labels = some t →
        ((∀ label ∈ labels, label ≠ .crash) → Stands task.id task.status t.tasks) ∧
        (Stands task.id task.status (s.disk.getD []) →
          Stands task.id task.status t.tasks ∧
            Stands task.id task.status (t.disk.getD []))) := by
  obtain ⟨listed, working⟩ := reachable_inv reached
  refine ⟨working.order, working.justified, fun host here => (reachable_locked reached host here).serial,
    ?_, ?_, ?_⟩
  · intro host id key request raw chance task t here keyed answered mem eq valid step
    exact replays reached here keyed answered mem eq valid step
  · intro label t alive step
    refine ⟨fun task mem active => ?_, fun done => next_synced alive done step⟩
    rcases next_cases step with ⟨gone | gone, -⟩ | ⟨-, change⟩
    · exact absurd gone alive
    · unfold State.tasks at mem
      rw [gone] at mem
      cases mem
    · exact change.active listed mem active
  · intro task mem final started labels t ran
    have here : s.host.isSome = true := by
      cases here : s.host with
      | some host => rfl
      | none =>
        unfold State.tasks at mem
        rw [here] at mem
        cases mem
    have settled : Settled task.id task.status s.view :=
      ⟨listed.tasks.drawn task mem, only_task listed.tasks mem rfl rfl, fun _ => started⟩
    exact settled_run final reached settled here ran

end Histories

/-! A host with one operation, and one task that was executed. -/

def sampleEnvironment : Environment where
  token := "token"
  find name := if name = "models.refresh" then some ⟨name, "write", fun _ => .ok ()⟩
    else if name = "tasks.clear" then some ⟨name, "delete", fun _ => .ok ()⟩
    else none
  digest operation _ := operation
  size _ := 4
  redactCommandSecrets := id

def refresh : Request := ⟨1, "request", "token", "models.refresh", .object [], none⟩

def sampleChance (uuid : String) : Chance := ⟨.done, uuid, 0, false, .ok .null⟩

/-- A task is executed, and what it ended with is recorded as `write` allows. -/
def executed (write : Write) : List Label :=
  [.start .done 0, .request refresh (sampleChance "a"), .work "a" .register, .work "a" .check,
    .work "a" (.prepare (.ok .null)), .work "a" .lock, .work "a" (.begin .done 0),
    .work "a" .dispatch, .work "a" (.finish (.ok .null)), .work "a" (.record write 0)]

def full : Failure := failure "OPERATION_FAILED" "no space left on device"

/-- The statuses in memory, and those in `tasks.json`. -/
def State.statuses (s : State) : List TaskStatus × List TaskStatus :=
  (s.tasks.map (·.status), (s.disk.getD []).map (·.status))

theorem executed_at_most_once_sample : ∃ s, (machine sampleEnvironment).run
    (machine sampleEnvironment).init (executed .done) = some s ∧
    s.statuses = ([.succeeded], [.succeeded]) ∧ s.log.Pairwise InOrder ∧ Justified s.log := by
  have ends : ((machine sampleEnvironment).run (machine sampleEnvironment).init
      (executed .done)).map State.statuses = some ([.succeeded], [.succeeded]) := by
    decide +kernel
  obtain ⟨s, ran, statuses⟩ := Option.map_eq_some_iff.mp ends
  have reached : (machine sampleEnvironment).Reachable s := ⟨_, ran⟩
  have held := executed_at_most_once reached
  exact ⟨s, ran, statuses, held.1, held.2.1⟩

/-- A status that could not be written is lost with its host; and an operation that
changes nothing returns although `tasks.json` is not what is in memory. -/
theorem status_lost :
    ((machine sampleEnvironment).run (machine sampleEnvironment).init
      (executed (.failed full))).map State.statuses = some ([.succeeded], [.running]) ∧
    ((machine sampleEnvironment).run (machine sampleEnvironment).init
      (executed (.failed full) ++ [.request { refresh with
          operation := "tasks.clear"
          arguments := .object [("statuses", .array [.string "failed"])] }
        (sampleChance "b")])).map (fun s => (s.statuses, s.log.getLast?.elim false fun
          | .replied (.remove _) (.ok _) => true
          | _ => false)) = some (([.succeeded], [.running]), true) ∧
    ((machine sampleEnvironment).run (machine sampleEnvironment).init
      (executed (.failed full) ++ [.crash, .start .done 1])).map State.statuses =
        some ([.interrupted], [.interrupted]) :=
  ⟨by decide +kernel, by decide +kernel, by decide +kernel⟩

end LlamaServerManager.Management
