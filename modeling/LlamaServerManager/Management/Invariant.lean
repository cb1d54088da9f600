import LlamaServerManager.Management.Change

/-!
What holds of the tasks and their workers in every state of a history: ids and idempotency
keys belong to one task each (`Listed`), and a task's status agrees with where its worker
is (`Working`).
-/

namespace LlamaServerManager.Management

open Lib Lib.Json

/-! ### Lists of tasks -/

/-- What a task is told apart by; its status is no part of it. -/
def Task.ident (task : Task) : String × Option String × String :=
  (task.id, task.idempotencyKey, task.requestDigest)

theorem eq_of_id {tasks : List Task} (once : (tasks.map (·.id)).Nodup) {task other : Task}
    (mem : task ∈ tasks) (mem' : other ∈ tasks) (eq : task.id = other.id) : task = other :=
  List.inj_on_of_nodup_map once mem mem' eq

theorem eq_of_key {tasks : List Task} (once : (tasks.filterMap (·.idempotencyKey)).Nodup)
    {task other : Task} {key : String} (mem : task ∈ tasks) (mem' : other ∈ tasks)
    (keyed : task.idempotencyKey = some key) (keyed' : other.idempotencyKey = some key) :
    task = other := by
  induction tasks with
  | nil => cases mem
  | cons t tasks ih =>
    have later : ∀ task ∈ tasks, task.idempotencyKey = some key →
        key ∈ tasks.filterMap (·.idempotencyKey) :=
      fun task mem keyed => List.mem_filterMap.mpr ⟨task, mem, keyed⟩
    rw [List.filterMap_cons] at once
    rcases List.mem_cons.mp mem with rfl | there
    · rcases List.mem_cons.mp mem' with rfl | there'
      · rfl
      · rw [keyed] at once
        exact absurd (later other there' keyed') (List.nodup_cons.mp once).1
    · rcases List.mem_cons.mp mem' with rfl | there'
      · rw [keyed'] at once
        exact absurd (later task there keyed) (List.nodup_cons.mp once).1
      · refine ih ?_ there there'
        cases key' : t.idempotencyKey with
        | none => rwa [key'] at once
        | some k =>
          rw [key'] at once
          exact (List.nodup_cons.mp once).2

/-- The changed task is the only one with its id. -/
theorem mem_updateFirst_of_nodup {id : String} {f : Task → Task} {tasks : List Task} {task : Task}
    (once : (tasks.map (·.id)).Nodup) (h : task ∈ updateFirst id f tasks) :
    task ∈ tasks ∧ task.id ≠ id ∨ ∃ old ∈ tasks, old.id = id ∧ task = f old := by
  induction tasks with
  | nil => cases h
  | cons t tasks ih =>
    obtain ⟨fresh, once⟩ := List.nodup_cons.mp once
    rw [updateFirst] at h
    split at h
    · next eq =>
        rcases List.mem_cons.mp h with rfl | mem
        · exact .inr ⟨t, List.mem_cons_self, eq, rfl⟩
        · refine .inl ⟨List.mem_cons_of_mem _ mem, fun same => fresh ?_⟩
          exact List.mem_map.mpr ⟨task, mem, same.trans eq.symm⟩
    · next ne =>
        rcases List.mem_cons.mp h with rfl | mem
        · exact .inl ⟨List.mem_cons_self, ne⟩
        · rcases ih once mem with ⟨mem, other⟩ | ⟨old, mem, eq⟩
          · exact .inl ⟨List.mem_cons_of_mem _ mem, other⟩
          · exact .inr ⟨old, List.mem_cons_of_mem _ mem, eq⟩

/-- The ids were drawn, each once, and no key is used twice. -/
structure Known (ids : List String) (tasks : List Task) : Prop where
  drawn : ∀ task ∈ tasks, task.id ∈ ids
  once : (tasks.map (·.id)).Nodup
  keys : (tasks.filterMap (·.idempotencyKey)).Nodup

/-- A list an operation writes: what is in it was there, or is new. -/
def Derived (ids : List String) (tasks next : List Task) : Prop :=
  ∀ task ∈ next, (∃ old ∈ tasks, old.ident = task.ident) ∨ task.id ∉ ids

theorem Known.nil (ids : List String) : Known ids [] :=
  ⟨fun _ mem => (nomatch mem), List.nodup_nil, List.nodup_nil⟩

theorem Known.mono {ids ids' : List String} {tasks : List Task} (known : Known ids tasks)
    (sub : ids ⊆ ids') : Known ids' tasks :=
  ⟨fun task mem => sub (known.drawn task mem), known.once, known.keys⟩

variable {tasks next : List Task}

theorem Known.sublist {ids : List String} (known : Known ids tasks) (sub : next.Sublist tasks) :
    Known ids next :=
  ⟨fun task mem => known.drawn task (sub.subset mem), known.once.sublist (sub.map _),
    known.keys.sublist (sub.filterMap _)⟩

theorem Derived.sublist (ids : List String) (sub : next.Sublist tasks) : Derived ids tasks next :=
  fun task mem => .inl ⟨task, sub.subset mem, rfl⟩

theorem Known.of_ident {ids : List String} (known : Known ids tasks)
    (same : next.map Task.ident = tasks.map Task.ident) : Known ids next := by
  have ids_eq : next.map (·.id) = tasks.map (·.id) := by
    simpa [Task.ident, Function.comp_def] using congrArg (List.map Prod.fst) same
  have keys_eq : next.filterMap (·.idempotencyKey) = tasks.filterMap (·.idempotencyKey) := by
    simpa [Task.ident, List.filterMap_map, Function.comp_def] using
      congrArg (List.filterMap fun p : String × Option String × String => p.2.1) same
  refine ⟨fun task mem => ?_, ids_eq ▸ known.once, keys_eq ▸ known.keys⟩
  have mem : task.id ∈ tasks.map (·.id) := ids_eq ▸ List.mem_map_of_mem mem
  obtain ⟨old, mem, eq⟩ := List.mem_map.mp mem
  exact eq ▸ known.drawn old mem

theorem Derived.of_ident (ids : List String) (same : next.map Task.ident = tasks.map Task.ident) :
    Derived ids tasks next := by
  intro task mem
  have mem : task.ident ∈ tasks.map Task.ident := same ▸ List.mem_map_of_mem mem
  obtain ⟨old, mem, eq⟩ := List.mem_map.mp mem
  exact .inl ⟨old, mem, eq⟩

theorem Restatus.ident {status : TaskStatus} {f : Task → Task} (becomes : Restatus status f)
    (id : String) (tasks : List Task) :
    (updateFirst id f tasks).map Task.ident = tasks.map Task.ident :=
  map_updateFirst (fun task => by simp [Task.ident, becomes.id, becomes.key, becomes.digest]) tasks

theorem interrupted_ident (now : Int) (tasks : List Task) :
    (tasks.map (interrupted now)).map Task.ident = tasks.map Task.ident := by
  rw [List.map_map]
  refine List.map_congr_left fun task _ => ?_
  unfold Function.comp interrupted
  split <;> rfl

section Enqueue

variable {env : Environment} {request : Request} {uuid : String} {ids : List String}
  {tasks : List Task} {task : Task}

theorem Queued.known (made : Queued env request uuid tasks task) (fresh : uuid ∉ ids)
    (known : Known ids tasks) : Known (uuid :: ids) (evict tasks ++ [task]) := by
  have rest := known.sublist (evict_sublist tasks)
  refine ⟨fun other mem => ?_, ?_, ?_⟩
  · rcases List.mem_append.mp mem with mem | mem
    · exact List.mem_cons_of_mem _ (rest.drawn other mem)
    · rw [List.mem_singleton.mp mem, made.id]
      exact List.mem_cons_self
  · rw [List.map_append, List.map_singleton]
    refine List.nodup_append.mpr ⟨rest.once, List.nodup_singleton _, ?_⟩
    rintro _ mem _ same rfl
    obtain ⟨other, mem, eq⟩ := List.mem_map.mp mem
    rw [List.mem_singleton, made.id] at same
    exact fresh (same ▸ eq ▸ rest.drawn other mem)
  · rw [List.filterMap_append]
    refine List.nodup_append.mpr ⟨rest.keys, ?_, ?_⟩
    · cases key : task.idempotencyKey <;> simp [key]
    · rintro k mem _ same rfl
      obtain ⟨other, mem, eq⟩ := List.mem_filterMap.mp mem
      have keyed : task.idempotencyKey = some k := by
        cases key : task.idempotencyKey with
        | none => simp [key] at same
        | some key' =>
          have eq : k = key' := by simpa [key] using same
          rw [eq]
      exact made.fresh k keyed other ((evict_sublist tasks).subset mem) eq

theorem Queued.derived (made : Queued env request uuid tasks task) (fresh : uuid ∉ ids) :
    Derived ids tasks (evict tasks ++ [task]) := by
  intro other mem
  rcases List.mem_append.mp mem with mem | mem
  · exact .inl ⟨other, (evict_sublist tasks).subset mem, rfl⟩
  · rw [List.mem_singleton.mp mem, made.id]
    exact .inr fresh

end Enqueue

/-! ### Identities -/

/-- A request with the key was answered with the task. -/
def Answers (env : Environment) (log : List Event) (id key digest : String) : Prop :=
  ∃ request reply, .replied (.queue request) (.ok reply) ∈ log ∧
    (reply = .accepted id ∨ ∃ status, reply = .replayed id status) ∧
    request.idempotencyKey = some key ∧ digest = env.digest request.operation request.arguments

/-- What every state keeps of the identities: ids are drawn once, memory and disk agree
on them, and an idempotency key that was answered stays with its task and digest. -/
structure Listed (env : Environment) (v : View) : Prop where
  tasks : Known v.ids v.tasks
  written : Known v.ids v.written
  agree : ∀ task ∈ v.tasks, ∀ other ∈ v.written, task.id = other.id → task.ident = other.ident
  answered : ∀ id key digest, Answers env v.log id key digest → id ∈ v.ids ∧
    ∀ task, task ∈ v.tasks ∨ task ∈ v.written → task.id = id →
      task.idempotencyKey = some key ∧ task.requestDigest = digest

section Identities

variable {env : Environment} {written tasks next written' tasks' : List Task}
  {workers workers' : List Worker} {ids ids' : List String} {log : List Event}

theorem Known.agree {other : List Task} (known : Known ids tasks)
    (derived : Derived ids tasks other) : ∀ task ∈ tasks, ∀ t ∈ other, task.id = t.id →
      task.ident = t.ident := by
  intro task mem t mem' eq
  rcases derived t mem' with ⟨old, mem_old, same⟩ | fresh
  · have : task = old := eq_of_id known.once mem mem_old (eq.trans (congrArg Prod.fst same).symm)
    exact this ▸ same
  · exact absurd (known.drawn task mem) (eq ▸ fresh)

/-- The lists are the ones before, or one that was derived from them. -/
theorem Listed.derive (h : Listed env ⟨written, tasks, workers, ids, log⟩)
    (sub : ids ⊆ ids') (derived : Derived ids tasks next)
    (keeps : ∀ task ∈ tasks', task ∈ tasks ∨ task ∈ next)
    (tasks_known : Known ids' tasks') (written_known : Known ids' written')
    (agree : ∀ task ∈ tasks', ∀ other ∈ written', task.id = other.id → task.ident = other.ident)
    (writes : ∀ task ∈ written', task ∈ written ∨ task ∈ next) :
    Listed env ⟨written', tasks', workers', ids', log⟩ where
  tasks := tasks_known
  written := written_known
  agree := agree
  answered id key digest answers := by
    obtain ⟨drawn, told⟩ := h.answered id key digest answers
    refine ⟨sub drawn, fun task mem eq => ?_⟩
    have new : task ∈ next → task.idempotencyKey = some key ∧ task.requestDigest = digest := by
      intro mem
      rcases derived task mem with ⟨old, mem, same⟩ | fresh
      · have told := told old (.inl mem) ((congrArg Prod.fst same).trans eq)
        simp only [Task.ident, Prod.mk.injEq] at same
        exact same.2.1 ▸ same.2.2 ▸ told
      · exact absurd (eq ▸ drawn) fresh
    rcases mem with mem | mem
    · rcases keeps task mem with mem | mem
      · exact told task (.inl mem) eq
      · exact new mem
    · rcases writes task mem with mem | mem
      · exact told task (.inr mem) eq
      · exact new mem

theorem Listed.outcome {ok : Bool} (h : Listed env ⟨written, tasks, workers, ids, log⟩)
    (known : Known ids' next) (sub : ids ⊆ ids') (derived : Derived ids tasks next)
    (outcome : Outcome next written tasks ok written' tasks') :
    Listed env ⟨written', tasks', workers', ids', log⟩ := by
  have same : Derived ids' next next := fun task mem => .inl ⟨task, mem, rfl⟩
  cases outcome with
  | done =>
    exact h.derive sub derived (fun _ => .inr) known known (known.agree same)
      fun _ => .inr
  | late =>
    exact h.derive sub derived (fun _ => .inl) (h.tasks.mono sub) known
      (h.tasks.agree derived) fun _ => .inr
  | failed =>
    exact h.derive sub derived (fun _ => .inl) (h.tasks.mono sub) (h.written.mono sub)
      h.agree fun _ => .inl

/-- One more event, which is no answer with a task. -/
theorem Listed.append {event : Event} (h : Listed env ⟨written, tasks, workers, ids, log⟩)
    (other : ∀ request reply, event = .replied (.queue request) (.ok reply) →
      (∀ id, reply ≠ .accepted id) ∧ ∀ id status, reply ≠ .replayed id status) :
    Listed env ⟨written, tasks, workers, ids, log ++ [event]⟩ where
  tasks := h.tasks
  written := h.written
  agree := h.agree
  answered id key digest := by
    rintro ⟨request, reply, mem, said, rest⟩
    rcases List.mem_append.mp mem with mem | mem
    · exact h.answered id key digest ⟨request, reply, mem, said, rest⟩
    · obtain ⟨accepted, replayed⟩ := other request reply (List.mem_singleton.mp mem).symm
      rcases said with said | ⟨status, said⟩
      · exact absurd said (accepted id)
      · exact absurd said (replayed id status)

theorem Listed.staffed (h : Listed env ⟨written, tasks, workers, ids, log⟩) :
    Listed env ⟨written, tasks, workers', ids, log⟩ :=
  ⟨h.tasks, h.written, h.agree, h.answered⟩

/-- No tasks are in memory. -/
theorem Listed.empty (h : Listed env ⟨written, tasks, workers, ids, log⟩) :
    Listed env ⟨written, [], workers', ids, log⟩ where
  tasks := .nil ids
  written := h.written
  agree _ mem := (nomatch mem)
  answered id key digest answers := by
    obtain ⟨drawn, told⟩ := h.answered id key digest answers
    exact ⟨drawn, fun task mem => told task (.inr (mem.resolve_left fun mem => (nomatch mem)))⟩

/-- The tasks on disk are read. -/
theorem Listed.reread (h : Listed env ⟨written, tasks, workers, ids, log⟩) :
    Listed env ⟨written, written, workers', ids, log⟩ where
  tasks := h.written
  written := h.written
  agree := h.written.agree (.sublist _ (.refl _))
  answered id key digest answers := by
    obtain ⟨drawn, told⟩ := h.answered id key digest answers
    exact ⟨drawn, fun task mem => told task (.inr (or_self_iff.mp mem))⟩

/-- The task that is replayed has the key and the digest of the request. -/
theorem Listed.answer {uuid : String} {route : Route} {reply : Except Failure Reply}
    (h : Listed env ⟨written, tasks, workers, ids, log⟩) (harmless : Harmless env tasks route reply) :
    Listed env ⟨written, tasks, workers, uuid :: ids, log ++ [.replied route reply]⟩ where
  tasks := h.tasks.mono (List.subset_cons_self ..)
  written := h.written.mono (List.subset_cons_self ..)
  agree := h.agree
  answered id key digest := by
    rintro ⟨request, answer, mem, said, keyed, digested⟩
    rcases List.mem_append.mp mem with mem | mem
    · obtain ⟨drawn, told⟩ := h.answered id key digest ⟨request, answer, mem, said, keyed, digested⟩
      exact ⟨List.mem_cons_of_mem _ drawn, told⟩
    · cases List.mem_singleton.mp mem
      rcases said with rfl | ⟨status, rfl⟩
      · exact absurd rfl (harmless.accepted id)
      · obtain ⟨_, key', eq, keyed', task, there, rfl, known, same⟩ :=
          harmless.replayed id status rfl
        cases eq
        cases keyed.symm.trans keyed'
        refine ⟨List.mem_cons_of_mem _ (h.tasks.drawn task there), fun other mem' eq => ?_⟩
        have ident : task.ident = other.ident := by
          rcases mem' with mem' | mem'
          · rw [eq_of_id h.tasks.once there mem' eq.symm]
          · exact h.agree task there other mem' eq.symm
        simp only [Task.ident, Prod.mk.injEq] at ident
        exact ⟨ident.2.1 ▸ known, digested ▸ ident.2.2 ▸ same⟩

theorem Listed.accept {uuid : String} {request : Request} {task : Task}
    (h : Listed env ⟨written, tasks, workers, ids, log⟩)
    (made : Queued env request uuid tasks task) (fresh : uuid ∉ ids)
    (outcome : Outcome (evict tasks ++ [task]) written tasks true written' tasks') :
    Listed env ⟨written', tasks', workers', uuid :: ids,
      log ++ [.replied (.queue request) (.ok (.accepted uuid))]⟩ := by
  have known := made.known fresh h.tasks
  have before : Listed env ⟨written', tasks', workers', uuid :: ids, log⟩ :=
    h.outcome known (List.subset_cons_self ..) (made.derived fresh) outcome
  cases outcome
  refine ⟨before.tasks, before.written, before.agree, ?_⟩
  rintro id key digest ⟨request', reply, mem, said, keyed, rfl⟩
  rcases List.mem_append.mp mem with mem | mem
  · exact before.answered id key _ ⟨request', reply, mem, said, keyed, rfl⟩
  · cases List.mem_singleton.mp mem
    rcases said with eq | ⟨status, eq⟩
    · cases eq
      refine ⟨List.mem_cons_self, fun other mem eq => ?_⟩
      have mem : other ∈ evict tasks ++ [task] := by rcases mem with mem | mem <;> exact mem
      have mine : task ∈ evict tasks ++ [task] := by simp
      rw [eq_of_id known.once mem mine (eq.trans made.id.symm)]
      exact ⟨made.key.trans keyed, made.digest⟩
    · cases eq

theorem Listed.restart {v v' : View} (h : Listed env v) (restart : Restart v v') :
    Listed env v' := by
  cases restart with
  | crash written tasks workers ids log => exact h.empty.append fun _ _ eq => (nomatch eq)
  | start now written ids log =>
    have same := interrupted_ident now written
    have known := h.written.of_ident same
    have read : Listed env ⟨written, written, [], ids, log⟩ := h.reread
    exact read.derive (List.Subset.refl _) (.of_ident _ same) (fun _ => .inr) known known
      (known.agree (.sublist _ (.refl _))) fun _ => .inr
  | notStarted now written written' ids log either =>
    rcases either with rfl | rfl
    · exact h
    · have same := interrupted_ident now written
      have read : Listed env ⟨written, written, [], ids, log⟩ := h.reread
      have written' : Listed env ⟨written.map (interrupted now), written, [], ids, log⟩ :=
        read.derive (List.Subset.refl _) (.of_ident _ same) (fun _ => .inl)
          h.written (h.written.of_ident same) (h.written.agree (.of_ident _ same)) fun _ => .inr
      exact written'.empty

theorem Listed.change {v v' : View} (h : Listed env v) (change : Change env v v') :
    Listed env v' := by
  have sub : ∀ {uuid : String} {ids : List String}, ids ⊆ uuid :: ids := by
    intro uuid ids
    exact List.subset_cons_self ..
  cases change with
  | refused v => exact h
  | answered written tasks workers ids log uuid route reply harmless => exact h.answer harmless
  | queued written tasks workers ids log uuid request task made fresh outcome =>
    exact h.accept made fresh outcome
  | notQueued written tasks workers ids log uuid request task error made fresh outcome =>
    exact (h.outcome (made.known fresh h.tasks) sub (made.derived fresh) outcome).append
      fun _ _ eq => by cases eq
  | cancelled written tasks workers ids log uuid id task mem eq was becomes outcome workers' same =>
    exact (h.outcome ((h.tasks.of_ident (becomes.ident id tasks)).mono sub) sub
      (.of_ident _ (becomes.ident id tasks)) outcome).append fun _ _ eq => by cases eq
  | notCancelled written tasks workers ids log uuid id task error mem eq was becomes outcome =>
    exact (h.outcome ((h.tasks.of_ident (becomes.ident id tasks)).mono sub) sub
      (.of_ident _ (becomes.ident id tasks)) outcome).append fun _ _ eq => by cases eq
  | removed written tasks workers ids log uuid selection reply checked outcome =>
    exact (h.outcome ((h.tasks.sublist List.filter_sublist).mono sub) sub
      (.sublist _ List.filter_sublist) outcome).append fun _ _ eq => by cases eq
  | moved written tasks workers ids log mem moves => exact h.staffed
  | @began worker preparation f written tasks workers ids log mem phase task known eq was becomes =>
    exact (h.outcome (h.tasks.of_ident (becomes.ident worker.id tasks)) (List.Subset.refl _)
      (.of_ident _ (becomes.ident worker.id tasks)) .done).append fun _ _ eq => by cases eq
  | @notBegun worker _ _ _ _ written tasks workers ids log error mem phase becomes absent outcome =>
    exact h.outcome (h.tasks.of_ident (becomes.ident worker.id tasks)) (List.Subset.refl _)
      (.of_ident _ (becomes.ident worker.id tasks)) outcome
  | @recorded worker f written' written tasks workers ids log status lock mem from_ becomes either =>
    have same := becomes.ident worker.id tasks
    have known := h.tasks.of_ident same
    rcases either with rfl | rfl
    · refine h.derive (List.Subset.refl _) (.of_ident _ same) (fun _ => .inr) known
        h.written ?_ fun _ => .inl
      intro task mem other mem' eq
      have mem : task.ident ∈ tasks.map Task.ident := same ▸ List.mem_map_of_mem mem
      obtain ⟨old, mem, ident⟩ := List.mem_map.mp mem
      exact ident ▸ h.agree old mem other mem' ((congrArg Prod.fst ident).trans eq)
    · exact h.outcome known (List.Subset.refl _) (.of_ident _ same) .done
  | dispatched written tasks workers ids log prepared lock mem phase =>
    exact h.staffed.append fun _ _ eq => by cases eq
  | closed written tasks workers ids log id => exact h.staffed

end Identities

/-! ### Tasks and their workers -/

/-- `cancel_task` returned the status `cancelled`. -/
def Event.cancels (id : String) (event : Event) : Prop :=
  ∃ route, event = .replied route (.ok (.cancellation id (.status .cancelled)))

/-- The task had begun, and `tasks.json` said so. -/
def Begun (log : List Event) (id : String) : Prop :=
  ∃ tasks, .began id (some tasks) ∈ log ∧ ∃ task ∈ tasks, task.id = id ∧ task.status = .running

/-- No task is dispatched twice, or after it was cancelled. -/
def InOrder (earlier later : Event) : Prop :=
  ∀ id, later = .dispatched id → earlier ≠ .dispatched id ∧ ¬ earlier.cancels id

/-- Whatever is dispatched had begun. -/
def Justified (log : List Event) : Prop :=
  ∀ before id after, log = before ++ .dispatched id :: after → Begun before id

/-- What every state keeps of the workers: which statuses their tasks can have in each
phase, that they dispatch once, and that no dispatch follows a cancellation that was
answered. -/
structure Working (v : View) : Prop where
  drawn : ∀ worker ∈ v.workers, worker.id ∈ v.ids
  once : (v.workers.map (·.id)).Nodup
  late : ∀ worker ∈ v.workers, worker.phase.late = true → ∀ task ∈ v.tasks, task.id = worker.id →
    task.status = .running
  early : ∀ worker ∈ v.workers, worker.phase.early = true ∨ worker.phase.isUnstarted = true →
    ∀ task ∈ v.tasks, task.id = worker.id → task.status = .queued ∨ task.status = .cancelled
  logged : ∀ event ∈ v.log, ∀ id, event = .dispatched id ∨ event.cancels id → id ∈ v.ids
  open_ : ∀ worker ∈ v.workers, worker.phase.open_ = true → .dispatched worker.id ∉ v.log
  begun : ∀ worker ∈ v.workers, ∀ preparation, worker.phase = .begun preparation →
    Begun v.log worker.id
  cancelled : ∀ worker ∈ v.workers, ∀ event ∈ v.log, event.cancels worker.id →
    (∀ preparation, worker.phase ≠ .begun preparation) ∧
      (worker.phase.early = true → ∀ task ∈ v.tasks, task.id = worker.id → task.status ≠ .queued)
  order : v.log.Pairwise InOrder
  justified : Justified v.log

theorem Begun.append {log : List Event} {id : String} (h : Begun log id) (event : Event) :
    Begun (log ++ [event]) id := by
  obtain ⟨tasks, mem, running⟩ := h
  exact ⟨tasks, List.mem_append_left _ mem, running⟩

theorem Justified.append {log : List Event} {event : Event} (h : Justified log)
    (last : ∀ id, event = .dispatched id → Begun log id) : Justified (log ++ [event]) := by
  intro before id after eq
  rcases List.eq_nil_or_concat after with rfl | ⟨rest, e, rfl⟩
  · obtain ⟨rfl, one⟩ := List.append_inj' eq rfl
    cases one
    exact last id rfl
  · rw [List.concat_eq_append, ← List.cons_append, ← List.append_assoc] at eq
    obtain ⟨rfl, -⟩ := List.append_inj' eq rfl
    exact h before id rest rfl

/-- Besides the worker, all are where they were. -/
theorem mem_movedTo {id : String} {phase : Phase} {workers : List Worker} {worker : Worker}
    (h : worker ∈ movedTo id phase workers) :
    worker ∈ workers ∧ worker.id ≠ id ∨ worker.id = id ∧ worker.phase = phase := by
  obtain ⟨old, mem, rfl⟩ := List.mem_map.mp h
  split
  · next eq => exact .inr ⟨eq, rfl⟩
  · next ne => exact .inl ⟨mem, ne⟩

theorem map_id_movedTo (id : String) (phase : Phase) (workers : List Worker) :
    (movedTo id phase workers).map (·.id) = workers.map (·.id) := by
  unfold movedTo
  rw [List.map_map]
  refine List.map_congr_left fun worker _ => ?_
  dsimp only [Function.comp]
  split <;> rfl

theorem mem_notify {id : String} {workers : List Worker} {worker : Worker}
    (h : worker ∈ notify id workers) :
    ∃ old ∈ workers, old.id = worker.id ∧ old.phase = worker.phase := by
  obtain ⟨old, mem, rfl⟩ := List.mem_map.mp h
  refine ⟨old, mem, ?_⟩
  split <;> exact ⟨rfl, rfl⟩

theorem map_id_notify (id : String) (workers : List Worker) :
    (notify id workers).map (·.id) = workers.map (·.id) := by
  unfold notify
  rw [List.map_map]
  refine List.map_congr_left fun worker _ => ?_
  dsimp only [Function.comp]
  split <;> rfl

/-- Where a move leads. -/
theorem Moves.to {phase phase' : Phase} (h : Moves phase phase') :
    (phase'.late = true → phase.late = true) ∧ (phase'.early = true → phase.early = true) ∧
      phase'.isUnstarted = false ∧ ∀ preparation, phase' ≠ .begun preparation := by
  cases h <;> refine ⟨?_, ?_, rfl, fun _ eq => (nomatch eq)⟩ <;> simp [Phase.late, Phase.early]

theorem Phase.open_iff {phase : Phase} :
    phase.open_ = true ↔ phase.early = true ∨ ∃ preparation, phase = .begun preparation := by
  cases phase <;> simp [Phase.open_, Phase.early]

section Workers

variable {env : Environment} {written tasks written' tasks' : List Task}
  {workers workers' : List Worker} {ids ids' : List String} {log : List Event}

/-- An event that is no dispatch, nor a cancellation. -/
theorem Working.append {event : Event} (h : Working ⟨written, tasks, workers, ids, log⟩)
    (sub : ids ⊆ ids') (quiet : ∀ id, event ≠ .dispatched id ∧ ¬ event.cancels id) :
    Working ⟨written', tasks, workers, ids', log ++ [event]⟩ where
  drawn worker mem := sub (h.drawn worker mem)
  once := h.once
  late := h.late
  early := h.early
  logged e mem id said := by
    rcases List.mem_append.mp mem with mem | mem
    · exact sub (h.logged e mem id said)
    · rw [List.mem_singleton.mp mem] at said
      exact absurd said (not_or.mpr (quiet id))
  open_ worker mem opened logged := by
    rcases List.mem_append.mp logged with logged | logged
    · exact h.open_ worker mem opened logged
    · exact (quiet worker.id).1 (List.mem_singleton.mp logged).symm
  begun worker mem preparation eq := (h.begun worker mem preparation eq).append event
  cancelled worker mem e there cancels := by
    rcases List.mem_append.mp there with there | there
    · exact h.cancelled worker mem e there cancels
    · rw [List.mem_singleton.mp there] at cancels
      exact absurd cancels (quiet worker.id).2
  order := List.pairwise_append.mpr ⟨h.order, List.pairwise_singleton _ _, fun _ _ e mem id eq => by
    rw [List.mem_singleton.mp mem] at eq
    exact absurd eq (quiet id).1⟩
  justified := h.justified.append fun id eq => absurd eq (quiet id).1

/-- The tasks of the workers keep their status, or are gone. -/
theorem Working.restock (h : Working ⟨written, tasks, workers, ids, log⟩)
    (stays : ∀ task ∈ tasks', task.id ∈ ids → task ∈ tasks) :
    Working ⟨written', tasks', workers, ids, log⟩ where
  drawn := h.drawn
  once := h.once
  late worker mem late task known eq :=
    h.late worker mem late task (stays task known (eq ▸ h.drawn worker mem)) eq
  early worker mem early task known eq :=
    h.early worker mem early task (stays task known (eq ▸ h.drawn worker mem)) eq
  logged := h.logged
  open_ := h.open_
  begun := h.begun
  cancelled worker mem event there cancels := by
    obtain ⟨notBegun, early⟩ := h.cancelled worker mem event there cancels
    exact ⟨notBegun, fun is task known eq =>
      early is task (stays task known (eq ▸ h.drawn worker mem)) eq⟩
  order := h.order
  justified := h.justified

/-- A worker is in another phase; of the tasks only its own has changed, and there was
no dispatch. -/
theorem Working.move {id : String} {phase : Phase}
    (h : Working ⟨written, tasks, workers, ids, log⟩)
    (others : ∀ task ∈ tasks', task.id ≠ id → task ∈ tasks)
    (late : phase.late = true → ∀ task ∈ tasks', task.id = id → task.status = .running)
    (early : phase.early = true ∨ phase.isUnstarted = true → ∀ task ∈ tasks', task.id = id →
      task.status = .queued ∨ task.status = .cancelled)
    (open_ : phase.open_ = true → .dispatched id ∉ log)
    (begun : ∀ preparation, phase = .begun preparation → Begun log id)
    (cancelled : ∀ event ∈ log, event.cancels id → (∀ preparation, phase ≠ .begun preparation) ∧
      (phase.early = true → ∀ task ∈ tasks', task.id = id → task.status ≠ .queued)) :
    Working ⟨written', tasks', movedTo id phase workers, ids, log⟩ where
  drawn worker mem := by
    obtain ⟨old, there, rfl⟩ := List.mem_map.mp mem
    have drawn := h.drawn old there
    dsimp only
    split <;> exact drawn
  once := (map_id_movedTo id phase workers).symm ▸ h.once
  late worker mem is task known eq := by
    rcases mem_movedTo mem with ⟨mem, ne⟩ | ⟨rfl, rfl⟩
    · exact h.late worker mem is task (others task known (eq ▸ ne)) eq
    · exact late is task known eq
  early worker mem is task known eq := by
    rcases mem_movedTo mem with ⟨mem, ne⟩ | ⟨rfl, rfl⟩
    · exact h.early worker mem is task (others task known (eq ▸ ne)) eq
    · exact early is task known eq
  logged := h.logged
  open_ worker mem is := by
    rcases mem_movedTo mem with ⟨mem, ne⟩ | ⟨rfl, rfl⟩
    · exact h.open_ worker mem is
    · exact open_ is
  begun worker mem preparation eq := by
    rcases mem_movedTo mem with ⟨mem, ne⟩ | ⟨rfl, rfl⟩
    · exact h.begun worker mem preparation eq
    · exact begun preparation eq
  cancelled worker mem event there cancels := by
    rcases mem_movedTo mem with ⟨mem, ne⟩ | ⟨rfl, rfl⟩
    · obtain ⟨notBegun, early⟩ := h.cancelled worker mem event there cancels
      exact ⟨notBegun, fun is task known eq => early is task (others task known (eq ▸ ne)) eq⟩
    · exact cancelled event there cancels
  order := h.order
  justified := h.justified

/-- The worker of a new task. -/
theorem Working.hire {uuid operation : String} {arguments : Value}
    (h : Working ⟨written, tasks, workers, ids, log⟩) (fresh : uuid ∉ ids)
    (queued : ∀ task ∈ tasks, task.id = uuid → task.status = .queued) :
    Working ⟨written, tasks, workers ++ [⟨uuid, operation, arguments, false, .accepted⟩],
      uuid :: ids, log⟩ where
  drawn worker mem := by
    rcases List.mem_append.mp mem with mem | mem
    · exact List.mem_cons_of_mem _ (h.drawn worker mem)
    · cases List.mem_singleton.mp mem
      exact List.mem_cons_self
  once := by
    rw [List.map_append, List.map_singleton]
    refine List.nodup_append.mpr ⟨h.once, List.nodup_singleton _, ?_⟩
    rintro _ mem _ same rfl
    obtain ⟨worker, mem, eq⟩ := List.mem_map.mp mem
    have eq : worker.id = uuid := eq.trans (List.mem_singleton.mp same)
    exact fresh (eq ▸ h.drawn worker mem)
  late worker mem is := by
    rcases List.mem_append.mp mem with mem | mem
    · exact h.late worker mem is
    · cases List.mem_singleton.mp mem
      cases is
  early worker mem is task known eq := by
    rcases List.mem_append.mp mem with mem | mem
    · exact h.early worker mem is task known eq
    · cases List.mem_singleton.mp mem
      exact .inl (queued task known eq)
  logged event mem id said := List.mem_cons_of_mem _ (h.logged event mem id said)
  open_ worker mem is logged := by
    rcases List.mem_append.mp mem with mem | mem
    · exact h.open_ worker mem is logged
    · cases List.mem_singleton.mp mem
      exact fresh (h.logged _ logged uuid (.inl rfl))
  begun worker mem preparation eq := by
    rcases List.mem_append.mp mem with mem | mem
    · exact h.begun worker mem preparation eq
    · cases List.mem_singleton.mp mem
      cases eq
  cancelled worker mem event there cancels := by
    rcases List.mem_append.mp mem with mem | mem
    · exact h.cancelled worker mem event there cancels
    · cases List.mem_singleton.mp mem
      exact absurd (h.logged event there uuid (.inr cancels)) fresh
  order := h.order
  justified := h.justified

/-- A task is cancelled: its worker, if it is there, has not begun it. -/
theorem Working.cancel {uuid id : String} {route : Route}
    (h : Working ⟨written, tasks, workers, ids, log⟩)
    (others : ∀ task ∈ tasks', task.id ≠ id → task ∈ tasks)
    (own : ∀ task ∈ tasks', task.id = id → task.status = .cancelled)
    (drawn : id ∈ ids) (notLate : ∀ worker ∈ workers, worker.id = id → worker.phase.late = false)
    (staff : workers'.map (·.id) = workers.map (·.id))
    (same : ∀ worker ∈ workers', ∃ old ∈ workers, old.id = worker.id ∧ old.phase = worker.phase) :
    Working ⟨written', tasks', workers', uuid :: ids,
      log ++ [.replied route (.ok (.cancellation id (.status .cancelled)))]⟩ where
  drawn worker mem := by
    obtain ⟨old, there, eq, -⟩ := same worker mem
    exact List.mem_cons_of_mem _ (eq ▸ h.drawn old there)
  once := staff.symm ▸ h.once
  late worker mem is task known eq := by
    obtain ⟨old, there, eq', phase⟩ := same worker mem
    by_cases mine : task.id = id
    · have := notLate old there (eq'.trans (eq.symm.trans mine))
      rw [phase, is] at this
      cases this
    · exact h.late old there (phase ▸ is) task (others task known mine) (eq.trans eq'.symm)
  early worker mem is task known eq := by
    obtain ⟨old, there, eq', phase⟩ := same worker mem
    by_cases mine : task.id = id
    · exact .inr (own task known mine)
    · exact h.early old there (phase ▸ is) task (others task known mine) (eq.trans eq'.symm)
  logged event mem other said := by
    rcases List.mem_append.mp mem with mem | mem
    · exact List.mem_cons_of_mem _ (h.logged event mem other said)
    · cases List.mem_singleton.mp mem
      rcases said with said | ⟨_, said⟩ <;> cases said
      exact List.mem_cons_of_mem _ drawn
  open_ worker mem is logged := by
    obtain ⟨old, there, eq', phase⟩ := same worker mem
    rcases List.mem_append.mp logged with logged | logged
    · exact h.open_ old there (phase ▸ is) (eq' ▸ logged)
    · cases List.mem_singleton.mp logged
  begun worker mem preparation eq := by
    obtain ⟨old, there, eq', phase⟩ := same worker mem
    exact eq' ▸ (h.begun old there preparation (phase.trans eq)).append _
  cancelled worker mem event at_ cancels := by
    obtain ⟨old, there, eq', phase⟩ := same worker mem
    rw [← phase, ← eq']
    rw [← eq'] at cancels
    rcases List.mem_append.mp at_ with at_ | at_
    · obtain ⟨notBegun, early⟩ := h.cancelled old there event at_ cancels
      refine ⟨notBegun, fun is task known eq => ?_⟩
      by_cases mine : task.id = id
      · rw [own task known mine]
        decide
      · exact early is task (others task known mine) eq
    · cases List.mem_singleton.mp at_
      obtain ⟨_, said⟩ := cancels
      cases said
      refine ⟨fun preparation eq => ?_, fun _ task known eq => ?_⟩
      · have := notLate old there rfl
        rw [eq] at this
        cases this
      · rw [own task known eq]
        decide
  order := List.pairwise_append.mpr ⟨h.order, List.pairwise_singleton _ _, fun _ _ e mem id eq => by
    cases List.mem_singleton.mp mem
    cases eq⟩
  justified := h.justified.append fun id eq => by cases eq

theorem Working.dispatch {worker : Worker} {prepared : Value} {lock : Nat}
    (h : Working ⟨written, tasks, workers, ids, log⟩) (mem : worker ∈ workers)
    (phase : worker.phase = .begun (.ok (prepared, lock))) :
    Working ⟨written, tasks, movedTo worker.id (.dispatching lock) workers, ids,
      log ++ [.dispatched worker.id]⟩ := by
  have opened : worker.phase.open_ = true := phase ▸ rfl
  have moved : Working ⟨written, tasks, movedTo worker.id (.dispatching lock) workers, ids, log⟩ :=
    h.move (fun _ known _ => known) (fun _ => h.late worker mem (phase ▸ rfl))
      (fun is => by rcases is with is | is <;> cases is) (fun is => (nomatch is))
      (fun _ eq => (nomatch eq)) fun _ _ _ => ⟨fun _ eq => (nomatch eq), fun is => (nomatch is)⟩
  constructor
  case drawn => exact moved.drawn
  case once => exact moved.once
  case late => exact moved.late
  case early => exact moved.early
  case logged =>
    intro event mem' id said
    rcases List.mem_append.mp mem' with mem' | mem'
    · exact h.logged event mem' id said
    · cases List.mem_singleton.mp mem'
      rcases said with said | ⟨_, said⟩ <;> cases said
      exact h.drawn worker mem
  case open_ =>
    intro other mem' is logged
    rcases List.mem_append.mp logged with logged | logged
    · exact moved.open_ other mem' is logged
    · have eq : other.id = worker.id := Event.dispatched.inj (List.mem_singleton.mp logged)
      rcases mem_movedTo mem' with ⟨-, ne⟩ | ⟨-, there⟩
      · exact ne eq
      · rw [there] at is
        cases is
  case begun =>
    intro other mem' preparation eq
    exact (moved.begun other mem' preparation eq).append _
  case cancelled =>
    intro other mem' event there cancels
    rcases List.mem_append.mp there with there | there
    · exact moved.cancelled other mem' event there cancels
    · cases List.mem_singleton.mp there
      obtain ⟨_, said⟩ := cancels
      cases said
  case order =>
    refine List.pairwise_append.mpr ⟨h.order, List.pairwise_singleton _ _, ?_⟩
    intro earlier there later mem' id eq
    cases List.mem_singleton.mp mem'
    cases eq
    refine ⟨fun same => h.open_ worker mem opened (same ▸ there), fun cancels => ?_⟩
    exact (h.cancelled worker mem earlier there cancels).1 _ phase
  case justified =>
    refine h.justified.append fun id eq => ?_
    cases eq
    exact h.begun worker mem _ phase

/-- The one task with the id is the one that is given. -/
theorem only_task {id : String} {task : Task} {status : TaskStatus}
    (known : Known ids tasks) (mem : task ∈ tasks) (eq : task.id = id) (was : task.status = status) :
    ∀ other ∈ tasks, other.id = id → other.status = status := by
  intro other mem' same
  rw [eq_of_id known.once mem' mem (same.trans eq.symm), was]

/-- After a change of the status of a task. -/
theorem Restatus.after {status : TaskStatus} {f : Task → Task} (becomes : Restatus status f)
    (id : String) (known : Known ids tasks) :
    (∀ task ∈ updateFirst id f tasks, task.id ≠ id → task ∈ tasks) ∧
      ∀ task ∈ updateFirst id f tasks, task.id = id → task.status = status := by
  constructor
  · intro task mem ne
    rcases mem_updateFirst_of_nodup known.once mem with ⟨mem, -⟩ | ⟨old, -, eq, rfl⟩
    · exact mem
    · exact absurd ((becomes.id old).trans eq) ne
  · intro task mem eq
    rcases mem_updateFirst_of_nodup known.once mem with ⟨-, ne⟩ | ⟨old, -, -, rfl⟩
    · exact absurd eq ne
    · exact becomes.status old

/-- A task that is not running has no worker that is late. -/
theorem Working.not_late {id : String} {task : Task}
    (h : Working ⟨written, tasks, workers, ids, log⟩) (mem : task ∈ tasks) (eq : task.id = id)
    (rest : task.status ≠ .running) :
    ∀ worker ∈ workers, worker.id = id → worker.phase.late = false := by
  intro worker there same
  by_contra late
  exact rest (h.late worker there (Bool.not_eq_false _ ▸ late) task mem (eq.trans same.symm))

/-- No workers are left. -/
theorem Working.idle (h : Working ⟨written, tasks, workers, ids, log⟩) :
    Working ⟨written', tasks', [], ids, log⟩ :=
  ⟨fun _ mem => (nomatch mem), List.nodup_nil, fun _ mem => (nomatch mem),
    fun _ mem => (nomatch mem), h.logged, fun _ mem => (nomatch mem), fun _ mem => (nomatch mem),
    fun _ mem => (nomatch mem), h.order, h.justified⟩

theorem Working.restart {v v' : View} (h : Working v) (restart : Restart v v') : Working v' := by
  cases restart with
  | crash written tasks workers ids log =>
    have idle : Working ⟨written, [], [], ids, log⟩ := h.idle
    exact idle.append (List.Subset.refl _) fun id =>
      ⟨fun eq => (nomatch eq), fun ⟨_, eq⟩ => (nomatch eq)⟩
  | start | notStarted => exact h.idle

theorem Working.change {v v' : View} (listed : Listed env v) (h : Working v)
    (change : Change env v v') : Working v' := by
  have sub {uuid : String} {ids : List String} : ids ⊆ uuid :: ids := List.subset_cons_self ..
  cases change with
  | refused v => exact h
  | answered written tasks workers ids log uuid route reply harmless =>
    by_cases cancels : ∃ id, reply = .ok (.cancellation id (.status .cancelled))
    · obtain ⟨id, rfl⟩ := cancels
      obtain ⟨task, mem, eq, was⟩ := harmless.cancelled id rfl
      have own := only_task listed.tasks mem eq was
      exact h.cancel (fun _ known _ => known) own (eq ▸ listed.tasks.drawn task mem)
        (h.not_late mem eq (by simp [was])) rfl fun worker there => ⟨worker, there, rfl, rfl⟩
    · refine h.append sub fun id => ⟨fun eq => (nomatch eq), ?_⟩
      rintro ⟨_, eq⟩
      cases eq
      exact cancels ⟨id, rfl⟩
  | queued written tasks workers ids log uuid request task made fresh outcome =>
    cases outcome
    have restocked : Working ⟨written, evict tasks ++ [task], workers, ids, log⟩ := by
      refine h.restock fun other mem drawn => ?_
      rcases List.mem_append.mp mem with mem | mem
      · exact (evict_sublist tasks).subset mem
      · rw [List.mem_singleton.mp mem, made.id] at drawn
        exact absurd drawn fresh
    refine (restocked.hire fresh ?_).append (List.Subset.refl _)
      fun id => ⟨fun eq => (nomatch eq), fun ⟨_, eq⟩ => (nomatch eq)⟩
    intro other mem eq
    rcases List.mem_append.mp mem with mem | mem
    · exact absurd (eq ▸ listed.tasks.drawn other ((evict_sublist tasks).subset mem)) fresh
    · rw [List.mem_singleton.mp mem, made.status]
  | notQueued written tasks workers ids log uuid request task error made fresh outcome =>
    rw [outcome.unchanged]
    exact h.append sub fun id => ⟨fun eq => (nomatch eq), fun ⟨_, eq⟩ => (nomatch eq)⟩
  | @cancelled _ _ f written tasks workers ids log uuid id task mem eq was becomes outcome workers'
      same =>
    cases outcome
    obtain ⟨others, own⟩ := becomes.after id listed.tasks
    refine h.cancel others own (eq ▸ listed.tasks.drawn task mem)
      (h.not_late mem eq (by simp [was])) ?_ ?_
    · rcases same with rfl | rfl
      · rfl
      · exact map_id_notify id workers
    · intro worker there
      rcases same with rfl | rfl
      · exact ⟨worker, there, rfl, rfl⟩
      · exact mem_notify there
  | @notCancelled _ _ f written tasks workers ids log uuid id task error mem eq was becomes
      outcome =>
    rw [outcome.unchanged]
    exact h.append sub fun id => ⟨fun eq => (nomatch eq), fun ⟨_, eq⟩ => (nomatch eq)⟩
  | removed written tasks workers ids log uuid selection reply checked outcome =>
    have restocked : ∀ {tasks' : List Task}, (∀ task ∈ tasks', task ∈ tasks) →
        Working ⟨written, tasks', workers, ids, log⟩ :=
      fun sub => h.restock fun task mem _ => sub task mem
    refine (restocked fun task mem => ?_).append sub fun id => ⟨fun eq => (nomatch eq), ?_⟩
    · cases outcome with
      | done => exact List.filter_sublist.subset mem
      | late => exact mem
      | failed => exact mem
    · rintro ⟨_, eq⟩
      cases reply <;> cases eq
  | @moved worker phase written tasks workers ids log mem moves =>
    obtain ⟨late, early, started, notBegun⟩ := moves.to
    refine h.move (fun _ known _ => known) (fun is => h.late worker mem (late is)) ?_ ?_
      (fun preparation eq => absurd eq (notBegun preparation)) ?_
    · rintro (is | is)
      · exact h.early worker mem (.inl (early is))
      · rw [started] at is
        cases is
    · intro is
      rcases Phase.open_iff.mp is with is | ⟨preparation, eq⟩
      · exact h.open_ worker mem (Phase.open_iff.mpr (.inl (early is)))
      · exact absurd eq (notBegun preparation)
    · intro event there cancels
      exact ⟨notBegun, fun is => (h.cancelled worker mem event there cancels).2 (early is)⟩
  | @began worker preparation f written tasks workers ids log mem phase task known eq was becomes =>
    obtain ⟨others, own⟩ := becomes.after worker.id listed.tasks
    have early : worker.phase.early = true := phase ▸ rfl
    have running : Begun (log ++ [.began worker.id (some (updateFirst worker.id f tasks))])
        worker.id := by
      have same := becomes.ident worker.id tasks
      have there : task.ident ∈ (updateFirst worker.id f tasks).map Task.ident :=
        same ▸ List.mem_map_of_mem known
      obtain ⟨new, there, ident⟩ := List.mem_map.mp there
      have id : new.id = worker.id := (congrArg Prod.fst ident).trans eq
      exact ⟨_, List.mem_append_right _ List.mem_cons_self, new, there, id, own new there id⟩
    have quiet : ∀ id, Event.began worker.id (some (updateFirst worker.id f tasks)) ≠
        .dispatched id ∧
        ¬ (Event.began worker.id (some (updateFirst worker.id f tasks))).cancels id :=
      fun id => ⟨fun eq => (nomatch eq), fun ⟨_, eq⟩ => (nomatch eq)⟩
    have grown : Working ⟨written, tasks, workers, ids, log ++
        [.began worker.id (some (updateFirst worker.id f tasks))]⟩ :=
      h.append (List.Subset.refl _) quiet
    refine grown.move others (fun _ => own)
      (fun is => by rcases is with is | is <;> cases is) ?_ (fun _ _ => running) ?_
    · intro _ logged
      rcases List.mem_append.mp logged with logged | logged
      · exact h.open_ worker mem (Phase.open_iff.mpr (.inl early)) logged
      · cases List.mem_singleton.mp logged
    · intro event there cancels
      rcases List.mem_append.mp there with there | there
      · exact absurd was ((h.cancelled worker mem event there cancels).2 early task known eq)
      · rw [List.mem_singleton.mp there] at cancels
        exact absurd cancels (quiet worker.id).2
  | @notBegun worker preparation f _ _ written tasks workers ids log error mem phase becomes absent
      outcome =>
    rw [outcome.unchanged]
    exact h.move (fun _ known _ => known) (fun is => (nomatch is))
      (fun _ => h.early worker mem (.inl (phase ▸ rfl))) (fun is => (nomatch is))
      (fun _ eq => (nomatch eq)) fun _ _ _ => ⟨fun _ eq => (nomatch eq), fun is => (nomatch is)⟩
  | @recorded worker f _ written tasks workers ids log status lock mem from_ becomes either =>
    obtain ⟨others, -⟩ := becomes.after worker.id listed.tasks
    exact h.move others (fun is => (nomatch is)) (fun is => by rcases is with is | is <;> cases is)
      (fun is => (nomatch is)) (fun _ eq => (nomatch eq))
      fun _ _ _ => ⟨fun _ eq => (nomatch eq), fun is => (nomatch is)⟩
  | dispatched written tasks workers ids log prepared lock mem phase => exact h.dispatch mem phase
  | closed written tasks workers ids log id =>
    have there : ∀ worker ∈ workers.filter (·.id ≠ id), worker ∈ workers :=
      fun worker mem => List.mem_of_mem_filter mem
    exact ⟨fun worker mem => h.drawn worker (there worker mem),
      h.once.sublist (List.filter_sublist.map _), fun worker mem => h.late worker (there worker mem),
      fun worker mem => h.early worker (there worker mem), h.logged,
      fun worker mem => h.open_ worker (there worker mem),
      fun worker mem => h.begun worker (there worker mem),
      fun worker mem => h.cancelled worker (there worker mem), h.order, h.justified⟩

end Workers

/-! ### Every state of a history -/

theorem reachable_inv {env : Environment} {s : State} (h : (machine env).Reachable s) :
    Listed env s.view ∧ Working s.view := by
  refine h.invariant (P := fun s => Listed env s.view ∧ Working s.view) ⟨?_, ?_⟩ ?_
  · exact ⟨.nil _, .nil _, fun _ mem => (nomatch mem), fun _ _ _ ⟨_, _, mem, _⟩ => (nomatch mem)⟩
  · exact ⟨fun _ mem => (nomatch mem), List.nodup_nil, fun _ mem => (nomatch mem),
      fun _ mem => (nomatch mem), fun _ mem => (nomatch mem), fun _ mem => (nomatch mem),
      fun _ mem => (nomatch mem), fun _ mem => (nomatch mem), List.Pairwise.nil,
      fun before id after eq => by cases before <;> cases eq⟩
  · rintro s label t step ⟨listed, working⟩
    rcases next_cases step with ⟨-, restart⟩ | ⟨-, change⟩
    · exact ⟨listed.restart restart, working.restart restart⟩
    · exact ⟨listed.change change, working.change listed change⟩

end LlamaServerManager.Management
