import LlamaServerManager.Admission.World
import Mathlib.Logic.Function.Basic

/-!
The wake-ups of the admission queue.

`Runtime` refines `World` to the steps between the critical sections: a task
registers with the notifier before it inspects the state, parks when it is not
selected, and is woken by a later `notify_waiters`; the operations that change
the state call `notify_waiters` in a step of their own. `runtime` is simulated by
`machine` (`runtime_simulation`), so its states keep the ledger invariant.

No wake-up is lost (`no_lost_wakeup`): the steps that change the selection without
a notification (the fast path and the enqueue of `acquire`) never select a parked
task.
-/

namespace LlamaServerManager.Admission

open Lib

/-! ### The selection without a notification -/

namespace State

/-- An enqueued ticket is selected only if nothing was: the selection of a
ticket that waited already does not change. -/
theorem selected_enqueue {s : State} {id i : Nat} {key : String} (wf : s.Wf)
    (h : (s.enqueue id key).selected = some i) : i = id ∨ s.selected = some i := by
  unfold selected at h
  split at h
  · cases h
  rename_i room
  rw [selected, if_neg (show ¬ s.limit ≤ s.active.size from room)]
  have searched : ∀ p : Nat × String → Bool, ∀ e,
      (s.waiting ++ [(id, key)]).find? p = some e → e = (id, key) ∨ s.waiting.find? p = some e := by
    intro p e found
    rw [List.find?_append] at found
    cases old : s.waiting.find? p with
    | none =>
      rw [old, Option.none_or] at found
      exact .inl (by simpa using List.mem_of_find?_eq_some found)
    | some e' =>
      rw [old, Option.some_or] at found
      exact .inr found
  split at h
  · rename_i fair
    rw [if_pos (show s.fair = true from fair)]
    obtain ⟨k, hk, found⟩ := Option.bind_eq_some_iff.mp h
    obtain ⟨e, he, rfl⟩ := Option.map_eq_some_iff.mp found
    rcases searched _ e he with rfl | old
    · exact .inl rfl
    · -- The entry waited before, so its key was in `turns` before.
      right
      have waits : k ∈ s.turns := by
        have same : e.2 = k := by simpa using List.find?_some old
        exact (wf.mem_turns k).mpr ⟨e, List.mem_of_find?_eq_some old, same⟩
      have turn : s.turns.find? s.available = some k := by
        have hk : (if s.turns.contains key then s.turns else s.turns ++ [key]).find? s.available =
            some k := hk
        split at hk
        · exact hk
        · rename_i absent
          rw [List.find?_append] at hk
          cases front : s.turns.find? s.available with
          | some k' =>
            rw [front, Option.some_or] at hk
            exact hk
          | none =>
            rw [front, Option.none_or] at hk
            have same : k = key := by simpa using List.mem_of_find?_eq_some hk
            exact absurd (List.contains_iff_mem.mpr (same ▸ waits)) absent
      exact Option.bind_eq_some_iff.mpr ⟨k, turn, Option.map_eq_some_iff.mpr ⟨e, old, rfl⟩⟩
  · rename_i unfair
    rw [if_neg (show ¬ s.fair = true from unfair)]
    obtain ⟨e, he, rfl⟩ := Option.map_eq_some_iff.mp h
    rcases searched _ e he with rfl | old
    · exact .inl rfl
    · exact .inr (Option.map_eq_some_iff.mpr ⟨e, old, rfl⟩)

/-- A request counts against its own key only. -/
theorem available_activate {s : State} {id : Nat} {key k : String}
    (h : (s.activate id key).available k = true) : s.available k = true := by
  have h := of_decide_eq_true h
  apply decide_eq_true
  by_cases same : k = key
  · subst same
    simp only [activate, AList.lookup_insert, Option.getD_some, keyLimit] at h ⊢
    omega
  · simpa only [activate, AList.lookup_insert_ne same, keyLimit] using h

/-- The fast path runs while nothing is selected, and nothing is after it. -/
theorem selected_activate {s : State} {id : Nat} {key : String} (wf : (s.activate id key).Wf)
    (fresh : id ∉ s.active) (before : s.Wf) (idle : s.selected = none) :
    (s.activate id key).selected = none := by
  rw [selected_eq_none wf]
  rcases (selected_eq_none before).mp idle with full | closed
  · left
    have grown : (s.activate id key).active.size = s.active.size + 1 :=
      Dict.size_insert_of_notMem fresh
    have same : (s.activate id key).limit = s.limit := rfl
    omega
  · right
    intro e he
    by_contra open_
    have := available_activate (Bool.of_not_eq_false open_)
    rw [closed e he] at this
    cases this

theorem selected_target {s : State} {id : Nat} {model inst : String} :
    (s.target id model inst).selected = s.selected := by
  rcases s.target_eq id model inst with same | ⟨key, model', inst', model'', found, eq⟩
  · rw [same]
  · have size : Dict.size (s.active.insert id (key, model'', inst)) = s.active.size :=
      Dict.size_insert_of_lookup found
    rw [eq]
    unfold selected
    dsimp only
    rw [size]
    rfl

end State

/-! ### The steps between the critical sections -/

/-- Where the task of a waiter stands. -/
inductive Phase where
  /-- Enqueued or woken; it registers next. -/
  | idle
  /-- Its `Notified` is enabled; it inspects the state next. -/
  | registered (notified : Bool)
  /-- It was not selected and awaits its `Notified`. -/
  | parked (notified : Bool)
  /-- It was admitted; its `notify_waiters` is next. -/
  | admitting
  /-- Admitted, timed out or cancelled; `Waiter::drop` is next. -/
  | leaving
  /-- `Waiter::drop` removed the ticket; its `notify_waiters` is next. -/
  | dropping
deriving DecidableEq, Repr

namespace Phase

/-- `notify_waiters` wakes the futures that are enabled at the time of the call. -/
def notify : Phase → Phase
  | registered _ => registered true
  | parked _ => parked true
  | p => p

/-- The phases in which the task's ticket may wait. -/
def queued : Phase → Bool
  | idle | registered _ | parked _ | leaving => true
  | admitting | dropping => false

@[simp] theorem queued_notify (p : Phase) : p.notify.queued = p.queued := by
  cases p <;> rfl

theorem notify_ne_parked (p : Phase) : p.notify ≠ parked false := by
  cases p <;> simp [notify]

end Phase

/-- Where a permit stands: its task has yet to call `notify_waiters`, it is
held, or its drop has yet to call `notify_waiters`. -/
inductive Hold where
  | granted
  | held
  | releasing
deriving DecidableEq, Repr

/-- The state with the task of each waiter and each permit, so that a task that
registers, parks or has yet to notify is seen between its critical sections. -/
structure Runtime where
  state : State := .default
  tasks : Nat → Option Phase := fun _ => none
  permits : Nat → Option Hold := fun _ => none
  /-- Calls of `configure` that have yet to call `notify_waiters`. -/
  configuring : Nat := 0
  /-- History: how many tickets were issued. -/
  issued : Nat := 0

/-- One critical section, one registration, park or wake-up, or one call of
`notify_waiters`. -/
inductive Step where
  | acquire (key : String)
  | register (id : Nat)
  | inspect (id : Nat)
  | notifyAdmitted (id : Nat)
  | wake (id : Nat)
  /-- The timeout fires or the caller is cancelled. -/
  | abandon (id : Nat)
  | dropWaiter (id : Nat)
  | notifyDropped (id : Nat)
  | dropPermit (id : Nat)
  | notifyReleased (id : Nat)
  | target (id : Nat) (model inst : String)
  | configure (config : ProxyConfig)
  | notifyConfigured

namespace Runtime

def setTask (r : Runtime) (id : Nat) (p : Option Phase) : Runtime :=
  { r with tasks := Function.update r.tasks id p }

def setPermit (r : Runtime) (id : Nat) (h : Option Hold) : Runtime :=
  { r with permits := Function.update r.permits id h }

@[simp] theorem setTask_tasks (r : Runtime) (id : Nat) (p : Option Phase) :
    (r.setTask id p).tasks = Function.update r.tasks id p := rfl

@[simp] theorem setTask_permits (r : Runtime) (id : Nat) (p : Option Phase) :
    (r.setTask id p).permits = r.permits := rfl

@[simp] theorem setPermit_tasks (r : Runtime) (id : Nat) (h : Option Hold) :
    (r.setPermit id h).tasks = r.tasks := rfl

@[simp] theorem setPermit_permits (r : Runtime) (id : Nat) (h : Option Hold) :
    (r.setPermit id h).permits = Function.update r.permits id h := rfl

def notifyWaiters (r : Runtime) : Runtime :=
  { r with tasks := fun id => (r.tasks id).map Phase.notify }

@[simp] theorem notifyWaiters_permits (r : Runtime) : r.notifyWaiters.permits = r.permits := rfl

def next (r : Runtime) : Step → Option Runtime
  | .acquire key =>
    match r.state.acquire key with
    | (s, .permit id) =>
      some { r.setPermit id (some .held) with state := s, issued := r.issued + 1 }
    | (_, .refused) => some r
    | (s, .waiter id) =>
      some { r.setTask id (some .idle) with state := s, issued := r.issued + 1 }
  | .register id =>
    if r.tasks id = some .idle then some (r.setTask id (some (.registered false))) else none
  | .inspect id =>
    match r.tasks id with
    | some (.registered notified) =>
      match r.state.admitWaiter id with
      | some s =>
        some { (r.setTask id (some .admitting)).setPermit id (some .granted) with state := s }
      | none => some (r.setTask id (some (.parked notified)))
    | _ => none
  | .notifyAdmitted id =>
    if r.tasks id = some .admitting ∧ r.permits id = some .granted then
      some ((r.notifyWaiters.setTask id (some .leaving)).setPermit id (some .held))
    else none
  | .wake id =>
    if r.tasks id = some (.parked true) then some (r.setTask id (some .idle)) else none
  | .abandon id =>
    match r.tasks id with
    | some .idle | some (.registered _) | some (.parked _) =>
      some (r.setTask id (some .leaving))
    | _ => none
  | .dropWaiter id =>
    if r.tasks id = some .leaving then
      some { r.setTask id (some .dropping) with state := r.state.dropWaiter id }
    else none
  | .notifyDropped id =>
    if r.tasks id = some .dropping then some (r.notifyWaiters.setTask id none) else none
  | .dropPermit id =>
    if r.permits id = some .held then
      some { r.setPermit id (some .releasing) with state := r.state.dropPermit id }
    else none
  | .notifyReleased id =>
    if r.permits id = some .releasing then some (r.notifyWaiters.setPermit id none) else none
  | .target id model inst =>
    if r.permits id = some .held then
      some { r with state := r.state.target id model inst }
    else none
  | .configure config =>
    some { r with state := r.state.configure config, configuring := r.configuring + 1 }
  | .notifyConfigured =>
    if 0 < r.configuring then
      some { r.notifyWaiters with configuring := r.configuring - 1 }
    else none

/-- An operation is between its state change and its `notify_waiters` call. -/
def Announcing (r : Runtime) : Prop :=
  (∃ id, r.tasks id = some .admitting ∨ r.tasks id = some .dropping) ∨
    (∃ id, r.permits id = some .releasing) ∨ 0 < r.configuring

end Runtime

/-- Every interleaving of these steps, from `Admission::default`. -/
def runtime : Machine Runtime Step where
  init := {}
  next := Runtime.next

/-! ### The runtime refines the world -/

/-- The same critical sections, with the guards the tasks hold. -/
structure Refines (r : Runtime) (w : World) : Prop where
  state : w.state = r.state
  issued : w.issued = r.issued
  waiters : ∀ id p, r.tasks id = some p → p ≠ .dropping → id ∈ w.waiters
  permits : ∀ id h, r.permits id = some h → h ≠ .releasing → id ∈ w.permits

namespace Refines

variable {r : Runtime} {w : World}

theorem setTask (refines : Refines r w) {id : Nat} {q : Option Phase}
    (guarded : ∀ p, q = some p → p ≠ .dropping → id ∈ w.waiters) :
    Refines (r.setTask id q) w := by
  refine ⟨refines.state, refines.issued, ?_, refines.permits⟩
  intro i p hp ne
  by_cases same : i = id
  · subst same
    exact guarded p (by simpa using hp) ne
  · exact refines.waiters i p (by simpa [same] using hp) ne

theorem setPermit (refines : Refines r w) {id : Nat} {h : Option Hold}
    (guarded : ∀ q, h = some q → q ≠ .releasing → id ∈ w.permits) :
    Refines (r.setPermit id h) w := by
  refine ⟨refines.state, refines.issued, refines.waiters, ?_⟩
  intro i q hq ne
  by_cases same : i = id
  · subst same
    exact guarded q (by simpa using hq) ne
  · exact refines.permits i q (by simpa [same] using hq) ne

theorem notifyWaiters (refines : Refines r w) : Refines r.notifyWaiters w := by
  refine ⟨refines.state, refines.issued, ?_, refines.permits⟩
  intro i p hp ne
  obtain ⟨q, hq, rfl⟩ := Option.map_eq_some_iff.mp hp
  apply refines.waiters i q hq
  rintro rfl
  exact ne rfl

/-- Guards come and go with the state they belong to. -/
theorem grown (refines : Refines r w) {u : World} (waiters : w.waiters ⊆ u.waiters)
    (permits : w.permits ⊆ u.permits) :
    Refines { r with state := u.state, issued := u.issued } u :=
  ⟨rfl, rfl, fun id p hp ne => waiters (refines.waiters id p hp ne),
    fun id h hh ne => permits (refines.permits id h hh ne)⟩

/-- The critical sections are steps of the world; the other steps are not seen. -/
theorem step {t : Runtime} {a : Step} (refines : Refines r w) (h : r.next a = some t) :
    ∃ actions u, machine.run w actions = some u ∧ Refines t u := by
  have one : ∀ {a : Action} {u : World}, w.next a = some u → machine.run w [a] = some u :=
    fun h => machine.run_cons_eq_some.mpr ⟨_, h, rfl⟩
  have unseen : Refines t w → ∃ actions u, machine.run w actions = some u ∧ Refines t u :=
    fun h => ⟨[], w, rfl, h⟩
  cases a with
  | acquire key =>
    rcases r.state.acquire_cases key with ⟨eq, -⟩ | eq | ⟨eq, -⟩ <;>
      simp only [Runtime.next, eq, Option.some.injEq] at h <;> subst h
    · refine ⟨[.acquire key], _, one (by rw [World.next, refines.state, eq]), ?_⟩
      have := refines.grown (u := { w.grant (r.state.advance.activate r.state.next key)
        r.state.next with issued := w.issued + 1 }) (fun _ h => h) (List.subset_cons_self _ _)
      rw [← refines.issued]
      exact this.setPermit fun _ _ _ => List.mem_cons_self
    · exact unseen refines
    · refine ⟨[.acquire key], _, one (by rw [World.next, refines.state, eq]), ?_⟩
      have := refines.grown (u := { w with
        state := r.state.advance.enqueue r.state.next key
        waiters := r.state.next :: w.waiters
        issued := w.issued + 1 }) (List.subset_cons_self _ _) (fun _ h => h)
      rw [← refines.issued]
      exact this.setTask fun _ _ _ => List.mem_cons_self
  | register id =>
    simp only [Runtime.next] at h
    split at h
    · rename_i idle
      cases h
      exact unseen (refines.setTask fun _ _ _ => refines.waiters id _ idle (by simp))
    · cases h
  | inspect id =>
    simp only [Runtime.next] at h
    split at h
    swap
    · cases h
    rename_i notified registered
    have guard : id ∈ w.waiters := refines.waiters id _ registered (by simp)
    cases admitted : r.state.admitWaiter id with
    | none =>
      simp only [admitted, Option.some.injEq] at h
      subst h
      exact unseen (refines.setTask fun _ _ _ => guard)
    | some s =>
      simp only [admitted, Option.some.injEq] at h
      subst h
      refine ⟨[.inspect id], w.grant s id,
        one (by rw [World.next, if_pos guard, refines.state, admitted]), ?_⟩
      have := refines.grown (u := w.grant s id) (fun _ h => h) (List.subset_cons_self _ _)
      rw [show (w.grant s id).issued = r.issued from refines.issued] at this
      exact (this.setTask fun _ _ _ => guard).setPermit fun _ _ _ => List.mem_cons_self
  | notifyAdmitted id =>
    simp only [Runtime.next] at h
    split at h
    · rename_i both
      cases h
      exact unseen ((refines.notifyWaiters.setTask
        fun _ _ _ => refines.waiters id _ both.1 (by simp)).setPermit
        fun _ _ _ => refines.permits id _ both.2 (by simp))
    · cases h
  | wake id =>
    simp only [Runtime.next] at h
    split at h
    · rename_i parked
      cases h
      exact unseen (refines.setTask fun _ _ _ => refines.waiters id _ parked (by simp))
    · cases h
  | abandon id =>
    simp only [Runtime.next] at h
    split at h
    · rename_i idle
      cases h
      exact unseen (refines.setTask fun _ _ _ => refines.waiters id _ idle (by simp))
    · rename_i registered
      cases h
      exact unseen (refines.setTask fun _ _ _ => refines.waiters id _ registered (by simp))
    · rename_i parked
      cases h
      exact unseen (refines.setTask fun _ _ _ => refines.waiters id _ parked (by simp))
    · cases h
  | dropWaiter id =>
    simp only [Runtime.next] at h
    split at h
    · rename_i leaving
      cases h
      have guard : id ∈ w.waiters := refines.waiters id _ leaving (by simp)
      refine ⟨[.dropWaiter id], _, one (by rw [World.next, if_pos guard]), ?_⟩
      refine ⟨by simp [refines.state], refines.issued, ?_, refines.permits⟩
      intro i p hp ne
      by_cases same : i = id
      · subst same
        simp at hp
        exact absurd hp.symm ne
      · exact (List.mem_erase_of_ne same).mpr
          (refines.waiters i p (by simpa [same] using hp) ne)
    · cases h
  | notifyDropped id =>
    simp only [Runtime.next] at h
    split at h
    · cases h
      exact unseen (refines.notifyWaiters.setTask fun _ h => by cases h)
    · cases h
  | dropPermit id =>
    simp only [Runtime.next] at h
    split at h
    · rename_i held
      cases h
      have guard : id ∈ w.permits := refines.permits id _ held (by simp)
      refine ⟨[.dropPermit id], _, one (by rw [World.next, if_pos guard]), ?_⟩
      refine ⟨by simp [refines.state], refines.issued, refines.waiters, ?_⟩
      intro i p hp ne
      by_cases same : i = id
      · subst same
        simp at hp
        exact absurd hp.symm ne
      · exact (List.mem_erase_of_ne same).mpr
          (refines.permits i p (by simpa [same] using hp) ne)
    · cases h
  | notifyReleased id =>
    simp only [Runtime.next] at h
    split at h
    · cases h
      exact unseen (refines.notifyWaiters.setPermit fun _ h => by cases h)
    · cases h
  | target id model inst =>
    simp only [Runtime.next] at h
    split at h
    · rename_i held
      cases h
      have guard : id ∈ w.permits := refines.permits id _ held (by simp)
      exact ⟨[.target id model inst], { w with state := w.state.target id model inst },
        one (by rw [World.next, if_pos guard]), by simp [refines.state], refines.issued, refines.waiters, refines.permits⟩
    · cases h
  | configure config =>
    cases h
    exact ⟨[.configure config], _, one rfl,
      by simp [refines.state], refines.issued, refines.waiters, refines.permits⟩
  | notifyConfigured =>
    simp only [Runtime.next] at h
    split at h
    · cases h
      have := refines.notifyWaiters
      exact unseen ⟨this.state, this.issued, this.waiters, this.permits⟩
    · cases h

end Refines

/-- The runtime takes the critical sections of the admission machine. -/
theorem runtime_simulation : Machine.Simulation runtime machine Refines where
  init := ⟨rfl, rfl, fun _ _ h _ => (by cases h), fun _ _ h _ => (by cases h)⟩
  step _ _ _ _ h refines := refines.step h

/-- Every runtime state with tickets left is consistent. -/
theorem runtime_wf {r : Runtime} (h : runtime.Reachable r) (few : r.issued < 2 ^ 64) :
    r.state.Wf ∧ r.state.next = r.issued := by
  obtain ⟨w, ⟨actions, hr⟩, refines⟩ := runtime_simulation.reachable h
  have good := World.good_of_run hr (refines.issued ▸ few)
  exact ⟨refines.state ▸ good.wf, by rw [← refines.state, ← refines.issued, good.next_eq]⟩

/-! ### No wake-up is lost -/

/-- Tickets have tasks and permits of their own, a waiting ticket has a queued
task, and unless a notification is on its way the selected task is not parked. -/
structure Awake (r : Runtime) : Prop where
  tasks_lt : ∀ id p, r.tasks id = some p → id < r.state.next
  permits_lt : ∀ id h, r.permits id = some h → id < r.state.next
  granted : ∀ id, r.tasks id = some .admitting → r.permits id = some .granted
  attended : ∀ e ∈ r.state.waiting, ∃ p, r.tasks e.1 = some p ∧ p.queued = true
  no_lost : r.Announcing ∨ ∀ id, r.state.selected = some id → r.tasks id ≠ some (.parked false)

namespace Awake

variable {r t : Runtime}

variable {id : Nat}

/-- A task that moves between queued phases announces nothing before and after. -/
theorem announcing_setTask {p q : Phase} (now : r.tasks id = some p) (queued : p.queued = true)
    (announcing : r.Announcing) :
    (r.setTask id (some q)).Announcing := by
  rcases announcing with ⟨i, hi⟩ | others
  · left
    have other : i ≠ id := by
      rintro rfl
      rcases hi with hi | hi <;> (rw [now] at hi; cases hi; cases queued)
    exact ⟨i, by simpa [other] using hi⟩
  · exact .inr others

/-- A task moves between queued phases; it parks only when it is not selected. -/
theorem setTask (awake : Awake r) {p q : Phase} (now : r.tasks id = some p)
    (before : p.queued = true) (after : q.queued = true)
    (parks : q = .parked false → r.state.selected ≠ some id) :
    Awake (r.setTask id (some q)) where
  tasks_lt := by
    intro i p' hi
    by_cases same : i = id
    · exact same ▸ awake.tasks_lt id p now
    · exact awake.tasks_lt i p' (by simpa [same] using hi)
  permits_lt := awake.permits_lt
  granted := by
    intro i hi
    by_cases same : i = id
    · subst same
      simp only [Runtime.setTask_tasks, Function.update_self, Option.some.injEq] at hi
      subst hi
      cases after
    · exact awake.granted i (by simpa [same] using hi)
  attended := by
    intro e he
    by_cases same : e.1 = id
    · exact ⟨q, by simp [same], after⟩
    · obtain ⟨p', hp', queued⟩ := awake.attended e he
      exact ⟨p', by simpa [same] using hp', queued⟩
  no_lost := by
    rcases awake.no_lost with announcing | calm
    · exact .inl (announcing_setTask now before announcing)
    · right
      intro i sel
      by_cases same : i = id
      · subst same
        simp only [Runtime.setTask_tasks, Function.update_self, ne_eq, Option.some.injEq]
        rintro rfl
        exact parks rfl sel
      · simpa [same] using calm i sel

/-- After `notify_waiters` no task is parked unnotified. -/
theorem notified (id : Nat) : r.notifyWaiters.tasks id ≠ some (.parked false) := by
  intro parked
  obtain ⟨p, -, hp⟩ := Option.map_eq_some_iff.mp parked
  exact p.notify_ne_parked hp

theorem notifyWaiters (awake : Awake r) : Awake r.notifyWaiters where
  tasks_lt := by
    intro i p hp
    obtain ⟨q, hq, -⟩ := Option.map_eq_some_iff.mp hp
    exact awake.tasks_lt i q hq
  permits_lt := awake.permits_lt
  granted := by
    intro i hi
    obtain ⟨q, hq, same⟩ := Option.map_eq_some_iff.mp hi
    cases q <;> cases same
    exact awake.granted i hq
  attended := by
    intro e he
    obtain ⟨p, hp, queued⟩ := awake.attended e he
    exact ⟨p.notify, Option.map_eq_some_iff.mpr ⟨p, hp, rfl⟩, by simpa using queued⟩
  no_lost := .inr fun id _ => notified id

/-- The enqueue of `acquire` selects no parked task, and its fast path no task. -/
theorem acquire (awake : Awake r) (wf : r.state.Wf) (room : r.state.next + 1 < 2 ^ 64)
    {key : String} (h : r.next (.acquire key) = some t) : Awake t := by
  have succ := State.advance_next room
  have lt : r.state.next < r.state.advance.next := by omega
  have fresh : r.state.next ∉ r.state.active := fun mem => by
    have := wf.active_lt _ mem
    omega
  have old : ∀ {i p}, r.tasks i = some p → i ≠ r.state.next := fun hp => by
    have := awake.tasks_lt _ _ hp
    omega
  rcases r.state.acquire_cases key with ⟨eq, -, -, idle⟩ | eq | ⟨eq, len, keyLen, -⟩ <;>
    simp only [Runtime.next, eq, Option.some.injEq] at h <;> subst h
  · have wf' : (r.state.advance.activate r.state.next key).Wf :=
      (wf.advance room).activate lt fresh fun e he same => by
        have := wf.waiting_lt e he
        omega
    refine ⟨?_, ?_, ?_, awake.attended, ?_⟩
    · intro i p hp
      exact Nat.lt_trans (awake.tasks_lt i p hp) lt
    · intro i p hp
      by_cases same : i = r.state.next
      · exact same ▸ lt
      · exact Nat.lt_trans
          (awake.permits_lt i p (by simpa [same] using hp)) lt
    · intro i hi
      simpa [old hi] using awake.granted i hi
    · right
      intro i sel
      have := State.selected_activate wf' fresh (wf.advance room) idle
      cases this.symm.trans sel
  · exact awake
  · refine ⟨?_, ?_, ?_, ?_, ?_⟩
    · intro i p hp
      by_cases same : i = r.state.next
      · exact same ▸ lt
      · exact Nat.lt_trans (awake.tasks_lt i p (by simpa [same] using hp)) lt
    · intro i p hp
      exact Nat.lt_trans (awake.permits_lt i p hp) lt
    · intro i hi
      by_cases same : i = r.state.next
      · subst same
        simp at hi
      · exact awake.granted i (by simpa [same] using hi)
    · intro e he
      rcases List.mem_append.mp he with waited | new
      · obtain ⟨p, hp, queued⟩ := awake.attended e waited
        exact ⟨p, by simpa [old hp] using hp, queued⟩
      · rw [List.mem_singleton.mp new]
        exact ⟨.idle, by simp, rfl⟩
    · rcases awake.no_lost with (⟨i, hi⟩ | others) | calm
      · have other : i ≠ r.state.next := hi.elim old old
        exact .inl (.inl ⟨i, by simpa [other] using hi⟩)
      · exact .inl (.inr others)
      · right
        intro i sel
        by_cases same : i = r.state.next
        · subst same
          simp
        · have sel := (State.selected_enqueue (wf.advance room) sel).resolve_left same
          simpa [same] using calm i sel

/-- A registered task is admitted and announces it, or parks because it is not
selected. -/
theorem inspect (awake : Awake r) (wf : r.state.Wf) (h : r.next (.inspect id) = some t) :
    Awake t := by
  simp only [Runtime.next] at h
  split at h
  swap
  · cases h
  rename_i notified registered
  cases admitted : r.state.admitWaiter id with
  | none =>
    simp only [admitted, Option.some.injEq] at h
    subst h
    apply awake.setTask registered rfl rfl
    intro _ sel
    have := State.removeWaiter_of_selected sel
    simp [State.admitWaiter, sel] at admitted
    simp [admitted] at this
  | some s =>
    simp only [admitted, Option.some.injEq] at h
    subst h
    obtain ⟨-, key, u, hu, rfl⟩ := State.admitWaiter_eq_some admitted
    obtain ⟨-, gone, lt, -⟩ := wf.removeWaiter hu
    obtain ⟨left, right, eq, -, rfl⟩ := State.removeWaiter_eq_some hu
    refine ⟨?_, ?_, ?_, ?_, .inl (.inl ⟨id, .inl (by simp)⟩)⟩
    · intro i p hp
      by_cases same : i = id
      · exact same ▸ lt
      · exact awake.tasks_lt i p (by simpa [same] using hp)
    · intro i p hp
      by_cases same : i = id
      · exact same ▸ lt
      · exact awake.permits_lt i p (by simpa [same] using hp)
    · intro i hi
      by_cases same : i = id
      · subst same
        simp
      · have := awake.granted i (by simpa [same] using hi)
        simpa [same] using this
    · intro e he
      have waited : e ∈ r.state.waiting := by
        rw [eq]
        exact (List.Sublist.append_left (List.sublist_cons_self _ _) _).subset he
      obtain ⟨p, hp, queued⟩ := awake.attended e waited
      exact ⟨p, by simpa [gone e he] using hp, queued⟩

/-- A dropped waiter leaves the queue before its task does. -/
theorem dropWaiter (awake : Awake r) (wf : r.state.Wf) (h : r.next (.dropWaiter id) = some t) :
    Awake t := by
  simp only [Runtime.next] at h
  split at h
  swap
  · cases h
  rename_i leaving
  cases h
  have shape : (r.state.dropWaiter id).next = r.state.next ∧
      ∀ e ∈ (r.state.dropWaiter id).waiting, e ∈ r.state.waiting ∧ e.1 ≠ id := by
    rcases r.state.dropWaiter_cases id with ⟨same, absent⟩ | ⟨key, u, hu, eq⟩
    · rw [same]
      exact ⟨rfl, fun e he => ⟨he, absent e he⟩⟩
    · obtain ⟨-, gone, -, -⟩ := wf.removeWaiter hu
      obtain ⟨left, right, split, -, rfl⟩ := State.removeWaiter_eq_some hu
      rw [eq]
      refine ⟨rfl, fun e he => ⟨?_, gone e he⟩⟩
      rw [split]
      exact (List.Sublist.append_left (List.sublist_cons_self _ _) _).subset he
  refine ⟨?_, ?_, ?_, ?_, .inl (.inl ⟨id, .inr (by simp)⟩)⟩
  · intro i p hp
    rw [shape.1]
    by_cases same : i = id
    · exact same ▸ awake.tasks_lt id _ leaving
    · exact awake.tasks_lt i p (by simpa [same] using hp)
  · intro i p hp
    rw [shape.1]
    exact awake.permits_lt i p hp
  · intro i hi
    by_cases same : i = id
    · subst same
      simp at hi
    · exact awake.granted i (by simpa [same] using hi)
  · intro e he
    obtain ⟨waited, other⟩ := shape.2 e he
    obtain ⟨p, hp, queued⟩ := awake.attended e waited
    exact ⟨p, by simpa [other] using hp, queued⟩

theorem dropPermit (awake : Awake r) (h : r.next (.dropPermit id) = some t) : Awake t := by
  simp only [Runtime.next] at h
  split at h
  swap
  · cases h
  rename_i held
  cases h
  obtain ⟨waiting, -⟩ := State.dropPermit_queue r.state id
  have next := State.dropPermit_next r.state id
  refine ⟨?_, ?_, ?_, ?_, .inl (.inr (.inl ⟨id, by simp⟩))⟩
  · intro i p hp
    rw [next]
    exact awake.tasks_lt i p hp
  · intro i p hp
    rw [next]
    by_cases same : i = id
    · exact same ▸ awake.permits_lt id _ held
    · exact awake.permits_lt i p (by simpa [same] using hp)
  · intro i hi
    have granted := awake.granted i hi
    have other : i ≠ id := by
      rintro rfl
      cases held.symm.trans granted
    simpa [other] using granted
  · intro e he
    exact awake.attended e (waiting ▸ he)

theorem notifyAdmitted (awake : Awake r) (h : r.next (.notifyAdmitted id) = some t) : Awake t := by
  simp only [Runtime.next] at h
  split at h
  swap
  · cases h
  rename_i both
  cases h
  have woken := awake.notifyWaiters
  refine ⟨?_, ?_, ?_, ?_, .inr ?_⟩
  · intro i p hp
    by_cases same : i = id
    · exact same ▸ awake.tasks_lt id _ both.1
    · exact woken.tasks_lt i p (by simpa [same] using hp)
  · intro i p hp
    by_cases same : i = id
    · exact same ▸ awake.permits_lt id _ both.2
    · exact awake.permits_lt i p (by simpa [same] using hp)
  · intro i hi
    by_cases same : i = id
    · subst same
      simp at hi
    · have := woken.granted i (by simpa [same] using hi)
      simpa [same] using this
  · intro e he
    by_cases same : e.1 = id
    · exact ⟨.leaving, by simp [same], rfl⟩
    · obtain ⟨p, hp, queued⟩ := woken.attended e he
      exact ⟨p, by simpa [same] using hp, queued⟩
  · intro i sel
    by_cases same : i = id
    · subst same
      simp
    · simpa [same] using notified (r := r) i

theorem notifyDropped (awake : Awake r) (h : r.next (.notifyDropped id) = some t) : Awake t := by
  simp only [Runtime.next] at h
  split at h
  swap
  · cases h
  rename_i dropping
  cases h
  have woken := awake.notifyWaiters
  refine ⟨?_, awake.permits_lt, ?_, ?_, .inr ?_⟩
  · intro i p hp
    by_cases same : i = id
    · exact same ▸ awake.tasks_lt id _ dropping
    · exact woken.tasks_lt i p (by simpa [same] using hp)
  · intro i hi
    by_cases same : i = id
    · subst same
      simp at hi
    · exact woken.granted i (by simpa [same] using hi)
  · intro e he
    obtain ⟨p, hp, queued⟩ := awake.attended e he
    -- Its ticket left the queue before.
    have other : e.1 ≠ id := by
      rintro same
      rw [same, dropping] at hp
      cases hp
      cases queued
    obtain ⟨p, hp, queued⟩ := woken.attended e he
    exact ⟨p, by simpa [other] using hp, queued⟩
  · intro i sel
    by_cases same : i = id
    · subst same
      simp
    · simpa [same] using notified (r := r) i

theorem notifyReleased (awake : Awake r) (h : r.next (.notifyReleased id) = some t) : Awake t := by
  simp only [Runtime.next] at h
  split at h
  swap
  · cases h
  rename_i releasing
  cases h
  have woken := awake.notifyWaiters
  refine ⟨woken.tasks_lt, ?_, ?_, woken.attended, .inr fun i _ => notified i⟩
  · intro i p hp
    by_cases same : i = id
    · exact same ▸ awake.permits_lt id _ releasing
    · exact awake.permits_lt i p (by simpa [same] using hp)
  · intro i hi
    have granted := woken.granted i hi
    have other : i ≠ id := by
      rintro rfl
      cases releasing.symm.trans granted
    simpa [other] using granted

/-- Every step keeps the queue awake. -/
theorem next (awake : Awake r) (wf : r.state.Wf) (numbered : r.state.next = r.issued)
    (few : t.issued < 2 ^ 64) {a : Step} (h : r.next a = some t) : Awake t := by
  cases a with
  | acquire key =>
    by_cases last : r.state.next + 1 < 2 ^ 64
    · exact awake.acquire wf last h
    · -- The last ticket number is never handed out: only a refusal is left.
      rcases r.state.acquire_cases key with ⟨eq, -⟩ | eq | ⟨eq, -⟩ <;>
        simp only [Runtime.next, eq, Option.some.injEq] at h <;> subst h
      · rw [numbered] at last
        exact absurd few last
      · exact awake
      · rw [numbered] at last
        exact absurd few last
  | register id =>
    simp only [Runtime.next] at h
    split at h
    · rename_i idle
      cases h
      exact awake.setTask idle rfl rfl fun h => by cases h
    · cases h
  | inspect id => exact awake.inspect wf h
  | notifyAdmitted id => exact awake.notifyAdmitted h
  | wake id =>
    simp only [Runtime.next] at h
    split at h
    · rename_i parked
      cases h
      exact awake.setTask parked rfl rfl fun h => by cases h
    · cases h
  | abandon id =>
    simp only [Runtime.next] at h
    split at h
    · rename_i idle
      cases h
      exact awake.setTask idle rfl rfl fun h => by cases h
    · rename_i registered
      cases h
      exact awake.setTask registered rfl rfl fun h => by cases h
    · rename_i parked
      cases h
      exact awake.setTask parked rfl rfl fun h => by cases h
    · cases h
  | dropWaiter id => exact awake.dropWaiter wf h
  | notifyDropped id => exact awake.notifyDropped h
  | dropPermit id => exact awake.dropPermit h
  | notifyReleased id => exact awake.notifyReleased h
  | target id model inst =>
    simp only [Runtime.next] at h
    split at h
    · cases h
      obtain ⟨waiting, -⟩ := State.target_queue r.state id model inst
      have next := State.target_next r.state id model inst
      refine ⟨?_, ?_, awake.granted, ?_, ?_⟩
      · intro i p hp
        rw [next]
        exact awake.tasks_lt i p hp
      · intro i p hp
        rw [next]
        exact awake.permits_lt i p hp
      · intro e he
        exact awake.attended e (waiting ▸ he)
      · rcases awake.no_lost with announcing | calm
        · exact .inl announcing
        · exact .inr fun i sel => calm i (State.selected_target ▸ sel)
    · cases h
  | configure config =>
    cases h
    exact ⟨awake.tasks_lt, awake.permits_lt, awake.granted, awake.attended,
      .inl (.inr (.inr (Nat.succ_pos _)))⟩
  | notifyConfigured =>
    simp only [Runtime.next] at h
    split at h
    · cases h
      have woken := awake.notifyWaiters
      exact ⟨woken.tasks_lt, woken.permits_lt, woken.granted, woken.attended,
        .inr fun i _ => notified i⟩
    · cases h

end Awake

theorem Runtime.issued_mono {r t : Runtime} {a : Step} (h : r.next a = some t) :
    r.issued ≤ t.issued := by
  cases a with
  | acquire key =>
    rcases r.state.acquire_cases key with ⟨eq, -⟩ | eq | ⟨eq, -⟩ <;>
      simp only [Runtime.next, eq, Option.some.injEq] at h <;> subst h
    · exact Nat.le_succ _
    · exact Nat.le_refl _
    · exact Nat.le_succ _
  | inspect id =>
    simp only [Runtime.next] at h
    split at h
    · split at h <;> (cases h; exact Nat.le_refl _)
    · cases h
  | abandon id =>
    simp only [Runtime.next] at h
    split at h <;> first | (cases h; exact Nat.le_refl _) | cases h
  | configure config => cases h; exact Nat.le_refl _
  | register id | notifyAdmitted id | wake id | dropWaiter id | notifyDropped id | dropPermit id
  | notifyReleased id | target id | notifyConfigured =>
    simp only [Runtime.next] at h
    split at h
    · cases h; exact Nat.le_refl _
    · cases h

theorem awake_of_reachable {r : Runtime} (h : runtime.Reachable r) (few : r.issued < 2 ^ 64) :
    Awake r := by
  have kept : r.issued < 2 ^ 64 → Awake r := by
    apply Machine.Reachable.strong_invariant (P := fun r => r.issued < 2 ^ 64 → Awake r) _ _ h
    · intro _
      exact ⟨fun _ _ h => (by cases h), fun _ _ h => (by cases h), fun _ h => (by cases h),
        fun _ h => (by cases h), .inr fun _ _ h => (by cases h)⟩
    · intro s a t reachable step awake few
      have before := Nat.lt_of_le_of_lt (Runtime.issued_mono step) few
      obtain ⟨wf, numbered⟩ := runtime_wf reachable before
      exact (awake before).next wf numbered few step
  exact kept few

/-- The announcing operations are among the issued tickets. -/
theorem Awake.not_announcing {r : Runtime} (awake : Awake r)
    (tasks : ∀ id < r.state.next, r.tasks id ≠ some .admitting ∧ r.tasks id ≠ some .dropping)
    (permits : ∀ id < r.state.next, r.permits id ≠ some .releasing) (none : r.configuring = 0) :
    ¬ r.Announcing := by
  rintro (⟨id, h | h⟩ | ⟨id, h⟩ | h)
  · exact (tasks id (awake.tasks_lt id _ h)).1 h
  · exact (tasks id (awake.tasks_lt id _ h)).2 h
  · exact permits id (awake.permits_lt id _ h) h
  · omega

/-- **No lost wake-up.** In every reachable state in which no operation is
between its state change and its `notify_waiters`, the task of the selected
ticket is not parked unnotified: it will register, has yet to inspect the state,
has been notified, or its wait is over and it is about to drop its ticket. -/
theorem no_lost_wakeup {r : Runtime} {steps : List Step}
    (hr : runtime.run runtime.init steps = some r) (few : r.issued < 2 ^ 64)
    (quiet : ¬ r.Announcing) {id : Nat} (selected : r.state.selected = some id) :
    r.tasks id ≠ some (.parked false) ∧
      (r.tasks id = some .idle ∨ (∃ notified, r.tasks id = some (.registered notified)) ∨
        r.tasks id = some (.parked true) ∨ r.tasks id = some .leaving) := by
  have awake := awake_of_reachable ⟨steps, hr⟩ few
  have calm := awake.no_lost.resolve_left quiet id selected
  refine ⟨calm, ?_⟩
  obtain ⟨key, waits, -⟩ := State.selected_mem selected
  obtain ⟨p, hp, queued⟩ := awake.attended _ waits
  rw [hp] at calm ⊢
  cases p with
  | idle => exact .inl rfl
  | registered notified => exact .inr (.inl ⟨notified, rfl⟩)
  | parked notified =>
    cases notified with
    | false => exact absurd rfl calm
    | true => exact .inr (.inr (.inl rfl))
  | leaving => exact .inr (.inr (.inr rfl))
  | admitting => cases queued
  | dropping => cases queued

/-- A request parks behind the only slot, which is then given back. -/
def released : List Step :=
  [.configure { maxConcurrentRequests := 1 }, .notifyConfigured, .acquire "a", .acquire "b",
    .register 1, .inspect 1, .dropPermit 0, .notifyReleased 0]

theorem no_lost_wakeup_released :
    ∃ r, runtime.run runtime.init released = some r ∧ ¬ r.Announcing ∧
      r.state.selected = some 1 ∧ r.tasks 1 ≠ some (.parked false) := by
  have hr : runtime.run runtime.init released =
      some ((runtime.run runtime.init released).getD {}) := rfl
  have quiet := (awake_of_reachable ⟨_, hr⟩ (by decide)).not_announcing (by decide) (by decide) rfl
  exact ⟨_, hr, quiet, by decide, (no_lost_wakeup hr (by decide) quiet (by decide)).1⟩

end LlamaServerManager.Admission
