import LlamaServerManager.Lib.History
import LlamaServerManager.Lib.Machine
import Mathlib.Data.List.Basic

/-!
Saving the configuration from the user interface (`store/configSaveCoordinator.ts`): while one
snapshot is persisted, only the newest of those that follow is kept.

What is thrown is any JavaScript value, and `null` is one of them. A promise is named by the
number of promises made before it.

* `Coordinator.next` — the calls, the microtask that drains, the outcome of `persist`.
* `Shape` — the coordinator is idle, about to drain, or draining.
* `Faithful` — every caller is answered, with the outcome of a call that had its snapshot or a
  later one.
* `told_iff` — when callers that wait for idleness are told of a failure.
* `saving` — every caller is, where `persist` never rejects with `null`.
-/

namespace LlamaServerManager.Frontend.Saving

open Lib Lib.History

structure PendingSave (T : Type) where
  snapshot : T
  /-- The promises to settle. -/
  waiters : List Nat

/-- What happened. -/
inductive Entry (T R V : Type) where
  | saved (promise : Nat) (snapshot : T)
  | asked (promise : Nat)
  | persisting (snapshot : T)
  | persisted (outcome : Except V R)
  | answered (promise : Nat) (outcome : Except V R)
  | idle (promise : Nat) (outcome : Except V Unit)

/-- The variables of the coordinator; and of the runtime the queued microtasks, the activations
of `drain` that await `persist` with their `current`, the number of promises made, and what
happened, the newest first. -/
structure Coordinator (T R V : Type) where
  active : Bool
  drainScheduled : Bool
  pending : Option (PendingSave T)
  lastError : V
  idleWaiters : List Nat
  microtasks : Nat
  drains : List (PendingSave T)
  promises : Nat
  log : List (Entry T R V)

inductive Event (T R V : Type) where
  | save (snapshot : T)
  | waitForIdle
  /-- A queued microtask runs. -/
  | drain
  /-- A call of `persist` settles, and its `drain` goes on. -/
  | settle (drain : Nat) (outcome : Except V R)

variable {T R V : Type}

namespace Coordinator

def create (null : V) : Coordinator T R V :=
  { active := false, drainScheduled := false, pending := none, lastError := null,
    idleWaiters := [], microtasks := 0, drains := [], promises := 0, log := [] }

def scheduleDrain (s : Coordinator T R V) : Coordinator T R V :=
  if s.active || s.drainScheduled then s
  else { s with drainScheduled := true, microtasks := s.microtasks + 1 }

def save (s : Coordinator T R V) (snapshot : T) : Coordinator T R V :=
  let waiter := s.promises
  let pending :=
    match s.pending with
    | some pending => { snapshot, waiters := pending.waiters ++ [waiter] }
    | none => { snapshot, waiters := [waiter] }
  scheduleDrain { s with
    pending := some pending
    promises := s.promises + 1
    log := .saved waiter snapshot :: s.log }

def isIdle (s : Coordinator T R V) : Bool :=
  !s.active && s.pending.isNone && !s.drainScheduled

def waitForIdle (s : Coordinator T R V) : Coordinator T R V :=
  let waiter := s.promises
  if s.isIdle then
    { s with promises := s.promises + 1, log := .idle waiter (.ok ()) :: .asked waiter :: s.log }
  else
    { s with
      idleWaiters := s.idleWaiters ++ [waiter]
      promises := s.promises + 1
      log := .asked waiter :: s.log }

section Draining

variable [DecidableEq V] (null : V)

def settleIdle (s : Coordinator T R V) : Coordinator T R V :=
  let outcome := if s.lastError = null then .ok () else .error s.lastError
  { s with
    idleWaiters := []
    lastError := null
    log := (s.idleWaiters.map fun promise => .idle promise outcome).reverse ++ s.log }

/-- The loop of `drain`, up to where it awaits or ends. -/
def loop (s : Coordinator T R V) : Coordinator T R V :=
  match s.pending with
  | some current =>
    { s with
      pending := none
      drains := s.drains ++ [current]
      log := .persisting current.snapshot :: s.log }
  | none => settleIdle null { s with active := false }

def drain (s : Coordinator T R V) : Coordinator T R V :=
  let s := { s with drainScheduled := false }
  if s.active then s else loop null { s with active := true }

/-- What follows `await persist(current.snapshot)`. -/
def afterPersist (s : Coordinator T R V) (current : PendingSave T)
    (outcome : Except V R) : Coordinator T R V :=
  loop null { s with
    lastError := match outcome with
      | .ok _ => null
      | .error error => error
    log := (current.waiters.map fun promise => .answered promise outcome).reverse ++
      .persisted outcome :: s.log }

def next (s : Coordinator T R V) (event : Event T R V) : Option (Coordinator T R V) :=
  match event with
  | .save snapshot => some (s.save snapshot)
  | .waitForIdle => some s.waitForIdle
  | .drain =>
    if s.microtasks = 0 then none
    else some (drain null { s with microtasks := s.microtasks - 1 })
  | .settle n outcome =>
    match s.drains[n]? with
    | none => none
    | some current =>
      some (afterPersist null { s with drains := s.drains.eraseIdx n } current outcome)

end Draining

end Coordinator

def machine (T R : Type) {V : Type} [DecidableEq V] (null : V) :
    Machine (Coordinator T R V) (Event T R V) where
  init := .create null
  next := Coordinator.next null

/-! ### What a step does -/

/-- The coordinator is idle, about to drain, or draining. -/
inductive Shape (null : V) : Coordinator T R V → Prop where
  | idle (promises log) : Shape null {
      active := false, drainScheduled := false, pending := none, lastError := null,
      idleWaiters := [], microtasks := 0, drains := [], promises, log }
  | scheduled (pending idleWaiters promises log) : Shape null {
      active := false, drainScheduled := true, pending := some pending, lastError := null,
      idleWaiters, microtasks := 1, drains := [], promises, log }
  | draining (pending lastError idleWaiters current promises log) : Shape null {
      active := true, drainScheduled := false, pending, lastError, idleWaiters, microtasks := 0,
      drains := [current], promises, log }

/-- An idle coordinator owes nothing. -/
theorem Shape.of_idle {null : V} {s : Coordinator T R V} (shape : Shape null s)
    (idle : s.isIdle = true) : s.pending = none ∧ s.drains = [] ∧ s.idleWaiters = [] := by
  cases shape with
  | idle => exact ⟨rfl, rfl, rfl⟩
  | scheduled | draining => cases idle

/-- What an event does: a call is possible everywhere, a drain where one is
scheduled, and the one `persist` under way is the one that settles. -/
inductive Moves [DecidableEq V] (null : V) :
    Coordinator T R V → Event T R V → Coordinator T R V → Prop where
  | save (s snapshot) : Moves null s (.save snapshot) (s.save snapshot)
  | waitForIdle (s) : Moves null s .waitForIdle s.waitForIdle
  | drain (pending idleWaiters promises log) : Moves null {
      active := false, drainScheduled := true, pending := some pending, lastError := null,
      idleWaiters, microtasks := 1, drains := [], promises, log } .drain {
      active := true, drainScheduled := false, pending := none, lastError := null, idleWaiters,
      microtasks := 0, drains := [pending], promises,
      log := .persisting pending.snapshot :: log }
  | settle (pending lastError idleWaiters current promises log outcome) : Moves null {
      active := true, drainScheduled := false, pending, lastError, idleWaiters, microtasks := 0,
      drains := [current], promises, log } (.settle 0 outcome) (Coordinator.afterPersist null {
      active := true, drainScheduled := false, pending, lastError, idleWaiters, microtasks := 0,
      drains := [], promises, log } current outcome)

section Steps

variable [DecidableEq V] {null : V} {s t : Coordinator T R V}

theorem Shape.moves {event : Event T R V} (shape : Shape null s)
    (step : s.next null event = some t) : Moves null s event t := by
  cases event with
  | save snapshot =>
    obtain rfl := Option.some.inj step
    exact .save s snapshot
  | waitForIdle =>
    obtain rfl := Option.some.inj step
    exact .waitForIdle s
  | drain =>
    cases shape with
    | idle | draining => cases step
    | scheduled pending idleWaiters promises log =>
      obtain rfl := Option.some.inj step
      exact .drain ..
  | settle n outcome =>
    cases shape with
    | idle | scheduled => cases step
    | draining pending lastError idleWaiters current promises log =>
      cases n with
      | succ n => cases step
      | zero =>
        obtain rfl := Option.some.inj step
        exact .settle ..

theorem Shape.next {event : Event T R V} (shape : Shape null s)
    (step : s.next null event = some t) : Shape null t := by
  cases shape.moves step with
  | save snapshot =>
    cases shape with
    | idle | scheduled => exact .scheduled ..
    | draining => exact .draining ..
  | waitForIdle =>
    cases shape with
    | idle => exact .idle ..
    | scheduled => exact .scheduled ..
    | draining => exact .draining ..
  | drain => exact .draining ..
  | settle pending =>
    cases pending with
    | none => exact .idle ..
    | some pending => exact .draining ..

end Steps

/-! ### What is recorded -/

section Log

/-- The snapshots that were submitted, the newest first. -/
def submitted (log : List (Entry T R V)) : List T :=
  log.filterMap fun
    | .saved _ snapshot => some snapshot
    | _ => none

def saves (log : List (Entry T R V)) : List Nat :=
  log.filterMap fun
    | .saved promise _ => some promise
    | _ => none

def answers (log : List (Entry T R V)) : List Nat :=
  log.filterMap fun
    | .answered promise _ => some promise
    | _ => none

/-- The snapshots that `persist` was called with. -/
def carried (log : List (Entry T R V)) : List T :=
  log.filterMap fun
    | .persisting snapshot => some snapshot
    | _ => none

def outcomes (log : List (Entry T R V)) : List (Except V R) :=
  log.filterMap fun
    | .persisted outcome => some outcome
    | _ => none

def askers (log : List (Entry T R V)) : List Nat :=
  log.filterMap fun
    | .asked promise => some promise
    | _ => none

def idles (log : List (Entry T R V)) : List Nat :=
  log.filterMap fun
    | .idle promise _ => some promise
    | _ => none

def Entry.isPersisting : Entry T R V → Bool
  | .persisting _ => true
  | _ => false

/-- Neither the beginning nor the end of a call of `persist`. -/
def Entry.isQuiet : Entry T R V → Bool
  | .persisting _ | .persisted _ => false
  | _ => true

/-- A call of `waitForIdle` and its answer. -/
def Entry.isAside : Entry T R V → Bool
  | .asked _ | .idle _ _ => true
  | _ => false

/-- The answer to a call. -/
def Entry.isAnswer : Entry T R V → Bool
  | .answered _ _ | .idle _ _ => true
  | _ => false

def Entry.asks (promise : Nat) : Entry T R V → Bool
  | .asked other => other = promise
  | _ => false

/-- The outcome is that of a call of `persist` that began after the save, with the newest snapshot
then submitted. -/
def AnsweredBy (earlier : List (Entry T R V)) (promise : Nat) (outcome : Except V R) : Prop :=
  ∃ later between before snapshot own,
    earlier = later ++ .persisted outcome :: (between ++ .persisting snapshot :: before) ∧
      later.all Entry.isQuiet = true ∧ between.all Entry.isQuiet = true ∧
      .saved promise own ∈ before ∧ (submitted before).head? = some snapshot

/-- The snapshots that were submitted since the last call of `persist` began. -/
def since (log : List (Entry T R V)) : List T :=
  submitted (log.takeWhile fun entry => !entry.isPersisting)

/-- The snapshots that were submitted before it began. -/
def sooner (log : List (Entry T R V)) : List T :=
  submitted (log.dropWhile fun entry => !entry.isPersisting)

theorem filterMap_skip {α β : Type} {newer : List α} {f : α → Option β}
    (none : ∀ entry ∈ newer, f entry = none) (log : List α) :
    (newer ++ log).filterMap f = log.filterMap f := by
  rw [List.filterMap_append, List.filterMap_eq_nil_iff.mpr none, List.nil_append]

theorem submitted_eq (log : List (Entry T R V)) : submitted log = since log ++ sooner log := by
  conv_lhs => rw [← @List.takeWhile_append_dropWhile _ (fun entry => !entry.isPersisting) log]
  exact List.filterMap_append

theorem since_append {newer log : List (Entry T R V)}
    (none : ∀ entry ∈ newer, entry.isPersisting = false) :
    since (newer ++ log) = submitted (newer ++ log.takeWhile fun entry => !entry.isPersisting) := by
  rw [since, List.takeWhile_append_of_pos fun entry mem => by simp [none entry mem]]

theorem sooner_append {newer log : List (Entry T R V)}
    (none : ∀ entry ∈ newer, entry.isPersisting = false) : sooner (newer ++ log) = sooner log := by
  rw [sooner, List.dropWhile_append_of_pos fun entry mem => by simp [none entry mem], sooner]

def answerCheck (entry : Entry T R V) (earlier : List (Entry T R V)) : Prop :=
  ∀ promise outcome, entry = .answered promise outcome → AnsweredBy earlier promise outcome

/-- A call of `persist` has the newest snapshot, and one that is newer than that of the call
before it. -/
def persistCheck (entry : Entry T R V) (earlier : List (Entry T R V)) : Prop :=
  ∀ snapshot, entry = .persisting snapshot →
    (submitted earlier).head? = some snapshot ∧ since earlier ≠ []

/-- The outcomes since a call of `waitForIdle`. -/
def outcomesSince (promise : Nat) (log : List (Entry T R V)) : List (Except V R) :=
  outcomes (log.takeWhile fun entry => !entry.asks promise)

/-- A caller is told of an error if the last call of `persist` failed with it, and only then. -/
def idleCheck (entry : Entry T R V) (earlier : List (Entry T R V)) : Prop :=
  ∀ promise outcome, entry = .idle promise outcome → ∀ error,
    outcome = .error error ↔ (outcomesSince promise earlier).head? = some (.error error)

end Log

/-! ### Every caller -/

/-- The promises of `save` that are not settled, the newest first. -/
def Coordinator.waiting (s : Coordinator T R V) : List Nat :=
  (s.drains.flatMap PendingSave.waiters ++ (s.pending.map PendingSave.waiters).getD []).reverse

/-- The invariant of the coordinator, over its log of events: each save is waiting or
answered, once, and what was persisted is the newest that its waiters gave. -/
structure Valid (s : Coordinator T R V) : Prop where
  named : ∀ promise ∈ saves s.log, promise < s.promises
  distinct : (saves s.log).Nodup
  once : saves s.log = s.waiting ++ answers s.log
  asked : askers s.log = s.idleWaiters.reverse ++ idles s.log
  apart : (askers s.log).Nodup ∧ ∀ promise ∈ askers s.log, promise < s.promises
  answered : Everywhere answerCheck s.log
  persisted : Everywhere persistCheck s.log
  /-- What is persisted began after its waiters' saves, and nothing began or ended since. -/
  current : ∀ current ∈ s.drains, ∃ later before,
    s.log = later ++ .persisting current.snapshot :: before ∧ later.all Entry.isQuiet = true ∧
      ∀ waiter ∈ current.waiters, ∃ own, .saved waiter own ∈ before
  pending : ∀ pending ∈ s.pending, (submitted s.log).head? = some pending.snapshot ∧
    since s.log ≠ [] ∧ ∀ waiter ∈ pending.waiters, ∃ own, .saved waiter own ∈ s.log
  /-- Nothing was submitted that is not pending or persisted. -/
  done : s.pending = none → since s.log = []
  /-- The calls of `persist` had snapshots in order, the last one the newest. -/
  order : (carried s.log).Sublist (sooner s.log) ∧ (carried s.log).head? = (sooner s.log).head?

section Steps

variable {s : Coordinator T R V}

theorem Valid.create (null : V) : Valid (Coordinator.create null : Coordinator T R V) where
  named := by simp [Coordinator.create, saves]
  distinct := List.nodup_nil
  once := rfl
  asked := rfl
  apart := ⟨List.nodup_nil, by simp [Coordinator.create, askers]⟩
  answered := everywhere_nil
  persisted := everywhere_nil
  current := by simp [Coordinator.create]
  pending := by simp [Coordinator.create]
  done := fun _ => rfl
  order := ⟨List.Sublist.refl _, rfl⟩

/-- The flags are not what is recorded. -/
theorem Valid.scheduleDrain (valid : Valid s) : Valid s.scheduleDrain := by
  unfold Coordinator.scheduleDrain
  split
  · exact valid
  · exact ⟨valid.named, valid.distinct, valid.once, valid.asked, valid.apart, valid.answered,
      valid.persisted, valid.current, valid.pending, valid.done, valid.order⟩

theorem Valid.save (valid : Valid s) (snapshot : T) : Valid (s.save snapshot) := by
  apply Valid.scheduleDrain
  have fresh : s.promises ∉ saves s.log := fun mem => (valid.named _ mem).false
  constructor
  · intro promise mem
    rcases List.mem_cons.mp (show promise ∈ s.promises :: saves s.log from mem) with rfl | mem
    · exact Nat.lt_succ_self _
    · exact (valid.named promise mem).trans (Nat.lt_succ_self _)
  · exact List.nodup_cons.mpr ⟨fresh, valid.distinct⟩
  · have once := valid.once
    unfold Coordinator.waiting at once ⊢
    rw [show saves (.saved s.promises snapshot :: s.log) = s.promises :: saves s.log from rfl, once,
      show answers (.saved s.promises snapshot :: s.log) = answers s.log from rfl]
    cases s.pending <;> simp
  · exact valid.asked
  · exact ⟨valid.apart.1, fun promise mem => (valid.apart.2 promise mem).trans (Nat.lt_succ_self _)⟩
  · exact everywhere_cons.mpr ⟨fun _ _ eq => (nomatch eq), valid.answered⟩
  · exact everywhere_cons.mpr ⟨fun _ eq => (nomatch eq), valid.persisted⟩
  · intro current mem
    obtain ⟨later, before, whole, quiet, own⟩ := valid.current current mem
    exact ⟨.saved s.promises snapshot :: later, before, by simp [whole],
      by simpa [Entry.isQuiet] using quiet, own⟩
  · intro pending mem
    obtain rfl := Option.some.inj mem
    have own : ∃ own, .saved s.promises own ∈ .saved s.promises snapshot :: s.log :=
      ⟨snapshot, List.mem_cons_self⟩
    cases held : s.pending with
    | none => exact ⟨rfl, List.cons_ne_nil _ _, fun waiter mem => by simp_all⟩
    | some old =>
      obtain ⟨-, -, waits⟩ := valid.pending old held
      refine ⟨rfl, List.cons_ne_nil _ _, fun waiter mem => ?_⟩
      rcases List.mem_append.mp mem with mem | mem
      · obtain ⟨x, at_⟩ := waits waiter mem
        exact ⟨x, List.mem_cons_of_mem _ at_⟩
      · obtain rfl := List.mem_singleton.mp mem
        exact own
  · exact fun none => by cases none
  · exact valid.order

/-- Calls of `waitForIdle` and their answers change nothing else. -/
theorem Valid.aside (valid : Valid s) {t : Coordinator T R V} {newer : List (Entry T R V)}
    (aside : newer.all Entry.isAside = true) (log : t.log = newer ++ s.log)
    (pending : t.pending = s.pending) (drains : t.drains = s.drains)
    (more : s.promises ≤ t.promises) (asked : askers t.log = t.idleWaiters.reverse ++ idles t.log)
    (apart : (askers t.log).Nodup ∧ ∀ promise ∈ askers t.log, promise < t.promises) :
    Valid t := by
  have kind : ∀ entry ∈ newer, (∃ promise, entry = .asked promise) ∨
      ∃ promise outcome, entry = .idle promise outcome := by
    intro entry mem
    have side := List.all_eq_true.mp aside entry mem
    cases entry with
    | asked promise => exact .inl ⟨promise, rfl⟩
    | idle promise outcome => exact .inr ⟨promise, outcome, rfl⟩
    | saved _ _ => cases side
    | persisting _ => cases side
    | persisted _ => cases side
    | answered _ _ => cases side
  have skip : ∀ {α : Type} (f : Entry T R V → Option α) (rest : List (Entry T R V)),
      (∀ promise, f (.asked promise) = none) → (∀ promise o, f (.idle promise o) = none) →
      (newer ++ rest).filterMap f = rest.filterMap f := by
    intro α f rest asks idles
    refine filterMap_skip (fun entry mem => ?_) rest
    obtain ⟨promise, rfl⟩ | ⟨promise, o, rfl⟩ := kind entry mem
    · exact asks promise
    · exact idles promise o
  have quiet : ∀ entry ∈ newer, entry.isQuiet = true ∧ entry.isPersisting = false := by
    intro entry mem
    obtain ⟨promise, rfl⟩ | ⟨promise, o, rfl⟩ := kind entry mem <;> exact ⟨rfl, rfl⟩
  have saves_ : saves t.log = saves s.log := log ▸ skip _ _ (fun _ => rfl) fun _ _ => rfl
  have answers_ : answers t.log = answers s.log := log ▸ skip _ _ (fun _ => rfl) fun _ _ => rfl
  have submitted_ : submitted t.log = submitted s.log :=
    log ▸ skip _ _ (fun _ => rfl) fun _ _ => rfl
  have carried_ : carried t.log = carried s.log := log ▸ skip _ _ (fun _ => rfl) fun _ _ => rfl
  have since_ : since t.log = since s.log := by
    rw [log, since_append fun entry mem => (quiet entry mem).2]
    exact skip _ _ (fun _ => rfl) fun _ _ => rfl
  have sooner_ : sooner t.log = sooner s.log := by
    rw [log, sooner_append fun entry mem => (quiet entry mem).2]
  constructor
  · rw [saves_]
    exact fun promise mem => (valid.named promise mem).trans_le more
  · exact saves_ ▸ valid.distinct
  · rw [saves_, answers_, Coordinator.waiting, drains, pending]
    exact valid.once
  · exact asked
  · exact apart
  · rw [log]
    refine (everywhere_append fun entry mem between sub => ?_).mpr valid.answered
    obtain ⟨promise, rfl⟩ | ⟨promise, o, rfl⟩ := kind entry mem <;> exact fun _ _ eq => (nomatch eq)
  · rw [log]
    refine (everywhere_append fun entry mem between sub => ?_).mpr valid.persisted
    obtain ⟨promise, rfl⟩ | ⟨promise, o, rfl⟩ := kind entry mem <;> exact fun _ eq => (nomatch eq)
  · intro current mem
    rw [drains] at mem
    obtain ⟨later, before, whole, calm, own⟩ := valid.current current mem
    refine ⟨newer ++ later, before, by rw [log, whole, List.append_assoc], ?_, own⟩
    rw [List.all_append, calm, Bool.and_true]
    exact List.all_eq_true.mpr fun entry mem => (quiet entry mem).1
  · intro held mem
    rw [pending] at mem
    obtain ⟨newest, fresh, own⟩ := valid.pending held mem
    refine ⟨submitted_ ▸ newest, ?_, fun waiter mem => ?_⟩
    · rwa [since_]
    · obtain ⟨x, at_⟩ := own waiter mem
      exact ⟨x, log ▸ List.mem_append_right _ at_⟩
  · rw [since_, pending]
    exact valid.done
  · rw [sooner_, carried_]
    exact valid.order

theorem Valid.waitForIdle (valid : Valid s) (calm : s.isIdle = true → s.idleWaiters = []) :
    Valid s.waitForIdle := by
  have asked := valid.asked
  have apart : (s.promises :: askers s.log).Nodup ∧
      ∀ promise ∈ s.promises :: askers s.log, promise < s.promises + 1 := by
    constructor
    · exact List.nodup_cons.mpr ⟨fun mem => (valid.apart.2 _ mem).false, valid.apart.1⟩
    · intro promise mem
      rcases List.mem_cons.mp mem with rfl | mem
      · exact Nat.lt_succ_self _
      · exact (valid.apart.2 promise mem).trans (Nat.lt_succ_self _)
  unfold Coordinator.waitForIdle
  dsimp only
  split
  · rename_i idle
    refine @Valid.aside _ _ _ s valid _ [.idle s.promises (.ok ()), .asked s.promises] rfl rfl rfl
      rfl (Nat.le_succ _) ?_ apart
    rw [calm idle] at asked ⊢
    exact congrArg (s.promises :: ·) asked
  · refine @Valid.aside _ _ _ s valid _ [.asked s.promises] rfl rfl rfl rfl (Nat.le_succ _) ?_ apart
    rw [show askers (.asked s.promises :: s.log) = s.promises :: askers s.log from rfl, asked]
    simp [idles]

/-- A call of `persist`, with the snapshot that is pending. -/
theorem Valid.begins (valid : Valid s) {t : Coordinator T R V} {current : PendingSave T}
    (held : s.pending = some current) (free : s.drains = []) (pending : t.pending = none)
    (drains : t.drains = [current]) (log : t.log = .persisting current.snapshot :: s.log)
    (idleWaiters : t.idleWaiters = s.idleWaiters) (promises : t.promises = s.promises) :
    Valid t := by
  obtain ⟨newest, fresh, own⟩ := valid.pending current held
  constructor
  · rw [log, promises]
    exact valid.named
  · rw [log]
    exact valid.distinct
  · have once := valid.once
    rw [Coordinator.waiting, held, free] at once
    rw [log, Coordinator.waiting, pending, drains]
    simp only [List.flatMap_cons, List.flatMap_nil, List.append_nil, Option.map_none,
      Option.getD_none]
    exact once
  · rw [log, idleWaiters]
    exact valid.asked
  · rw [log, promises]
    exact valid.apart
  · rw [log]
    exact everywhere_cons.mpr ⟨fun _ _ eq => (nomatch eq), valid.answered⟩
  · rw [log]
    refine everywhere_cons.mpr ⟨fun snapshot eq => ?_, valid.persisted⟩
    obtain rfl := Entry.persisting.inj eq
    exact ⟨newest, fresh⟩
  · intro current' mem
    rw [drains] at mem
    obtain rfl := List.mem_singleton.mp mem
    exact ⟨[], s.log, log, rfl, own⟩
  · intro held' mem
    rw [pending] at mem
    cases mem
  · rw [log]
    exact fun _ => rfl
  · rw [log]
    obtain ⟨sub, -⟩ := valid.order
    have whole : sooner (.persisting current.snapshot :: s.log) = since s.log ++ sooner s.log :=
      submitted_eq s.log
    obtain ⟨x, newer, eq⟩ := List.exists_cons_of_ne_nil fresh
    have first : x = current.snapshot := by
      rw [submitted_eq, eq] at newest
      exact Option.some.inj newest
    rw [whole, eq, first]
    exact ⟨(sub.trans (List.sublist_append_right newer _)).cons_cons _, rfl⟩

theorem answers_settled (waiters : List Nat) (outcome : Except V R) (log : List (Entry T R V)) :
    answers ((waiters.map fun promise => .answered promise outcome).reverse ++
      .persisted outcome :: log) = waiters.reverse ++ answers log := by
  rw [answers, List.filterMap_append, List.filterMap_cons_none rfl]
  congr 1
  rw [← List.map_reverse, List.filterMap_map]
  exact List.filterMap_some

/-- The call of `persist` settles, and its waiters are answered. -/
theorem Valid.settles (valid : Valid s) {t : Coordinator T R V} {current : PendingSave T}
    {outcome : Except V R} (held : s.drains = [current]) (drains : t.drains = [])
    (pending : t.pending = s.pending)
    (log : t.log = (current.waiters.map fun promise => .answered promise outcome).reverse ++
      .persisted outcome :: s.log)
    (idleWaiters : t.idleWaiters = s.idleWaiters) (promises : t.promises = s.promises) :
    Valid t := by
  set newer : List (Entry T R V) :=
    (current.waiters.map fun promise => .answered promise outcome).reverse
  have kind : ∀ entry ∈ newer, ∃ promise ∈ current.waiters, entry = .answered promise outcome := by
    intro entry mem
    obtain ⟨promise, at_, rfl⟩ := List.mem_map.mp (List.mem_reverse.mp mem)
    exact ⟨promise, at_, rfl⟩
  have skip : ∀ {α : Type} (f : Entry T R V → Option α) (rest : List (Entry T R V)),
      (∀ promise o, f (.answered promise o) = none) → f (.persisted outcome) = none →
      (newer ++ .persisted outcome :: rest).filterMap f = rest.filterMap f := by
    intro α f rest answered persisted
    rw [filterMap_skip fun entry mem => ?_, List.filterMap_cons_none persisted]
    obtain ⟨promise, -, rfl⟩ := kind entry mem
    exact answered promise outcome
  have unstarted : ∀ entry ∈ newer ++ [.persisted outcome], entry.isPersisting = false := by
    intro entry mem
    rcases List.mem_append.mp mem with mem | mem
    · obtain ⟨promise, -, rfl⟩ := kind entry mem
      rfl
    · obtain rfl := List.mem_singleton.mp mem
      rfl
  have log_ : t.log = (newer ++ [.persisted outcome]) ++ s.log := by simp [log]
  have since_ : since t.log = since s.log := by
    rw [log_, since_append unstarted, List.append_assoc]
    exact skip _ _ (fun _ _ => rfl) rfl
  have sooner_ : sooner t.log = sooner s.log := by rw [log_, sooner_append unstarted]
  have saves_ : saves t.log = saves s.log := log ▸ skip _ _ (fun _ _ => rfl) rfl
  have submitted_ : submitted t.log = submitted s.log := log ▸ skip _ _ (fun _ _ => rfl) rfl
  have carried_ : carried t.log = carried s.log := log ▸ skip _ _ (fun _ _ => rfl) rfl
  have askers_ : askers t.log = askers s.log := log ▸ skip _ _ (fun _ _ => rfl) rfl
  have idles_ : idles t.log = idles s.log := log ▸ skip _ _ (fun _ _ => rfl) rfl
  have answers_ : answers t.log = current.waiters.reverse ++ answers s.log :=
    log ▸ answers_settled ..
  obtain ⟨later, before, started, calm, own⟩ := valid.current current (by simp [held])
  have newest : (submitted before).head? = some current.snapshot :=
    (valid.persisted _ _ ⟨later, started.symm⟩ _ rfl).1
  constructor
  · rw [saves_, promises]
    exact valid.named
  · exact saves_ ▸ valid.distinct
  · have once := valid.once
    rw [Coordinator.waiting, held] at once
    rw [saves_, answers_, once, Coordinator.waiting, drains, pending]
    simp
  · rw [askers_, idles_, idleWaiters]
    exact valid.asked
  · rw [askers_, promises]
    exact valid.apart
  · rw [log]
    refine (everywhere_append fun entry mem between sub => ?_).mpr
      (everywhere_cons.mpr ⟨fun _ _ eq => (nomatch eq), valid.answered⟩)
    obtain ⟨promise, at_, rfl⟩ := kind entry mem
    intro promise' outcome' same
    obtain ⟨rfl, rfl⟩ := Entry.answered.inj same
    obtain ⟨x, saved⟩ := own promise at_
    have quiet : between.all Entry.isQuiet = true := by
      apply List.all_eq_true.mpr
      intro entry mem
      obtain ⟨_, -, rfl⟩ := kind entry (sub mem)
      rfl
    exact ⟨between, later, before, current.snapshot, x, by rw [started], quiet, calm, saved, newest⟩
  · rw [log_]
    refine (everywhere_append fun entry mem between sub => ?_).mpr valid.persisted
    rintro snapshot rfl
    exact absurd (unstarted _ mem) (by simp [Entry.isPersisting])
  · rw [drains]
    simp
  · intro pending' mem
    rw [pending] at mem
    obtain ⟨head, fresh, saved⟩ := valid.pending pending' mem
    refine ⟨submitted_ ▸ head, since_ ▸ fresh, fun waiter mem => ?_⟩
    obtain ⟨x, at_⟩ := saved waiter mem
    exact ⟨x, log_ ▸ List.mem_append_right _ at_⟩
  · rw [since_, pending]
    exact valid.done
  · rw [sooner_, carried_]
    exact valid.order

section Draining

variable [DecidableEq V] {null : V}

theorem Valid.settleIdle (valid : Valid s) : Valid (s.settleIdle null) := by
  have asked := valid.asked
  have none : ∀ outcome, askers (s.idleWaiters.map fun promise =>
      (.idle promise outcome : Entry T R V)).reverse = [] := by
    intro outcome
    apply List.filterMap_eq_nil_iff.mpr
    intro entry mem
    obtain ⟨promise, -, rfl⟩ := List.mem_map.mp (List.mem_reverse.mp mem)
    rfl
  have told : ∀ outcome, idles (s.idleWaiters.map fun promise =>
      (.idle promise outcome : Entry T R V)).reverse = s.idleWaiters.reverse := by
    intro outcome
    rw [idles, ← List.map_reverse, List.filterMap_map]
    exact List.filterMap_some
  have askers_ : askers (s.settleIdle null).log = askers s.log := by
    unfold Coordinator.settleIdle
    dsimp only
    rw [askers, List.filterMap_append, ← askers.eq_def, ← askers.eq_def, none, List.nil_append]
  refine @Valid.aside _ _ _ s valid _ _ ?_ rfl rfl rfl le_rfl ?_ (askers_ ▸ valid.apart)
  · apply List.all_eq_true.mpr
    intro entry mem
    obtain ⟨promise, -, rfl⟩ := List.mem_map.mp (List.mem_reverse.mp mem)
    rfl
  · rw [askers_, asked]
    unfold Coordinator.settleIdle
    dsimp only
    rw [idles, idles, List.filterMap_append, ← idles.eq_def, ← idles.eq_def, told]
    simp

theorem Valid.loop (valid : Valid s) (free : s.drains = []) : Valid (s.loop null) := by
  unfold Coordinator.loop
  split
  · rename_i current held
    exact valid.begins held free rfl (by simp [free]) rfl rfl rfl
  · apply Valid.settleIdle
    exact ⟨valid.named, valid.distinct, valid.once, valid.asked, valid.apart, valid.answered,
      valid.persisted, valid.current, valid.pending, valid.done, valid.order⟩

/-- **One step** keeps the record. -/
theorem Valid.next (valid : Valid s) (shape : Shape null s) {event : Event T R V}
    {t : Coordinator T R V} (step : s.next null event = some t) : Valid t := by
  cases shape.moves step with
  | save _ snapshot => exact valid.save snapshot
  | waitForIdle =>
    exact valid.waitForIdle fun idle => (shape.of_idle idle).2.2
  | drain => exact valid.begins rfl rfl rfl rfl rfl rfl rfl
  | settle pending lastError idleWaiters current promises log outcome =>
    apply Valid.loop _ rfl
    exact valid.settles rfl rfl rfl rfl rfl rfl

end Draining

end Steps

/-! ### Callers that wait for idleness -/

section Idleness

variable {log newer : List (Entry T R V)} {promise : Nat} {outcome : Except V R}

theorem outcomesSince_append (told : newer.all Entry.isAnswer = true) :
    outcomesSince promise (newer ++ log) = outcomesSince promise log := by
  have each : ∀ entry ∈ newer, entry.isAnswer = true := List.all_eq_true.mp told
  have others : ∀ entry ∈ newer, (!entry.asks promise) = true := by
    intro entry mem
    have answers := each entry mem
    cases entry <;> first | rfl | cases answers
  unfold outcomesSince outcomes
  rw [List.takeWhile_append_of_pos others]
  refine filterMap_skip (fun entry mem => ?_) _
  have answers := each entry mem
  cases entry <;> first | rfl | cases answers

theorem outcomesSince_persisted (told : newer.all Entry.isAnswer = true) :
    (outcomesSince promise (newer ++ .persisted outcome :: log)).head? = some outcome := by
  rw [outcomesSince_append told]
  rfl

variable [DecidableEq V] {null : V} {s t : Coordinator T R V}

/-- At the end of a busy period the callers are told what its last call of `persist` came to,
unless that threw `null`. -/
theorem everywhere_idle (waiters : List Nat) (told : newer.all Entry.isAnswer = true) :
    let error := match outcome with
      | .ok _ => null
      | .error error => error
    let said : Except V Unit := if error = null then .ok () else .error error
    Everywhere idleCheck ((waiters.map fun promise => .idle promise said).reverse ++
      (newer ++ .persisted outcome :: log)) ↔
    Everywhere idleCheck (newer ++ .persisted outcome :: log) ∧
      (outcome = .error null → waiters = []) := by
  intro error said
  have agrees : outcome ≠ .error null → ∀ e, said = .error e ↔ outcome = .error e := by
    intro thrown e
    cases outcome with
    | ok r => simp [said, error]
    | error e' =>
      have other : e' ≠ null := fun eq => thrown (eq ▸ rfl)
      simp [said, error, other]
  constructor
  · intro all
    refine ⟨all.of_append, fun thrown => ?_⟩
    subst thrown
    cases waiters with
    | nil => rfl
    | cons promise waiters =>
      rw [List.map_cons, List.reverse_cons, List.append_assoc] at all
      have first : said = .error null ↔ (outcomesSince promise
          (newer ++ .persisted (.error null) :: log)).head? = some (.error null) :=
        all.of_append _ _ (List.suffix_refl _) promise said rfl null
      have ok : said = .ok () := if_pos rfl
      rw [outcomesSince_persisted told, ok] at first
      exact absurd (first.mpr rfl) (by simp)
  · rintro ⟨all, calm⟩
    refine (everywhere_append fun entry mem between sub => ?_).mpr all
    obtain ⟨promise, at_, rfl⟩ := List.mem_map.mp (List.mem_reverse.mp mem)
    intro promise' said' same e
    obtain ⟨rfl, rfl⟩ := Entry.idle.inj same
    have between_told : (between ++ newer).all Entry.isAnswer = true := by
      rw [List.all_append, told, Bool.and_true]
      apply List.all_eq_true.mpr
      intro entry mem
      obtain ⟨_, -, rfl⟩ := List.mem_map.mp (List.mem_reverse.mp (sub mem))
      rfl
    rw [← List.append_assoc, outcomesSince_persisted between_told, Option.some_inj]
    apply agrees
    intro thrown
    rw [calm thrown] at at_
    cases at_

/-- A step that does not end a busy period with `null` while callers wait for that. -/
def Calm (null : V) (s : Coordinator T R V) (event : Event T R V) : Prop :=
  ∀ n, event = .settle n (.error null) → s.pending = none → s.idleWaiters = []

theorem everywhere_next (shape : Shape null s) {event : Event T R V}
    (step : s.next null event = some t) :
    Everywhere idleCheck t.log ↔ Everywhere idleCheck s.log ∧ Calm null s event := by
  have calmly : (∀ n, event ≠ .settle n (.error null)) → Calm null s event :=
    fun other n same => absurd same (other n)
  have silent : ∀ {entry : Entry T R V} {log : List (Entry T R V)},
      (∀ promise outcome, entry ≠ .idle promise outcome) →
      (Everywhere idleCheck (entry :: log) ↔ Everywhere idleCheck log) := by
    intro entry log other
    rw [everywhere_cons, and_iff_right]
    exact fun promise outcome same => absurd same (other promise outcome)
  cases shape.moves step with
  | save _ snapshot =>
    rw [and_iff_left (calmly (by simp))]
    have log : (s.save snapshot).log = .saved s.promises snapshot :: s.log := by
      unfold Coordinator.save Coordinator.scheduleDrain
      dsimp only
      split <;> rfl
    rw [log, silent (by simp)]
  | waitForIdle =>
    rw [and_iff_left (calmly (by simp))]
    unfold Coordinator.waitForIdle
    dsimp only
    split
    · rw [everywhere_cons, silent (by simp), and_iff_right]
      intro promise outcome same error
      obtain ⟨rfl, rfl⟩ := Entry.idle.inj same
      simp [outcomesSince, Entry.asks, outcomes]
    · exact silent (by simp)
  | drain pending =>
    rw [and_iff_left (calmly (by simp))]
    exact silent (by simp)
  | settle pending lastError idleWaiters current promises log outcome =>
    have told : (current.waiters.map fun promise =>
        (.answered promise outcome : Entry T R V)).reverse.all Entry.isAnswer = true := by
      simp [Entry.isAnswer]
    have answered : Everywhere idleCheck ((current.waiters.map fun promise =>
        (.answered promise outcome : Entry T R V)).reverse ++ .persisted outcome :: log) ↔
        Everywhere idleCheck log := by
      rw [everywhere_append, silent (by simp)]
      intro entry mem between sub promise said same
      obtain ⟨_, -, rfl⟩ := List.mem_map.mp (List.mem_reverse.mp mem)
      cases same
    cases pending with
    | none =>
      have ends := @everywhere_idle _ _ _ log _ outcome _ null idleWaiters told
      refine Iff.trans ends (and_congr answered ?_)
      constructor
      · intro calm n same _
        exact calm (Event.settle.inj same).2
      · intro calm thrown
        exact calm 0 (thrown ▸ rfl) rfl
    | some pending =>
      refine ((silent (by simp)).trans answered).trans (and_iff_left fun _ _ none => ?_).symm
      cases none

end Idleness

/-! ### Runs -/

section Runs

variable [DecidableEq V] {null : V} {s t : Coordinator T R V}

variable {events : List (Event T R V)}

theorem shape_valid (ran : (machine T R null).run (.create null) events = some s) :
    Shape null s ∧ Valid s := by
  refine Machine.run_preserves (P := fun s => Shape null s ∧ Valid s) ?_ ran
    ⟨.idle 0 [], .create null⟩
  rintro s event t step ⟨shape, valid⟩
  exact ⟨shape.next step, valid.next shape step⟩

/-- **Idleness**: callers are told the truth in just those runs that do not end a busy period with
`null` while they wait. -/
theorem idle_iff (shape : Shape null s) (ran : (machine T R null).run s events = some t) :
    Everywhere idleCheck t.log ↔ Everywhere idleCheck s.log ∧
      (machine T R null).Along (fun s event _ => Calm null s event) s events := by
  induction events generalizing s with
  | nil =>
    obtain rfl := Option.some.inj ran
    exact (and_iff_left trivial).symm
  | cons event events ih =>
    obtain ⟨m, step, rest⟩ := (machine T R null).run_cons_eq_some.mp ran
    rw [Machine.along_cons step, ih (shape.next step) rest, everywhere_next shape step, and_assoc]

/-- A save that is answered, or is by the end of the next `n` calls of `persist`. -/
def Within (n : Nat) (s : Coordinator T R V) (promise : Nat) : Prop :=
  promise ∈ answers s.log ∨ (1 ≤ n ∧ promise ∈ s.drains.flatMap PendingSave.waiters) ∨
    (2 ≤ n ∧ promise ∈ (s.pending.map PendingSave.waiters).getD [])

def Event.settles : Event T R V → Bool
  | .settle _ _ => true
  | _ => false

theorem answers_settleIdle (null : V) (s : Coordinator T R V) :
    answers (s.settleIdle null).log = answers s.log := by
  refine filterMap_skip (fun entry mem => ?_) _
  obtain ⟨_, -, rfl⟩ := List.mem_map.mp (List.mem_reverse.mp mem)
  rfl

theorem answers_afterPersist (null : V) (s : Coordinator T R V) (current : PendingSave T)
    (outcome : Except V R) :
    answers (s.afterPersist null current outcome).log =
      current.waiters.reverse ++ answers s.log := by
  have settled := answers_settled current.waiters outcome s.log
  unfold Coordinator.afterPersist Coordinator.loop
  dsimp only
  split
  · exact settled
  · exact (answers_settleIdle null _).trans settled

theorem Within.next {n : Nat} {promise : Nat} (within : Within n s promise) (shape : Shape null s)
    {event : Event T R V} (step : s.next null event = some t) :
    Within (if event.settles then n - 1 else n) t promise := by
  cases shape.moves step with
  | save _ snapshot =>
    have log : answers (s.save snapshot).log = answers s.log := by
      unfold Coordinator.save Coordinator.scheduleDrain
      dsimp only
      split <;> rfl
    have drains : (s.save snapshot).drains = s.drains := by
      unfold Coordinator.save Coordinator.scheduleDrain
      dsimp only
      split <;> rfl
    have pending : (s.save snapshot).pending = some (match s.pending with
        | some pending => { snapshot, waiters := pending.waiters ++ [s.promises] }
        | none => { snapshot, waiters := [s.promises] }) := by
      unfold Coordinator.save Coordinator.scheduleDrain
      dsimp only
      split <;> rfl
    unfold Within at within ⊢
    rw [log, drains, pending]
    refine within.imp id (Or.imp id fun later => ⟨later.1, ?_⟩)
    cases held : s.pending with
    | none => simp [held] at later
    | some old =>
      have mem : promise ∈ old.waiters := by simpa [held] using later.2
      exact List.mem_append_left _ mem
  | waitForIdle =>
    have log : answers s.waitForIdle.log = answers s.log := by
      unfold Coordinator.waitForIdle
      dsimp only
      split <;> rfl
    have others : s.waitForIdle.drains = s.drains ∧ s.waitForIdle.pending = s.pending := by
      unfold Coordinator.waitForIdle
      dsimp only
      split <;> exact ⟨rfl, rfl⟩
    unfold Within at within ⊢
    rw [log, others.1, others.2]
    exact within
  | drain pending =>
    obtain done | ⟨-, mem⟩ | ⟨more, mem⟩ := within
    · exact .inl done
    · cases mem
    · have served : promise ∈ [pending].flatMap PendingSave.waiters := by simpa using mem
      exact .inr (.inl ⟨show 1 ≤ n by omega, served⟩)
  | settle pending lastError idleWaiters current promises log outcome =>
    have whole := answers_afterPersist null {
      active := true, drainScheduled := false, pending, lastError, idleWaiters,
      microtasks := 0, drains := [], promises, log } current outcome
    obtain done | ⟨-, mem⟩ | ⟨more, mem⟩ := within
    · exact .inl (whole ▸ List.mem_append_right _ done)
    · have mem : promise ∈ current.waiters := by simpa using mem
      exact .inl (whole ▸ List.mem_append_left _ (List.mem_reverse.mpr mem))
    · cases pending with
      | none => cases mem
      | some pending =>
        have served : promise ∈ [pending].flatMap PendingSave.waiters := by simpa using mem
        exact .inr (.inl ⟨show 1 ≤ n - 1 by omega, served⟩)

theorem Within.run {n : Nat} {promise : Nat} (within : Within n s promise) (shape : Shape null s)
    (ran : (machine T R null).run s events = some t) :
    Within (n - (events.filter Event.settles).length) t promise := by
  induction events generalizing s n with
  | nil =>
    obtain rfl := Option.some.inj ran
    exact within
  | cons event events ih =>
    obtain ⟨m, step, rest⟩ := (machine T R null).run_cons_eq_some.mp ran
    have later := ih (within.next shape step) (shape.next step) rest
    cases settles : event.settles with
    | false => simpa [settles] using later
    | true => simpa [settles, Nat.sub_sub, Nat.add_comm] using later

/-- What is promised of the snapshots and of the callers. -/
structure Faithful (null : V) (s : Coordinator T R V) : Prop where
  /-- One call of `persist` is in progress at most. -/
  single : s.drains.length ≤ 1
  /-- A save is answered once, or waits to be. -/
  once : saves s.log = s.waiting ++ answers s.log
  distinct : (saves s.log).Nodup
  answered : Everywhere answerCheck s.log
  /-- None waits for longer than two calls of `persist`. -/
  prompt : ∀ promise ∈ s.waiting, ∀ events t, (machine T R null).run s events = some t →
    2 ≤ (events.filter Event.settles).length → promise ∈ answers t.log
  order : (carried s.log).Sublist (submitted s.log)
  newest : Everywhere persistCheck s.log
  /-- When the coordinator is idle, all saves are answered, and the last snapshot is persisted. -/
  settled : s.isIdle = true → s.waiting = []
  latest : s.isIdle = true → (carried s.log).head? = (submitted s.log).head?
  /-- So are the callers of `waitForIdle`, each of them once. -/
  asked : askers s.log = s.idleWaiters.reverse ++ idles s.log
  apart : (askers s.log).Nodup
  told : s.isIdle = true → s.idleWaiters = []
  /-- Until then it goes on. -/
  progress : s.isIdle = false → (∃ t, s.next null .drain = some t) ∨
    ∀ outcome, ∃ t, s.next null (.settle 0 outcome) = some t

theorem faithful (shape : Shape null s) (valid : Valid s) : Faithful null s where
  single := by cases shape <;> simp
  once := valid.once
  distinct := valid.distinct
  answered := valid.answered
  prompt := by
    intro promise waits events t ran two
    have within : Within 2 s promise := by
      rw [Coordinator.waiting, List.mem_reverse] at waits
      rcases List.mem_append.mp waits with mem | mem
      · exact .inr (.inl ⟨by omega, mem⟩)
      · exact .inr (.inr ⟨le_rfl, mem⟩)
    obtain done | ⟨more, -⟩ | ⟨more, -⟩ := within.run shape ran
    · exact done
    · omega
    · omega
  order := by
    rw [submitted_eq]
    exact valid.order.1.trans (List.sublist_append_right _ _)
  newest := valid.persisted
  settled idle := by
    obtain ⟨pending, drains, -⟩ := shape.of_idle idle
    simp [Coordinator.waiting, pending, drains]
  latest idle := by
    rw [submitted_eq, valid.done (shape.of_idle idle).1, List.nil_append]
    exact valid.order.2
  asked := valid.asked
  apart := valid.apart.1
  told idle := (shape.of_idle idle).2.2
  progress := by
    intro busy
    cases shape with
    | idle promises log => cases busy
    | scheduled pending idleWaiters promises log => exact .inl ⟨_, rfl⟩
    | draining pending lastError idleWaiters current promises log =>
      exact .inr fun outcome => ⟨_, rfl⟩

/-- In every run, those that wait for idleness are told of a failure just when no busy period
ends with `null` while they wait: `null` also stands for no error. -/
theorem told_iff (ran : (machine T R null).run (.create null) events = some s) :
    Everywhere idleCheck s.log ↔
      (machine T R null).Along (fun s event _ => Calm null s event) (.create null) events := by
  have start : Shape null (.create null : Coordinator T R V) := .idle 0 []
  rw [idle_iff start ran, and_iff_right]
  exact everywhere_nil

/-- A save that fails with `null`, and a caller that is told of no failure. -/
example : ∃ s, (machine Nat Unit (none : Option Unit)).run (.create none)
      [.save 1, .waitForIdle, .drain, .settle 0 (.error none)] = some s ∧
    s.log.head? = some (.idle 1 (.ok ())) := ⟨_, rfl, rfl⟩

/-- No call of `persist` is rejected with `null`. The one caller of `createLatestSaveCoordinator`
sees to that: its `persist` throws what `invokeApp` throws, which `normalizeInvokeError` makes an
`AppInvokeError`, or an error of its own code. -/
def RejectsWithErrors (null : V) (events : List (Event T R V)) : Prop :=
  ∀ event ∈ events, ∀ n, event ≠ .settle n (.error null)

/-- **The coordinator persists the latest snapshot and answers every caller.** In every run in
which `persist` rejects with errors only, the saves are answered as `Faithful` has it, and each
caller that waits for idleness is told of a failure if and only if the last call of `persist` of
that busy period failed. -/
theorem saving {events : List (Event T R V)} (rejects : RejectsWithErrors null events)
    (ran : (machine T R null).run (.create null) events = some s) :
    Faithful null s ∧ Everywhere idleCheck s.log := by
  obtain ⟨shape, valid⟩ := shape_valid ran
  refine ⟨faithful shape valid, (told_iff ran).mpr ?_⟩
  exact (Machine.along_of_forall_mem rejects).imp fun s event t other n same =>
    absurd same (other n)

end Runs

/-! ### A run -/

/-- Two saves while the first snapshot is persisted, and a caller that waits for idleness. -/
def threeSaves : List (Event Nat Unit String) :=
  [.save 1, .drain, .save 2, .waitForIdle, .save 3, .settle 0 (.error "disk full"),
    .settle 0 (.ok ())]

/-- The second snapshot is passed over, and its caller is answered with the third. -/
theorem saving_threeSaves :
    ∃ s, (machine Nat Unit "null").run (.create "null") threeSaves = some s ∧
      carried s.log = [3, 1] ∧ answers s.log = [3, 1, 0] ∧ Faithful "null" s ∧
      Everywhere idleCheck s.log := by
  have goes : ((machine Nat Unit "null").run (.create "null") threeSaves).isSome = true := rfl
  have ran : (machine Nat Unit "null").run (.create "null") threeSaves = some
      (((machine Nat Unit "null").run (.create "null") threeSaves).get goes) :=
    (Option.some_get goes).symm
  have rejects : RejectsWithErrors "null" threeSaves := by simp [RejectsWithErrors, threeSaves]
  exact ⟨_, ran, rfl, rfl, saving rejects ran⟩

end LlamaServerManager.Frontend.Saving
