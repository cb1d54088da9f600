import LlamaServerManager.Lib.Machine
import Mathlib.Algebra.GroupWithZero.Nat
import Mathlib.Data.List.Nodup
import Mathlib.Logic.Function.Basic

/-!
Starting and stopping instances from the user interface (`store/instanceLifecycleCoordinator.ts`).

A call of `runInstanceLifecycleOperation` runs to its end before anything else happens: the
operations of `instanceSlice.ts` make no such call before their first `await`. What happens
between two calls is one continuation of a promise at a time, so a run of the interface is a
list of `Event`s.

* `Coordinator.next` — a call, and the continuations.
* `Valid` — what holds of one instance: its runs wait in line, and the map knows the last one.
* `lifecycle` — starts and stops do not overlap, and the last request wins.
-/

namespace LlamaServerManager.Frontend.Lifecycle

open Lib

inductive LifecycleOperation where
  | start
  | stop
deriving DecidableEq, Repr

/-- A run waits for the one before it, its operation runs, the operation has settled, and
`finally` has run and the promise is settled. -/
inductive Phase where
  | waiting
  | running
  | ended
  | settled
deriving DecidableEq, Repr

/-- An activation of the asynchronous function. Its promise is named by a number, `after` is the
promise it awaits first. -/
structure Run where
  promise : Nat
  kind : LifecycleOperation
  after : Option Nat
  phase : Phase
deriving DecidableEq, Repr

structure ActiveLifecycleOperation where
  kind : LifecycleOperation
  promise : Nat
deriving DecidableEq, Repr

/-- What happened. A request joins a run or has its own. -/
inductive Entry where
  | joined (kind : LifecycleOperation) (promise : Nat)
  | accepted (kind : LifecycleOperation) (promise : Nat)
  | started (kind : LifecycleOperation) (promise : Nat)
  | ended (promise : Nat) (succeeded : Bool)
deriving DecidableEq, Repr

/-- The map, the activations with their instances (the newest first), and what happened. -/
structure Coordinator (I : Type) where
  activeOperations : I → Option ActiveLifecycleOperation
  runs : List (I × Run)
  log : List (I × Entry)

inductive Action where
  /-- A call of `runInstanceStart` or `runInstanceStop`. -/
  | request (kind : LifecycleOperation)
  /-- The operation's own promise settles. -/
  | finish (succeeded : Bool)
  /-- The callback of `finally`. -/
  | cleanUp
  /-- What follows `await active.promise`, whether that failed or not. -/
  | resume
deriving DecidableEq, Repr

/-- Something happens to a promise of an instance. -/
structure Event (I : Type) where
  instanceId : I
  promise : Nat
  action : Action

variable {I : Type} [DecidableEq I]

namespace Coordinator

def empty : Coordinator I := { activeOperations := fun _ => none, runs := [], log := [] }

def runsOf (s : Coordinator I) (i : I) : List Run :=
  (s.runs.filter fun run => run.1 = i).map Prod.snd

def logOf (s : Coordinator I) (i : I) : List Entry :=
  (s.log.filter fun entry => entry.1 = i).map Prod.snd

def find (s : Coordinator I) (i : I) (promise : Nat) : Option Run :=
  (s.runsOf i).find? fun run => run.promise = promise

def note (s : Coordinator I) (i : I) (entry : Entry) : Coordinator I :=
  { s with log := s.log ++ [(i, entry)] }

def advance (s : Coordinator I) (i : I) (promise : Nat) (phase : Phase) : Coordinator I :=
  { s with runs := s.runs.map fun run =>
      if run.1 = i ∧ run.2.promise = promise then (run.1, { run.2 with phase }) else run }

/-- A new run; without a run before it, its operation is called at once. -/
def accept (s : Coordinator I) (i : I) (kind : LifecycleOperation) (promise : Nat)
    (after : Option Nat) : Option (Coordinator I) :=
  if s.find i promise ≠ none then none
  else
    let phase := if after.isSome then .waiting else .running
    let entries := .accepted kind promise :: if after.isSome then [] else [.started kind promise]
    some {
      activeOperations := Function.update s.activeOperations i (some { kind, promise })
      runs := (i, { promise, kind, after, phase }) :: s.runs
      log := s.log ++ entries.map fun entry => (i, entry) }

def runInstanceLifecycleOperation (s : Coordinator I) (i : I) (kind : LifecycleOperation)
    (promise : Nat) : Option (Coordinator I) :=
  match s.activeOperations i with
  | some active =>
    if active.kind = kind then some (s.note i (.joined kind active.promise))
    else s.accept i kind promise (some active.promise)
  | none => s.accept i kind promise none

def cleanUp (s : Coordinator I) (i : I) (promise : Nat) : Coordinator I :=
  if (s.activeOperations i).map (·.promise) = some promise then
    { s with activeOperations := Function.update s.activeOperations i none }
  else s

/-- The promise that a run awaits is settled. -/
def canResume (s : Coordinator I) (i : I) (run : Run) : Bool :=
  run.phase = .waiting &&
    run.after.all fun before => (s.find i before).any fun other => other.phase = .settled

def next (s : Coordinator I) (event : Event I) : Option (Coordinator I) :=
  let i := event.instanceId
  let promise := event.promise
  match event.action with
  | .request kind => s.runInstanceLifecycleOperation i kind promise
  | .finish succeeded =>
    match s.find i promise with
    | some run =>
      if run.phase = .running then
        some ((s.advance i promise .ended).note i (.ended promise succeeded))
      else none
    | none => none
  | .cleanUp =>
    match s.find i promise with
    | some run =>
      if run.phase = .ended then some ((s.advance i promise .settled).cleanUp i promise) else none
    | none => none
  | .resume =>
    match s.find i promise with
    | some run =>
      if s.canResume i run then
        some ((s.advance i promise .running).note i (.started run.kind promise))
      else none
    | none => none

end Coordinator

def machine (I : Type) [DecidableEq I] : Machine (Coordinator I) (Event I) where
  init := .empty
  next := Coordinator.next

/-! ### One instance -/

/-- What concerns one instance. -/
structure Lane where
  active : Option ActiveLifecycleOperation
  runs : List Run
  log : List Entry

namespace Lane

def find (lane : Lane) (promise : Nat) : Option Run :=
  lane.runs.find? fun run => run.promise = promise

def note (lane : Lane) (entries : List Entry) : Lane := { lane with log := lane.log ++ entries }

def advance (lane : Lane) (promise : Nat) (phase : Phase) : Lane :=
  { lane with runs := lane.runs.map fun run =>
      if run.promise = promise then { run with phase } else run }

@[simp] theorem active_advance (lane : Lane) (promise : Nat) (phase : Phase) :
    (lane.advance promise phase).active = lane.active := rfl

/-- What a step does to its instance. -/
inductive Step (lane : Lane) (promise : Nat) : Action → Lane → Prop where
  | join {active : ActiveLifecycleOperation} : lane.active = some active →
      Step lane promise (.request active.kind) (lane.note [.joined active.kind active.promise])
  | chain {active : ActiveLifecycleOperation} {kind : LifecycleOperation} :
      lane.active = some active → active.kind ≠ kind → lane.find promise = none →
      Step lane promise (.request kind) {
        active := some { kind, promise }
        runs := { promise, kind, after := some active.promise, phase := .waiting } :: lane.runs
        log := lane.log ++ [.accepted kind promise] }
  | begin {kind : LifecycleOperation} : lane.active = none → lane.find promise = none →
      Step lane promise (.request kind) {
        active := some { kind, promise }
        runs := { promise, kind, after := none, phase := .running } :: lane.runs
        log := lane.log ++ [.accepted kind promise, .started kind promise] }
  | finish {run : Run} {succeeded : Bool} : lane.find promise = some run → run.phase = .running →
      Step lane promise (.finish succeeded)
        ((lane.advance promise .ended).note [.ended promise succeeded])
  | cleanUp {run : Run} : lane.find promise = some run → run.phase = .ended →
      Step lane promise .cleanUp { lane.advance promise .settled with
        active := if lane.active.map (·.promise) = some promise then none else lane.active }
  | resume {run : Run} : lane.find promise = some run → run.phase = .waiting →
      (∀ before ∈ run.after, ∃ other, lane.find before = some other ∧ other.phase = .settled) →
      Step lane promise .resume
        ((lane.advance promise .running).note [.started run.kind promise])

end Lane

namespace Coordinator

variable {s t : Coordinator I} {i j : I} {promise : Nat}

def lane (s : Coordinator I) (i : I) : Lane :=
  { active := s.activeOperations i, runs := s.runsOf i, log := s.logOf i }

@[simp] theorem lane_note (entry : Entry) :
    (s.note i entry).lane j = if i = j then (s.lane j).note [entry] else s.lane j := by
  unfold lane note Lane.note logOf runsOf
  split <;> rename_i same <;> simp [same]

theorem runsOf_advance (phase : Phase) :
    (s.advance i promise phase).runsOf j =
      if i = j then (s.runsOf j).map fun run =>
        if run.promise = promise then { run with phase } else run
      else s.runsOf j := by
  have owner : (fun run : I × Run => decide (run.1 = j)) ∘ (fun run =>
      if run.1 = i ∧ run.2.promise = promise then (run.1, { run.2 with phase }) else run) =
      fun run => decide (run.1 = j) := by
    funext run
    simp only [Function.comp_apply]
    split <;> rfl
  unfold advance runsOf
  dsimp only
  rw [List.filter_map, owner, List.map_map]
  split
  · rename_i same
    rw [List.map_map]
    apply List.map_congr_left
    intro run mem
    have own : run.1 = i := by simpa [same] using (List.mem_filter.mp mem).2
    simp only [Function.comp_apply, own, true_and]
    split <;> rfl
  · rename_i different
    apply List.map_congr_left
    intro run mem
    have own : run.1 = j := by simpa using (List.mem_filter.mp mem).2
    have other : run.1 ≠ i := fun eq => different (eq.symm.trans own)
    simp [other]

@[simp] theorem lane_advance (phase : Phase) :
    (s.advance i promise phase).lane j =
      if i = j then (s.lane j).advance promise phase else s.lane j := by
  unfold lane
  rw [runsOf_advance]
  split <;> rfl

theorem find_eq : s.find i promise = (s.lane i).find promise := rfl

/-- The state that a new run leads to, seen from an instance. -/
def accepted (lane : Lane) (kind : LifecycleOperation) (promise : Nat) (after : Option Nat) :
    Lane :=
  { active := some { kind, promise }
    runs := { promise, kind, after, phase := if after.isSome then .waiting else .running } ::
      lane.runs
    log := lane.log ++ .accepted kind promise ::
      if after.isSome then [] else [.started kind promise] }

theorem accept_eq {kind : LifecycleOperation} {after : Option Nat} (new : s.find i promise = none) :
    ∃ t, s.accept i kind promise after = some t ∧
      t.lane i = accepted (s.lane i) kind promise after ∧ ∀ j ≠ i, t.lane j = s.lane j := by
  refine ⟨_, if_neg (by simp [new]), ?_, fun j other => ?_⟩
  · have own : ∀ entries : List Entry, (List.filter (fun entry => decide (entry.1 = i))
        (entries.map fun entry => (i, entry))).map Prod.snd = entries := by
      intro entries
      simp [List.filter_map, Function.comp_def]
    simp [lane, accepted, runsOf, logOf, own]
  · have others : ∀ entries : List Entry, (List.filter (fun entry => decide (entry.1 = j))
        (entries.map fun entry => (i, entry))) = [] := by
      intro entries
      simp [List.filter_map, Function.comp_def, other.symm]
    simp [lane, runsOf, logOf, others, other, other.symm]

theorem lane_cleanUp :
    (s.cleanUp i promise).lane j =
      if i = j then { s.lane j with
        active := if (s.lane j).active.map (·.promise) = some promise then none
          else (s.lane j).active }
      else s.lane j := by
  unfold cleanUp
  by_cases same : i = j
  · subst same
    split <;> rename_i held
    · have held' : (s.lane i).active.map (·.promise) = some promise := held
      rw [if_pos rfl, if_pos held']
      simp [lane, runsOf, logOf]
    · have held' : ¬(s.lane i).active.map (·.promise) = some promise := held
      rw [if_pos rfl, if_neg held']
  · rw [if_neg same]
    split
    · have other : j ≠ i := fun eq => same eq.symm
      simp [lane, runsOf, logOf, other]
    · rfl

theorem canResume_iff {run : Run} :
    s.canResume i run = true ↔ run.phase = .waiting ∧
      ∀ before ∈ run.after, ∃ other, (s.lane i).find before = some other ∧
        other.phase = .settled := by
  unfold canResume
  rw [Bool.and_eq_true, decide_eq_true_iff]
  cases run.after with
  | none => simp
  | some before => simp [find_eq, Option.any_eq_true]

/-- **What a step does**: a call and a continuation are of one instance. -/
theorem next_cases {event : Event I} (step : s.next event = some t) :
    (s.lane event.instanceId).Step event.promise event.action (t.lane event.instanceId) ∧
      ∀ j ≠ event.instanceId, t.lane j = s.lane j := by
  obtain ⟨i, promise, action⟩ := event
  have accepts : ∀ {kind : LifecycleOperation} {after : Option Nat},
      s.accept i kind promise after = some t → s.find i promise = none ∧
        t.lane i = accepted (s.lane i) kind promise after ∧ ∀ j ≠ i, t.lane j = s.lane j := by
    intro kind after made
    have new : s.find i promise = none := by
      by_contra used
      rw [accept, if_pos used] at made
      cases made
    obtain ⟨t', made', own, others⟩ := @accept_eq _ _ s i promise kind after new
    obtain rfl := Option.some.inj (made'.symm.trans made)
    exact ⟨new, own, others⟩
  unfold next at step
  dsimp only at step ⊢
  split at step
  · -- a call
    unfold runInstanceLifecycleOperation at step
    split at step
    · rename_i kind active found
      split at step
      · rename_i same
        obtain rfl := Option.some.inj step
        subst same
        refine ⟨?_, fun j other => by simp [other.symm]⟩
        simpa using @Lane.Step.join (s.lane i) promise _ found
      · rename_i different
        obtain ⟨new, own, others⟩ := accepts step
        exact ⟨own ▸ .chain found different new, others⟩
    · rename_i kind found
      obtain ⟨new, own, others⟩ := accepts step
      exact ⟨own ▸ .begin found new, others⟩
  · -- the operation settles
    rename_i succeeded
    split at step
    · rename_i run found
      split at step
      · rename_i running
        obtain rfl := Option.some.inj step
        refine ⟨?_, fun j other => by simp [other.symm]⟩
        simpa using @Lane.Step.finish (s.lane i) promise _ succeeded found running
      · cases step
    · cases step
  · -- the callback of `finally`
    split at step
    · rename_i run found
      split at step
      · rename_i ended
        obtain rfl := Option.some.inj step
        refine ⟨?_, fun j other => by simp [lane_cleanUp, other.symm]⟩
        simpa [lane_cleanUp] using @Lane.Step.cleanUp (s.lane i) promise _ found ended
      · cases step
    · cases step
  · -- what follows the `await`
    split at step
    · rename_i run found
      split at step
      · rename_i resumes
        obtain ⟨waiting, before⟩ := canResume_iff.mp resumes
        obtain rfl := Option.some.inj step
        refine ⟨?_, fun j other => by simp [other.symm]⟩
        simpa using @Lane.Step.resume (s.lane i) promise _ found waiting before
      · cases step
    · cases step

/-- A step that an instance can take, it can take whatever the others do. -/
theorem next_of_step {action : Action} {lane' : Lane}
    (step : (s.lane i).Step promise action lane') :
    ∃ t, s.next ⟨i, promise, action⟩ = some t ∧ t.lane i = lane' := by
  cases step with
  | @join active found =>
    have call : s.next ⟨i, promise, .request active.kind⟩ =
        some (s.note i (.joined active.kind active.promise)) := by
      have found : s.activeOperations i = some active := found
      simp [next, runInstanceLifecycleOperation, found]
    exact ⟨_, call, by simp⟩
  | @chain active kind found different new =>
    obtain ⟨t, made, own, -⟩ := @accept_eq _ _ s i promise kind
      (some active.promise) new
    have found : s.activeOperations i = some active := found
    exact ⟨t, by simpa [next, runInstanceLifecycleOperation, found, different] using made, own⟩
  | @begin kind found new =>
    obtain ⟨t, made, own, -⟩ := @accept_eq _ _ s i promise kind none new
    have found : s.activeOperations i = none := found
    exact ⟨t, by simpa [next, runInstanceLifecycleOperation, found] using made, own⟩
  | @finish run succeeded found running =>
    have found : s.find i promise = some run := found
    have settles : s.next ⟨i, promise, .finish succeeded⟩ =
        some ((s.advance i promise .ended).note i (.ended promise succeeded)) := by
      simp [next, found, running]
    exact ⟨_, settles, by simp⟩
  | @cleanUp run found ended =>
    have found : s.find i promise = some run := found
    have cleans : s.next ⟨i, promise, .cleanUp⟩ =
        some ((s.advance i promise .settled).cleanUp i promise) := by
      simp [next, found, ended]
    exact ⟨_, cleans, by simp [lane_cleanUp]⟩
  | @resume run found waiting before =>
    have resumes := canResume_iff.mpr ⟨waiting, before⟩
    have found : s.find i promise = some run := found
    have goes : s.next ⟨i, promise, .resume⟩ =
        some ((s.advance i promise .running).note i (.started run.kind promise)) := by
      simp [next, found, resumes]
    exact ⟨_, goes, by simp⟩

end Coordinator

/-! ### Runs in line -/

def acceptedRuns (log : List Entry) : List (LifecycleOperation × Nat) :=
  log.filterMap fun
    | .accepted kind promise => some (kind, promise)
    | _ => none

def startedRuns (log : List Entry) : List (LifecycleOperation × Nat) :=
  log.filterMap fun
    | .started kind promise => some (kind, promise)
    | _ => none

/-- Every request, with the promise it was given. -/
def requests (log : List Entry) : List (LifecycleOperation × Nat) :=
  log.filterMap fun
    | .joined kind promise => some (kind, promise)
    | .accepted kind promise => some (kind, promise)
    | _ => none

def Run.request (run : Run) : LifecycleOperation × Nat := (run.kind, run.promise)

/-- The newest run first: a run waits for the one before it; before a run that does not wait,
all are settled. -/
def InLine : List Run → Prop
  | [] => True
  | run :: older =>
    (run.phase = .waiting → ∃ last ∈ older.head?, run.after = some last.promise) ∧
      (run.phase ≠ .waiting → ∀ other ∈ older, other.phase = .settled) ∧ InLine older

/-- The map knows the newest run until it is settled. -/
def activeOf (runs : List Run) : Option ActiveLifecycleOperation :=
  runs.head?.bind fun run =>
    if run.phase = .settled then none else some { kind := run.kind, promise := run.promise }

structure Valid (lane : Lane) : Prop where
  distinct : (lane.runs.map Run.promise).Nodup
  inLine : InLine lane.runs
  active : lane.active = activeOf lane.runs
  accepted : acceptedRuns lane.log = lane.runs.reverse.map Run.request
  started : startedRuns lane.log =
    (lane.runs.filter fun run => run.phase ≠ .waiting).reverse.map Run.request
  requested : (requests lane.log).getLast? = lane.runs.head?.map Run.request

section Lines

variable {runs newer older : List Run} {run : Run}

theorem InLine.of_append (line : InLine (newer ++ older)) : InLine older := by
  induction newer with
  | nil => exact line
  | cons first newer ih => exact ih line.2.2

/-- After a run that is not settled, all wait. -/
theorem InLine.waiting (line : InLine (newer ++ run :: older)) (unsettled : run.phase ≠ .settled) :
    ∀ other ∈ newer, other.phase = .waiting := by
  induction newer with
  | nil => simp
  | cons first newer ih =>
    obtain ⟨-, settled, line⟩ := line
    apply List.forall_mem_cons.mpr ⟨?_, ih line⟩
    by_contra waits
    exact unsettled (settled waits run (by simp))

/-- A run may go on as far as its own place in line allows. -/
theorem InLine.replace (line : InLine (newer ++ run :: older)) (unsettled : run.phase ≠ .settled)
    {run' : Run} (same : run'.promise = run.promise) (place : InLine (run' :: older)) :
    InLine (newer ++ run' :: older) := by
  induction newer with
  | nil => exact place
  | cons first newer ih =>
    have waits := line.waiting unsettled first List.mem_cons_self
    obtain ⟨after, -, line⟩ := line
    refine ⟨fun _ => ?_, fun stays => absurd waits stays, ih line⟩
    obtain ⟨last, mem, named⟩ := after waits
    cases newer with
    | nil =>
      obtain rfl : run = last := by simpa using mem
      exact ⟨run', rfl, by rw [named, same]⟩
    | cons second newer => exact ⟨last, mem, named⟩

/-- A place in line that is not that of a waiting run. -/
theorem inLine_cons (line : InLine (run :: older)) (active : run.phase ≠ .waiting) {run' : Run}
    (active' : run'.phase ≠ .waiting) : InLine (run' :: older) :=
  ⟨fun waits => absurd waits active', fun _ => line.2.1 active, line.2.2⟩

theorem InLine.running_le (line : InLine runs) :
    (runs.filter fun run => run.phase = .running).length ≤ 1 := by
  induction runs with
  | nil => simp
  | cons run older ih =>
    obtain ⟨-, settled, line⟩ := line
    by_cases running : run.phase = .running
    · have none : older.filter (fun run => run.phase = .running) = [] := by
        apply List.filter_eq_nil_iff.mpr
        intro other mem
        simp [settled (by simp [running]) other mem]
      simp [running, none]
    · simpa [running] using ih line

/-- The runs that do not wait are the oldest ones. -/
theorem InLine.suffix (line : InLine runs) :
    (runs.filter fun run => run.phase ≠ .waiting) <:+ runs := by
  induction runs with
  | nil => simp
  | cons run older ih =>
    obtain ⟨-, settled, line⟩ := line
    by_cases waits : run.phase = .waiting
    · simpa [waits] using (ih line).trans (List.suffix_cons run older)
    · have all : older.filter (fun run => run.phase ≠ .waiting) = older := by
        apply List.filter_eq_self.mpr
        intro other mem
        simp [settled waits other mem]
      have whole : (run :: older).filter (fun run => run.phase ≠ .waiting) = run :: older := by
        rw [List.filter_cons_of_pos (by simpa using waits), all]
      exact ⟨[], whole⟩

/-- In a line that is not settled, one goes on. -/
theorem InLine.progress (line : InLine runs) (unsettled : ∃ run ∈ runs, run.phase ≠ .settled) :
    ∃ run ∈ runs, run.phase = .running ∨ run.phase = .ended ∨
      (run.phase = .waiting ∧ ∀ before ∈ run.after, ∃ other ∈ runs, other.promise = before ∧
        other.phase = .settled) := by
  induction runs with
  | nil => simp at unsettled
  | cons run older ih =>
    obtain ⟨after, settled, line⟩ := line
    have earlier : (∃ run ∈ older, run.phase ≠ .settled) →
        ∃ other ∈ run :: older, other.phase = .running ∨ other.phase = .ended ∨
          (other.phase = .waiting ∧ ∀ before ∈ other.after, ∃ last ∈ run :: older,
            last.promise = before ∧ last.phase = .settled) := by
      intro some_
      obtain ⟨other, mem, goes⟩ := ih line some_
      refine ⟨other, List.mem_cons_of_mem _ mem, ?_⟩
      obtain running | ended | ⟨waits, before⟩ := goes
      · exact .inl running
      · exact .inr (.inl ended)
      · refine .inr (.inr ⟨waits, fun promise at_ => ?_⟩)
        obtain ⟨last, mem, named⟩ := before promise at_
        exact ⟨last, List.mem_cons_of_mem _ mem, named⟩
    cases phase : run.phase with
    | waiting =>
      obtain ⟨last, mem, named⟩ := after phase
      have inside : last ∈ older := List.mem_of_mem_head? mem
      by_cases done : last.phase = .settled
      · refine ⟨run, List.mem_cons_self, .inr (.inr ⟨phase, fun before at_ => ?_⟩)⟩
        have same : last.promise = before := by simpa [named] using at_
        exact ⟨last, List.mem_cons_of_mem _ inside, same, done⟩
      · exact earlier ⟨last, inside, done⟩
    | running => exact ⟨run, List.mem_cons_self, .inl phase⟩
    | ended => exact ⟨run, List.mem_cons_self, .inr (.inl phase)⟩
    | settled =>
      obtain ⟨other, mem, open_⟩ := unsettled
      rcases List.mem_cons.mp mem with rfl | mem
      · exact absurd phase open_
      · exact absurd (settled (by simp [phase]) other mem) open_

end Lines

namespace Lane

variable {lane : Lane} {promise : Nat} {run : Run}

theorem find_eq_none : lane.find promise = none ↔ promise ∉ lane.runs.map Run.promise := by
  simp [find, List.find?_eq_none]

/-- A promise is looked up and its run goes on where it stands. -/
theorem exists_split (distinct : (lane.runs.map Run.promise).Nodup)
    (found : lane.find promise = some run) :
    ∃ newer older, lane.runs = newer ++ run :: older ∧ run.promise = promise ∧
      ∀ phase, (lane.advance promise phase).runs = newer ++ { run with phase } :: older := by
  obtain ⟨named, newer, older, whole, others⟩ := List.find?_eq_some_iff_append.mp found
  have named : run.promise = promise := by simpa using named
  refine ⟨newer, older, whole, named, fun phase => ?_⟩
  have before : ∀ other ∈ newer, other.promise ≠ promise := fun other mem => by
    simpa using others other mem
  have after : ∀ other ∈ older, other.promise ≠ promise := by
    intro other mem same
    rw [whole, List.map_append, List.map_cons, named] at distinct
    have apart := (List.nodup_append.mp distinct).2.1
    exact (List.nodup_cons.mp apart).1 (same ▸ List.mem_map_of_mem mem)
  have kept : ∀ runs : List Run, (∀ other ∈ runs, other.promise ≠ promise) →
      runs.map (fun run => if run.promise = promise then { run with phase } else run) = runs := by
    intro runs apart
    conv_rhs => rw [← List.map_id runs]
    exact List.map_congr_left fun other mem => if_neg (apart other mem)
  rw [advance]
  dsimp only
  rw [whole, List.map_append, List.map_cons, kept newer before, kept older after, if_pos named]

theorem find_of_mem (distinct : (lane.runs.map Run.promise).Nodup) (mem : run ∈ lane.runs) :
    lane.find run.promise = some run := by
  cases found : lane.find run.promise with
  | none => exact absurd (List.mem_map_of_mem mem) (find_eq_none.mp found)
  | some other =>
    have at_ := List.mem_of_find?_eq_some found
    have named : other.promise = run.promise := by simpa using List.find?_some found
    exact congrArg some (List.inj_on_of_nodup_map distinct at_ mem named)

end Lane

section Steps

variable {lane lane' : Lane} {promise : Nat} {action : Action} {run : Run}

theorem activeOf_append {newer older : List Run} {run' : Run}
    (same : run'.request = run.request) (phase : run.phase ≠ .settled)
    (phase' : run'.phase ≠ .settled) :
    activeOf (newer ++ run' :: older) = activeOf (newer ++ run :: older) := by
  obtain ⟨kind, named⟩ := Prod.mk.inj same
  cases newer with
  | nil => simp [activeOf, phase, phase', kind, named]
  | cons first newer => rfl

theorem started_append {newer older : List Run} {run' : Run} (same : run'.request = run.request)
    (phase : run.phase ≠ .waiting) (phase' : run'.phase ≠ .waiting) :
    ((newer ++ run' :: older).filter fun run => run.phase ≠ .waiting).reverse.map Run.request =
      ((newer ++ run :: older).filter fun run => run.phase ≠ .waiting).reverse.map
        Run.request := by
  simp [List.filter_append, phase, phase', same]

/-- A run goes on in its place. -/
theorem Valid.replace (valid : Valid lane) {newer older : List Run} {run' : Run}
    {entries : List Entry} (whole : lane.runs = newer ++ run :: older)
    (same : run'.request = run.request) (runs' : lane'.runs = newer ++ run' :: older)
    (log' : lane'.log = lane.log ++ entries)
    (quiet : acceptedRuns entries = [] ∧ requests entries = []) (line : InLine lane'.runs)
    (active : lane'.active = activeOf lane'.runs)
    (started : startedRuns lane.log ++ startedRuns entries =
      (lane'.runs.filter fun run => run.phase ≠ .waiting).reverse.map Run.request) :
    Valid lane' where
  distinct := by
    have distinct := valid.distinct
    have named := congrArg Prod.snd same
    rw [whole] at distinct
    rw [runs']
    simpa [show run'.promise = run.promise from named] using distinct
  inLine := line
  active := active
  accepted := by
    have accepted := valid.accepted
    rw [whole] at accepted
    rw [log', runs', acceptedRuns, List.filterMap_append]
    simpa [← acceptedRuns.eq_def, quiet.1, same] using accepted
  started := by
    rw [log', startedRuns, List.filterMap_append]
    exact started
  requested := by
    have requested := valid.requested
    rw [whole] at requested
    have last : (newer ++ run' :: older).head?.map Run.request =
        (newer ++ run :: older).head?.map Run.request := by
      cases newer with
      | nil => simp [same]
      | cons first newer => rfl
    rw [log', runs', requests, List.filterMap_append, last, ← requested]
    simp [← requests.eq_def, quiet.2]

/-- A new run joins the line. -/
theorem Valid.cons (valid : Valid lane) (new : lane.find promise = none)
    {kind : LifecycleOperation} {entries : List Entry} (line : InLine (run :: lane.runs))
    (named : run.request = (kind, promise)) (open_ : run.phase ≠ .settled)
    (quiet : acceptedRuns entries = [] ∧ requests entries = [])
    (started : startedRuns entries = if run.phase = .waiting then [] else [(kind, promise)]) :
    Valid {
      active := some { kind, promise }
      runs := run :: lane.runs
      log := lane.log ++ .accepted kind promise :: entries } := by
  obtain ⟨rfl, rfl⟩ := Prod.mk.inj named
  have one : acceptedRuns (.accepted run.kind run.promise :: entries) = [run.request] := by
    rw [acceptedRuns, List.filterMap_cons, ← acceptedRuns.eq_def, quiet.1]
    rfl
  have last : requests (.accepted run.kind run.promise :: entries) = [run.request] := by
    rw [requests, List.filterMap_cons, ← requests.eq_def, quiet.2]
    rfl
  have quietly : startedRuns (.accepted run.kind run.promise :: entries) = startedRuns entries :=
    rfl
  constructor
  · exact List.nodup_cons.mpr ⟨Lane.find_eq_none.mp new, valid.distinct⟩
  · exact line
  · simp [activeOf, open_]
  · rw [acceptedRuns, List.filterMap_append, ← acceptedRuns.eq_def, ← acceptedRuns.eq_def, one,
      valid.accepted]
    simp
  · rw [startedRuns, List.filterMap_append, ← startedRuns.eq_def, ← startedRuns.eq_def, quietly,
      valid.started, started]
    by_cases waits : run.phase = .waiting <;> simp [waits, Run.request]
  · rw [requests, List.filterMap_append, ← requests.eq_def, ← requests.eq_def, last]
    simp

/-- **One step** keeps the line. -/
theorem Valid.step (valid : Valid lane) (step : lane.Step promise action lane') : Valid lane' := by
  cases step with
  | @join active found =>
    -- the map knows the newest run, and that is what the call returns
    obtain ⟨last, head, kept⟩ := Option.bind_eq_some_iff.mp (valid.active.symm.trans found)
    have newest : { kind := last.kind, promise := last.promise } = active := by
      split at kept
      · cases kept
      · exact Option.some.inj kept
    refine ⟨valid.distinct, valid.inLine, valid.active, ?_, ?_, ?_⟩
    · simpa [Lane.note, acceptedRuns, List.filterMap_append] using valid.accepted
    · simpa [Lane.note, startedRuns, List.filterMap_append] using valid.started
    · have head : lane.runs.head? = some last := head
      simp [Lane.note, requests, List.filterMap_append, head, Run.request, ← newest]
  | @chain active kind found different new =>
    have newest := valid.active.symm.trans found
    obtain ⟨last, head, mem⟩ := Option.bind_eq_some_iff.mp newest
    split at mem
    · cases mem
    · obtain rfl := Option.some.inj mem
      exact valid.cons new ⟨fun _ => ⟨last, head, rfl⟩, by simp, valid.inLine⟩ rfl (by simp)
        ⟨rfl, rfl⟩ rfl
  | @begin kind found new =>
    have settled : ∀ other ∈ lane.runs, other.phase = .settled := by
      have none := valid.active.symm.trans found
      have line := valid.inLine
      unfold activeOf at none
      generalize lane.runs = runs at none line
      cases runs with
      | nil => simp
      | cons last older =>
        have done : last.phase = .settled := by simpa using none
        exact List.forall_mem_cons.mpr ⟨done, line.2.1 (by simp [done])⟩
    exact valid.cons new ⟨by simp, fun _ => settled, valid.inLine⟩ rfl (by simp) ⟨rfl, rfl⟩ rfl
  | @finish run succeeded found running =>
    obtain ⟨newer, older, whole, named, advanced⟩ := Lane.exists_split valid.distinct found
    have line := valid.inLine
    rw [whole] at line
    have line' := @InLine.replace _ _ _ line (by simp [running]) { run with phase := .ended } rfl
      (inLine_cons line.of_append (by simp [running]) (by simp))
    refine @Valid.replace lane _ run valid newer older { run with phase := .ended }
      [.ended promise succeeded] whole rfl (advanced .ended) rfl ⟨rfl, rfl⟩ ?_ ?_ ?_
    · exact (advanced .ended).symm ▸ line'
    · rw [show ((lane.advance promise .ended).note [.ended promise succeeded]).runs = _ from
        advanced .ended, @activeOf_append run newer older { run with phase := .ended } rfl
        (by simp [running]) (by simp),
        ← whole]
      exact valid.active
    · rw [show ((lane.advance promise .ended).note [.ended promise succeeded]).runs = _ from
        advanced .ended, @started_append run newer older { run with phase := .ended } rfl
        (by simp [running]) (by simp),
        ← whole, ← valid.started]
      simp [startedRuns]
  | @cleanUp run found ended =>
    obtain ⟨newer, older, whole, named, advanced⟩ := Lane.exists_split valid.distinct found
    have line := valid.inLine
    rw [whole] at line
    have line' := @InLine.replace _ _ _ line (by simp [ended]) { run with phase := .settled } rfl
      (inLine_cons line.of_append (by simp [ended]) (by simp))
    refine @Valid.replace lane _ run valid newer older { run with phase := .settled } [] whole rfl
      (advanced .settled) (by simp [Lane.advance]) ⟨rfl, rfl⟩ ?_ ?_ ?_
    · exact (advanced .settled).symm ▸ line'
    · dsimp only
      rw [advanced .settled]
      have active := valid.active
      rw [whole] at active
      cases newer with
      | nil =>
        -- the newest run, which the map knows
        have active : lane.active = some { kind := run.kind, promise := run.promise } := by
          simpa [activeOf, ended] using active
        simp [active, named, activeOf]
      | cons first newer =>
        -- a run waits behind it, and the map knows the newest one
        have waits := line.waiting (by simp [ended]) first List.mem_cons_self
        have active : lane.active = some { kind := first.kind, promise := first.promise } := by
          simpa [activeOf, waits] using active
        have other : first.promise ≠ promise := by
          have distinct := valid.distinct
          rw [whole] at distinct
          have apart : first.promise ∉ (newer ++ run :: older).map Run.promise :=
            (List.nodup_cons.mp distinct).1
          rintro rfl
          exact apart (by simp [named])
        simp [active, other, activeOf, waits]
    · dsimp only
      rw [advanced .settled, @started_append run newer older { run with phase := .settled } rfl
        (by simp [ended]) (by simp),
        ← whole, ← valid.started]
      simp [startedRuns]
  | @resume run found waiting before =>
    obtain ⟨newer, older, whole, named, advanced⟩ := Lane.exists_split valid.distinct found
    have line := valid.inLine
    rw [whole] at line
    have unsettled : run.phase ≠ .settled := by simp [waiting]
    -- the run before it is settled, and so are those before that
    have settled : ∀ other ∈ older, other.phase = .settled := by
      obtain ⟨last, head, after⟩ := line.of_append.1 waiting
      obtain ⟨rest, rfl⟩ := List.head?_eq_some_iff.mp head
      obtain ⟨other, found', done⟩ := before last.promise (by simp [after])
      have own := @Lane.find_of_mem lane last valid.distinct (by simp [whole])
      obtain rfl := Option.some.inj (found'.symm.trans own)
      exact List.forall_mem_cons.mpr ⟨done, line.of_append.2.2.2.1 (by simp [done])⟩
    have line' := @InLine.replace _ _ _ line unsettled { run with phase := .running } rfl
      ⟨by simp, fun _ => settled, line.of_append.2.2⟩
    refine @Valid.replace lane _ run valid newer older { run with phase := .running }
      [.started run.kind promise] whole rfl (advanced .running) rfl ⟨rfl, rfl⟩ ?_ ?_ ?_
    · exact (advanced .running).symm ▸ line'
    · rw [show ((lane.advance promise .running).note [.started run.kind promise]).runs = _ from
        advanced .running, @activeOf_append run newer older { run with phase := .running } rfl
        unsettled (by simp), ← whole]
      exact valid.active
    · rw [show ((lane.advance promise .running).note [.started run.kind promise]).runs = _ from
        advanced .running, valid.started, whole]
      have none : newer.filter (fun run => run.phase ≠ .waiting) = [] := by
        apply List.filter_eq_nil_iff.mpr
        intro other mem
        simp [line.waiting unsettled other mem]
      rw [List.filter_append, List.filter_append, none, List.nil_append, List.nil_append]
      simp [waiting, startedRuns, Run.request, named]

end Steps

/-! ### Runs of the interface -/

/-- How many continuations are left of a run. -/
def Phase.left : Phase → Nat
  | .waiting => 3
  | .running => 2
  | .ended => 1
  | .settled => 0

def left (runs : List Run) : Nat := (runs.map fun run => run.phase.left).sum

theorem Lane.Step.left {lane lane' : Lane} {promise : Nat} {action : Action}
    (distinct : (lane.runs.map Run.promise).Nodup) (step : lane.Step promise action lane')
    (continues : ∀ kind, action ≠ .request kind) :
    left lane'.runs + 1 = left lane.runs := by
  have moves : ∀ {run : Run} {phase : Phase}, lane.find promise = some run →
      phase.left + 1 = run.phase.left →
      Lifecycle.left (lane.advance promise phase).runs + 1 = Lifecycle.left lane.runs := by
    intro run phase found one
    obtain ⟨newer, older, whole, -, advanced⟩ := Lane.exists_split distinct found
    rw [advanced, whole]
    simp only [Lifecycle.left, List.map_append, List.map_cons, List.sum_append, List.sum_cons]
    omega
  cases step with
  | join _ => exact absurd rfl (continues _)
  | chain _ _ _ => exact absurd rfl (continues _)
  | begin _ _ => exact absurd rfl (continues _)
  | finish found running => exact moves found (by rw [running]; rfl)
  | cleanUp found ended => exact moves found (by rw [ended]; rfl)
  | resume found waiting _ => exact moves found (by rw [waiting]; rfl)

variable {s t : Coordinator I} {i : I}

theorem valid_lane {events : List (Event I)} (ran : (machine I).run .empty events = some s)
    (i : I) : Valid (s.lane i) := by
  have kept : ∀ (s : Coordinator I) (event : Event I) (t : Coordinator I),
      (machine I).next s event = some t → (∀ i, Valid (s.lane i)) → ∀ i, Valid (t.lane i) := by
    intro s event t step valid i
    obtain ⟨own, others⟩ := Coordinator.next_cases step
    by_cases same : i = event.instanceId
    · subst same
      exact (valid _).step own
    · rw [others i same]
      exact valid i
  refine Machine.run_preserves kept ran (fun i => ?_) i
  exact ⟨List.nodup_nil, trivial, rfl, rfl, rfl, rfl⟩

/-- What a run leaves of an instance is what its own events leave. -/
theorem run_filter {events : List (Event I)} {s' : Coordinator I} (same : s'.lane i = s.lane i)
    (ran : (machine I).run s events = some t) :
    ∃ t', (machine I).run s' (events.filter fun event => event.instanceId = i) = some t' ∧
      t'.lane i = t.lane i := by
  induction events generalizing s s' with
  | nil =>
    obtain rfl := Option.some.inj ran
    exact ⟨s', rfl, same⟩
  | cons event events ih =>
    obtain ⟨m, step, rest⟩ := (machine I).run_cons_eq_some.mp ran
    obtain ⟨own, others⟩ := Coordinator.next_cases step
    by_cases mine : event.instanceId = i
    · subst mine
      rw [← same] at own
      obtain ⟨m', step', same'⟩ := Coordinator.next_of_step own
      obtain ⟨t', ran', eq⟩ := ih same' rest
      refine ⟨t', ?_, eq⟩
      rw [List.filter_cons_of_pos (by simp)]
      exact (machine I).run_cons_eq_some.mpr ⟨m', step', ran'⟩
    · rw [List.filter_cons_of_neg (by simpa using mine)]
      exact ih (same.trans (others i (Ne.symm mine)).symm) rest

/-- What is promised of an instance. -/
structure Orderly (s : Coordinator I) (i : I) : Prop where
  /-- At most one operation runs. -/
  exclusive : ((s.runsOf i).filter fun run => run.phase = .running).length ≤ 1
  /-- Operations run in the order in which they were accepted, each of them once. -/
  order : startedRuns (s.logOf i) <+: acceptedRuns (s.logOf i)
  distinct : ((acceptedRuns (s.logOf i)).map Prod.snd).Nodup
  /-- A request of the kind of the last one shares its run, until that is settled. -/
  shared : ∀ kind run, (requests (s.logOf i)).getLast? = some (kind, run.promise) →
    run ∈ s.runsOf i → run.phase ≠ .settled → ∀ promise t,
    s.next ⟨i, promise, .request kind⟩ = some t →
      t = s.note i (.joined kind run.promise)
  /-- When all operations have ended, the last one was that of the last request. -/
  lastWins : (∀ run ∈ s.runsOf i, run.phase = .ended ∨ run.phase = .settled) →
    (startedRuns (s.logOf i)).getLast? = (requests (s.logOf i)).getLast?
  /-- When all promises are settled, nothing is left in the map. -/
  cleaned : (∀ run ∈ s.runsOf i, run.phase = .settled) → s.activeOperations i = none
  /-- Until then an operation runs or a continuation is due, and there are only so many. -/
  progress : (∃ run ∈ s.runsOf i, run.phase ≠ .settled) →
    ∃ run ∈ s.runsOf i, run.phase = .running ∨ ∃ t,
      s.next ⟨i, run.promise, .cleanUp⟩ = some t ∨ s.next ⟨i, run.promise, .resume⟩ = some t
  bounded : ∀ promise action t, (∀ kind, action ≠ .request kind) →
    s.next ⟨i, promise, action⟩ = some t → left (t.runsOf i) + 1 = left (s.runsOf i)

theorem orderly (valid : Valid (s.lane i)) : Orderly s i where
  exclusive := valid.inLine.running_le
  order := by
    have accepted : acceptedRuns (s.logOf i) = _ := valid.accepted
    have started : startedRuns (s.logOf i) = _ := valid.started
    rw [accepted, started]
    exact (List.reverse_prefix.mpr valid.inLine.suffix).map _
  distinct := by
    have accepted : acceptedRuns (s.logOf i) = _ := valid.accepted
    rw [accepted, List.map_map, List.map_reverse]
    exact List.nodup_reverse.mpr valid.distinct
  shared := by
    intro kind run last mem open_ promise t step
    have requested : (requests (s.logOf i)).getLast? = _ := valid.requested
    obtain ⟨newest, head, same⟩ := Option.map_eq_some_iff.mp (requested.symm.trans last)
    obtain ⟨rfl, named⟩ := Prod.mk.inj same
    have at_ : newest ∈ (s.lane i).runs := List.mem_of_mem_head? head
    obtain rfl : newest = run := List.inj_on_of_nodup_map valid.distinct at_ mem named
    have active : s.activeOperations i =
        some { kind := newest.kind, promise := newest.promise } := by
      have active : s.activeOperations i = _ := valid.active
      rw [active, activeOf, head]
      simp [open_]
    have call : s.next ⟨i, promise, .request newest.kind⟩ =
        some (s.note i (.joined newest.kind newest.promise)) := by
      simp [Coordinator.next, Coordinator.runInstanceLifecycleOperation, active]
    exact Option.some.inj (step.symm.trans call)
  lastWins := by
    intro all_
    have requested : (requests (s.logOf i)).getLast? = _ := valid.requested
    have started : startedRuns (s.logOf i) = _ := valid.started
    have all : ((s.lane i).runs.filter fun run => run.phase ≠ .waiting) = (s.lane i).runs := by
      apply List.filter_eq_self.mpr
      intro run mem
      obtain ended | settled := all_ run mem
      · simp [ended]
      · simp [settled]
    rw [requested, started, all]
    simp
  cleaned := by
    intro all_
    have active : s.activeOperations i = _ := valid.active
    rw [active, activeOf]
    cases head : (s.lane i).runs.head? with
    | none => rfl
    | some newest => simp [all_ newest (List.mem_of_mem_head? head)]
  progress := by
    intro open_
    obtain ⟨run, mem, goes⟩ := valid.inLine.progress open_
    have found := Lane.find_of_mem valid.distinct mem
    refine ⟨run, mem, ?_⟩
    obtain running | ended | ⟨waits, before⟩ := goes
    · exact .inl running
    · obtain ⟨t, step, -⟩ := Coordinator.next_of_step (.cleanUp found ended)
      exact .inr ⟨t, .inl step⟩
    · have settled : ∀ promise ∈ run.after, ∃ other, (s.lane i).find promise = some other ∧
          other.phase = .settled := by
        intro promise after
        obtain ⟨other, at_, rfl, done⟩ := before promise after
        exact ⟨other, Lane.find_of_mem valid.distinct at_, done⟩
      obtain ⟨t, step, -⟩ := Coordinator.next_of_step (.resume found waits settled)
      exact .inr ⟨t, .inr step⟩
  bounded := by
    intro promise action t continues step
    exact (Coordinator.next_cases step).1.left valid.distinct continues

/-- **Starts and stops of an instance never overlap and the last request wins**,
whatever the operations come to; and what becomes of an instance, its own events alone
decide: the run of these alone leads to the same lane. -/
theorem lifecycle {events : List (Event I)} (ran : (machine I).run .empty events = some s) (i : I) :
    Orderly s i ∧
    ∃ own, (machine I).run .empty (events.filter fun event => event.instanceId = i) = some own ∧
      own.lane i = s.lane i :=
  ⟨orderly (valid_lane ran i), run_filter rfl ran⟩

/-- A start that fails, a stop that waits for it, and a start of another instance. -/
def busy : List (Event Nat) :=
  [⟨0, 0, .request .start⟩, ⟨1, 0, .request .start⟩, ⟨0, 1, .request .stop⟩,
    ⟨0, 2, .request .stop⟩, ⟨0, 0, .finish false⟩, ⟨0, 0, .cleanUp⟩, ⟨0, 1, .resume⟩,
    ⟨0, 1, .finish true⟩, ⟨0, 1, .cleanUp⟩]

theorem lifecycle_busy :
    ∃ s : Coordinator Nat, (machine Nat).run .empty busy = some s ∧
      startedRuns (s.logOf 0) = [(.start, 0), (.stop, 1)] ∧
      (requests (s.logOf 0)).getLast? = some (.stop, 1) ∧ s.activeOperations 0 = none ∧
      (s.activeOperations 1).isSome ∧ Orderly s 0 ∧ Orderly s 1 := by
  have goes : ((machine Nat).run .empty busy).isSome = true := rfl
  have ran : (machine Nat).run .empty busy = some (((machine Nat).run .empty busy).get goes) :=
    (Option.some_get goes).symm
  exact ⟨_, ran, rfl, rfl, rfl, rfl, (lifecycle ran 0).1, (lifecycle ran 1).1⟩

end LlamaServerManager.Frontend.Lifecycle
