import LlamaServerManager.Lib.Machine
import LlamaServerManager.Monitoring.Frames

/-!
The sessions of an instance (`commands/monitoring.rs`): a process ends, another one starts,
and what still observes the first one reports to the state they share. A call finds the
state in the registry and takes its lock later; in between anything may happen.

* `withState` takes the session over from the observation, `withInferenceState` compares.
* `sessions_isolated` — when observations of an earlier session change nothing.
* `session_taken_over` — the last report of a log that is read to its end.
-/

namespace LlamaServerManager.Monitoring.Sessions

open Lib InstanceMonitoringState
open Router (ModelWorkload)

/-! ### Observations -/

inductive Observation where
  | updateMetrics (workload : ModelWorkload) (system : SystemMetrics)
      (llama : Option LlamaMetricSample)
  | updateTasks (workload : ModelWorkload) (active : Nat) (throughput : ℚ)
  | updateSlots (workload : ModelWorkload) (capacity busy : Nat)
  | recordVectorActivity (workload : ModelWorkload) (event : VectorLiveEvent)
  | observeInferenceLog (slot task : Nat) (observation : LogObservation)
  | observeInferenceSlots (slots : List SlotObservation) (sampledAt : Int)

/-- The workload that an observation gives; those of inference give none. -/
def Observation.workload : Observation → Option ModelWorkload
  | .updateMetrics workload _ _ => some workload
  | .updateTasks workload _ _ => some workload
  | .updateSlots workload _ _ => some workload
  | .recordVectorActivity workload _ => some workload
  | .observeInferenceLog _ _ _ => none
  | .observeInferenceSlots _ _ => none

/-- `record_vector_activity` is for vector models. -/
def Observation.ignored : Observation → Bool
  | .recordVectorActivity workload _ => !isVector workload
  | _ => false

/-- The oldest events go when there are too many. -/
def pushVectorEvent (limit : Nat) (event : VectorLiveEvent) (state : InstanceMonitoringState) :
    InstanceMonitoringState :=
  let vectorEvents := state.vectorEvents ++ [event]
  { state with vectorEvents := vectorEvents.drop (vectorEvents.length - limit) }

/-- What an observation does once it has the lock; `called` is when it was made. -/
def Observation.update (called now : Int) (state : InstanceMonitoringState) :
    Observation → InstanceMonitoringState
  | .updateMetrics _ system llama =>
    { state with system := some ⟨system, called⟩, llama := llama.map fun llama => ⟨llama, called⟩ }
  | .updateTasks _ active throughput =>
    { state with tasks := some ⟨⟨active, max throughput 0⟩, called⟩ }
  | .updateSlots _ capacity busy => { state with slots := some ⟨⟨capacity, busy⟩, called⟩ }
  | .recordVectorActivity _ event =>
    (pushVectorEvent maxVectorEvents event state).trimVectorEvents now
  | .observeInferenceLog slot task observation =>
    { state with inference := state.inference.log slot task observation now }
  | .observeInferenceSlots slots sampledAt =>
    { state with inference := state.inference.slots slots sampledAt }

def withState (sessionId : Option String) (workload : ModelWorkload) (called : Int)
    (update : InstanceMonitoringState → InstanceMonitoringState)
    (state : InstanceMonitoringState) : InstanceMonitoringState :=
  if sessionId.isSome ∨ state.sessionId.isNone then
    update (state.resetSession sessionId workload called false)
  else if state.workload ≠ workload then
    update (state.resetSession state.sessionId workload called false)
  else update state

def withInferenceState (sessionId : Option String)
    (update : InstanceMonitoringState → InstanceMonitoringState)
    (state : InstanceMonitoringState) : InstanceMonitoringState :=
  -- Delayed observations may not reset a replacement process's session.
  if state.sessionId = sessionId ∧ state.workload = .inference then update state else state

/-- The locked part of `start_frame_loop`. -/
def startFrameLoop (pid : Nat) (sessionId : Option String) (workload : ModelWorkload)
    (called : Int) (state : InstanceMonitoringState) : InstanceMonitoringState :=
  let sameProcess := decide (state.frameLoopPid = some pid)
  let state := state.resetSession sessionId workload called (!sameProcess)
  if sameProcess then state else { state with frameLoopPid := some pid }

/-! ### Calls -/

inductive Operation where
  | observe (observation : Observation)
  | startFrameLoop (pid : Nat) (workload : ModelWorkload)
  | sampleFrame

structure Call where
  instanceId : String
  sessionId : Option String
  operation : Operation
  called : Int

/-- The workload of a state that a call creates; a frame creates none. -/
def Call.creates (call : Call) : Option ModelWorkload :=
  match call.operation with
  | .observe observation => some (observation.workload.getD .inference)
  | .startFrameLoop _ workload => some workload
  | .sampleFrame => none

def Call.apply (call : Call) (now : Int) (state : InstanceMonitoringState) :
    InstanceMonitoringState :=
  match call.operation with
  | .observe observation =>
    match observation.workload with
    | some workload => withState call.sessionId workload call.called
        (fun state => observation.update call.called now state) state
    | none => withInferenceState call.sessionId
        (fun state => observation.update call.called now state) state
  | .startFrameLoop pid workload =>
    Sessions.startFrameLoop pid call.sessionId workload call.called state
  | .sampleFrame => state.sampleFrame now

/-- The call returns at once. -/
def Call.ignored (call : Call) : Bool :=
  match call.operation with
  | .observe observation => observation.ignored
  | _ => false

/-- A call that has found its state. -/
structure Pending where
  call : Call
  ref : Nat

/-- The registry has references to the states; a state stays as long as calls have it. -/
structure World where
  registry : Dict String Nat := ∅
  states : List InstanceMonitoringState := []
  calls : List Pending := []

inductive Label where
  | look (call : Call)
  | enter (index : Nat) (now : Int)
  /-- The frame loop of a process that is no longer current. -/
  | endFrameLoop (instanceId : String) (pid : Nat)
  | removeInstance (instanceId : String)

/-- A call looks for the state of its instance, and creates it if there is none. -/
def look (w : World) (call : Call) : World :=
  if call.ignored then w
  else
    match w.registry.lookup call.instanceId, call.creates with
    | some ref, _ => { w with calls := w.calls ++ [⟨call, ref⟩] }
    | none, none => w
    | none, some workload =>
      { registry := w.registry.insert call.instanceId w.states.length
        states := w.states ++ [create call.instanceId call.sessionId workload call.called]
        calls := w.calls ++ [⟨call, w.states.length⟩] }

/-- The state of an instance. -/
def current (w : World) (instanceId : String) : Option InstanceMonitoringState :=
  (w.registry.lookup instanceId).bind (w.states[·]?)

def endFrameLoop (w : World) (instanceId : String) (pid : Nat) : World :=
  if (current w instanceId).any fun state => decide (state.frameLoopPid = some pid) then
    { w with registry := w.registry.erase instanceId }
  else w

def monitoring : Machine World Label where
  init := {}
  next w
    | .look call => some (look w call)
    | .enter index now => do
      let pending ← w.calls[index]?
      let state ← w.states[pending.ref]?
      return { w with
        states := w.states.set pending.ref (pending.call.apply now state)
        calls := w.calls.eraseIdx index }
    | .endFrameLoop instanceId pid => some (endFrameLoop w instanceId pid)
    | .removeInstance instanceId => some { w with registry := w.registry.erase instanceId }

/-! ### The state a call has found -/

/-- A call has the state of its instance, and so does the registry. -/
structure Placed (w : World) : Prop where
  registered : ∀ instanceId ref, w.registry.lookup instanceId = some ref →
    ∃ state, w.states[ref]? = some state ∧ state.instanceId = instanceId
  pending : ∀ p ∈ w.calls, ∃ state, w.states[p.ref]? = some state ∧
    state.instanceId = p.call.instanceId

theorem resetSession_instanceId (state : InstanceMonitoringState) (sessionId : Option String)
    (workload : ModelWorkload) (now : Int) (force : Bool) :
    (state.resetSession sessionId workload now force).instanceId = state.instanceId := by
  unfold resetSession; split <;> rfl

theorem resetSession_frameLoopPid (state : InstanceMonitoringState) (sessionId : Option String)
    (workload : ModelWorkload) (now : Int) (force : Bool) :
    (state.resetSession sessionId workload now force).frameLoopPid = state.frameLoopPid := by
  unfold resetSession; split <;> rfl

theorem resetSession_sessionId (state : InstanceMonitoringState) (sessionId : Option String)
    (workload : ModelWorkload) (now : Int) (force : Bool) :
    (state.resetSession sessionId workload now force).sessionId = sessionId := by
  unfold resetSession
  split
  · rename_i same
    exact same.2.1
  · rfl

theorem pushVectorEvent_same (limit : Nat) (event : VectorLiveEvent)
    (state : InstanceMonitoringState) :
    (pushVectorEvent limit event state).instanceId = state.instanceId ∧
      (pushVectorEvent limit event state).sessionId = state.sessionId ∧
      (pushVectorEvent limit event state).frameLoopPid = state.frameLoopPid :=
  ⟨rfl, rfl, rfl⟩

theorem trimVectorEvents_same (state : InstanceMonitoringState) (now : Int) :
    (state.trimVectorEvents now).instanceId = state.instanceId ∧
      (state.trimVectorEvents now).sessionId = state.sessionId ∧
      (state.trimVectorEvents now).frameLoopPid = state.frameLoopPid :=
  ⟨rfl, rfl, rfl⟩

/-- An update is of samples: session, process and instance stay. -/
theorem update_same (observation : Observation) (called now : Int)
    (state : InstanceMonitoringState) :
    (observation.update called now state).instanceId = state.instanceId ∧
      (observation.update called now state).sessionId = state.sessionId ∧
      (observation.update called now state).frameLoopPid = state.frameLoopPid := by
  cases observation with
  | recordVectorActivity workload event =>
    obtain ⟨instanceId, sessionId, pid⟩ := pushVectorEvent_same maxVectorEvents event state
    simp only [Observation.update, trimVectorEvents_same, instanceId, sessionId, pid, and_self]
  | _ => exact ⟨rfl, rfl, rfl⟩

theorem apply_instanceId (call : Call) (now : Int) (state : InstanceMonitoringState) :
    (call.apply now state).instanceId = state.instanceId := by
  unfold Call.apply
  split
  · split
    · unfold withState
      split
      · rw [(update_same _ _ _ _).1, resetSession_instanceId]
      · split
        · rw [(update_same _ _ _ _).1, resetSession_instanceId]
        · exact (update_same _ _ _ _).1
    · unfold withInferenceState
      split
      · exact (update_same _ _ _ _).1
      · rfl
  · simp only [startFrameLoop]
    split <;> exact resetSession_instanceId _ _ _ _ _
  · rfl

theorem placed_look {w : World} (placed : Placed w) (call : Call) : Placed (look w call) := by
  unfold look
  split
  · exact placed
  · split
    · rename_i ref found
      refine ⟨placed.registered, fun p mem => ?_⟩
      rcases List.mem_append.mp mem with mem | mem
      · exact placed.pending p mem
      · obtain rfl := List.mem_singleton.mp mem
        exact placed.registered _ _ found
    · exact placed
    · rename_i workload absent creates
      have new : ∃ state, (w.states ++ [create call.instanceId call.sessionId workload
          call.called])[w.states.length]? = some state ∧ state.instanceId = call.instanceId :=
        ⟨_, List.getElem?_concat_length, rfl⟩
      have old : ∀ (ref : Nat) state, w.states[ref]? = some state → (w.states ++ [create call.instanceId
          call.sessionId workload call.called])[ref]? = some state := by
        intro ref state found
        rw [List.getElem?_append_left (List.getElem?_eq_some_iff.mp found).1, found]
      constructor
      · intro instanceId ref found
        by_cases eq : instanceId = call.instanceId
        · subst eq
          rw [AList.lookup_insert] at found
          obtain rfl := Option.some.inj found
          exact new
        · rw [AList.lookup_insert_ne eq] at found
          obtain ⟨state, here, own⟩ := placed.registered instanceId ref found
          exact ⟨state, old ref state here, own⟩
      · intro p mem
        rcases List.mem_append.mp mem with mem | mem
        · obtain ⟨state, here, own⟩ := placed.pending p mem
          exact ⟨state, old p.ref state here, own⟩
        · obtain rfl := List.mem_singleton.mp mem
          exact new

theorem placed_erase {w : World} (placed : Placed w) (instanceId : String) :
    Placed { w with registry := w.registry.erase instanceId } := by
  refine ⟨fun other ref found => ?_, placed.pending⟩
  by_cases eq : other = instanceId
  · subst eq
    rw [AList.lookup_erase] at found
    cases found
  · rw [AList.lookup_erase_ne eq] at found
    exact placed.registered other ref found

/-- What a call does when it has the lock. -/
theorem enter_cases {w w' : World} {index : Nat} {now : Int}
    (step : monitoring.next w (.enter index now) = some w') :
    ∃ p state, w.calls[index]? = some p ∧ w.states[p.ref]? = some state ∧
      w' = { w with
        states := w.states.set p.ref (p.call.apply now state)
        calls := w.calls.eraseIdx index } := by
  simp only [monitoring, Option.bind_eq_bind, Option.bind_eq_some_iff] at step
  obtain ⟨p, call, state, found, eq⟩ := step
  exact ⟨p, state, call, found, (Option.some.inj eq).symm⟩

theorem placed_enter {w w' : World} {index : Nat} {now : Int} (placed : Placed w)
    (step : monitoring.next w (.enter index now) = some w') : Placed w' := by
  obtain ⟨p, state, call, found, rfl⟩ := enter_cases step
  have still : ∀ (ref : Nat) other, w.states[ref]? = some other →
      ∃ other', (w.states.set p.ref (p.call.apply now state))[ref]? = some other' ∧
        other'.instanceId = other.instanceId := by
    intro ref other here
    by_cases eq : p.ref = ref
    · subst eq
      obtain rfl := Option.some.inj (found.symm.trans here)
      refine ⟨_, ?_, apply_instanceId p.call now state⟩
      rw [List.getElem?_set_self (List.getElem?_eq_some_iff.mp here).1]
    · exact ⟨other, by rw [List.getElem?_set_ne eq, here], rfl⟩
  constructor
  · intro instanceId ref here
    obtain ⟨other, at', own⟩ := placed.registered instanceId ref here
    obtain ⟨other', at'', same⟩ := still ref other at'
    exact ⟨other', at'', same.trans own⟩
  · intro q mem
    obtain ⟨other, at', own⟩ := placed.pending q (List.mem_of_mem_eraseIdx mem)
    obtain ⟨other', at'', same⟩ := still q.ref other at'
    exact ⟨other', at'', same.trans own⟩

theorem placed_next {w w' : World} {label : Label} (step : monitoring.next w label = some w')
    (placed : Placed w) : Placed w' := by
  cases label with
  | look call =>
    obtain rfl := Option.some.inj step
    exact placed_look placed call
  | enter index now => exact placed_enter placed step
  | endFrameLoop instanceId pid =>
    obtain rfl := Option.some.inj step
    unfold endFrameLoop
    split
    · exact placed_erase placed instanceId
    · exact placed
  | removeInstance instanceId =>
    obtain rfl := Option.some.inj step
    exact placed_erase placed instanceId

theorem placed_reachable {w : World} (reachable : monitoring.Reachable w) : Placed w := by
  refine reachable.invariant ?_ fun w label w' step placed => placed_next step placed
  constructor
  · intro instanceId ref found
    cases found
  · intro p mem
    cases mem

/-! ### One session -/

section Session

variable {state : InstanceMonitoringState} {call : Call} {session : Option String} {pid : Nat}

/-- The state is of this session, with the frame loop of this process. -/
structure Serves (session : Option String) (pid : Nat) (state : InstanceMonitoringState) : Prop where
  session : state.sessionId = session
  process : state.frameLoopPid = some pid

theorem Serves.reset (serves : Serves session pid state) (workload : ModelWorkload) (now : Int)
    (force : Bool) : Serves session pid (state.resetSession session workload now force) :=
  ⟨resetSession_sessionId _ _ _ _ _, (resetSession_frameLoopPid _ _ _ _ _).trans serves.process⟩

theorem Serves.update (serves : Serves session pid state) (observation : Observation)
    (called now : Int) : Serves session pid (observation.update called now state) := by
  obtain ⟨-, sameSession, samePid⟩ := update_same observation called now state
  exact ⟨sameSession.trans serves.session, samePid.trans serves.process⟩

/-- An observation of the session, through either guard. -/
theorem Serves.withState {workload : ModelWorkload} {called now : Int} {observation : Observation}
    (serves : Serves session pid state) :
    Serves session pid (withState session workload called
      (fun state => observation.update called now state) state) := by
  unfold Sessions.withState
  split
  · exact (serves.reset workload called false).update observation called now
  · split
    · have reset := serves.reset workload called false
      rw [← serves.session] at reset ⊢
      exact reset.update observation called now
    · exact serves.update observation called now

theorem Serves.withInferenceState {sessionId : Option String} {called now : Int}
    {observation : Observation} (serves : Serves session pid state) :
    Serves session pid (withInferenceState sessionId
      (fun state => observation.update called now state) state) := by
  unfold Sessions.withInferenceState
  split
  · exact serves.update observation called now
  · exact serves

theorem serves_startFrameLoop (pid : Nat) (session : Option String) (workload : ModelWorkload)
    (called : Int) (state : InstanceMonitoringState) :
    Serves session pid (startFrameLoop pid session workload called state) := by
  simp only [startFrameLoop]
  by_cases same : state.frameLoopPid = some pid
  · simp only [same, decide_true, if_true]
    exact ⟨resetSession_sessionId _ _ _ _ _, (resetSession_frameLoopPid _ _ _ _ _).trans same⟩
  · simp only [same, decide_false, Bool.false_eq_true, if_false]
    exact ⟨resetSession_sessionId _ _ _ _ _, rfl⟩

/-- The call takes the session over if it is of another one (`with_state`). -/
def Call.takesOver (call : Call) : Bool :=
  match call.operation with
  | .observe observation => observation.workload.isSome
  | _ => false

/-- An observation of another session. -/
def Call.Foreign (session : Option String) (call : Call) : Prop :=
  (∃ observation, call.operation = .observe observation) ∧ call.sessionId ≠ session

/-- Frame loops are only started for this process. -/
def Call.SameProcess (session : Option String) (pid : Nat) (call : Call) : Prop :=
  ∀ pid' workload, call.operation = .startFrameLoop pid' workload →
    pid' = pid ∧ call.sessionId = session

/-- What a call on the state of a session leaves of it. -/
theorem Serves.apply (now : Int) (serves : Serves session pid state)
    (sameProcess : call.SameProcess session pid)
    (careful : call.takesOver = true → call.sessionId = session) :
    Serves session pid (call.apply now state) ∧
      (call.Foreign session → call.apply now state = state) := by
  cases kind : call.operation with
  | observe observation =>
    cases workload : observation.workload with
    | some given =>
      have own := careful (by simp [Call.takesOver, kind, workload])
      refine ⟨?_, fun foreign => absurd own foreign.2⟩
      simp only [Call.apply, kind, workload, own]
      exact serves.withState
    | none =>
      simp only [Call.apply, kind, workload]
      refine ⟨serves.withInferenceState, fun foreign => ?_⟩
      have other : ¬(state.sessionId = call.sessionId ∧ state.workload = .inference) :=
        fun both => foreign.2 (both.1.symm.trans serves.session)
      rw [Sessions.withInferenceState, if_neg other]
  | startFrameLoop pid' workload =>
    obtain ⟨rfl, own⟩ := sameProcess pid' workload kind
    refine ⟨?_, ?_⟩
    · simp only [Call.apply, kind, own]
      exact serves_startFrameLoop _ _ _ _ _
    · rintro ⟨⟨observation, eq⟩, -⟩
      cases kind.symm.trans eq
  | sampleFrame =>
    refine ⟨?_, ?_⟩
    · simp only [Call.apply, kind]
      exact ⟨serves.session, serves.process⟩
    · rintro ⟨⟨observation, eq⟩, -⟩
      cases kind.symm.trans eq

end Session

/-! ### The registry -/

section Run

variable {instanceId : String} {session : Option String} {pid : Nat}

/-- The call that takes the lock. -/
def entered (w : World) : Label → Option Pending
  | .enter index _ => w.calls[index]?
  | _ => none

/-- Until the process ends no other one starts, and the instance is not removed. -/
structure Lasts (instanceId : String) (session : Option String) (pid : Nat) (w : World)
    (label : Label) : Prop where
  loop : label ≠ .endFrameLoop instanceId pid
  present : label ≠ .removeInstance instanceId
  process : ∀ p ∈ entered w label, p.call.instanceId = instanceId →
    p.call.SameProcess session pid

/-- No call that takes sessions over enters the instance's state for another session. -/
def Careful (instanceId : String) (session : Option String) (w : World) (label : Label) : Prop :=
  ∀ p ∈ entered w label, p.call.instanceId = instanceId →
    w.registry.lookup instanceId = some p.ref → p.call.takesOver = true →
      p.call.sessionId = session

/-- An observation of another session leaves the state of the instance alone. -/
def Isolated (instanceId : String) (session : Option String) (w : World) (label : Label)
    (w' : World) : Prop :=
  ∀ call, (label = .look call ∨ ∃ p ∈ entered w label, p.call = call) →
    call.instanceId = instanceId → call.Foreign session →
      current w' instanceId = current w instanceId

/-- The registered state is of this session. -/
def Established (instanceId : String) (session : Option String) (pid : Nat) (w : World) : Prop :=
  ∃ state ∈ current w instanceId, Serves session pid state

theorem look_current {w : World} {call : Call} {state : InstanceMonitoringState}
    (here : current w instanceId = some state) : current (look w call) instanceId = some state := by
  obtain ⟨ref, registered, found⟩ := Option.bind_eq_some_iff.mp here
  unfold look
  split
  · exact here
  · split
    · exact here
    · exact here
    · rename_i absent creates
      have ne : instanceId ≠ call.instanceId := by
        rintro rfl
        cases registered.symm.trans absent
      refine Option.bind_eq_some_iff.mpr ⟨ref, ?_, ?_⟩
      · simp only
        rw [AList.lookup_insert_ne ne, registered]
      · simp only
        rw [List.getElem?_append_left (List.getElem?_eq_some_iff.mp found).1, found]

theorem erase_current {w : World} {other : String} (ne : other ≠ instanceId) :
    current { w with registry := w.registry.erase other } instanceId = current w instanceId := by
  unfold current
  rw [AList.lookup_erase_ne ne.symm]

/-- A call that enters another state, or the registered one. -/
theorem enter_current {w w' : World} {index : Nat} {now : Int} {state : InstanceMonitoringState}
    (placed : Placed w) (here : current w instanceId = some state)
    (step : monitoring.next w (.enter index now) = some w') :
    ∃ p ∈ entered w (.enter index now),
      (current w' instanceId = some state ∧ w.registry.lookup instanceId ≠ some p.ref ∨
        current w' instanceId = some (p.call.apply now state) ∧
          p.call.instanceId = instanceId ∧ w.registry.lookup instanceId = some p.ref) := by
  obtain ⟨ref, registered, found⟩ := Option.bind_eq_some_iff.mp here
  obtain ⟨p, entering, called, at', rfl⟩ := enter_cases step
  refine ⟨p, called, ?_⟩
  by_cases eq : p.ref = ref
  · subst eq
    obtain rfl := Option.some.inj (found.symm.trans at')
    refine .inr ⟨?_, ?_, registered⟩
    · refine Option.bind_eq_some_iff.mpr ⟨p.ref, registered, ?_⟩
      exact List.getElem?_set_self (List.getElem?_eq_some_iff.mp found).1
    · obtain ⟨one, here, own⟩ := placed.registered instanceId p.ref registered
      obtain ⟨two, there, own'⟩ := placed.pending p (List.mem_of_getElem? called)
      obtain rfl := Option.some.inj (here.symm.trans there)
      exact own'.symm.trans own
  · refine .inl ⟨Option.bind_eq_some_iff.mpr ⟨ref, registered, ?_⟩, ?_⟩
    · simp only
      rw [List.getElem?_set_ne eq, found]
    · rw [registered]
      exact fun same => eq (Option.some.inj same).symm

theorem established_next {w w' : World} {label : Label}
    (step : monitoring.next w label = some w') (lasts : Lasts instanceId session pid w label)
    (careful : Careful instanceId session w label) (placed : Placed w)
    (established : Established instanceId session pid w) :
    Established instanceId session pid w' ∧ Isolated instanceId session w label w' := by
  obtain ⟨state, here, serves⟩ := established
  -- What keeps the state keeps both.
  have keeps : current w' instanceId = some state → Established instanceId session pid w' ∧
      Isolated instanceId session w label w' :=
    fun same => ⟨⟨state, same, serves⟩, fun _ _ _ _ => same.trans here.symm⟩
  cases label with
  | look call =>
    obtain rfl := Option.some.inj step
    exact keeps (look_current here)
  | enter index now =>
    obtain ⟨p, called, ⟨same, -⟩ | ⟨applied, own, registered⟩⟩ := enter_current placed here step
    · exact keeps same
    · have after := serves.apply now (lasts.process p called own)
        (careful p called own registered)
      refine ⟨⟨_, applied, after.1⟩, ?_⟩
      rintro call (eq | ⟨q, called', rfl⟩) - foreign
      · cases eq
      · obtain rfl := Option.some.inj (called.symm.trans called')
        rw [applied, after.2 foreign]
        exact here.symm
  | endFrameLoop other pid' =>
    obtain rfl := Option.some.inj step
    refine keeps ?_
    unfold endFrameLoop
    split
    · rename_i owns
      have ne : other ≠ instanceId := by
        rintro rfl
        rw [here, Option.any_some, serves.process, decide_eq_true_eq] at owns
        exact lasts.loop (by rw [Option.some.inj owns])
      rw [erase_current ne]
      exact here
    · exact here
  | removeInstance other =>
    obtain rfl := Option.some.inj step
    refine keeps ?_
    rw [erase_current fun same => lasts.present (by rw [same])]
    exact here

/-- **Sessions are kept apart** if the frame loop of the process starts on the state
that is registered, and after that no call that takes sessions over enters it for
another one. A call looks its state up first and locks it later, and what is registered
may be replaced between the two. -/
theorem sessions_isolated {before after : List Label} {w w₁ w' : World} {index : Nat} {now : Int}
    {p : Pending} {workload : ModelWorkload}
    (reached : monitoring.run monitoring.init before = some w)
    (called : w.calls[index]? = some p)
    (start : p.call.operation = .startFrameLoop pid workload ∧ p.call.instanceId = instanceId ∧
      p.call.sessionId = session)
    (started : monitoring.next w (.enter index now) = some w₁)
    (run : monitoring.run w₁ after = some w')
    (lasts : monitoring.Along (fun w label _ => Lasts instanceId session pid w label) w₁ after)
    (registered : w.registry.lookup instanceId = some p.ref)
    (careful : monitoring.Along (fun w label _ => Careful instanceId session w label) w₁ after) :
    Established instanceId session pid w' ∧
      monitoring.Along (Isolated instanceId session) w₁ after := by
  have placed : Placed w := placed_reachable ⟨before, reached⟩
  have established : Established instanceId session pid w₁ := by
    obtain ⟨state, found, own⟩ := placed.registered instanceId p.ref registered
    have here : current w instanceId = some state :=
      Option.bind_eq_some_iff.mpr ⟨p.ref, registered, found⟩
    obtain ⟨q, called', ⟨-, other⟩ | ⟨applied, -, -⟩⟩ := enter_current placed here started
    · obtain rfl := Option.some.inj (called.symm.trans called')
      exact absurd registered other
    · obtain rfl := Option.some.inj (called.symm.trans called')
      refine ⟨_, applied, ?_⟩
      simp only [Call.apply, start.1, start.2.2]
      exact serves_startFrameLoop _ _ _ _ _
  have both := lasts.and careful
  have step : ∀ w label w', monitoring.next w label = some w' →
      Lasts instanceId session pid w label ∧ Careful instanceId session w label →
      Placed w ∧ Established instanceId session pid w →
      (Placed w' ∧ Established instanceId session pid w') ∧
        Isolated instanceId session w label w' := by
    rintro w label w' next ⟨lasts, careful⟩ ⟨placed, established⟩
    obtain ⟨still, isolated⟩ := established_next next lasts careful placed established
    exact ⟨⟨placed_next next placed, still⟩, isolated⟩
  have first : Placed w₁ ∧ Established instanceId session pid w₁ :=
    ⟨placed_next started placed, established⟩
  refine ⟨?_, both.of_preserves step first⟩
  exact (Machine.run_preserves_along (P := fun w => Placed w ∧ Established instanceId session pid w)
    (fun w label w' next guard inv => (step w label w' next guard inv).1) both run first).2

end Run

/-! ### A process that is replaced -/

def oldStart : Call := ⟨"a", some "old", .startFrameLoop 1 .inference, 0⟩
def newStart : Call := ⟨"a", some "new", .startFrameLoop 2 .inference, 3000⟩

/-- The last report of the first process' log: no task is active. -/
def lastReport : Call := ⟨"a", some "old", .observe (.updateTasks .inference 0 0), 2000⟩

/-- A line of the first process' log. -/
def lateLine : Call := ⟨"a", some "old", .observe (.observeInferenceLog 0 7 .start), 2000⟩

/-- The frame loop of the second process starts while the log of the first is read. -/
def replaced : List Label :=
  [.look oldStart, .enter 0 1, .look lateLine, .look lastReport, .look newStart]

/-- The session of the instance after a run. -/
def sessionAfter (labels : List Label) : Option String :=
  ((monitoring.run monitoring.init labels).bind (current · "a")).bind (·.sessionId)

theorem sessions_isolated_replaced :
    ∃ w', monitoring.run monitoring.init (replaced ++ [.enter 2 3001, .enter 0 3002]) = some w' ∧
      Established "a" (some "new") 2 w' := by
  obtain ⟨w, reached⟩ : ∃ w, monitoring.run monitoring.init replaced = some w := ⟨_, rfl⟩
  have called : w.calls[2]? = some ⟨newStart, 0⟩ := by
    obtain rfl := Option.some.inj reached
    rfl
  have registered : w.registry.lookup "a" = some 0 := by
    obtain rfl := Option.some.inj reached
    rfl
  obtain ⟨w₁, started⟩ : ∃ w₁, monitoring.next w (.enter 2 3001) = some w₁ := by
    obtain rfl := Option.some.inj reached
    exact ⟨_, rfl⟩
  have late : entered w₁ (.enter 0 3002) = some ⟨lateLine, 0⟩ := by
    obtain rfl := Option.some.inj reached
    obtain rfl := Option.some.inj started
    rfl
  obtain ⟨w', run⟩ : ∃ w', monitoring.run w₁ [.enter 0 3002] = some w' := by
    obtain rfl := Option.some.inj reached
    obtain rfl := Option.some.inj started
    exact ⟨_, rfl⟩
  have only : ∀ p ∈ entered w₁ (.enter 0 3002), p.call = lateLine := by
    intro p mem
    rw [late] at mem
    rw [← Option.some.inj mem]
  refine ⟨w', Machine.run_append monitoring |>.mpr ⟨w, reached, ?_⟩,
    (sessions_isolated reached called ⟨rfl, rfl, rfl⟩ started run (fun t _ => ⟨⟨by simp, by simp, ?_⟩,
      trivial⟩) registered (fun t _ => ⟨?_, trivial⟩)).1⟩
  · exact Machine.run_cons_eq_some monitoring |>.mpr ⟨w₁, started, run⟩
  · intro p mem _ pid' workload start
    rw [only p mem] at start
    cases start
  · intro p mem _ _ over'
    rw [only p mem] at over'
    cases over'

/-- The second process has started, and its session is the one of the first again: when the
log's last report takes the lock; and when the loop of the first process has removed the state
that the second one was about to enter. -/
theorem session_taken_over :
    sessionAfter (replaced ++ [.enter 2 3001]) = some "new" ∧
    sessionAfter (replaced ++ [.enter 2 3001, .enter 1 3002]) = some "old" ∧
    sessionAfter (replaced ++ [.endFrameLoop "a" 1, .enter 2 3001, .look lateLine]) =
      some "old" := by
  decide

end LlamaServerManager.Monitoring.Sessions
