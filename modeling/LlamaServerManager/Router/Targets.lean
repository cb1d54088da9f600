import LlamaServerManager.Lib.Dict
import LlamaServerManager.Lib.Machine
import Mathlib.Algebra.GroupWithZero.Nat

/-!
The targets of the router, `proxy_runtime.rs`: health, circuit breaker and
active requests per instance, with the scheduling counters. Every operation here
runs under the `targets` mutex. A state of the machine also has the live
permits, and a run is any interleaving of the operations at any clock readings.
-/

namespace LlamaServerManager.Router

open Lib

def maxSchedulingCounters : Nat := 4096

structure TargetCapabilities where
  totalSlots : Option Nat := none
  busySlots : Option Nat := none
  updatedAtMs : Nat := 0
deriving DecidableEq, Repr

structure TargetRuntime where
  /-- The address of the `Arc`: no two live ones have the same. -/
  identity : Nat
  ready : Bool := true
  consecutiveFailures : Nat := 0
  circuitOpenUntilMs : Nat := 0
  lastCheckedAtMs : Nat := 0
  lastSuccessAtMs : Nat := 0
  activeRequests : Nat := 0
  lastError : Option String := none
  capabilities : TargetCapabilities := {}
deriving DecidableEq, Repr

structure RoutingCandidate where
  instanceId : String
  priority : Int
  weight : Nat
  maxConcurrentRequests : Nat
deriving DecidableEq, Repr

inductive TargetAdmissionError where
  | capacity
  | unavailable
deriving DecidableEq, Repr

structure TargetRequestPermit where
  instanceId : String
  targetIdentity : Nat
deriving DecidableEq, Repr

structure RouterRuntime where
  targets : Dict String TargetRuntime := ∅
  schedulingCounters : Dict String Nat := ∅
  /-- A bound of the identities allocated so far. -/
  identities : Nat := 0
deriving DecidableEq

/-- What `leastBusy` scores a candidate by: its active requests, and the busy
and total slots when both are known. -/
abbrev Load := Nat × Option (Nat × Nat)

namespace RouterRuntime

/-- `next_scheduling_ticket`; the counters are `u64`s that wrap. -/
def nextSchedulingTicket (r : RouterRuntime) (strategy routingKey : String) :
    Nat × RouterRuntime :=
  let key := strategy ++ "\u001f" ++ routingKey
  let counters :=
    if (r.schedulingCounters.lookup key).isNone ∧
        maxSchedulingCounters ≤ r.schedulingCounters.size then ∅
    else r.schedulingCounters
  let ticket := (counters.lookup key).getD 0
  (ticket, { r with schedulingCounters := counters.insert key ((ticket + 1) % 2 ^ 64) })

/-! ### Selection -/

/-- The candidate's target is at its slot limit. -/
def atSlotCapacity (state : Option TargetRuntime) (active : Nat) : Bool :=
  ((state.bind fun s => s.capabilities.totalSlots).filter fun slots => 0 < slots).any
    fun slots => slots ≤ active

/-- The filter of `select_target_locked`. -/
def eligible (r : RouterRuntime) (now : Nat) (candidate : RoutingCandidate) : Bool :=
  let state := r.targets.lookup candidate.instanceId
  let circuitOpen := state.any fun s => now < s.circuitOpenUntilMs || !s.ready
  let active := (state.map TargetRuntime.activeRequests).getD 0
  let atCapacity := 0 < candidate.maxConcurrentRequests && candidate.maxConcurrentRequests ≤ active
  !circuitOpen && !atCapacity && !atSlotCapacity state active

def load (r : RouterRuntime) (candidate : RoutingCandidate) : Load :=
  let state := r.targets.lookup candidate.instanceId
  ((state.map TargetRuntime.activeRequests).getD 0, do
    let s ← state
    return (← s.capabilities.busySlots, ← s.capabilities.totalSlots))

end RouterRuntime

/-- `Iterator::min_by`: the first of the least elements. -/
def minBy {α : Type} (order : α → α → Ordering) : List α → Option α
  | [] => none
  | x :: xs => some (xs.foldl (fun best y => if order best y = .gt then y else best) x)

/-- The loop of the weighted strategy: the candidate whose share has the ticket. -/
def pickWeighted : Nat → List RoutingCandidate → Option RoutingCandidate
  | _, [] => none
  | ticket, candidate :: rest =>
    let weight := max candidate.weight 1
    if ticket < weight then some candidate else pickWeighted (ticket - weight) rest

section

-- `partial_cmp` of the floating-point scores of two loads.
variable (compareLoad : Load → Load → Option Ordering)

namespace RouterRuntime

/-- The strategies, over the eligible candidates of the best priority. -/
def schedule (r : RouterRuntime) (best : List RoutingCandidate) (strategy routingKey : String) :
    Option RoutingCandidate × RouterRuntime :=
  if strategy = "roundRobin" then
    let (ticket, r) := r.nextSchedulingTicket strategy routingKey
    (best[ticket % best.length]?, r)
  else if strategy = "leastBusy" then
    (minBy (fun left right => (compareLoad (r.load left) (r.load right)).getD .eq) best, r)
  else if strategy = "weighted" then
    let (ticket, r) := r.nextSchedulingTicket strategy routingKey
    (pickWeighted (ticket % (best.map fun candidate => max candidate.weight 1).sum) best, r)
  else (best.head?, r)

def selectTargetLocked (r : RouterRuntime) (now : Nat) (candidates : List RoutingCandidate)
    (strategy routingKey : String) : Option RoutingCandidate × RouterRuntime :=
  let eligible := candidates.filter (r.eligible now)
  match (eligible.map RoutingCandidate.priority).min? with
  | none => (none, r)
  | some best =>
    r.schedule compareLoad (eligible.filter fun candidate => candidate.priority = best)
      strategy routingKey

/-- The entry of an instance, or the one `or_default` makes. -/
def entry (r : RouterRuntime) (id : String) : TargetRuntime :=
  (r.targets.lookup id).getD { identity := r.identities }

/-- `entry(id).or_default()` and what is done with the entry. -/
def update (r : RouterRuntime) (id : String) (f : TargetRuntime → TargetRuntime) :
    RouterRuntime :=
  { r with targets := r.targets.insert id (f (r.entry id)), identities := r.identities + 1 }

/-- `select_and_acquire_target`; the error reads the clock again, at `later`. -/
def selectAndAcquireTarget (r : RouterRuntime) (now later : Nat)
    (candidates : List RoutingCandidate) (strategy routingKey : String) :
    Except TargetAdmissionError (RoutingCandidate × TargetRequestPermit) × RouterRuntime :=
  match r.selectTargetLocked compareLoad now candidates strategy routingKey with
  | (none, r) =>
    let hasReadyTarget := candidates.any fun candidate =>
      (r.targets.lookup candidate.instanceId).all fun state =>
        state.ready && state.circuitOpenUntilMs ≤ later
    (.error (if hasReadyTarget then .capacity else .unavailable), r)
  | (some selected, r) =>
    let permit := ⟨selected.instanceId, (r.entry selected.instanceId).identity⟩
    (.ok (selected, permit), r.update selected.instanceId fun target =>
      { target with activeRequests := target.activeRequests + 1 })

/-! ### Health -/

def markProbeSuccess (r : RouterRuntime) (instanceId : String) (timestamp : Nat)
    (capabilities : Option TargetCapabilities) : RouterRuntime :=
  r.update instanceId fun target =>
    { target with
      ready := true
      consecutiveFailures := 0
      circuitOpenUntilMs := 0
      lastCheckedAtMs := timestamp
      lastSuccessAtMs := timestamp
      lastError := none
      capabilities := capabilities.getD target.capabilities }

/-- `mark_probe_failure`, where the failures are a saturating `u32`;
`mark_request_failure` is this and a metric. -/
def markProbeFailure (r : RouterRuntime) (instanceId error : String)
    (unhealthyThreshold recoveryCooldown timestamp : Nat) : RouterRuntime :=
  r.update instanceId fun target =>
    let target :=
      { target with
        lastCheckedAtMs := timestamp
        consecutiveFailures := min (target.consecutiveFailures + 1) (2 ^ 32 - 1)
        lastError := some error }
    if max unhealthyThreshold 1 ≤ target.consecutiveFailures then
      { target with
        ready := false
        circuitOpenUntilMs := min (timestamp + min recoveryCooldown (2 ^ 64 - 1)) (2 ^ 64 - 1) }
    else target

def retainTargets (r : RouterRuntime) (instanceIds : List String) : RouterRuntime :=
  { r with targets := r.targets.filter fun id _ => instanceIds.contains id }

/-- `TargetRequestPermit::drop`. -/
def dropPermit (r : RouterRuntime) (permit : TargetRequestPermit) : RouterRuntime :=
  match r.targets.lookup permit.instanceId with
  | none => r
  | some target =>
    -- A stopped target may have been evicted and recreated under the same id.
    if target.identity = permit.targetIdentity then
      let target := { target with activeRequests := target.activeRequests - 1 }
      { r with targets := r.targets.insert permit.instanceId target }
    else r

end RouterRuntime

/-! ### Runs -/

/-- The runtime with the permits that callers hold, which is what its counts are
compared to. -/
structure State where
  runtime : RouterRuntime := {}
  /-- The permits not dropped yet. -/
  permits : List TargetRequestPermit := []
deriving DecidableEq

inductive Label where
  | selectAndAcquire (now later : Nat) (candidates : List RoutingCandidate)
      (strategy routingKey : String)
  | selectTarget (now : Nat) (candidates : List RoutingCandidate) (strategy routingKey : String)
  | dropPermit (permit : TargetRequestPermit)
  | retainTargets (instanceIds : List String)
  | markProbeSuccess (instanceId : String) (timestamp : Nat)
      (capabilities : Option TargetCapabilities)
  | markProbeFailure (instanceId error : String)
      (unhealthyThreshold recoveryCooldown timestamp : Nat)

def next (s : State) : Label → Option State
  | .selectAndAcquire now later candidates strategy routingKey =>
    match s.runtime.selectAndAcquireTarget compareLoad now later candidates strategy
      routingKey with
    | (.ok (_, permit), runtime) => some ⟨runtime, s.permits ++ [permit]⟩
    | (.error _, runtime) => some { s with runtime }
  | .selectTarget now candidates strategy routingKey =>
    some { s with
      runtime := (s.runtime.selectTargetLocked compareLoad now candidates strategy routingKey).2 }
  | .dropPermit permit =>
    if permit ∈ s.permits then
      some ⟨s.runtime.dropPermit permit, s.permits.erase permit⟩
    else none
  | .retainTargets instanceIds => some { s with runtime := s.runtime.retainTargets instanceIds }
  | .markProbeSuccess instanceId timestamp capabilities =>
    some { s with runtime := s.runtime.markProbeSuccess instanceId timestamp capabilities }
  | .markProbeFailure instanceId error unhealthyThreshold recoveryCooldown timestamp =>
    some { s with
      runtime := s.runtime.markProbeFailure instanceId error unhealthyThreshold recoveryCooldown
        timestamp }

def machine : Machine State Label where
  init := {}
  next := next compareLoad

end

end LlamaServerManager.Router
