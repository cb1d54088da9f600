import LlamaServerManager.Lib.Machine
import LlamaServerManager.Quota.Ledger
import LlamaServerManager.Usage.Diagnostics
import LlamaServerManager.Usage.Protocol

/-!
One observed request: `UsageHandle` and its `Observation` in `proxy_usage.rs`,
and the `QuotaPermit` guard of `usage_quota.rs`.

The handles of a request share one observation under a lock, so a request is a
sequence of calls. The last handle to be dropped drops the observation, and an
observation drops the permit it still holds. Clocks are arguments.
-/

namespace LlamaServerManager

open Lib Lib.Json

namespace Usage

inductive Outcome where
  | cancelled
  | rejected
  | failed
  | incomplete
  | success
deriving DecidableEq, Repr

/-- The fields of `UsageRecord` an observation computes. -/
structure UsageRecord where
  completedAt : Int := 0
  httpStatus : Nat := 0
  forwarded : Bool := false
  outcome : Option Outcome := none
  quality : Quality := .unknown
  source : Source := .none
  tokens : TokenUsage := {}
  durationMs : Nat := 0
  firstOutputMs : Option Nat := none
  finishReason : Option String := none
  failure : Option UsageFailure := none
deriving DecidableEq, Repr

/-- A settlement handed to the ledger: the arguments of `settle`. -/
structure Settlement where
  id : String
  actual : Option Nat
  complete : Bool
deriving DecidableEq, Repr

end Usage

/-! ### The permit -/

namespace Quota.QuotaPermit

open Usage

def dispatch (permit : QuotaPermit) (actual : Option Nat) (complete : Bool) :
    QuotaPermit × List Settlement :=
  ({ permit with finished := true }, [⟨permit.id, actual, complete⟩])

/-- The guard's `drop`. -/
def drop (permit : QuotaPermit) : List Settlement :=
  if permit.finished then []
  else (permit.dispatch (if !permit.forwarded then some 0 else none) (!permit.forwarded)).2

/-- `finish` takes the permit, which is dropped at its end. -/
def finish (permit : QuotaPermit) (record : UsageRecord) : List Settlement :=
  let actual :=
    if record.tokens.input.isSome ∨ record.tokens.output.isSome then
      some (saturatingAdd (record.tokens.input.getD 0) (record.tokens.output.getD 0))
    else none
  let complete :=
    !permit.forwarded || (record.outcome == some .success && record.quality == .complete)
  let (permit, settlements) :=
    permit.dispatch (if permit.forwarded then actual else some 0) complete
  settlements ++ permit.drop

end Quota.QuotaPermit

namespace Usage

open Quota

/-! ### The observation -/

/-- The wall clock and the time since the request began, in milliseconds. -/
structure Clock where
  now : Int := 0
  elapsed : Nat := 0

structure Observation where
  quota : Option QuotaPermit := none
  record : UsageRecord := {}
  parser : UsageAccumulator
  streaming : Bool := false
  finished : Bool := false
  recorded : Bool := false

/-- What a call hands to the usage store and to the ledger. -/
structure Output where
  records : List UsageRecord := []
  settlements : List Settlement := []

namespace Observation

def outcome (o : Observation) : Outcome :=
  if !o.finished then .cancelled
  else if 400 ≤ o.record.httpStatus ∧ !o.record.forwarded then .rejected
  else if 400 ≤ o.record.httpStatus ∨ o.parser.failed then .failed
  else if o.streaming ∧ !o.parser.terminal then .incomplete
  else .success

/-- The failure recorded when no caller named one. -/
def defaultFailure (o : Observation) : Outcome → Option UsageFailure
  | .cancelled => some (.new "delivery" "client_cancelled")
  | .incomplete => some (.new "stream" "stream_interrupted")
  | .failed => some (.new (if o.streaming then "stream" else "upstream") "upstream_error")
  | .rejected => some (.ofLocal o.record.httpStatus "")
  | .success => none

/-- A stream that did not end is complete for nobody. -/
def quality (o : Observation) : Quality :=
  let quality := o.parser.quality o.record.forwarded
  if o.streaming ∧ !o.parser.terminal ∧ quality = .complete then .partly else quality

/-- The record `finalize` writes once the pending event is flushed. -/
def report (clock : Clock) (o : Observation) : UsageRecord :=
  { o.record with
    completedAt := clock.now
    durationMs := min clock.elapsed (2 ^ 64 - 1)
    outcome := some o.outcome
    failure := o.record.failure.or (o.defaultFailure o.outcome)
    tokens := o.parser.tokens
    quality := o.quality
    source := o.parser.source
    finishReason := o.parser.finishReason }

def finalize (serde : Serde) (clock : Clock) (o : Observation) : Observation × Output :=
  if o.recorded then (o, {})
  else
    let o := { o with recorded := true, parser := (o.parser.flushEvent serde).1 }
    let record := o.report clock
    ({ o with record, quota := none },
      { records := [record], settlements := (o.quota.map (·.finish record)).getD [] })

/-- The destructor: `finalize`, then the fields. -/
def drop (serde : Serde) (clock : Clock) (o : Observation) : Observation × Output :=
  let (o, output) := o.finalize serde clock
  ({ o with quota := none },
    { output with settlements := output.settlements ++ (o.quota.map (·.drop)).getD [] })

/-- What `finish` writes before it finalizes. -/
def finishing (o : Observation) (status : Nat) (success : Bool) : Observation :=
  { o with
    record := { o.record with httpStatus := status }
    finished := true
    parser := { o.parser with failed := o.parser.failed || !success } }

end Observation

/-! ### The handles -/

inductive Call where
  | forwarded
  | quota (permit : String)
  | failure (stage code : String)
  | startStream
  | json (body : List UInt8)
  | sse (line : String) (elapsed : Nat)
  | finish (status : Nat) (success : Bool) (clock : Clock)
  /-- The locked section of `wrap`, with the failure in the response's extensions. -/
  | wrap (status : Nat) (failure : Option UsageFailure)
  | clone
  | drop (clock : Clock)

/-- An observation, the number of its handles, and everything it handed out. -/
structure Handles where
  observation : Observation
  handles : Nat := 1
  records : List UsageRecord := []
  settlements : List Settlement := []
  /-- The usage objects the upstream has reported, the latest first. -/
  reports : List Value := []

namespace Handles

/-- The state after a call that leaves `o`, hands out `output` and reports `usage`. -/
def after (h : Handles) (o : Observation) (output : Output) (usage : Option Value) : Handles :=
  { h with
    observation := o
    records := h.records ++ output.records
    settlements := h.settlements ++ output.settlements
    reports := usage.toList ++ h.reports }

/-- The state after a call that only leaves `o`. -/
def set (h : Handles) (o : Observation) : Handles := h.after o {} none

/-- The usage object `finalize` observes. -/
def lastUsage (serde : Serde) (o : Observation) : Option Value :=
  if o.recorded then none else o.parser.flushedUsage serde

def call (serde : Serde) (h : Handles) : Call → Handles
  | .forwarded =>
    h.set { h.observation with
      record := { h.observation.record with forwarded := true }
      quota := h.observation.quota.map fun permit => { permit with forwarded := true } }
  | .quota id =>
    -- The permit that was attached before is dropped.
    h.after { h.observation with quota := some { id } }
      { settlements := (h.observation.quota.map (·.drop)).getD [] } none
  | .failure stage code =>
    h.set { h.observation with
      record := { h.observation.record with
        failure := h.observation.record.failure.or (some (.new stage code)) } }
  | .startStream => h.set { h.observation with streaming := true }
  | .json body =>
    match serde.fromSlice body with
    | some value =>
      h.after { h.observation with parser := (h.observation.parser.observeJson value).1 } {}
        (usageOf h.observation.parser.protocol value)
    | none =>
      h.set { h.observation with
        parser := { h.observation.parser with malformed := true } }
  | .sse line elapsed =>
    let (parser, output) := h.observation.parser.sseLine serde line
    let first := if output then some (min elapsed (2 ^ 64 - 1)) else none
    h.after
      { h.observation with
        parser
        streaming := true
        record := { h.observation.record with
          firstOutputMs := h.observation.record.firstOutputMs.or first } } {}
      (if line.isEmpty then h.observation.parser.flushedUsage serde else none)
  | .finish status success clock =>
    let o := h.observation.finishing status success
    let (o', output) := o.finalize serde clock
    h.after o' output (lastUsage serde o)
  | .wrap status failure =>
    h.set { h.observation with
      record := { h.observation.record with
        httpStatus := status
        failure := h.observation.record.failure.or failure } }
  | .clone => { h with handles := h.handles + 1 }
  | .drop clock =>
    if h.handles = 1 then
      let (o, output) := h.observation.drop serde clock
      { h.after o output (lastUsage serde h.observation) with handles := 0 }
    else { h with handles := h.handles - 1 }

end Handles

/-- Every sequence of calls on the handles of one observation; without a handle
there are no more calls. -/
def request (serde : Serde) (protocol : UsageProtocol) : Machine Handles Call where
  init := { observation := { parser := { protocol } } }
  next h c := if h.handles = 0 then none else some (h.call serde c)

end Usage

end LlamaServerManager
