import LlamaServerManager.Usage.Observation

/-!
The accounting database of `usage_store.rs` and `usage_performance.rs`: the
records by their request id, the daily summaries and the performance aggregates
that are kept beside them, and the ranges that were cleared. A transaction is
one step, and a batch that fails is rolled back whole.

A summary is stored as JSON; here it is the value that JSON decodes to. The `id`
of a row is the JSON of its group, here the group.
-/

namespace LlamaServerManager.UsageStore

open Lib Usage
open Quota (saturatingAdd)

def dayMs : Int := 86400000
def hourMs : Int := 3600000
def detailDays : Int := 90
def summaryDays : Int := 365
def hourlyDays : Int := 30

/-- `t.div_euclid(width) * width`. -/
def bucket (width t : Int) : Int := t / width * width

/-- A record, with the fields the store reads besides those an observation computes. -/
structure UsageRecord extends Usage.UsageRecord where
  requestId : String := ""
  keyId : String := ""
  keyName : String := ""
  model : String := ""
  instanceId : String := ""
  endpoint : String := ""
  kind : String := ""
  queueMs : Nat := 0
  queueEntered : Bool := false
  items : Option Nat := none
deriving DecidableEq, Repr

/-- What the rows of a daily or hourly table are grouped by. -/
structure Group where
  bucket : Int
  keyId : String
  model : String
  instanceId : String
  endpoint : String
  kind : String
deriving DecidableEq, Repr

def UsageRecord.group (width : Int) (r : UsageRecord) : Group :=
  ⟨bucket width r.completedAt, r.keyId, r.model, r.instanceId, r.endpoint, r.kind⟩

/-! ### Summaries -/

structure UsageSummary where
  requests : Nat := 0
  forwarded : Nat := 0
  success : Nat := 0
  failed : Nat := 0
  rejected : Nat := 0
  cancelled : Nat := 0
  incomplete : Nat := 0
  complete : Nat := 0
  partly : Nat := 0
  unknown : Nat := 0
  notApplicable : Nat := 0
  input : Nat := 0
  output : Nat := 0
  cached : Nat := 0
  cacheInput : Nat := 0
  inputKnown : Nat := 0
  outputKnown : Nat := 0
  cacheKnown : Nat := 0
  items : Nat := 0
  durationMs : Nat := 0
  queueMs : Nat := 0
  firstOutputMs : Nat := 0
  firstOutputCount : Nat := 0
  lastUsed : Int := 0
deriving DecidableEq, Repr

namespace UsageSummary

def add (s other : UsageSummary) : UsageSummary where
  requests := saturatingAdd s.requests other.requests
  forwarded := saturatingAdd s.forwarded other.forwarded
  success := saturatingAdd s.success other.success
  failed := saturatingAdd s.failed other.failed
  rejected := saturatingAdd s.rejected other.rejected
  cancelled := saturatingAdd s.cancelled other.cancelled
  incomplete := saturatingAdd s.incomplete other.incomplete
  complete := saturatingAdd s.complete other.complete
  partly := saturatingAdd s.partly other.partly
  unknown := saturatingAdd s.unknown other.unknown
  notApplicable := saturatingAdd s.notApplicable other.notApplicable
  input := saturatingAdd s.input other.input
  output := saturatingAdd s.output other.output
  cached := saturatingAdd s.cached other.cached
  cacheInput := saturatingAdd s.cacheInput other.cacheInput
  inputKnown := saturatingAdd s.inputKnown other.inputKnown
  outputKnown := saturatingAdd s.outputKnown other.outputKnown
  cacheKnown := saturatingAdd s.cacheKnown other.cacheKnown
  items := saturatingAdd s.items other.items
  durationMs := saturatingAdd s.durationMs other.durationMs
  queueMs := saturatingAdd s.queueMs other.queueMs
  firstOutputMs := saturatingAdd s.firstOutputMs other.firstOutputMs
  firstOutputCount := saturatingAdd s.firstOutputCount other.firstOutputCount
  lastUsed := max s.lastUsed other.lastUsed

def record (r : UsageRecord) : UsageSummary :=
  let pairedCache := do return ((← r.tokens.cached), (← r.tokens.input))
  { requests := 1
    forwarded := r.forwarded.toNat
    success := (r.outcome == some .success).toNat
    failed := (r.outcome == some .failed).toNat
    rejected := (r.outcome == some .rejected).toNat
    cancelled := (r.outcome == some .cancelled).toNat
    incomplete := (r.outcome == some .incomplete).toNat
    complete := (r.quality == .complete).toNat
    partly := (r.quality == .partly).toNat
    unknown := (r.quality == .unknown).toNat
    notApplicable := (r.quality == .notApplicable).toNat
    input := r.tokens.input.getD 0
    output := r.tokens.output.getD 0
    cached := (pairedCache.map Prod.fst).getD 0
    cacheInput := (pairedCache.map Prod.snd).getD 0
    inputKnown := r.tokens.input.isSome.toNat
    outputKnown := r.tokens.output.isSome.toNat
    cacheKnown := pairedCache.isSome.toNat
    items := r.items.getD 0
    durationMs := r.durationMs
    queueMs := r.queueMs
    firstOutputMs := r.firstOutputMs.getD 0
    firstOutputCount := r.firstOutputMs.isSome.toNat
    lastUsed := r.completedAt }

end UsageSummary

/-! ### Performance -/

/-- `Histogram`; the count of a bucket that is not there is zero. -/
structure Histogram where
  buckets : Nat → Nat := fun _ => 0
  count : Nat := 0
  max : Nat := 0

namespace Histogram

/-- The upper bound of the bucket of a value. -/
def upper (value : Nat) : Nat :=
  let step := 2 ^ (Nat.log2 value - 4)
  min ((value + step - 1) / step * step) (2 ^ 64 - 1)

def observe (h : Histogram) (value : Nat) : Histogram where
  buckets := Function.update h.buckets (upper value) (saturatingAdd (h.buckets (upper value)) 1)
  count := saturatingAdd h.count 1
  max := Max.max h.max value

def merge (h other : Histogram) : Histogram where
  buckets b := saturatingAdd (h.buckets b) (other.buckets b)
  count := saturatingAdd h.count other.count
  max := Max.max h.max other.max

end Histogram

/-- The row of the performance tables: counts, the span of the records and three
histograms. -/
structure Aggregate where
  requests : Nat := 0
  success : Nat := 0
  firstRecordAt : Int := 0
  lastRecordAt : Int := 0
  duration : Histogram := {}
  queue : Histogram := {}
  firstOutput : Histogram := {}

namespace Aggregate

def record (r : UsageRecord) : Aggregate :=
  let success := r.forwarded && r.outcome == some .success
  { requests := 1
    success := success.toNat
    firstRecordAt := r.completedAt
    lastRecordAt := r.completedAt
    queue := if r.queueEntered then ({} : Histogram).observe r.queueMs else {}
    duration := if success then ({} : Histogram).observe r.durationMs else {}
    firstOutput :=
      match success, r.firstOutputMs with
      | true, some ms => ({} : Histogram).observe ms
      | _, _ => {} }

def merge (a other : Aggregate) : Aggregate where
  requests := saturatingAdd a.requests other.requests
  success := saturatingAdd a.success other.success
  firstRecordAt :=
    if a.firstRecordAt = 0 ∨ (0 < other.firstRecordAt ∧ other.firstRecordAt < a.firstRecordAt) then
      other.firstRecordAt
    else a.firstRecordAt
  lastRecordAt := max a.lastRecordAt other.lastRecordAt
  duration := a.duration.merge other.duration
  queue := a.queue.merge other.queue
  firstOutput := a.firstOutput.merge other.firstOutput

end Aggregate

/-! ### Tables -/

/-- A row of a table of groups. -/
structure Row (α : Type) where
  keyName : String
  summary : α

/-- A row of `usage_deletions`. -/
structure Deletion where
  fromDay : Int
  toDay : Int
  clearedAt : Int
deriving DecidableEq, Repr

/-- The four tables of usage, each keyed as in the schema, and the deletions that keep
cleared records from coming back. -/
structure Store where
  events : Dict String UsageRecord := ∅
  daily : Dict Group (Row UsageSummary) := ∅
  performanceDaily : Dict Group (Row Aggregate) := ∅
  performanceHourly : Dict Group (Row Aggregate) := ∅
  deletions : List Deletion := []

/-- `INSERT .. ON CONFLICT(id) DO UPDATE`: read the row of the group, add to its summary,
and take the record's name for the key unless a later record gave one. -/
def upsert {α : Type} (empty : α) (lastAt : α → Int) (add : α → α) (g : Group)
    (r : UsageRecord) (table : Dict Group (Row α)) : Dict Group (Row α) :=
  let previous := table.lookup g
  let summary := (previous.map Row.summary).getD empty
  let latestName := lastAt summary ≤ r.completedAt
  let keyName := (previous.map Row.keyName).getD r.keyName
  table.insert g ⟨if latestName then r.keyName else keyName, add summary⟩

/-- `usage_performance::record`, for one table. -/
def recordPerformance (width : Int) (r : UsageRecord) (table : Dict Group (Row Aggregate)) :
    Dict Group (Row Aggregate) :=
  if r.kind = "count" then table
  else
    upsert {} Aggregate.lastRecordAt (fun aggregate => aggregate.merge (.record r))
      (r.group width) r table

def Deletion.covers (d : Deletion) (r : UsageRecord) : Bool :=
  d.fromDay ≤ bucket dayMs r.completedAt && bucket dayMs r.completedAt < d.toDay &&
    r.completedAt ≤ d.clearedAt

namespace Store

def insert (s : Store) (r : UsageRecord) : Store :=
  if s.deletions.any fun d => d.covers r then s
  else if (s.events.lookup r.requestId).isSome then s
  else
    { s with
      events := s.events.insert r.requestId r
      daily := upsert {} UsageSummary.lastUsed (fun summary => summary.add (.record r))
        (r.group dayMs) r s.daily
      performanceDaily := recordPerformance dayMs r s.performanceDaily
      performanceHourly := recordPerformance hourMs r s.performanceHourly }

/-- `write_batch`; the transaction of a batch that fails is rolled back. -/
def writeBatch (s : Store) (records : List UsageRecord) (committed : Bool) : Store :=
  if committed then records.foldl insert s else s

def prune (s : Store) (now : Int) : Store :=
  let day := bucket dayMs now
  { s with
    events := s.events.filter fun _ r =>
      decide (day - detailDays * dayMs ≤ bucket dayMs r.completedAt)
    daily := s.daily.filter fun g _ => decide (day - summaryDays * dayMs ≤ g.bucket)
    performanceDaily := s.performanceDaily.filter fun g _ =>
      decide (day - summaryDays * dayMs ≤ g.bucket)
    performanceHourly := s.performanceHourly.filter fun g _ =>
      decide (day - hourlyDays * dayMs ≤ g.bucket) }

/-- `UsageQuery::validate` of a range. -/
def validRange (fromDay toDay : Int) : Bool :=
  !(decide (fromDay < 0) || decide (toDay ≤ fromDay) ||
    decide (summaryDays * dayMs < toDay - fromDay) ||
    decide (fromDay % dayMs ≠ 0 ∨ toDay % dayMs ≠ 0))

/-- `clear_router_usage`; a range that is not valid is refused. -/
def clear (s : Store) (fromDay toDay clearedAt : Int) : Store :=
  if !validRange fromDay toDay then s
  else
    let outside (b : Int) : Bool := !(decide (fromDay ≤ b) && decide (b < toDay))
    { events := s.events.filter fun _ r => outside (bucket dayMs r.completedAt)
      daily := s.daily.filter fun g _ => outside g.bucket
      performanceDaily := s.performanceDaily.filter fun g _ => outside g.bucket
      performanceHourly := s.performanceHourly.filter fun g _ => outside g.bucket
      deletions := s.deletions ++ [⟨fromDay, toDay, clearedAt⟩] }

end Store

/-! ### Runs -/

/-- A transaction of the store. -/
inductive Op where
  | write (records : List UsageRecord) (committed : Bool)
  | prune (now : Int)
  | clear (fromDay toDay clearedAt : Int)

def step (s : Store) : Op → Store
  | .write records committed => s.writeBatch records committed
  | .prune now => s.prune now
  | .clear fromDay toDay clearedAt => s.clear fromDay toDay clearedAt

def run (ops : List Op) : Store := ops.foldl step {}

end LlamaServerManager.UsageStore
