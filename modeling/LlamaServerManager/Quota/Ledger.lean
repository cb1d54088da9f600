import LlamaServerManager.Lib.Calendar
import LlamaServerManager.Lib.Dict
import LlamaServerManager.Lib.Except
import LlamaServerManager.Models
import Mathlib.Data.List.Sort

/-!
The durable quota ledger of `usage_quota.rs` and its maintenance in
`usage_quota_maintenance.rs`: two tables, and the three transactions that write
them. A transaction works on a copy of the ledger and either commits it or
leaves the ledger as it was. What SQLite and the clock decide is an argument:
`Faults` says which database call fails, `Scan` in which order unordered rows are
visited.
-/

namespace LlamaServerManager.Quota

open Lib

/-- `MAX_TOKENS`, 2^53 - 1. -/
def maxTokens : Nat := 9007199254740991

def dayMs : Int := 86400000

def retentionDays : Int := 365

/-- A signed column read `as u64`. -/
def asU64 (n : Int) : Nat := (n % 2 ^ 64).toNat

def saturatingAdd (a b : Nat) : Nat := min (a + b) (2 ^ 64 - 1)

inductive QuotaError where
  | exceeded
  | unavailable
  | unmetered
  | invalidLimit (field : String)
  | multipleGenerations (field : String)
  | unsupportedBatch
deriving DecidableEq, Repr

/-! ### The two tables -/

inductive Kind where
  | day
  | month
deriving DecidableEq, Repr

/-- The primary key of `quota_periods`. -/
structure PeriodId where
  key : String
  kind : Kind
  start : Int
deriving DecidableEq, Repr

/-- The columns of `quota_periods`. -/
structure Period where
  settled : Int := 0
  held : Int := 0
  pending : Int := 0
  uncertain : Int := 0
deriving DecidableEq, Repr

inductive RequestState where
  | pending
  | settled
  | held
deriving DecidableEq, Repr

/-- The columns of `quota_requests`, whose primary key is the request's id. -/
structure Request where
  key : String
  day : Int
  month : Int
  reserved : Int
  state : RequestState
  actual : Option Int
  updated : Int
deriving DecidableEq, Repr

/-- The two periods a request is charged to. -/
def Request.period (r : Request) : Kind → PeriodId
  | .day => ⟨r.key, .day, r.day⟩
  | .month => ⟨r.key, .month, r.month⟩

def Request.charges (r : Request) (p : PeriodId) : Bool := r.period p.kind == p

/-- The tables `quota_periods` and `quota_requests`, by their primary keys. -/
structure Ledger where
  periods : Dict PeriodId Period := ∅
  requests : Dict String Request := ∅

/-- `period`: the row, or zeros. -/
def Ledger.period (l : Ledger) (p : PeriodId) : Period := (l.periods.lookup p).getD {}

/-! ### Time -/

/-- The first day of `NaiveDate::MIN`, -262143-01-01. -/
def minDay : Int := Calendar.monthStart (12 * (-262143) - 2)

/-- The day of `NaiveDate::MAX`, 262142-12-31. -/
def maxDay : Int := Calendar.monthStart (12 * 262143 - 2) - 1

/-- `usage_budgets::periods`: the starts of the day and of the month. -/
def periods (now : Int) : Except String (Int × Int) :=
  let date := now / dayMs
  if date < minDay ∨ maxDay < date then .error "Invalid budget timestamp"
  else
    let month := Calendar.firstOfMonth date
    if month < minDay then .error "Invalid budget month"
    else .ok (date * dayMs, month * dayMs)

/-! ### The transactions -/

/-- The database calls that can fail. -/
inductive Stage where
  | opening
  | beginning
  | reading (kind : Kind)
  | writing (kind : Kind)
  | finding
  | storing
  | committing
deriving DecidableEq, Repr

/-- The error text of every database call that fails. -/
def Faults := Stage → Option String

/-- No call fails. -/
def Faults.none : Faults := fun _ => Option.none

/-- Run a database call. -/
def Faults.call (faults : Faults) (stage : Stage) : Except String Unit :=
  match faults stage with
  | Option.none => .ok ()
  | some text => .error text

/-- The durable id of a reservation and the state of its guard. -/
structure QuotaPermit where
  id : String
  forwarded : Bool := false
  finished : Bool := false
deriving DecidableEq, Repr

/-- `unavailable`: details of the database stay local. -/
def unavailable {α : Type} : Except String α → Except QuotaError α
  | .ok a => .ok a
  | .error _ => .error .unavailable

/-- The upsert of a reservation into one period row. -/
def Ledger.hold (l : Ledger) (p : PeriodId) (amount : Nat) : Ledger :=
  { l with
    periods := l.periods.insert p
      (match l.periods.lookup p with
        | Option.none => { held := amount, pending := 1 }
        | some row => { row with held := row.held + amount, pending := row.pending + 1 }) }

/-- One turn of the loop over the two periods. -/
def reservePeriod (faults : Faults) (amount : Nat) (l : Ledger) (p : PeriodId) (limit : Nat) :
    Except QuotaError Ledger := do
  unavailable (faults.call (.reading p.kind))
  let current := l.period p
  let total := saturatingAdd (saturatingAdd (asU64 current.settled) (asU64 current.held)) amount
  if (0 < limit ∧ limit < total) ∨ maxTokens < total then .error .exceeded
  unavailable (faults.call (.writing p.kind))
  return l.hold p amount

/-- The transaction of `reserve_at`. -/
def reserveTransaction (faults : Faults) (l : Ledger) (key : ProxyApiKey) (id : String)
    (amount : Nat) (now : Int) : Except QuotaError Ledger := do
  if amount = 0 ∨ maxTokens < amount then .error .unmetered
  let (day, month) ← unavailable (periods now)
  unavailable (faults.call .opening)
  unavailable (faults.call .beginning)
  let l ← reservePeriod faults amount l ⟨key.id, .day, day⟩ key.dailyTokenLimit
  let l ← reservePeriod faults amount l ⟨key.id, .month, month⟩ key.monthlyTokenLimit
  unavailable (faults.call .storing)
  -- The id is the primary key: inserting it twice is an error.
  if id ∈ l.requests then .error .unavailable
  unavailable (faults.call .committing)
  return { l with
    requests := l.requests.insert id ⟨key.id, day, month, amount, .pending, Option.none, now⟩ }

/-- `reserve_at`: the committed ledger, or the unchanged one with the error. -/
def reserveAt (faults : Faults) (l : Ledger) (key : ProxyApiKey) (id : String) (amount : Nat)
    (now : Int) : Ledger × Except QuotaError QuotaPermit :=
  match reserveTransaction faults l key id amount now with
  | .ok l' => (l', .ok { id })
  | .error e => (l, .error e)

/-- What a settlement adds to `settled`. -/
def charged (reserved : Nat) (actual : Option Nat) (complete : Bool) : Nat :=
  min (if complete then actual.getD reserved else 0) maxTokens

/-- What a settlement keeps in `held`. -/
def retained (reserved : Nat) (actual : Option Nat) (complete : Bool) : Nat :=
  if complete then 0 else min (max (actual.getD 0) reserved) maxTokens

/-- The update of one period row by a settlement. -/
def Period.settle (row : Period) (reserved : Nat) (actual : Option Nat) (complete : Bool) : Period :=
  { settled := min maxTokens (row.settled + charged reserved actual complete)
    held := min maxTokens (row.held - reserved + retained reserved actual complete)
    pending := row.pending - 1
    uncertain := row.uncertain + if complete then 0 else 1 }

/-- The update of the request row by a settlement. -/
def Request.settle (r : Request) (actual : Option Nat) (complete : Bool) (clock : Int) : Request :=
  { r with
    state := if complete then .settled else .held
    actual := actual.map fun v => ((min v maxTokens : Nat) : Int)
    updated := clock }

/-- The writes of a settlement of the pending request `r`. -/
def Ledger.settle (l : Ledger) (id : String) (r : Request) (actual : Option Nat) (complete : Bool)
    (clock : Int) : Ledger :=
  let row := fun row : Period => row.settle (asU64 r.reserved) actual complete
  { periods := Dict.modify (r.period .month) row (Dict.modify (r.period .day) row l.periods)
    requests := Dict.modify id (fun r => r.settle actual complete clock) l.requests }

/-- The transaction of `settle`; the clock is read when the request row is written. -/
def settleTransaction (faults : Faults) (l : Ledger) (id : String) (actual : Option Nat)
    (complete : Bool) (clock : Int) : Except String Ledger := do
  faults.call .opening
  faults.call .beginning
  faults.call .finding
  match l.requests.lookup id with
  | Option.none => return l
  | some r =>
    if r.state ≠ .pending then return l
    faults.call (.writing .day)
    faults.call (.writing .month)
    faults.call .storing
    faults.call .committing
    return l.settle id r actual complete clock

def settle (faults : Faults) (l : Ledger) (id : String) (actual : Option Nat) (complete : Bool)
    (clock : Int) : Ledger × Except String Unit :=
  match settleTransaction faults l id actual complete clock with
  | .ok l' => (l', .ok ())
  | .error e => (l, .error e)

/-! ### Maintenance -/

/-- The order in which SQLite visits rows no `ORDER BY` decides about. -/
structure Scan where
  requests : List (String × Request) → List (String × Request)
  periods : List PeriodId → List PeriodId
  requests_perm : ∀ l, (requests l).Perm l
  periods_perm : ∀ l, (periods l).Perm l

/-- Rows are visited as they are stored. -/
def Scan.stored : Scan where
  requests := id
  periods := id
  requests_perm := List.Perm.refl
  periods_perm := List.Perm.refl

/-- `LIMIT batch as i64`: a negative limit is no limit. -/
def limited {α : Type} (batch : Nat) (l : List α) : List α :=
  if batch < 2 ^ 63 then l.take batch else l

/-- A terminal request whose retention is over. -/
def Request.expired (r : Request) (cutoff month : Int) : Bool :=
  r.day < cutoff && r.month < month && r.updated < cutoff && r.state != .pending

/-- The requests of one pass: the oldest expired ones. -/
def Ledger.expiredRequests (l : Ledger) (scan : Scan) (cutoff month : Int) (batch : Nat) :
    List (String × Request) :=
  let rows := (l.requests.entries.map fun e => (e.1, e.2)).filter fun e => e.2.expired cutoff month
  limited batch ((scan.requests rows).insertionSort fun a b => a.2.day ≤ b.2.day)

/-- A settled period no request is charged to any more. -/
def Ledger.unused (l : Ledger) (cutoff month : Int) (p : PeriodId) (row : Period) : Bool :=
  p.start < cutoff && p.start < month && row.pending == 0 &&
    !(l.requests.entries.any fun e => e.2.charges p)

def Ledger.unusedPeriods (l : Ledger) (scan : Scan) (cutoff month : Int) (batch : Nat) :
    List PeriodId :=
  let rows := l.periods.entries.filter fun e => l.unused cutoff month e.1 e.2
  limited batch (scan.periods (rows.map (·.1)))

def Ledger.deleteRequests (l : Ledger) (rows : List (String × Request)) : Ledger :=
  { l with requests := Dict.filter (fun id _ => !rows.any fun e => e.1 == id) l.requests }

def Ledger.deletePeriods (l : Ledger) (rows : List PeriodId) : Ledger :=
  { l with periods := Dict.filter (fun p _ => !rows.contains p) l.periods }

/-- The transaction of `prune`, and whether another pass may be needed. -/
def pruneTransaction (faults : Faults) (scan : Scan) (l : Ledger) (now : Int) (batch : Nat) :
    Except String (Ledger × Bool) := do
  let (day, month) ← periods now
  -- No representable day is so early that the subtraction would saturate.
  let cutoff := day - retentionDays * dayMs
  faults.call .beginning
  faults.call .finding
  let expired := l.expiredRequests scan cutoff month batch
  let l := l.deleteRequests expired
  faults.call .storing
  let unused := l.unusedPeriods scan cutoff month batch
  let l := l.deletePeriods unused
  faults.call .committing
  return (l, expired.length == batch || unused.length == batch)

def prune (faults : Faults) (scan : Scan) (l : Ledger) (now : Int) (batch : Nat) :
    Ledger × Except String Bool :=
  match pruneTransaction faults scan l now batch with
  | .ok (l', more) => (l', .ok more)
  | .error e => (l, .error e)

end LlamaServerManager.Quota
