import LlamaServerManager.Lib.Keyset
import LlamaServerManager.UsageStore.Store
import Mathlib.Data.Prod.Lex
import Mathlib.Data.String.Basic

/-!
The request log: `usage_requests.rs` over the table `usage_events` with its row
ids. The table has no `AUTOINCREMENT`, so a row gets the number after the largest
one there is. A first page takes that number as its snapshot and the pages after
it read only rows up to it; between two pages the table changes.
-/

namespace LlamaServerManager.UsageStore

open Lib

/-! ### The table -/

/-- A record, with the ids it is searched by. The router names a request with `usage_` and a
UUID; a cursor holds ids of up to 128 bytes. -/
structure RequestRecord extends toStored : UsageRecord where
  responseRequestId : Option String := none
  responseXRequestId : Option String := none
  upstreamRequestId : Option String := none
  short : requestId.utf8ByteSize ≤ 128
deriving DecidableEq

/-- `completed` and `id`, in the order of the pages. -/
def RequestRecord.key (r : RequestRecord) : Int ×ₗ String := toLex (r.completedAt, r.requestId)

structure EventRow where
  rowid : Int
  record : RequestRecord
deriving DecidableEq

/-- `COALESCE(MAX(rowid),0)`. -/
def maxRowid (rows : List EventRow) : Int := rows.foldr (fun row n => max row.rowid n) 0

theorem le_maxRowid {rows : List EventRow} {row : EventRow} (mem : row ∈ rows) :
    row.rowid ≤ maxRowid rows := by
  induction rows with
  | nil => cases mem
  | cons first rows ih =>
    rcases List.mem_cons.mp mem with rfl | mem
    · exact le_max_left _ _
    · exact (ih mem).trans (le_max_right _ _)

/-- `usage_events` and `usage_deletions`. The request id is the primary key. -/
structure EventTable where
  rows : List EventRow
  deletions : List Deletion
  rowids : (rows.map EventRow.rowid).Nodup
  ids : (rows.map fun row => row.record.requestId).Nodup

namespace EventTable

def has (t : EventTable) (id : String) : Bool := t.rows.any fun row => row.record.requestId = id

/-- `insert` leaves the table alone. -/
def ignores (t : EventTable) (r : RequestRecord) : Bool :=
  (t.deletions.any fun d => d.covers r.toStored) || t.has r.requestId

/-- The new row. -/
def append (t : EventTable) (r : RequestRecord) (new : t.has r.requestId = false) :
    EventTable where
  rows := t.rows ++ [⟨maxRowid t.rows + 1, r⟩]
  deletions := t.deletions
  rowids := by
    have larger : ∀ row ∈ t.rows, row.rowid ≠ maxRowid t.rows + 1 := by
      intro row mem
      have := le_maxRowid mem
      omega
    simpa [List.nodup_append, t.rowids] using larger
  ids := by
    have other : ∀ row ∈ t.rows, row.record.requestId ≠ r.requestId := by
      simpa [has] using new
    simpa [List.nodup_append, t.ids] using other

/-- `insert`, with `INSERT OR IGNORE`. -/
def insert (t : EventTable) (r : RequestRecord) : EventTable :=
  if t.deletions.any fun d => d.covers r.toStored then t
  else
    match h : t.has r.requestId with
    | true => t
    | false => t.append r h

/-- `DELETE` of the rows that are not kept. -/
def retain (t : EventTable) (keep : EventRow → Bool) : EventTable where
  rows := t.rows.filter keep
  deletions := t.deletions
  rowids := t.rowids.sublist (List.filter_sublist.map _)
  ids := t.ids.sublist (List.filter_sublist.map _)

def prune (t : EventTable) (now : Int) : EventTable :=
  t.retain fun row =>
    decide (bucket dayMs now - detailDays * dayMs ≤ bucket dayMs row.record.completedAt)

/-- `clear_router_usage`; a range that is not valid is refused. -/
def clear (t : EventTable) (fromDay toDay clearedAt : Int) : EventTable :=
  if !Store.validRange fromDay toDay then t
  else
    { t.retain fun row =>
        !(decide (fromDay ≤ bucket dayMs row.record.completedAt) &&
          decide (bucket dayMs row.record.completedAt < toDay)) with
      deletions := t.deletions ++ [⟨fromDay, toDay, clearedAt⟩] }

end EventTable

/-- What happens to the table. A batch that is committed is its inserts, one that is rolled back
is nothing. -/
inductive Change where
  | insert (r : RequestRecord)
  | prune (now : Int)
  | clear (fromDay toDay clearedAt : Int)

def EventTable.change (t : EventTable) : Change → EventTable
  | .insert r => t.insert r
  | .prune now => t.prune now
  | .clear fromDay toDay clearedAt => t.clear fromDay toDay clearedAt

/-! ### Queries -/

structure RequestCursor where
  completedAt : Int
  requestId : String
  snapshotRowId : Int
deriving DecidableEq, Repr

def RequestCursor.key (c : RequestCursor) : Int ×ₗ String := toLex (c.completedAt, c.requestId)

/-- `RequestQuery` with its `UsageQuery`. -/
structure RequestQuery where
  fromMs : Int
  toMs : Int
  keyId : Option String := none
  model : Option String := none
  instanceId : Option String := none
  endpoint : Option String := none
  kind : Option String := none
  outcome : Option String := none
  failureCode : Option String := none
  requestId : Option String := none
  minDurationMs : Option Nat := none
  minQueueMs : Option Nat := none
  minFirstOutputMs : Option Nat := none
  cursor : Option RequestCursor := none

namespace RequestQuery

/-- `validate_range(false)`. -/
def validateRange (q : RequestQuery) : Bool :=
  !(decide (q.fromMs < 0) || decide (q.toMs ≤ q.fromMs) ||
      decide (summaryDays * dayMs < q.toMs - q.fromMs)) &&
    [q.keyId, q.model, q.instanceId, q.endpoint, q.kind].reduceOption.all fun s =>
      decide (s.utf8ByteSize ≤ 1024)

def validate (q : RequestQuery) : Bool :=
  q.validateRange &&
    ([q.outcome, q.failureCode, q.requestId].reduceOption.all fun s =>
      decide (s.utf8ByteSize ≤ 128)) &&
    !q.cursor.any fun c =>
      decide (c.snapshotRowId < 0) || decide (128 < c.requestId.utf8ByteSize) ||
        decide (c.completedAt < q.fromMs) || decide (q.toMs < c.completedAt)

end RequestQuery

/-- The name of an outcome in a record. -/
def outcomeName : Option Usage.Outcome → String
  | none => ""
  | some .cancelled => "cancelled"
  | some .rejected => "rejected"
  | some .failed => "failed"
  | some .incomplete => "incomplete"
  | some .success => "success"

/-- `AND field = ?`, where the filter is given. -/
def equals (filter value : Option String) : Bool := filter.all fun wanted => value = some wanted

/-- `AND field >= ?`, where the filter is given. -/
def atLeast (filter value : Option Nat) : Bool :=
  filter.all fun least => value.any fun n => least ≤ n

namespace RequestQuery

/-- The predicates of `statement` but for the snapshot and the cursor. -/
def admits (q : RequestQuery) (r : RequestRecord) : Bool :=
  decide (q.fromMs ≤ r.completedAt) && decide (r.completedAt < q.toMs) &&
    equals q.keyId r.keyId && equals q.model r.model && equals q.instanceId r.instanceId &&
    equals q.endpoint r.endpoint && equals q.kind r.kind &&
    equals q.outcome (outcomeName r.outcome) &&
    equals q.failureCode (r.failure.map fun failure => failure.code) &&
    (q.kind.isSome || r.kind != "count") &&
    (q.requestId.all fun id =>
      r.requestId = id || r.responseRequestId = some id || r.responseXRequestId = some id ||
        r.upstreamRequestId = some id) &&
    atLeast q.minDurationMs (some r.durationMs) &&
    atLeast q.minQueueMs (if r.queueEntered then some r.queueMs else none) &&
    atLeast q.minFirstOutputMs r.firstOutputMs

/-- The rows that `statement` selects. -/
def statement (q : RequestQuery) (snapshot : Int) (row : EventRow) : Bool :=
  q.admits row.record && decide (row.rowid ≤ snapshot) &&
    q.cursor.all fun c => decide (row.record.key < c.key)

end RequestQuery

structure RequestPage where
  records : List RequestRecord
  nextCursor : Option RequestCursor
  firstCursor : RequestCursor

/-- `query`. -/
def EventTable.query (t : EventTable) (q : RequestQuery) : RequestPage :=
  let snapshot := q.cursor.elim (maxRowid t.rows) fun c => c.snapshotRowId
  let page := Keyset.page RequestRecord.key 50
    ((t.rows.filter (q.statement snapshot)).map EventRow.record)
  { records := page.records
    nextCursor := page.next.map fun key => ⟨(ofLex key).1, (ofLex key).2, snapshot⟩
    firstCursor := ⟨q.toMs, "", snapshot⟩ }

/-- `get_router_usage_requests`; a query that is not valid is refused. -/
def EventTable.getRouterUsageRequests (t : EventTable) (q : RequestQuery) : Option RequestPage :=
  if q.validate then some (t.query q) else none

/-! ### Following the pages -/

/-- A page, with the table it was read from and what was inserted since the first page. -/
structure Fetch where
  table : EventTable
  cursor : Option RequestCursor
  late : List RequestRecord
  page : RequestPage

inductive Pending where
  | first
  | more (cursor : RequestCursor)
  | finished

structure Reading where
  table : EventTable
  pending : Pending := .first
  /-- The pages that were read, in order. -/
  fetches : List Fetch := []
  /-- What was inserted since the first page. -/
  late : List RequestRecord := []

namespace Reading

def fetch (q : RequestQuery) (s : Reading) (cursor : Option RequestCursor) : Option Reading :=
  (s.table.getRouterUsageRequests { q with cursor }).map fun page =>
    { s with
      fetches := s.fetches ++ [⟨s.table, cursor, s.late, page⟩]
      pending := page.nextCursor.elim .finished .more }

/-- The table changes; what it takes in after the first page is late. -/
def change (s : Reading) (c : Change) : Reading :=
  { s with
    table := s.table.change c
    late :=
      match c with
      | .insert r => if s.fetches.isEmpty || s.table.ignores r then s.late else s.late ++ [r]
      | _ => s.late }

end Reading

inductive Action where
  | change (c : Change)
  | fetch

/-- A table that changes while the pages of a query are followed. -/
def reading (table : EventTable) (q : RequestQuery) : Machine Reading Action where
  init := { table }
  next s
    | .change c => some (s.change c)
    | .fetch =>
      match s.pending with
      | .first => s.fetch q none
      | .more cursor => s.fetch q (some cursor)
      | .finished => none

/-- No row of the snapshot's numbers is made below the cursor: the largest row is there when a
record comes in, or the record is none of those that are still to be read. -/
def Undisturbed (q : RequestQuery) (s : Reading) (a : Action) (_ : Reading) : Prop :=
  match s.pending, a with
  | .more cursor, .change (.insert r) =>
    s.table.ignores r ∨ cursor.snapshotRowId ≤ maxRowid s.table.rows ∨ ¬ q.admits r ∨
      ¬ r.key < cursor.key
  | _, _ => True

namespace Fetch

def records (f : Fetch) : List RequestRecord := f.page.records

/-- The record is of the part of the log that the page is of. -/
def Covers (f : Fetch) (r : RequestRecord) : Prop :=
  (∀ c ∈ f.cursor, r.key < c.key) ∧ ∀ n ∈ f.page.nextCursor, n.key ≤ r.key

end Fetch

namespace Reading

/-- The table the first page was read from. -/
def first (s : Reading) : EventTable := (s.fetches.head?.map Fetch.table).getD s.table

/-- The records of all pages, in order. -/
def records (s : Reading) : List RequestRecord := s.fetches.flatMap Fetch.records

end Reading

/-- A stable snapshot, in the pages read so far. -/
structure Stable (q : RequestQuery) (s : Reading) : Prop where
  /-- The records come in descending order, and so none comes twice. -/
  ordered : s.records.Pairwise fun a b => b.key < a.key
  /-- A record on a page was there at the first page, and is none that came in later. -/
  sound : ∀ f ∈ s.fetches, ∀ r ∈ f.records,
    q.admits r ∧ r ∈ s.first.rows.map EventRow.record ∧ r ∈ f.table.rows.map EventRow.record ∧
      r ∉ f.late
  /-- A record that was there at the first page and still is, is on the page that covers it. -/
  complete : ∀ r ∈ s.first.rows.map EventRow.record, q.admits r → ∀ f ∈ s.fetches, f.Covers r →
    r ∈ f.table.rows.map EventRow.record → r ∉ f.late → r ∈ f.records

/-! ### What a change and a query do -/

namespace EventTable

variable {t : EventTable} {r : RequestRecord} {row : EventRow}

theorem insert_rows (t : EventTable) (r : RequestRecord) :
    (t.insert r).rows =
      if t.ignores r then t.rows else t.rows ++ [⟨maxRowid t.rows + 1, r⟩] := by
  unfold insert ignores
  split
  · rename_i deleted
    simp [deleted]
  · rename_i kept
    split <;> rename_i known <;> simp [kept, known, append]

/-- A change but an insert leaves a part of the rows. -/
theorem change_rows (t : EventTable) (c : Change) :
    ((∀ r, c = .insert r → t.ignores r) ∧ (t.change c).rows ⊆ t.rows) ∨
      ∃ r, c = .insert r ∧ t.ignores r = false ∧
        (t.change c).rows = t.rows ++ [⟨maxRowid t.rows + 1, r⟩] := by
  cases c with
  | insert r =>
    simp only [change, insert_rows]
    cases ignored : t.ignores r with
    | true => exact .inl ⟨by simp [ignored], by simp⟩
    | false => exact .inr ⟨r, rfl, ignored, by simp⟩
  | prune now => exact .inl ⟨by simp, List.filter_subset_self _⟩
  | clear fromDay toDay clearedAt =>
    refine .inl ⟨by simp, ?_⟩
    simp only [change, clear]
    split
    · exact fun _ mem => mem
    · exact List.filter_subset_self _

/-- A record that comes in is none of those that are there. -/
theorem ne_of_not_ignores (comes : t.ignores r = false) (mem : row ∈ t.rows) : row.record ≠ r := by
  rintro rfl
  have absent : t.has row.record.requestId = false := by
    simp only [ignores, Bool.or_eq_false_iff] at comes
    exact comes.2
  have present : t.has row.record.requestId = true := by
    simpa [has] using ⟨row, mem, rfl⟩
  rw [present] at absent
  cases absent

/-- The keys of the rows that are selected. -/
theorem keys_nodup (t : EventTable) (p : EventRow → Bool) :
    (((t.rows.filter p).map EventRow.record).map RequestRecord.key).Nodup := by
  have ids := t.ids.sublist ((List.filter_sublist (p := p)).map _)
  rw [List.map_map]
  refine List.Nodup.of_map (fun key : Int ×ₗ String => (ofLex key).2) ?_
  rw [List.map_map]
  exact ids

end EventTable

/-! ### What is ahead -/

theorem maxRowid_nonneg (rows : List EventRow) : 0 ≤ maxRowid rows := by
  induction rows with
  | nil => exact le_rfl
  | cons row rows ih => exact ih.trans (le_max_right _ _)

namespace Pending

/-- The cursor the next page is read with. -/
def cursor : Pending → Option RequestCursor
  | .more cursor => some cursor
  | _ => none

/-- The record belongs on a page that is still to be read. -/
def Ahead : Pending → RequestRecord → Prop
  | .first, _ => True
  | .more cursor, r => r.key < cursor.key
  | .finished, _ => False

@[simp] theorem ahead_finished (r : RequestRecord) : ¬ Pending.finished.Ahead r := id

/-- What is read comes before what is ahead. -/
theorem Ahead.key_lt {p : Pending} {r r' : RequestRecord} (ahead : p.Ahead r')
    (behind : ¬ p.Ahead r) : r'.key < r.key := by
  cases p with
  | first => exact absurd trivial behind
  | more cursor => exact lt_of_lt_of_le ahead (not_lt.mp behind)
  | finished => exact ahead.elim

/-- The next page is read where a record is ahead and in the range up to its cursor. -/
theorem ahead_next {page : RequestPage} {r : RequestRecord} :
    Pending.Ahead (page.nextCursor.elim .finished .more) r ↔
      ∃ n ∈ page.nextCursor, r.key < n.key := by
  cases page.nextCursor with
  | none => simp
  | some n => simp [Ahead]

end Pending

/-! ### The pages of a run -/

/-- What holds while the pages are followed. -/
structure Following (q : RequestQuery) (s : Reading) : Prop extends Stable q s where
  begins : s.pending = .first ↔ s.fetches = []
  fresh : s.fetches = [] → s.late = []
  /-- The next page is read with the snapshot and a cursor that is valid. -/
  cursors : ∀ c, s.pending = .more c → c.snapshotRowId = maxRowid s.first.rows ∧
    ({ q with cursor := some c } : RequestQuery).validate
  known : ∀ row ∈ s.table.rows, row.record ∈ s.late ∨ row ∈ s.first.rows
  /-- What is still to be read of the snapshot's numbers was there at the first page. -/
  ahead : ∀ row ∈ s.table.rows, row.rowid ≤ maxRowid s.first.rows → q.admits row.record →
    s.pending.Ahead row.record → row ∈ s.first.rows ∧ row.record ∉ s.late
  behind : ∀ r ∈ s.records, ¬ s.pending.Ahead r
  /-- Each record that is not ahead has its page. -/
  covered : ∀ r, ¬ s.pending.Ahead r → ∃ f ∈ s.fetches, f.Covers r ∧
    ∀ g ∈ s.fetches, g.Covers r → g = f
  uncovered : ∀ r, s.pending.Ahead r → ∀ f ∈ s.fetches, ¬ f.Covers r
  /-- Every page but a last one is full. -/
  full : 50 * (s.fetches.length - 1) ≤ s.records.length ∧
    (s.pending ≠ .finished → 50 * s.fetches.length ≤ s.records.length)

variable {q : RequestQuery} {s t : Reading} {table : EventTable}

theorem Following.init (q : RequestQuery) (table : EventTable) :
    Following q (reading table q).init where
  ordered := .nil
  sound := by simp [reading]
  complete := by simp [reading]
  begins := by simp [reading]
  fresh := fun _ => rfl
  cursors := fun c h => by cases h
  known := fun row mem => .inr mem
  ahead := fun row mem _ _ _ => ⟨mem, by simp [reading]⟩
  behind := by simp [reading, Reading.records]
  covered := fun r h => absurd trivial h
  uncovered := by simp [reading]
  full := by simp [reading]

/-! ### Changes -/

/-- Before the first page the log may change as it likes. -/
theorem Following.change_fresh (h : Following q s) (empty : s.fetches = []) (c : Change) :
    Following q (s.change c) := by
  have first := h.begins.mpr empty
  have late := h.fresh empty
  have none : (s.change c).late = [] := by
    cases c <;> simp [Reading.change, empty, late]
  have records : (s.change c).records = [] := by simp [Reading.change, Reading.records, empty]
  have whole : (s.change c).first = (s.change c).table := by
    simp [Reading.change, Reading.first, empty]
  have fetches : (s.change c).fetches = [] := empty
  have pending : (s.change c).pending = .first := first
  exact
    { ordered := by simp [records]
      sound := by simp [fetches]
      complete := by simp [fetches]
      begins := by simp [pending, fetches]
      fresh := fun _ => none
      cursors := fun c h => by simp [pending] at h
      known := fun row mem => .inr (whole ▸ mem)
      ahead := fun row mem _ _ _ => ⟨whole ▸ mem, by simp [none]⟩
      behind := by simp [records]
      covered := fun r h => absurd (by simp [pending, Pending.Ahead]) h
      uncovered := by simp [fetches]
      full := by simp [fetches] }

/-- What a change does to a reading that has begun. -/
theorem Reading.change_cases (s : Reading) (begun : s.fetches ≠ []) (c : Change) :
    ((s.change c).table.rows ⊆ s.table.rows ∧ (s.change c).late = s.late) ∨
      ∃ r, c = .insert r ∧ s.table.ignores r = false ∧ (s.change c).late = s.late ++ [r] ∧
        (s.change c).table.rows = s.table.rows ++ [⟨maxRowid s.table.rows + 1, r⟩] := by
  have nonempty : s.fetches.isEmpty = false := by simpa using begun
  rcases s.table.change_rows c with ⟨ignored, fewer⟩ | ⟨r, rfl, comes, rows⟩
  · refine .inl ⟨fewer, ?_⟩
    cases c with
    | insert r => simp [Reading.change, ignored r rfl]
    | prune | clear => rfl
  · exact .inr ⟨r, rfl, comes, by simp [Reading.change, nonempty, comes], rows⟩

theorem Following.change (h : Following q s) {c : Change}
    (keeps : Undisturbed q s (.change c) (s.change c)) : Following q (s.change c) := by
  by_cases begun : s.fetches = []
  · exact h.change_fresh begun c
  obtain ⟨page, pages, first⟩ := List.exists_cons_of_ne_nil begun
  have sameFirst : (s.change c).first = s.first := by
    simp [Reading.change, Reading.first, first]
  -- only the table and the records that came in late are not as they were
  suffices both : (∀ row ∈ (s.change c).table.rows,
        row.record ∈ (s.change c).late ∨ row ∈ s.first.rows) ∧
      ∀ row ∈ (s.change c).table.rows, row.rowid ≤ maxRowid s.first.rows → q.admits row.record →
        s.pending.Ahead row.record → row ∈ s.first.rows ∧ row.record ∉ (s.change c).late by
    exact
      { ordered := h.ordered
        sound := sameFirst ▸ h.sound
        complete := sameFirst ▸ h.complete
        begins := h.begins
        fresh := fun empty => absurd empty begun
        cursors := sameFirst ▸ h.cursors
        known := sameFirst ▸ both.1
        ahead := sameFirst ▸ both.2
        behind := h.behind
        covered := h.covered
        uncovered := h.uncovered
        full := h.full }
  rcases s.change_cases begun c with ⟨fewer, late⟩ | ⟨r, rfl, comes, late, rows⟩
  · rw [late]
    exact ⟨fun row mem => h.known row (fewer mem), fun row mem => h.ahead row (fewer mem)⟩
  · rw [late, rows]
    constructor
    · intro row mem
      rcases List.mem_append.mp mem with old | new
      · exact (h.known row old).imp_left fun late => by simp [late]
      · obtain rfl : row = ⟨maxRowid s.table.rows + 1, r⟩ := by simpa using new
        exact .inl (by simp)
    · intro row mem small admits ahead
      rcases List.mem_append.mp mem with old | new
      · obtain ⟨known, notLate⟩ := h.ahead row old small admits ahead
        have other := EventTable.ne_of_not_ignores comes old
        exact ⟨known, by simp [notLate, other]⟩
      · -- the new row has a number of the snapshot only where the largest row is gone
        obtain rfl : row = ⟨maxRowid s.table.rows + 1, r⟩ := by simpa using new
        cases pending : s.pending with
        | first => exact absurd (h.begins.mp pending) begun
        | finished => simp [pending] at ahead
        | more cursor =>
          have snapshot := (h.cursors cursor pending).1
          simp only [Undisturbed, pending] at keeps ahead small
          rcases keeps with ignored | kept | other | behind
          · simp [comes] at ignored
          · omega
          · exact absurd admits other
          · exact absurd ahead behind

/-! ### Fetches -/

/-- The rows a page is read from. -/
def Reading.rows (q : RequestQuery) (s : Reading) : List RequestRecord :=
  (s.table.rows.filter (RequestQuery.statement { q with cursor := s.pending.cursor }
    (s.pending.cursor.elim (maxRowid s.table.rows) fun c => c.snapshotRowId))).map EventRow.record

/-- The page that is read next. -/
def Reading.page (q : RequestQuery) (s : Reading) : RequestPage :=
  s.table.query { q with cursor := s.pending.cursor }

def Reading.fetched (q : RequestQuery) (s : Reading) : Reading :=
  { s with
    fetches := s.fetches ++ [⟨s.table, s.pending.cursor, s.late, s.page q⟩]
    pending := (s.page q).nextCursor.elim .finished .more }

theorem next_fetch :
    (reading table q).next s .fetch = some t ↔
      s.pending ≠ .finished ∧ ({ q with cursor := s.pending.cursor } : RequestQuery).validate ∧
        t = s.fetched q := by
  cases pending : s.pending with
  | finished => simp [reading, pending]
  | first =>
    simp [reading, pending, Reading.fetch, EventTable.getRouterUsageRequests, Reading.fetched,
      Reading.page, Pending.cursor, @eq_comm _ t]
  | more cursor =>
    simp [reading, pending, Reading.fetch, EventTable.getRouterUsageRequests, Reading.fetched,
      Reading.page, Pending.cursor, @eq_comm _ t]

namespace Following

theorem snapshot (h : Following q s) (reads : s.pending ≠ .finished) :
    (s.pending.cursor.elim (maxRowid s.table.rows) fun c => c.snapshotRowId) =
      maxRowid s.first.rows := by
  cases pending : s.pending with
  | finished => exact absurd pending reads
  | first => simp [Pending.cursor, Reading.first, h.begins.mp pending]
  | more cursor => exact (h.cursors cursor pending).1

/-- A page is read from what is ahead in the snapshot. -/
theorem statement_iff (h : Following q s) (reads : s.pending ≠ .finished) {row : EventRow} :
    RequestQuery.statement { q with cursor := s.pending.cursor }
        (s.pending.cursor.elim (maxRowid s.table.rows) fun c => c.snapshotRowId) row ↔
      q.admits row.record ∧ row.rowid ≤ maxRowid s.first.rows ∧ s.pending.Ahead row.record := by
  rw [h.snapshot reads]
  cases pending : s.pending with
  | finished => exact absurd pending reads
  | first => simp [RequestQuery.statement, RequestQuery.admits, Pending.cursor, Pending.Ahead]
  | more cursor =>
    simp [RequestQuery.statement, RequestQuery.admits, Pending.cursor, Pending.Ahead, and_assoc]

theorem mem_rows (h : Following q s) (reads : s.pending ≠ .finished) {r : RequestRecord} :
    r ∈ s.rows q ↔ ∃ row ∈ s.table.rows, row.record = r ∧ q.admits r ∧
      row.rowid ≤ maxRowid s.first.rows ∧ s.pending.Ahead r := by
  simp only [Reading.rows, List.mem_map, List.mem_filter, h.statement_iff reads]
  constructor
  · rintro ⟨row, ⟨mem, selected⟩, rfl⟩
    exact ⟨row, mem, rfl, selected⟩
  · rintro ⟨row, mem, rfl, selected⟩
    exact ⟨row, ⟨mem, selected⟩, rfl⟩

end Following

theorem fetched_pending (q : RequestQuery) (s : Reading) :
    (s.fetched q).pending = (s.page q).nextCursor.elim .finished .more := rfl

theorem nextCursor_key (q : RequestQuery) (s : Reading) :
    (s.page q).nextCursor.map RequestCursor.key =
      (Keyset.page RequestRecord.key 50 (s.rows q)).next := by
  simp only [Reading.page, EventTable.query, Reading.rows, Option.map_map]
  exact Option.map_id'

theorem ahead_fetched {r : RequestRecord} :
    (s.fetched q).pending.Ahead r ↔
      ∃ n ∈ (Keyset.page RequestRecord.key 50 (s.rows q)).next, r.key < n := by
  rw [fetched_pending, Pending.ahead_next, ← nextCursor_key]
  simp

theorem rows_nodup (q : RequestQuery) (s : Reading) :
    ((s.rows q).map RequestRecord.key).Nodup := s.table.keys_nodup _

theorem page_records (q : RequestQuery) (s : Reading) :
    (s.page q).records = (Keyset.page RequestRecord.key 50 (s.rows q)).records := rfl

/-- A page holds what is selected and not left to the next one. -/
theorem mem_page {r : RequestRecord} :
    r ∈ (s.page q).records ↔ r ∈ s.rows q ∧ ¬ (s.fetched q).pending.Ahead r := by
  rw [page_records, Keyset.mem_records (by omega) (rows_nodup q s), ahead_fetched]
  simp

theorem records_fetched (q : RequestQuery) (s : Reading) :
    (s.fetched q).records = s.records ++ (s.page q).records := by
  simp [Reading.records, Reading.fetched, Fetch.records]

theorem first_fetched (q : RequestQuery) (s : Reading) : (s.fetched q).first = s.first := by
  cases pages : s.fetches <;> simp [Reading.fetched, Reading.first, pages]

/-- The new page covers what is ahead no more. -/
theorem covers_page (reads : s.pending ≠ .finished) {r : RequestRecord} :
    Fetch.Covers ⟨s.table, s.pending.cursor, s.late, s.page q⟩ r ↔
      s.pending.Ahead r ∧ ¬ (s.fetched q).pending.Ahead r := by
  have below : (∀ c ∈ s.pending.cursor, r.key < c.key) ↔ s.pending.Ahead r := by
    cases pending : s.pending with
    | first => simp [Pending.cursor, Pending.Ahead]
    | finished => exact absurd pending reads
    | more cursor => simp [Pending.cursor, Pending.Ahead]
  have above : (∀ n ∈ (s.page q).nextCursor, n.key ≤ r.key) ↔
      ¬ (s.fetched q).pending.Ahead r := by
    rw [fetched_pending, Pending.ahead_next]
    simp
  unfold Fetch.Covers
  rw [below, above]

/-- A cursor at a record the query admits is valid. -/
theorem RequestQuery.validate_cursor (valid : q.validate) {c : RequestCursor} {r : RequestRecord}
    (admits : q.admits r) (completed : c.completedAt = r.completedAt)
    (id : c.requestId = r.requestId) (snapshot : 0 ≤ c.snapshotRowId) :
    ({ q with cursor := some c } : RequestQuery).validate := by
  have range : q.fromMs ≤ r.completedAt ∧ r.completedAt < q.toMs := by
    simp only [RequestQuery.admits, Bool.and_eq_true, decide_eq_true_eq] at admits
    tauto
  have short := r.short
  simp only [RequestQuery.validate, RequestQuery.validateRange, Bool.and_eq_true] at valid ⊢
  refine ⟨valid.1, ?_⟩
  simp [completed, id]
  omega

/-- The key of a cursor is that of a record that was selected. -/
theorem nextCursor_mem {n : RequestCursor} (next : (s.page q).nextCursor = some n) :
    n.snapshotRowId = s.pending.cursor.elim (maxRowid s.table.rows) (fun c => c.snapshotRowId) ∧
      ∃ r ∈ s.rows q, n.completedAt = r.completedAt ∧ n.requestId = r.requestId := by
  obtain ⟨key, isNext, rfl⟩ := Option.map_eq_some_iff.mp next
  obtain ⟨last, mem, rfl⟩ := Keyset.next_mem isNext
  exact ⟨rfl, last, Keyset.mem_of_mem_records mem, rfl, rfl⟩

namespace Following

theorem ahead_of_fetched (h : Following q s) (reads : s.pending ≠ .finished) {r : RequestRecord}
    (ahead : (s.fetched q).pending.Ahead r) : s.pending.Ahead r := by
  obtain ⟨n, next, below⟩ := ahead_fetched.mp ahead
  obtain ⟨last, mem, rfl⟩ := Keyset.next_mem next
  obtain ⟨_, _, _, _, _, lastAhead⟩ := (h.mem_rows reads).mp (Keyset.mem_of_mem_records mem)
  cases pending : s.pending with
  | first => trivial
  | finished => exact absurd pending reads
  | more cursor =>
    rw [pending] at lastAhead
    exact below.trans lastAhead

theorem fetch (h : Following q s) (valid : q.validate) (reads : s.pending ≠ .finished) :
    Following q (s.fetched q) where
  ordered := by
    rw [records_fetched, List.pairwise_append]
    refine ⟨h.ordered, Keyset.records_sorted (rows_nodup q s), fun r old r' new => ?_⟩
    obtain ⟨_, _, _, _, _, ahead⟩ := (h.mem_rows reads).mp (mem_page.mp new).1
    exact ahead.key_lt (h.behind r old)
  sound := by
    rw [first_fetched]
    intro f mem r onPage
    rcases List.mem_append.mp mem with old | new
    · exact h.sound f old r onPage
    · obtain rfl : f = ⟨s.table, s.pending.cursor, s.late, s.page q⟩ := by simpa using new
      obtain ⟨row, inTable, rfl, admits, small, ahead⟩ :=
        (h.mem_rows reads).mp (mem_page.mp onPage).1
      obtain ⟨known, notLate⟩ := h.ahead row inTable small admits ahead
      exact ⟨admits, List.mem_map_of_mem known, List.mem_map_of_mem inTable, notLate⟩
  complete := by
    rw [first_fetched]
    intro r known admits f mem covers there notLate
    rcases List.mem_append.mp mem with old | new
    · exact h.complete r known admits f old covers there notLate
    · obtain rfl : f = ⟨s.table, s.pending.cursor, s.late, s.page q⟩ := by simpa using new
      obtain ⟨ahead, behind⟩ := (covers_page reads).mp covers
      obtain ⟨row, inTable, rfl⟩ := List.mem_map.mp there
      have same := (h.known row inTable).resolve_left notLate
      exact mem_page.mpr ⟨(h.mem_rows reads).mpr
        ⟨row, inTable, rfl, admits, le_maxRowid same, ahead⟩, behind⟩
  begins := by
    rw [fetched_pending]
    cases (s.page q).nextCursor <;> simp [Reading.fetched]
  fresh := by simp [Reading.fetched]
  cursors := by
    rw [first_fetched, fetched_pending]
    intro c isNext
    have next : (s.page q).nextCursor = some c := by
      cases some : (s.page q).nextCursor with
      | none => simp [some] at isNext
      | some n => simpa [some] using isNext
    obtain ⟨snapshot, r, selected, completed, id⟩ := nextCursor_mem next
    rw [h.snapshot reads] at snapshot
    obtain ⟨_, _, _, admits, _⟩ := (h.mem_rows reads).mp selected
    have nonneg := maxRowid_nonneg s.first.rows
    exact ⟨snapshot, q.validate_cursor valid admits completed id (by omega)⟩
  known := by
    rw [first_fetched]
    exact h.known
  ahead := by
    rw [first_fetched]
    exact fun row mem small admits ahead =>
      h.ahead row mem small admits (h.ahead_of_fetched reads ahead)
  behind := by
    intro r mem ahead
    rw [records_fetched] at mem
    rcases List.mem_append.mp mem with old | new
    · exact h.behind r old (h.ahead_of_fetched reads ahead)
    · exact (mem_page.mp new).2 ahead
  covered := by
    intro r behind
    by_cases ahead : s.pending.Ahead r
    · have covers := (covers_page reads).mpr ⟨ahead, behind⟩
      refine ⟨_, List.mem_append_right _ (List.mem_singleton.mpr rfl), covers, ?_⟩
      intro g mem also
      rcases List.mem_append.mp mem with old | new
      · exact absurd also (h.uncovered r ahead g old)
      · simpa using new
    · obtain ⟨f, mem, covers, unique⟩ := h.covered r ahead
      refine ⟨f, List.mem_append_left _ mem, covers, ?_⟩
      intro g mem also
      rcases List.mem_append.mp mem with old | new
      · exact unique g old also
      · obtain rfl : g = ⟨s.table, s.pending.cursor, s.late, s.page q⟩ := by simpa using new
        exact absurd ((covers_page reads).mp also).1 ahead
  uncovered := by
    intro r ahead f mem covers
    rcases List.mem_append.mp mem with old | new
    · exact h.uncovered r (h.ahead_of_fetched reads ahead) f old covers
    · obtain rfl : f = ⟨s.table, s.pending.cursor, s.late, s.page q⟩ := by simpa using new
      exact ((covers_page reads).mp covers).2 ahead
  full := by
    have before := h.full.2 reads
    rw [records_fetched, List.length_append, fetched_pending]
    have pages : (s.fetched q).fetches.length = s.fetches.length + 1 := by simp [Reading.fetched]
    rw [pages]
    refine ⟨by omega, fun notLast => ?_⟩
    have next : (Keyset.page RequestRecord.key 50 (s.rows q)).next ≠ none := by
      rw [← nextCursor_key]
      cases some : (s.page q).nextCursor with
      | none => simp [some] at notLast
      | some n => simp
    obtain ⟨n, next⟩ := Option.ne_none_iff_exists'.mp next
    have fifty := Keyset.length_records next
    rw [← page_records] at fifty
    omega

/-- The pages hold no more records than there were at the first one. -/
theorem records_length (h : Following q s) : s.records.length ≤ s.first.rows.length := by
  have nodup : s.records.Nodup := h.ordered.imp fun below same => by simp [same] at below
  have known : s.records ⊆ s.first.rows.map EventRow.record := by
    intro r mem
    obtain ⟨f, page, onPage⟩ := List.mem_flatMap.mp mem
    exact (h.sound f page r onPage).2.1
  simpa using (List.subperm_of_subset nodup known).length_le

theorem readable (h : Following q s) (valid : q.validate) (reads : s.pending ≠ .finished) :
    ({ q with cursor := s.pending.cursor } : RequestQuery).validate := by
  cases pending : s.pending with
  | finished => exact absurd pending reads
  | more cursor => exact (h.cursors cursor pending).2
  | first =>
    simp only [RequestQuery.validate, RequestQuery.validateRange, Bool.and_eq_true] at valid ⊢
    exact ⟨valid.1, rfl⟩

theorem next (valid : q.validate) (s : Reading) (a : Action) (t : Reading)
    (step : (reading table q).next s a = some t) (keeps : Undisturbed q s a t) (h : Following q s) :
    Following q t := by
  cases a with
  | change c =>
    obtain rfl : s.change c = t := by simpa [reading] using step
    exact h.change keeps
  | fetch =>
    obtain ⟨reads, _, rfl⟩ := next_fetch.mp step
    exact h.fetch valid reads

end Following

/-- **The pages of a query are a stable snapshot** where no row number of the snapshot is given
out again below the cursor. The next page is never refused, the last one comes, and then every
record has exactly one page. -/
theorem paging_stable (valid : q.validate) {actions : List Action}
    (run : (reading table q).run (reading table q).init actions = some s)
    (keeps : (reading table q).Along (Undisturbed q) (reading table q).init actions) :
    Stable q s ∧
    (s.pending ≠ .finished → ∃ t, (reading table q).next s .fetch = some t) ∧
    50 * (s.fetches.length - 1) ≤ s.first.rows.length ∧
    (s.pending = .finished → ∀ r, ∃ f ∈ s.fetches, f.Covers r ∧
      ∀ g ∈ s.fetches, g.Covers r → g = f) := by
  have h : Following q s :=
    Machine.run_preserves_along (Following.next valid) keeps run (Following.init q table)
  refine ⟨h.toStable, fun reads => ?_, h.full.1.trans h.records_length, fun finished r => ?_⟩
  · exact ⟨_, next_fetch.mpr ⟨reads, h.readable valid reads, rfl⟩⟩
  · exact h.covered r (by simp [finished])

/-! ### A log of two days -/

def sampleId (n : Fin 60) : String := String.ofList ['u', Char.ofNat (n + 48)]

theorem sampleId_short : ∀ n, (sampleId n).utf8ByteSize ≤ 128 := by decide

/-- The record `n` of a day. -/
def loggedRecord (day : Int) (n : Fin 60) : RequestRecord where
  completedAt := day * dayMs + n
  requestId := sampleId n
  short := sampleId_short n

/-- Records 51 to 1 of the second day, and one of the first day that was written last. -/
def sampleRows : List EventRow :=
  ⟨52, loggedRecord 0 52⟩ ::
    (((List.finRange 60).drop 1).take 51).reverse.map fun n : Fin 60 => ⟨n.val, loggedRecord 1 n⟩

def sampleTable : EventTable where
  rows := sampleRows
  deletions := []
  rowids := by decide +kernel
  ids := by decide +kernel

def sampleQuery : RequestQuery := { fromMs := 0, toMs := 172800000 }

instance (q : RequestQuery) (s t : Reading) (a : Action) : Decidable (Undisturbed q s a t) := by
  unfold Undisturbed
  split <;> infer_instance

/-- An early record is written late, between two pages. -/
def lateActions : List Action := [.fetch, .change (.insert (loggedRecord 1 0)), .fetch]

theorem paging_stable_late :
    ∃ s, (reading sampleTable sampleQuery).run (reading sampleTable sampleQuery).init lateActions =
        some s ∧
      s.fetches.length = 2 ∧ loggedRecord 1 0 ∈ s.table.rows.map EventRow.record ∧
      Stable sampleQuery s := by
  obtain ⟨s, run⟩ : ∃ s, (reading sampleTable sampleQuery).run
      (reading sampleTable sampleQuery).init lateActions = some s :=
    Option.isSome_iff_exists.mp (by decide +kernel)
  have seen : ((reading sampleTable sampleQuery).run (reading sampleTable sampleQuery).init
      lateActions).any fun s =>
        s.fetches.length = 2 ∧ loggedRecord 1 0 ∈ s.table.rows.map EventRow.record := by
    decide +kernel
  rw [run] at seen
  obtain ⟨pages, there⟩ := of_decide_eq_true seen
  exact ⟨s, run, pages, there, (paging_stable (by decide +kernel) run (by decide +kernel)).1⟩

/-- The first day is cleared before the early record is written, which takes the number of the
row that is gone: a record that came in after the first page is on the second one. -/
theorem paging_rowid_reused :
    sampleQuery.validate ∧
      ∃ s, (reading sampleTable sampleQuery).run (reading sampleTable sampleQuery).init
          [.fetch, .change (.clear 0 86400000 86400000), .change (.insert (loggedRecord 1 0)),
            .fetch] = some s ∧
        ∃ f ∈ s.fetches, ∃ r ∈ f.records, r ∈ f.late := by
  refine ⟨by decide +kernel, ?_⟩
  have returned : ((reading sampleTable sampleQuery).run (reading sampleTable sampleQuery).init
      [.fetch, .change (.clear 0 86400000 86400000), .change (.insert (loggedRecord 1 0)),
        .fetch]).any fun s =>
          s.fetches.any fun f => f.records.any fun r => r ∈ f.late := by decide +kernel
  obtain ⟨s, run⟩ : ∃ s, (reading sampleTable sampleQuery).run
      (reading sampleTable sampleQuery).init [.fetch, .change (.clear 0 86400000 86400000),
        .change (.insert (loggedRecord 1 0)), .fetch] = some s :=
    Option.isSome_iff_exists.mp (by decide +kernel)
  rw [run] at returned
  obtain ⟨f, page, found⟩ := List.any_eq_true.mp returned
  obtain ⟨r, onPage, late⟩ := List.any_eq_true.mp found
  exact ⟨s, run, f, page, r, onPage, of_decide_eq_true late⟩

end LlamaServerManager.UsageStore
