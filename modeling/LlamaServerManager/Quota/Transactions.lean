import LlamaServerManager.Quota.Ledger

/-!
What the three transactions of the quota ledger do, stated once: each one leaves
the ledger unchanged or makes one described change (`reserveAt_cases`,
`settle_cases`, `prune_cases`). The results about the ledger are derived from
these and do not look inside the transactions again.
-/

namespace LlamaServerManager.Quota

open Lib

/-! ### Small facts about the columns -/

theorem asU64_of_nonneg {n : Int} (low : 0 ≤ n) (high : n ≤ maxTokens) : (asU64 n : Int) = n := by
  unfold asU64
  unfold maxTokens at high
  omega

variable {r : Request} {p : PeriodId}

theorem Request.charges_iff : r.charges p = true ↔ p = r.period .day ∨ p = r.period .month := by
  unfold charges
  rw [beq_iff_eq]
  constructor
  · rintro same
    cases kind : p.kind with
    | day => exact .inl (by rw [← same, kind])
    | month => exact .inr (by rw [← same, kind])
  · rintro (rfl | rfl)
    · rfl
    · rfl

theorem Request.charges_period (r : Request) (k : Kind) : r.charges (r.period k) = true := by
  cases k with
  | day => exact charges_iff.mpr (.inl rfl)
  | month => exact charges_iff.mpr (.inr rfl)

theorem Request.day_ne_month (r : Request) : r.period .day ≠ r.period .month := by
  intro same
  cases congrArg PeriodId.kind same

/-! ### Periods -/

theorem periods_eq_ok {now day month : Int} (h : periods now = .ok (day, month)) :
    day = now / dayMs * dayMs ∧ month = Calendar.firstOfMonth (now / dayMs) * dayMs ∧
      minDay ≤ now / dayMs ∧ now / dayMs ≤ maxDay := by
  unfold periods at h
  dsimp only at h
  split at h
  · cases h
  · rename_i range
    split at h
    · cases h
    · simp only [Except.ok.injEq, Prod.mk.injEq] at h
      exact ⟨h.1.symm, h.2.symm, not_lt.mp fun low => range (.inl low),
        not_lt.mp fun high => range (.inr high)⟩

/-- Later times lie in later periods. -/
theorem periods_mono {now later day month day' month' : Int} (h : periods now = .ok (day, month))
    (h' : periods later = .ok (day', month')) (le : now ≤ later) : day ≤ day' ∧ month ≤ month' := by
  obtain ⟨rfl, rfl, -, -⟩ := periods_eq_ok h
  obtain ⟨rfl, rfl, -, -⟩ := periods_eq_ok h'
  have days : now / dayMs ≤ later / dayMs := Int.ediv_le_ediv (by decide) le
  have months := Calendar.firstOfMonth_mono days
  unfold dayMs at *
  omega

/-! ### Reservations -/

/-- The balance of the period and the amount fit below the limit. -/
def Ledger.Admits (l : Ledger) (p : PeriodId) (limit amount : Nat) : Prop :=
  let total := saturatingAdd
    (saturatingAdd (asU64 (l.period p).settled) (asU64 (l.period p).held)) amount
  (0 < limit → total ≤ limit) ∧ total ≤ maxTokens

/-- The writes of a reservation. -/
def Ledger.reserve (l : Ledger) (id : String) (r : Request) (amount : Nat) : Ledger :=
  { periods := ((l.hold (r.period .day) amount).hold (r.period .month) amount).periods
    requests := l.requests.insert id r }

/-- The balances of a period after a reservation in it. -/
def Period.hold (row : Period) (amount : Nat) : Period :=
  { row with held := row.held + amount, pending := row.pending + 1 }

theorem Ledger.hold_lookup (l : Ledger) (p : PeriodId) (amount : Nat) :
    (l.hold p amount).periods.lookup p = some ((l.period p).hold amount) := by
  unfold Ledger.hold Ledger.period
  rw [AList.lookup_insert]
  cases l.periods.lookup p with
  | none => simp [Period.hold]
  | some row => rfl

variable {l : Ledger}

theorem Ledger.hold_lookup_ne {p q : PeriodId} (ne : q ≠ p) (amount : Nat) :
    (l.hold p amount).periods.lookup q = l.periods.lookup q := by
  unfold Ledger.hold
  exact AList.lookup_insert_ne ne

/-- A reservation is added to the periods of its request. -/
theorem Ledger.reserve_lookup (l : Ledger) (id : String) (charged : r.charges p = true)
    (amount : Nat) :
    (l.reserve id r amount).periods.lookup p = some ((l.period p).hold amount) := by
  unfold Ledger.reserve
  rcases Request.charges_iff.mp charged with rfl | rfl
  · rw [hold_lookup_ne r.day_ne_month, hold_lookup]
  · rw [hold_lookup, Ledger.period, hold_lookup_ne r.day_ne_month.symm, ← Ledger.period]

variable {id : String}

theorem Ledger.reserve_lookup_free (free : r.charges p = false) (amount : Nat) :
    (l.reserve id r amount).periods.lookup p = l.periods.lookup p := by
  have other : ∀ k, p ≠ r.period k := by
    rintro k rfl
    have := r.charges_period k
    rw [free] at this
    cases this
  unfold Ledger.reserve
  rw [hold_lookup_ne (other .month), hold_lookup_ne (other .day)]

theorem unavailable_eq_ok {α : Type} {x : Except String α} {a : α} :
    unavailable x = .ok a ↔ x = .ok a := by
  cases x with
  | ok b => simp [unavailable]
  | error e => simp [unavailable]

theorem reservePeriod_eq_ok {faults : Faults} {amount limit : Nat} {l t : Ledger}
    (h : reservePeriod faults amount l p limit = .ok t) :
    l.Admits p limit amount ∧ t = l.hold p amount := by
  unfold reservePeriod at h
  obtain ⟨-, -, h⟩ := bind_eq_ok.mp h
  dsimp only at h
  split at h
  · cases h
  · rename_i fits
    obtain ⟨-, -, h⟩ := bind_eq_ok.mp h
    cases h
    obtain ⟨below, small⟩ := not_or.mp fits
    exact ⟨⟨fun limited => not_lt.mp fun exceeds => below ⟨limited, exceeds⟩, not_lt.mp small⟩, rfl⟩

/-- A reservation fails and leaves the ledger unchanged, or is recorded in both
of its periods, each of which had room for it. -/
theorem reserveAt_cases (faults : Faults) (l : Ledger) (key : ProxyApiKey) (id : String)
    (amount : Nat) (now : Int) :
    (∃ e, reserveAt faults l key id amount now = (l, .error e)) ∨
    ∃ r day month, periods now = .ok (day, month) ∧
      r = ⟨key.id, day, month, amount, .pending, none, now⟩ ∧
      0 < amount ∧ amount ≤ maxTokens ∧ id ∉ l.requests ∧
      l.Admits (r.period .day) key.dailyTokenLimit amount ∧
      l.Admits (r.period .month) key.monthlyTokenLimit amount ∧
      reserveAt faults l key id amount now = (l.reserve id r amount, .ok { id }) := by
  unfold reserveAt
  cases h : reserveTransaction faults l key id amount now with
  | error e => exact .inl ⟨e, rfl⟩
  | ok t =>
    right
    unfold reserveTransaction at h
    split at h
    · cases h
    rename_i metered
    obtain ⟨positive, small⟩ := not_or.mp metered
    obtain ⟨⟨day, month⟩, hp, h⟩ := bind_eq_ok.mp h
    obtain ⟨-, -, h⟩ := bind_eq_ok.mp h
    obtain ⟨-, -, h⟩ := bind_eq_ok.mp h
    obtain ⟨l₁, h₁, h⟩ := bind_eq_ok.mp h
    obtain ⟨l₂, h₂, h⟩ := bind_eq_ok.mp h
    obtain ⟨-, -, h⟩ := bind_eq_ok.mp h
    obtain ⟨admitsDay, rfl⟩ := reservePeriod_eq_ok h₁
    obtain ⟨admitsMonth, rfl⟩ := reservePeriod_eq_ok h₂
    split at h
    · cases h
    rename_i fresh
    obtain ⟨-, -, h⟩ := bind_eq_ok.mp h
    cases h
    refine ⟨_, day, month, unavailable_eq_ok.mp hp, rfl, Nat.pos_of_ne_zero positive,
      not_lt.mp small, fresh, admitsDay, ?_, rfl⟩
    -- The month is another row than the day's.
    have other : (⟨key.id, .month, month⟩ : PeriodId) ≠ ⟨key.id, .day, day⟩ := by simp
    unfold Ledger.Admits Ledger.period at admitsMonth ⊢
    rw [Ledger.hold_lookup_ne other] at admitsMonth
    exact admitsMonth

/-! ### Settlements -/

/-- A settlement rewrites the rows of its request's periods. -/
theorem Ledger.settle_lookup {actual : Option Nat} {complete : Bool} {clock : Int}
    (charged : r.charges p = true) :
    (l.settle id r actual complete clock).periods.lookup p =
      (l.periods.lookup p).map fun row => row.settle (asU64 r.reserved) actual complete := by
  unfold Ledger.settle
  dsimp only
  rcases Request.charges_iff.mp charged with rfl | rfl
  · rw [Dict.lookup_modify_ne r.day_ne_month, Dict.lookup_modify]
  · rw [Dict.lookup_modify, Dict.lookup_modify_ne r.day_ne_month.symm]

theorem Ledger.settle_lookup_free {actual : Option Nat} {complete : Bool} {clock : Int}
    (free : r.charges p = false) :
    (l.settle id r actual complete clock).periods.lookup p = l.periods.lookup p := by
  have other : ∀ k, p ≠ r.period k := by
    rintro k rfl
    have := r.charges_period k
    rw [free] at this
    cases this
  unfold Ledger.settle
  dsimp only
  rw [Dict.lookup_modify_ne (other .month), Dict.lookup_modify_ne (other .day)]

theorem Ledger.settle_requests {actual : Option Nat} {complete : Bool} {clock : Int}
    (found : l.requests.lookup id = some r) :
    (l.settle id r actual complete clock).requests =
      l.requests.insert id (r.settle actual complete clock) := by
  unfold Ledger.settle Dict.modify
  rw [found]

/-- A settlement changes nothing, or it settles a pending request. -/
theorem settle_cases (faults : Faults) (l : Ledger) (id : String) (actual : Option Nat)
    (complete : Bool) (clock : Int) :
    (settle faults l id actual complete clock).1 = l ∨
    ∃ r, l.requests.lookup id = some r ∧ r.state = .pending ∧
      settle faults l id actual complete clock = (l.settle id r actual complete clock, .ok ()) := by
  unfold settle
  cases h : settleTransaction faults l id actual complete clock with
  | error e => exact .inl rfl
  | ok t =>
    unfold settleTransaction at h
    obtain ⟨-, -, h⟩ := bind_eq_ok.mp h
    obtain ⟨-, -, h⟩ := bind_eq_ok.mp h
    obtain ⟨-, -, h⟩ := bind_eq_ok.mp h
    cases found : l.requests.lookup id with
    | none =>
      rw [found] at h
      cases h
      exact .inl rfl
    | some r =>
      rw [found] at h
      dsimp only at h
      split at h
      · cases h
        exact .inl rfl
      · rename_i pending
        obtain ⟨-, -, h⟩ := bind_eq_ok.mp h
        obtain ⟨-, -, h⟩ := bind_eq_ok.mp h
        obtain ⟨-, -, h⟩ := bind_eq_ok.mp h
        obtain ⟨-, -, h⟩ := bind_eq_ok.mp h
        cases h
        exact .inr ⟨r, rfl, not_not.mp pending, rfl⟩

/-- An unknown or terminal request is left alone, whatever the arguments. -/
theorem settle_of_terminal {faults : Faults} (actual : Option Nat) (complete : Bool) (clock : Int)
    (h : ∀ r, l.requests.lookup id = some r → r.state ≠ .pending) :
    (settle faults l id actual complete clock).1 = l := by
  rcases settle_cases faults l id actual complete clock with same | ⟨r, found, pending, -⟩
  · exact same
  · exact absurd pending (h r found)

theorem settle_of_pending (actual : Option Nat) (complete : Bool) (clock : Int)
    (found : l.requests.lookup id = some r) (pending : r.state = .pending) :
    settle .none l id actual complete clock = (l.settle id r actual complete clock, .ok ()) := by
  have run : settleTransaction .none l id actual complete clock =
      .ok (l.settle id r actual complete clock) := by
    unfold settleTransaction
    rw [found]
    simp [Faults.call, Faults.none, pending, bind, Except.bind, pure, Except.pure]
  rw [settle, run]

/-! ### Maintenance -/

theorem mem_limited {α : Type} {batch : Nat} {l : List α} {a : α} (h : a ∈ limited batch l) :
    a ∈ l := by
  unfold limited at h
  split at h
  · exact List.mem_of_mem_take h
  · exact h

variable {cutoff month : Int}

theorem mem_expiredRequests {scan : Scan} {batch : Nat} {e : String × Request}
    (h : e ∈ l.expiredRequests scan cutoff month batch) :
    l.requests.lookup e.1 = some e.2 ∧ e.2.expired cutoff month = true := by
  have scanned := (List.mem_insertionSort _).mp (mem_limited h)
  obtain ⟨row, expired⟩ := List.mem_filter.mp ((scan.requests_perm _).mem_iff.mp scanned)
  obtain ⟨⟨id, r⟩, stored, rfl⟩ := List.mem_map.mp row
  exact ⟨AList.mem_lookup_iff.mpr stored, expired⟩

theorem mem_unusedPeriods {scan : Scan} {batch : Nat}
    (h : p ∈ l.unusedPeriods scan cutoff month batch) :
    ∃ row, l.periods.lookup p = some row ∧ l.unused cutoff month p row = true := by
  have scanned := (scan.periods_perm _).mem_iff.mp (mem_limited h)
  obtain ⟨⟨q, row⟩, stored, rfl⟩ := List.mem_map.mp scanned
  obtain ⟨stored, unused⟩ := List.mem_filter.mp stored
  exact ⟨row, AList.mem_lookup_iff.mpr stored, unused⟩

theorem unused_iff {row : Period} :
    l.unused cutoff month p row = true ↔ p.start < cutoff ∧ p.start < month ∧ row.pending = 0 ∧
      ∀ id r, l.requests.lookup id = some r → r.charges p = false := by
  simp only [Ledger.unused, Bool.and_eq_true, decide_eq_true_eq, beq_iff_eq, Bool.not_eq_true',
    List.any_eq_false, and_assoc, Bool.not_eq_true]
  have entries : (∀ e ∈ l.requests.entries, e.2.charges p = false) ↔
      ∀ id r, l.requests.lookup id = some r → r.charges p = false :=
    ⟨fun h id r found => h ⟨id, r⟩ (AList.mem_lookup_iff.mp found),
      fun h e he => h e.1 e.2 (AList.mem_lookup_iff.mpr he)⟩
  rw [entries]

/-- What a pass with the given cutoff and current month may delete. -/
structure Ledger.Prunes (l : Ledger) (cutoff month : Int) (expired : List (String × Request))
    (unused : List PeriodId) : Prop where
  requests : ∀ e ∈ expired, l.requests.lookup e.1 = some e.2 ∧ e.2.expired cutoff month = true
  periods : ∀ p ∈ unused, p.start < cutoff ∧ p.start < month ∧
    (∃ row, l.periods.lookup p = some row ∧ row.pending = 0) ∧
    ∀ id r, (l.deleteRequests expired).requests.lookup id = some r → r.charges p = false

/-- A pass fails and leaves the ledger unchanged, or deletes some expired
requests and then some periods no remaining request is charged to. -/
theorem prune_cases (faults : Faults) (scan : Scan) (l : Ledger) (now : Int) (batch : Nat) :
    (∃ e, prune faults scan l now batch = (l, .error e)) ∨
    ∃ day month expired unused, periods now = .ok (day, month) ∧
      l.Prunes (day - retentionDays * dayMs) month expired unused ∧
      (prune faults scan l now batch).1 = (l.deleteRequests expired).deletePeriods unused := by
  unfold prune
  cases h : pruneTransaction faults scan l now batch with
  | error e => exact .inl ⟨e, rfl⟩
  | ok result =>
    right
    unfold pruneTransaction at h
    obtain ⟨⟨day, month⟩, hp, h⟩ := bind_eq_ok.mp h
    obtain ⟨-, -, h⟩ := bind_eq_ok.mp h
    obtain ⟨-, -, h⟩ := bind_eq_ok.mp h
    obtain ⟨-, -, h⟩ := bind_eq_ok.mp h
    obtain ⟨-, -, h⟩ := bind_eq_ok.mp h
    cases h
    refine ⟨day, month, _, _, hp, ⟨?_, ?_⟩, rfl⟩
    · intro e he
      exact mem_expiredRequests he
    · intro p hp
      obtain ⟨row, stored, unused⟩ := mem_unusedPeriods hp
      obtain ⟨old, past, settled, free⟩ := unused_iff.mp unused
      exact ⟨old, past, ⟨row, stored, settled⟩, free⟩

/-- A deleted request was expired; the others stay. -/
theorem Ledger.Prunes.lookup_requests {expired : List (String × Request)} {unused : List PeriodId}
    (prunes : l.Prunes cutoff month expired unused) (id : String) :
    (l.deleteRequests expired).requests.lookup id = l.requests.lookup id ∨
      (l.deleteRequests expired).requests.lookup id = none ∧
        ∃ r, l.requests.lookup id = some r ∧ r.expired cutoff month = true := by
  cases gone : expired.any fun e => e.1 == id with
  | false => exact .inl (Dict.lookup_filter_of_keep fun _ => by rw [gone]; rfl)
  | true =>
    obtain ⟨e, he, same⟩ := List.any_eq_true.mp gone
    obtain ⟨stored, old⟩ := prunes.requests e he
    rw [beq_iff_eq.mp same] at stored
    exact .inr ⟨Dict.lookup_filter_of_drop fun _ => by rw [gone]; rfl, e.2, stored, old⟩

/-- A deleted period was unused; the others stay. -/
theorem lookup_deletePeriods (l : Ledger) (unused : List PeriodId) (p : PeriodId) :
    (l.deletePeriods unused).periods.lookup p = l.periods.lookup p ∨
      (l.deletePeriods unused).periods.lookup p = none ∧ p ∈ unused := by
  cases gone : unused.contains p with
  | false => exact .inl (Dict.lookup_filter_of_keep fun _ => by rw [gone]; rfl)
  | true =>
    exact .inr ⟨Dict.lookup_filter_of_drop fun _ => by rw [gone]; rfl,
      List.contains_iff_mem.mp gone⟩

end LlamaServerManager.Quota
