import LlamaServerManager.Quota.Invariant

/-!
What the period rows add up to.

`History` keeps, next to the ledger, the events a balance is made of: the period
rows created and the requests settled. Between the creation of a row and now,
as long as no clamp to `maxTokens` takes effect, its `held` is what is pending
plus what incomplete settlements kept, and its `settled` is what complete ones
charged (`Balanced`).
-/

namespace LlamaServerManager.Quota

open Lib

/-! ### The history of a ledger -/

inductive Event where
  /-- The row of a period was inserted. -/
  | opened (p : PeriodId)
  /-- A pending request was settled. -/
  | settled (r : Request) (actual : Option Nat) (complete : Bool)

/-- The ledger and its events, the latest first. -/
structure History where
  ledger : Ledger := {}
  log : List Event := []

/-- The rows in `t` that are not in `l`. -/
def created (l t : Ledger) : List PeriodId :=
  t.periods.keys.filter fun p => (l.periods.lookup p).isNone

/-- The events of one transaction, seen in the ledgers before and after it. -/
def Ledger.events (l : Ledger) (op : Operation) : List Event :=
  match op with
  | .reserve .. => (created l (l.apply op)).map .opened
  | .settle _ id actual complete _ =>
    match l.requests.lookup id with
    | none => []
    | some r =>
      if r.state = .pending ∧
          ((l.apply op).requests.lookup id).map (·.state) ≠ some .pending then
        [.settled r actual complete]
      else []
  | .prune .. => []

def history : Machine History Operation where
  init := {}
  next h op := some ⟨h.ledger.apply op, h.ledger.events op ++ h.log⟩

/-- The history only watches the books. -/
theorem history_simulation : Machine.Simulation history books fun h l => h.ledger = l where
  init := rfl
  step := by
    rintro h op t l ⟨⟩ rfl
    exact ⟨[op], h.ledger.apply op, rfl, rfl⟩

/-- The sum over the settlements charged to `p` since its row was created. -/
def tally (p : PeriodId) (amount : Request → Option Nat → Bool → Int) : List Event → Int
  | [] => 0
  | .opened q :: log => if q = p then 0 else tally p amount log
  | .settled r actual complete :: log =>
    (if r.charges p then amount r actual complete else 0) + tally p amount log

/-- What a complete settlement charges, before any clamp. -/
def completeAmount (r : Request) (actual : Option Nat) (complete : Bool) : Int :=
  if complete then (actual.map Nat.cast).getD r.reserved else 0

/-- What an incomplete settlement keeps, before any clamp. -/
def incompleteAmount (r : Request) (actual : Option Nat) (complete : Bool) : Int :=
  if complete then 0 else max ((actual.getD 0 : Nat) : Int) r.reserved

/-- No `MIN` with `maxTokens` changes what the settlement writes. -/
def Event.Unclamped (l : Ledger) : Event → Prop
  | .opened _ => True
  | .settled r actual complete =>
    completeAmount r actual complete ≤ maxTokens ∧
    incompleteAmount r actual complete ≤ maxTokens ∧
    ∀ k ∈ [Kind.day, Kind.month], ∀ row ∈ l.periods.lookup (r.period k),
      row.settled + completeAmount r actual complete ≤ maxTokens ∧
      row.held - r.reserved + incompleteAmount r actual complete ≤ maxTokens

instance (l : Ledger) : DecidablePred (Event.Unclamped l)
  | .opened _ => .isTrue trivial
  | .settled _ _ _ => inferInstanceAs (Decidable (_ ∧ _ ∧ _))

/-- No clamp takes effect in this transaction. -/
def Unclamped (h : History) (op : Operation) (_ : History) : Prop :=
  ∀ e ∈ h.ledger.events op, e.Unclamped h.ledger

instance (h : History) (op : Operation) (t : History) : Decidable (Unclamped h op t) :=
  inferInstanceAs (Decidable (∀ e ∈ h.ledger.events op, e.Unclamped h.ledger))

/-! ### The events of one transaction -/

theorem mem_created {l t : Ledger} {p : PeriodId} :
    p ∈ created l t ↔ l.periods.lookup p = none ∧ ∃ row, t.periods.lookup p = some row := by
  unfold created
  rw [List.mem_filter, Option.isNone_iff_eq_none, ← Option.isSome_iff_exists, AList.lookup_isSome,
    AList.mem_keys]
  exact and_comm

theorem created_self (l : Ledger) : created l l = [] := by
  apply List.eq_nil_iff_forall_not_mem.mpr
  intro p hp
  obtain ⟨absent, row, present⟩ := mem_created.mp hp
  cases absent.symm.trans present

/-- A row that was created just now has no settlements; the others keep theirs. -/
theorem tally_opened (p : PeriodId) (amount : Request → Option Nat → Bool → Int)
    (rows : List PeriodId) (log : List Event) :
    tally p amount (rows.map .opened ++ log) = if p ∈ rows then 0 else tally p amount log := by
  induction rows with
  | nil => simp
  | cons q rows ih =>
    rw [List.map_cons, List.cons_append, tally, ih]
    by_cases same : q = p
    · simp [same]
    · simp [same, Ne.symm same]

/-- The settlement of a pending request is an event. -/
theorem events_settle (l : Ledger) (faults : Faults) (id : String) (actual : Option Nat)
    (complete : Bool) (clock : Int) :
    (l.apply (.settle faults id actual complete clock) = l ∧
      l.events (.settle faults id actual complete clock) = []) ∨
    ∃ r, l.requests.lookup id = some r ∧ r.state = .pending ∧
      l.apply (.settle faults id actual complete clock) = l.settle id r actual complete clock ∧
      l.events (.settle faults id actual complete clock) = [.settled r actual complete] := by
  rcases settle_cases faults l id actual complete clock with same | ⟨r, found, pending, eq⟩
  · have same : l.apply (.settle faults id actual complete clock) = l := same
    refine .inl ⟨same, ?_⟩
    unfold Ledger.events
    rw [same]
    dsimp only
    cases found : l.requests.lookup id with
    | none => rfl
    | some r =>
      apply if_neg
      rintro ⟨pending, settled⟩
      exact settled (congrArg some pending)
  · have change : l.apply (.settle faults id actual complete clock) =
        l.settle id r actual complete clock := congrArg Prod.fst eq
    refine .inr ⟨r, found, pending, change, ?_⟩
    unfold Ledger.events
    rw [change]
    dsimp only
    rw [found]
    apply if_pos
    refine ⟨pending, ?_⟩
    rw [Ledger.settle_requests found, AList.lookup_insert]
    cases complete <;> simp [Request.settle]

theorem charged_eq {r : Request} {actual : Option Nat} {complete : Bool}
    (reserved : (asU64 r.reserved : Int) = r.reserved)
    (unclamped : completeAmount r actual complete ≤ maxTokens) :
    (charged (asU64 r.reserved) actual complete : Int) = completeAmount r actual complete := by
  unfold charged completeAmount at *
  cases complete with
  | false => simp
  | true =>
    cases actual with
    | none =>
      simp only [if_true, Option.getD_none, Option.map_none] at *
      omega
    | some v =>
      simp only [if_true, Option.getD_some, Option.map_some] at *
      omega

theorem retained_eq {r : Request} {actual : Option Nat} {complete : Bool}
    (reserved : (asU64 r.reserved : Int) = r.reserved)
    (unclamped : incompleteAmount r actual complete ≤ maxTokens) :
    (retained (asU64 r.reserved) actual complete : Int) = incompleteAmount r actual complete := by
  unfold retained incompleteAmount at *
  cases complete with
  | true => rfl
  | false =>
    simp only [Bool.false_eq_true, if_false] at *
    omega

/-! ### Conservation -/

/-- Every row is the sum of what is pending and what was settled since it exists. -/
def Balanced (h : History) : Prop :=
  ∀ p row, h.ledger.periods.lookup p = some row →
    row.held = h.ledger.reservedFor p + tally p incompleteAmount h.log ∧
      row.settled = tally p completeAmount h.log

theorem Balanced.reserve {h t : History} (balanced : Balanced h) (sound : h.ledger.Sound)
    {faults : Faults} {key : ProxyApiKey} {id : String} {amount : Nat} {now : Int}
    (hn : history.next h (.reserve faults key id amount now) = some t) : Balanced t := by
  cases hn
  intro p row found
  dsimp only at found ⊢
  have tallies := tally_opened p
  unfold Ledger.events
  dsimp only
  rw [tallies, tallies]
  rcases reserveAt_cases faults h.ledger key id amount now with
    ⟨e, eq⟩ | ⟨r, day, month, -, shape, -, -, fresh, -, -, eq⟩
  · have same : h.ledger.apply (.reserve faults key id amount now) = h.ledger :=
      congrArg Prod.fst eq
    rw [same] at found
    rw [same, created_self]
    exact balanced p row found
  · have change : h.ledger.apply (.reserve faults key id amount now) =
        h.ledger.reserve id r amount := congrArg Prod.fst eq
    have reservedFor : (h.ledger.reserve id r amount).reservedFor p = _ :=
      Ledger.sum_share_reserve fresh amount p Request.reserved
    rw [change] at found
    rw [change, reservedFor]
    have kept : ∀ old, h.ledger.periods.lookup p = some old →
        p ∉ created h.ledger (h.ledger.reserve id r amount) := by
      intro old before new
      cases (mem_created.mp new).1.symm.trans before
    cases charged : r.charges p with
    | false =>
      rw [Ledger.reserve_lookup_free charged] at found
      rw [if_neg (kept row found), if_neg (kept row found), Request.share_of_free charged,
        Int.add_zero]
      exact balanced p row found
    | true =>
      have present := h.ledger.reserve_lookup id charged amount
      have share : r.share p r.reserved = amount := by
        rw [shape] at charged ⊢
        exact if_pos ⟨rfl, charged⟩
      cases present.symm.trans found
      rw [share]
      cases before : h.ledger.periods.lookup p with
      | none =>
        have new : p ∈ created h.ledger (h.ledger.reserve id r amount) :=
          mem_created.mpr ⟨before, _, present⟩
        have free := sound.free_of_absent before Request.reserved
        rw [if_pos new, if_pos new, free, Ledger.period, before]
        simp [Period.hold]
      | some old =>
        obtain ⟨held, settled⟩ := balanced p old before
        rw [if_neg (kept old before), if_neg (kept old before), Ledger.period, before]
        unfold Ledger.reservedFor at held
        simp only [Option.getD_some, Period.hold]
        exact ⟨by omega, settled⟩

theorem Balanced.settle {h t : History} (balanced : Balanced h) (sound : h.ledger.Sound)
    {faults : Faults} {id : String} {actual : Option Nat} {complete : Bool} {clock : Int}
    (hn : history.next h (.settle faults id actual complete clock) = some t)
    (unclamped : Unclamped h (.settle faults id actual complete clock) t) : Balanced t := by
  cases hn
  intro p row found
  dsimp only at found ⊢
  rcases events_settle h.ledger faults id actual complete clock with
    ⟨same, none⟩ | ⟨r, stored, pending, eq, event⟩
  · rw [same] at found
    rw [same, none]
    exact balanced p row found
  · rw [eq] at found
    rw [eq, event]
    have settled : Event.settled r actual complete ∈
        h.ledger.events (.settle faults id actual complete clock) := by
      rw [event]
      exact List.mem_cons_self
    obtain ⟨complete_le, incomplete_le, rows⟩ := unclamped _ settled
    have reserved := sound.asU64_reserved stored
    have reservedFor : (h.ledger.settle id r actual complete clock).reservedFor p = _ :=
      Ledger.sum_share_settle stored actual complete clock p Request.reserved
    rw [reservedFor, List.singleton_append, tally, tally]
    cases charged : r.charges p with
    | false =>
      rw [Ledger.settle_lookup_free charged] at found
      obtain ⟨held, settled⟩ := balanced p row found
      unfold Ledger.reservedFor at held
      rw [Request.share_of_free charged]
      simp only [Bool.false_eq_true, if_false]
      exact ⟨by omega, by omega⟩
    | true =>
      rw [Ledger.settle_lookup charged] at found
      obtain ⟨before, hb, rfl⟩ := Option.map_eq_some_iff.mp found
      obtain ⟨held, settled⟩ := balanced p before hb
      have own : r.period p.kind = p := beq_iff_eq.mp charged
      have row : before ∈ h.ledger.periods.lookup (r.period p.kind) := by
        rw [own]
        exact hb
      obtain ⟨settled_le, held_le⟩ := rows p.kind (by cases p.kind <;> simp) before row
      have share : r.share p r.reserved = r.reserved := if_pos ⟨pending, charged⟩
      have chargedEq := charged_eq reserved complete_le
      have retainedEq := retained_eq reserved incomplete_le
      unfold Ledger.reservedFor at held
      rw [share]
      simp only [Period.settle, if_true]
      exact ⟨by omega, by omega⟩

theorem Balanced.prune {h t : History} (balanced : Balanced h) {faults : Faults} {scan : Scan}
    {now : Int} {batch : Nat} (hn : history.next h (.prune faults scan now batch) = some t) :
    Balanced t := by
  cases hn
  intro p row found
  dsimp only at found ⊢
  rw [Ledger.apply] at found ⊢
  rcases prune_cases faults scan h.ledger now batch with
    ⟨e, eq⟩ | ⟨day, month, expired, unused, -, prunes, eq⟩
  · rw [eq] at found ⊢
    exact balanced p row found
  · rw [eq] at found ⊢
    have reservedFor : ((h.ledger.deleteRequests expired).deletePeriods unused).reservedFor p = _ :=
      Ledger.sum_share_prune prunes p Request.reserved
    rw [reservedFor]
    rcases lookup_deletePeriods (h.ledger.deleteRequests expired) unused p with same | ⟨gone, -⟩
    · exact balanced p row (same.symm.trans found)
    · cases gone.symm.trans found

theorem Balanced.next {h t : History} {op : Operation} (balanced : Balanced h)
    (sound : h.ledger.Sound) (hn : history.next h op = some t) (unclamped : Unclamped h op t) :
    Balanced t := by
  cases op with
  | reserve faults key id amount now => exact balanced.reserve sound hn
  | settle faults id actual complete clock => exact balanced.settle sound hn unclamped
  | prune faults scan now batch => exact balanced.prune hn

/-! ### Dates -/

/-- The clock readings of an operation are dates after 1970 that fit in a column. -/
def Operation.Clocked : Operation → Prop
  | .reserve _ _ _ _ now => 0 ≤ now
  | .settle _ _ _ _ clock => 0 ≤ clock ∧ clock ≤ maxTokens
  | .prune .. => True

/-- The columns that hold dates are in range, too. -/
structure Dated (l : Ledger) : Prop where
  start : ∀ p row, l.periods.lookup p = some row → 0 ≤ p.start ∧ p.start ≤ maxTokens
  request : ∀ id r, l.requests.lookup id = some r →
    (0 ≤ r.day ∧ r.day ≤ maxTokens) ∧ (0 ≤ r.month ∧ r.month ≤ maxTokens) ∧
      0 ≤ r.updated ∧ r.updated ≤ maxTokens

theorem periods_range {now day month : Int} (h : periods now = .ok (day, month)) (low : 0 ≤ now) :
    (0 ≤ day ∧ day ≤ maxTokens) ∧ (0 ≤ month ∧ month ≤ maxTokens) ∧ now ≤ maxTokens := by
  obtain ⟨rfl, rfl, -, high⟩ := periods_eq_ok h
  have last : maxDay * dayMs + dayMs ≤ maxTokens := by decide
  have first : Calendar.firstOfMonth 0 = 0 := by decide
  have nonneg : 0 ≤ now / dayMs := Int.ediv_nonneg low (by decide)
  have monthLow := Calendar.firstOfMonth_mono nonneg
  have monthHigh := Calendar.firstOfMonth_le (now / dayMs)
  rw [first] at monthLow
  unfold dayMs at *
  omega

theorem Dated.apply {l : Ledger} {op : Operation} (dated : Dated l) (clocked : op.Clocked) :
    Dated (l.apply op) := by
  cases op with
  | reserve faults key id amount now =>
    rw [Ledger.apply]
    rcases reserveAt_cases faults l key id amount now with
      ⟨e, eq⟩ | ⟨r, day, month, hp, shape, -, -, fresh, -, -, eq⟩
    · rw [eq]
      exact dated
    · rw [eq]
      obtain ⟨dayRange, monthRange, nowHigh⟩ := periods_range hp clocked
      constructor
      · intro p row found
        cases charged : r.charges p with
        | true =>
          rw [shape] at charged
          rcases Request.charges_iff.mp charged with rfl | rfl
          · exact dayRange
          · exact monthRange
        | false =>
          rw [Ledger.reserve_lookup_free charged] at found
          exact dated.start p row found
      · intro i q found
        by_cases same : i = id
        · subst same
          have stored := (AList.lookup_insert l.requests).symm.trans found
          cases stored
          rw [shape]
          exact ⟨dayRange, monthRange, clocked, nowHigh⟩
        · exact dated.request i q ((AList.lookup_insert_ne same).symm.trans found)
  | settle faults id actual complete clock =>
    rw [Ledger.apply]
    rcases settle_cases faults l id actual complete clock with same | ⟨r, stored, pending, eq⟩
    · rw [same]
      exact dated
    · rw [eq]
      constructor
      · intro p row found
        cases charged : r.charges p with
        | true =>
          rw [Ledger.settle_lookup charged] at found
          obtain ⟨before, hb, -⟩ := Option.map_eq_some_iff.mp found
          exact dated.start p before hb
        | false =>
          rw [Ledger.settle_lookup_free charged] at found
          exact dated.start p row found
      · intro i q found
        rw [Ledger.settle_requests stored] at found
        by_cases same : i = id
        · subst same
          obtain ⟨dayRange, monthRange, -⟩ := dated.request i r stored
          cases (AList.lookup_insert l.requests).symm.trans found
          exact ⟨dayRange, monthRange, clocked⟩
        · exact dated.request i q ((AList.lookup_insert_ne same).symm.trans found)
  | prune faults scan now batch =>
    rw [Ledger.apply]
    rcases prune_cases faults scan l now batch with
      ⟨e, eq⟩ | ⟨day, month, expired, unused, -, prunes, eq⟩
    · rw [eq]
      exact dated
    · rw [eq]
      constructor
      · intro p row found
        rcases lookup_deletePeriods (l.deleteRequests expired) unused p with same | ⟨gone, -⟩
        · exact dated.start p row (same.symm.trans found)
        · cases gone.symm.trans found
      · intro i q found
        rcases prunes.lookup_requests i with same | ⟨gone, -⟩
        · exact dated.request i q (same.symm.trans found)
        · cases gone.symm.trans found

/-! ### The ledger's promises -/

/-- A column within 0..2^53-1. -/
def InRange (n : Int) : Prop := 0 ≤ n ∧ n ≤ 2 ^ 53 - 1

/-- What the ledger promises whatever was clamped. -/
structure Conserved (l : Ledger) : Prop where
  covered : ∀ id r, l.requests.lookup id = some r → r.state = .pending →
    (∃ row, l.periods.lookup (r.period .day) = some row) ∧
      ∃ row, l.periods.lookup (r.period .month) = some row
  pending_exact : ∀ p row, l.periods.lookup p = some row → row.pending = l.pendingFor p
  held_ge : ∀ p row, l.periods.lookup p = some row → l.reservedFor p ≤ row.held
  period_columns : ∀ p row, l.periods.lookup p = some row →
    InRange row.settled ∧ InRange row.held ∧ InRange row.pending ∧ InRange row.uncertain
  request_columns : ∀ id r, l.requests.lookup id = some r →
    InRange r.reserved ∧ ∀ a, r.actual = some a → InRange a

theorem Ledger.Sound.conserved {l : Ledger} (sound : l.Sound) : Conserved l := by
  have bound : (maxTokens : Int) = 2 ^ 53 - 1 := by decide
  constructor
  · intro id r found pending
    exact ⟨sound.covered id r found pending _ (r.charges_period .day),
      sound.covered id r found pending _ (r.charges_period .month)⟩
  · exact sound.pending_eq
  · intro p row found
    have covers := sound.held_ge p row found
    have known := sound.uncertain_nonneg p row found
    omega
  · intro p row found
    have covers := sound.held_ge p row found
    have uncertain := sound.uncertain_nonneg p row found
    have reserved := sound.reservedFor_nonneg p
    have pending := sound.pendingFor_le p
    have held := sound.held_le p row found
    rw [sound.pending_eq p row found]
    unfold InRange
    rw [← bound]
    exact ⟨⟨sound.settled_nonneg p row found, sound.settled_le p row found⟩,
      ⟨by omega, held⟩, ⟨pending.1, by omega⟩, ⟨uncertain, by omega⟩⟩
  · intro id r found
    have positive := sound.reserved_pos id r found
    unfold InRange
    rw [← bound]
    exact ⟨⟨by omega, sound.reserved_le id r found⟩, fun a ha => sound.actual_range id r a found ha⟩

theorem history_sound {h : History} (reachable : history.Reachable h) : h.ledger.Sound := by
  obtain ⟨l, hl, rfl⟩ := history_simulation.reachable reachable
  exact sound_of_reachable hl

/-- **Conservation.** In every ledger that reservations, settlements and
maintenance reach from the empty one, pending requests have both periods, each
period counts and covers its pending requests, and all columns are in range. As
long as no clamp takes effect, a row's `held` is exactly its pending reservations
plus what its incomplete settlements kept, and its `settled` what its complete
settlements charged, since the row was created. -/
theorem conservation {h : History} {operations : List Operation}
    (hr : history.run history.init operations = some h) :
    Conserved h.ledger ∧
    ((∀ op ∈ operations, op.Clocked) →
      (∀ p row, h.ledger.periods.lookup p = some row → InRange p.start) ∧
      ∀ id r, h.ledger.requests.lookup id = some r →
        InRange r.day ∧ InRange r.month ∧ InRange r.updated) ∧
    (history.Along Unclamped history.init operations →
      ∀ p row, h.ledger.periods.lookup p = some row →
        row.held = h.ledger.reservedFor p + tally p incompleteAmount h.log ∧
          row.settled = tally p completeAmount h.log) := by
  refine ⟨(history_sound ⟨operations, hr⟩).conserved, ?_, ?_⟩
  · intro clocked
    have dated : Dated h.ledger :=
      Machine.run_preserves_along (P := fun h => Dated h.ledger)
        (by rintro h op t ⟨⟩ clocked dated; exact dated.apply clocked)
        (Machine.along_of_forall_mem clocked) hr
        ⟨fun _ _ found => (by cases found), fun _ _ found => (by cases found)⟩
    exact ⟨dated.start, dated.request⟩
  · intro unclamped
    have both : history.Reachable h ∧ Balanced h := by
      apply Machine.run_preserves_along (P := fun h => history.Reachable h ∧ Balanced h) _
        unclamped hr ⟨.init, fun _ _ found => by cases found⟩
      rintro s op t hn unclamped ⟨reachable, balanced⟩
      exact ⟨reachable.next hn, balanced.next (history_sound reachable) hn unclamped⟩
    exact both.2

/-- A complete settlement, an incomplete one and maintenance in between. -/
def twoSettlements : List Operation :=
  let key : ProxyApiKey := { id := "key", dailyTokenLimit := 100, monthlyTokenLimit := 150 }
  [.reserve .none key "a" 80 0, .settle .none "a" (some 20) true 5,
    .prune .none .stored 1 1000, .reserve .none key "b" 70 0,
    .settle .none "b" none false 6, .reserve .none key "c" 10 0]

theorem conservation_two_settlements :
    ∃ h, history.run history.init twoSettlements = some h ∧
      h.ledger.periods.lookup ⟨"key", .day, 0⟩ =
        some { settled := 20, held := 80, pending := 1, uncertain := 1 } ∧
      Conserved h.ledger ∧
      ∀ p row, h.ledger.periods.lookup p = some row →
        row.held = h.ledger.reservedFor p + tally p incompleteAmount h.log ∧
          row.settled = tally p completeAmount h.log := by
  have hr : history.run history.init twoSettlements =
      some ((history.run history.init twoSettlements).getD {}) := rfl
  obtain ⟨conserved, -, exact_⟩ := conservation hr
  exact ⟨_, hr, by decide, conserved, exact_ (by decide)⟩

end LlamaServerManager.Quota
