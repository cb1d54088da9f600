import LlamaServerManager.Quota.Invariant

/-!
Maintenance is unobservable to admission.

Two copies of the ledger take the same later calls, one of them pruned first.
They agree on every request except deleted terminal ones, and on every period
except deleted past ones (`Agree`); no later reservation falls in a past period and
no pending request is charged to a deleted one, so the copies keep agreeing and
answer alike.
-/

namespace LlamaServerManager.Quota

open Lib

/-! ### Answers -/

inductive Outcome where
  | reserved (answer : Except QuotaError QuotaPermit)
  | settled (answer : Except String Unit)
  | pruned (answer : Except String Bool)

/-- What the caller of the operation gets back. -/
def Ledger.outcome (l : Ledger) : Operation → Outcome
  | .reserve faults key id amount now => .reserved (reserveAt faults l key id amount now).2
  | .settle faults id actual complete clock =>
    .settled (Quota.settle faults l id actual complete clock).2
  | .prune faults scan now batch => .pruned (Quota.prune faults scan l now batch).2

/-- A sequence of calls: the ledger it ends in and the answers. -/
def Ledger.perform : Ledger → List Operation → Ledger × List Outcome
  | l, [] => (l, [])
  | l, op :: ops =>
    let (t, answers) := (l.apply op).perform ops
    (t, l.outcome op :: answers)

/-! ### What an answer depends on -/

theorem reservePeriod_congr {a b : Ledger} {p : PeriodId} (same : a.period p = b.period p)
    (faults : Faults) (amount limit : Nat) :
    (∃ e, reservePeriod faults amount a p limit = .error e ∧
      reservePeriod faults amount b p limit = .error e) ∨
    reservePeriod faults amount a p limit = .ok (a.hold p amount) ∧
      reservePeriod faults amount b p limit = .ok (b.hold p amount) := by
  unfold reservePeriod
  rw [same]
  cases unavailable (faults.call (.reading p.kind)) with
  | error e => exact .inl ⟨e, rfl, rfl⟩
  | ok _ =>
    simp only [bind, Except.bind]
    split
    · exact .inl ⟨_, rfl, rfl⟩
    · cases unavailable (faults.call (.writing p.kind)) with
      | error e => exact .inl ⟨e, rfl, rfl⟩
      | ok _ => exact .inr ⟨rfl, rfl⟩

/-- A reservation depends on the balances of its two periods and on whether its
id is taken. -/
theorem reserveAt_congr {a b : Ledger} {key : ProxyApiKey} {id : String} {now : Int}
    (balances : ∀ day month, periods now = .ok (day, month) →
      a.period ⟨key.id, .day, day⟩ = b.period ⟨key.id, .day, day⟩ ∧
        a.period ⟨key.id, .month, month⟩ = b.period ⟨key.id, .month, month⟩)
    (taken : id ∈ a.requests ↔ id ∈ b.requests) (faults : Faults) (amount : Nat) :
    (∃ e, reserveAt faults a key id amount now = (a, .error e) ∧
      reserveAt faults b key id amount now = (b, .error e)) ∨
    ∃ r day month, periods now = .ok (day, month) ∧
      r = ⟨key.id, day, month, amount, .pending, none, now⟩ ∧ id ∉ a.requests ∧
      reserveAt faults a key id amount now = (a.reserve id r amount, .ok { id }) ∧
      reserveAt faults b key id amount now = (b.reserve id r amount, .ok { id }) := by
  unfold reserveAt reserveTransaction
  by_cases unmetered : amount = 0 ∨ maxTokens < amount
  · rw [if_pos unmetered, if_pos unmetered]
    exact .inl ⟨_, rfl, rfl⟩
  rw [if_neg unmetered, if_neg unmetered]
  cases hp : periods now with
  | error e => exact .inl ⟨_, rfl, rfl⟩
  | ok period =>
    obtain ⟨day, month⟩ := period
    obtain ⟨sameDay, sameMonth⟩ := balances day month hp
    simp only [unavailable, bind, Except.bind]
    cases faults.call .opening with
    | error e => exact .inl ⟨_, rfl, rfl⟩
    | ok _ =>
    cases faults.call .beginning with
    | error e => exact .inl ⟨_, rfl, rfl⟩
    | ok _ =>
    dsimp only
    rcases reservePeriod_congr sameDay faults amount key.dailyTokenLimit with
      ⟨e, ha, hb⟩ | ⟨ha, hb⟩
    · rw [ha, hb]
      exact .inl ⟨e, rfl, rfl⟩
    rw [ha, hb]
    dsimp only
    have sameMonth : (a.hold ⟨key.id, .day, day⟩ amount).period ⟨key.id, .month, month⟩ =
        (b.hold ⟨key.id, .day, day⟩ amount).period ⟨key.id, .month, month⟩ := by
      have other : (⟨key.id, .month, month⟩ : PeriodId) ≠ ⟨key.id, .day, day⟩ := by simp
      unfold Ledger.period
      rw [Ledger.hold_lookup_ne other, Ledger.hold_lookup_ne other]
      exact sameMonth
    rcases reservePeriod_congr sameMonth faults amount key.monthlyTokenLimit with
      ⟨e, ha, hb⟩ | ⟨ha, hb⟩
    · rw [ha, hb]
      exact .inl ⟨e, rfl, rfl⟩
    rw [ha, hb]
    dsimp only
    cases faults.call .storing with
    | error e => exact .inl ⟨_, rfl, rfl⟩
    | ok _ =>
    dsimp only
    by_cases present : id ∈ a.requests
    · have inA : id ∈ ((a.hold ⟨key.id, .day, day⟩ amount).hold ⟨key.id, .month, month⟩
          amount).requests := present
      have inB : id ∈ ((b.hold ⟨key.id, .day, day⟩ amount).hold ⟨key.id, .month, month⟩
          amount).requests := taken.mp present
      rw [if_pos inA, if_pos inB]
      exact .inl ⟨_, rfl, rfl⟩
    · have notA : id ∉ ((a.hold ⟨key.id, .day, day⟩ amount).hold ⟨key.id, .month, month⟩
          amount).requests := present
      have notB : id ∉ ((b.hold ⟨key.id, .day, day⟩ amount).hold ⟨key.id, .month, month⟩
          amount).requests := fun h => present (taken.mpr h)
      rw [if_neg notA, if_neg notB]
      cases faults.call .committing with
      | error e => exact .inl ⟨_, rfl, rfl⟩
      | ok _ => exact .inr ⟨_, day, month, rfl, rfl, present, rfl, rfl⟩

/-- A settlement depends on its request only, and on a terminal or unknown one
not at all. -/
theorem settle_congr {a b : Ledger} {id : String}
    (same : b.requests.lookup id = a.requests.lookup id ∨
      b.requests.lookup id = none ∧ ∃ r, a.requests.lookup id = some r ∧ r.state ≠ .pending)
    (faults : Faults) (actual : Option Nat) (complete : Bool) (clock : Int) :
    (∃ answer, settle faults a id actual complete clock = (a, answer) ∧
      settle faults b id actual complete clock = (b, answer)) ∨
    ∃ r, a.requests.lookup id = some r ∧ b.requests.lookup id = some r ∧ r.state = .pending ∧
      settle faults a id actual complete clock =
        (a.settle id r actual complete clock, .ok ()) ∧
      settle faults b id actual complete clock =
        (b.settle id r actual complete clock, .ok ()) := by
  unfold settle settleTransaction
  cases faults.call .opening with
  | error e => exact .inl ⟨_, rfl, rfl⟩
  | ok _ =>
  cases faults.call .beginning with
  | error e => exact .inl ⟨_, rfl, rfl⟩
  | ok _ =>
  cases faults.call .finding with
  | error e => exact .inl ⟨_, rfl, rfl⟩
  | ok _ =>
  simp only [bind, Except.bind]
  rcases same with same | ⟨gone, r, found, terminal⟩
  · rw [same]
    cases a.requests.lookup id with
    | none => exact .inl ⟨_, rfl, rfl⟩
    | some r =>
      dsimp only
      by_cases terminal : r.state ≠ .pending
      · rw [if_pos terminal, if_pos terminal]
        exact .inl ⟨_, rfl, rfl⟩
      · rw [if_neg terminal, if_neg terminal]
        cases faults.call (.writing .day) with
        | error e => exact .inl ⟨_, rfl, rfl⟩
        | ok _ =>
        cases faults.call (.writing .month) with
        | error e => exact .inl ⟨_, rfl, rfl⟩
        | ok _ =>
        cases faults.call .storing with
        | error e => exact .inl ⟨_, rfl, rfl⟩
        | ok _ =>
        cases faults.call .committing with
        | error e => exact .inl ⟨_, rfl, rfl⟩
        | ok _ => exact .inr ⟨r, rfl, rfl, not_not.mp terminal, rfl, rfl⟩
  · rw [gone, found]
    dsimp only
    rw [if_pos terminal]
    exact .inl ⟨_, rfl, rfl⟩

/-! ### Two copies of the ledger -/

/-- A call that may follow a pass over `l` at `now`: no earlier reservation, and
none under an id that was taken. -/
def Ledger.Follows (l : Ledger) (now : Int) : Operation → Prop
  | .reserve _ _ id _ time => now ≤ time ∧ id ∉ l.requests
  | .settle .. => True
  | .prune .. => False

/-- `a` was not pruned, `b` was: deleted requests were terminal and had an id that
was taken before the pass, deleted periods lie in the past. -/
structure Agree (taken : String → Prop) (past : PeriodId → Prop) (a b : Ledger) : Prop where
  request_rows : ∀ id, b.requests.lookup id = a.requests.lookup id ∨
    b.requests.lookup id = none ∧ taken id ∧
      ∃ r, a.requests.lookup id = some r ∧ r.state ≠ .pending
  period_rows : ∀ p, b.periods.lookup p = a.periods.lookup p ∨ b.periods.lookup p = none ∧ past p

section Agreement

variable {taken : String → Prop} {past : PeriodId → Prop} {a b : Ledger}

theorem Agree.reserve (agree : Agree taken past a b) {id : String} {r : Request} {amount : Nat}
    (current : ∀ p, r.charges p = true → ¬ past p) :
    Agree taken past (a.reserve id r amount) (b.reserve id r amount) := by
  constructor
  · intro i
    by_cases same : i = id
    · subst same
      left
      unfold Ledger.reserve
      rw [AList.lookup_insert, AList.lookup_insert]
    · unfold Ledger.reserve
      rw [AList.lookup_insert_ne same, AList.lookup_insert_ne same]
      exact agree.request_rows i
  · intro p
    cases charged : r.charges p with
    | false =>
      rw [Ledger.reserve_lookup_free charged, Ledger.reserve_lookup_free charged]
      exact agree.period_rows p
    | true =>
      left
      have same := (agree.period_rows p).resolve_right fun gone => current p charged gone.2
      rw [Ledger.reserve_lookup b id charged, Ledger.reserve_lookup a id charged,
        Ledger.period, Ledger.period, same]

/-- A pending request's rows are still there, so both copies settle it alike. -/
theorem Agree.settle (agree : Agree taken past a b) (sound : b.Sound) {id : String} {r : Request}
    (foundA : a.requests.lookup id = some r) (foundB : b.requests.lookup id = some r)
    (pending : r.state = .pending) (actual : Option Nat) (complete : Bool) (clock : Int) :
    Agree taken past (a.settle id r actual complete clock)
      (b.settle id r actual complete clock) := by
  constructor
  · intro i
    rw [Ledger.settle_requests foundA, Ledger.settle_requests foundB]
    by_cases same : i = id
    · subst same
      left
      rw [AList.lookup_insert, AList.lookup_insert]
    · rw [AList.lookup_insert_ne same, AList.lookup_insert_ne same]
      exact agree.request_rows i
  · intro p
    cases charged : r.charges p with
    | false =>
      rw [Ledger.settle_lookup_free charged, Ledger.settle_lookup_free charged]
      exact agree.period_rows p
    | true =>
      left
      obtain ⟨row, present⟩ := sound.covered id r foundB pending p charged
      have same := (agree.period_rows p).resolve_right fun gone => by
        cases gone.1.symm.trans present
      rw [Ledger.settle_lookup charged, Ledger.settle_lookup charged, same]

end Agreement

/-- A period that neither a cutoff nor the current month has reached is past. -/
def Past (pruned : Ledger) (cutoff month : Int) (p : PeriodId) : Prop :=
  p.start < cutoff ∧ p.start < month ∧ pruned.periods.lookup p = none

/-- Later calls are answered alike, and the copies keep agreeing. -/
theorem Agree.step {l pruned a b : Ledger} {now day month cutoff : Int} {op : Operation}
    (agree : Agree (· ∈ l.requests) (Past pruned cutoff month) a b) (sound : b.Sound)
    (hp : periods now = .ok (day, month)) (before : cutoff ≤ day) (follows : l.Follows now op) :
    b.outcome op = a.outcome op ∧
      Agree (· ∈ l.requests) (Past pruned cutoff month) (a.apply op) (b.apply op) := by
  cases op with
  | prune faults scan now batch => exact absurd follows id
  | reserve faults key id amount time =>
    obtain ⟨later, fresh⟩ := follows
    have current : ∀ day' month', periods time = .ok (day', month') →
        ¬ Past pruned cutoff month ⟨key.id, .day, day'⟩ ∧
          ¬ Past pruned cutoff month ⟨key.id, .month, month'⟩ := by
      intro day' month' hp'
      obtain ⟨days, months⟩ := periods_mono hp hp' later
      unfold Past
      dsimp only
      constructor
      · rintro ⟨old, -, -⟩
        omega
      · rintro ⟨-, old, -⟩
        omega
    have balances : ∀ day' month', periods time = .ok (day', month') →
        a.period ⟨key.id, .day, day'⟩ = b.period ⟨key.id, .day, day'⟩ ∧
          a.period ⟨key.id, .month, month'⟩ = b.period ⟨key.id, .month, month'⟩ := by
      intro day' month' hp'
      obtain ⟨notDay, notMonth⟩ := current day' month' hp'
      unfold Ledger.period
      constructor
      · rw [(agree.period_rows _).resolve_right fun gone => notDay gone.2]
      · rw [(agree.period_rows _).resolve_right fun gone => notMonth gone.2]
    have taken : id ∈ a.requests ↔ id ∈ b.requests := by
      have same := (agree.request_rows id).resolve_right fun gone => fresh gone.2.1
      rw [← AList.lookup_isSome, ← AList.lookup_isSome, same]
    rw [Ledger.outcome, Ledger.outcome, Ledger.apply, Ledger.apply]
    rcases reserveAt_congr balances taken faults amount with
      ⟨e, ha, hb⟩ | ⟨r, day', month', hp', shape, -, ha, hb⟩
    · rw [ha, hb]
      exact ⟨rfl, agree⟩
    · rw [ha, hb]
      refine ⟨rfl, agree.reserve fun p charged => ?_⟩
      obtain ⟨notDay, notMonth⟩ := current day' month' hp'
      rw [shape] at charged
      rcases Request.charges_iff.mp charged with rfl | rfl
      · exact notDay
      · exact notMonth
  | settle faults id actual complete clock =>
    have same : b.requests.lookup id = a.requests.lookup id ∨
        b.requests.lookup id = none ∧ ∃ r, a.requests.lookup id = some r ∧ r.state ≠ .pending :=
      (agree.request_rows id).imp_right fun gone => ⟨gone.1, gone.2.2⟩
    rw [Ledger.outcome, Ledger.outcome, Ledger.apply, Ledger.apply]
    rcases settle_congr same faults actual complete clock with
      ⟨answer, ha, hb⟩ | ⟨r, foundA, foundB, pending, ha, hb⟩
    · rw [ha, hb]
      exact ⟨rfl, agree⟩
    · rw [ha, hb]
      exact ⟨rfl, agree.settle sound foundA foundB pending actual complete clock⟩

/-- A whole sequence of later calls. -/
theorem Agree.perform {l pruned : Ledger} {now day month cutoff : Int}
    (hp : periods now = .ok (day, month)) (before : cutoff ≤ day) :
    ∀ {later : List Operation} {a b : Ledger}, (∀ op ∈ later, l.Follows now op) →
      Agree (· ∈ l.requests) (Past pruned cutoff month) a b → b.Sound →
      (b.perform later).2 = (a.perform later).2 ∧
        Agree (· ∈ l.requests) (Past pruned cutoff month) (a.perform later).1
          (b.perform later).1 := by
  intro later
  induction later with
  | nil =>
    intro a b _ agree _
    exact ⟨rfl, agree⟩
  | cons op later ih =>
    intro a b follows agree sound
    obtain ⟨answer, next⟩ := agree.step sound hp before (follows op List.mem_cons_self)
    obtain ⟨answers, last⟩ :=
      ih (fun op h => follows op (List.mem_cons_of_mem _ h)) next (sound.apply op)
    exact ⟨congrArg₂ List.cons answer answers, last⟩

/-- The ledger before and after a pass. -/
theorem Ledger.Prunes.agree {l : Ledger} {cutoff month : Int} {expired : List (String × Request)}
    {unused : List PeriodId} (prunes : l.Prunes cutoff month expired unused) :
    Agree (· ∈ l.requests)
      (Past ((l.deleteRequests expired).deletePeriods unused) cutoff month) l
      ((l.deleteRequests expired).deletePeriods unused) := by
  constructor
  · intro id
    rcases prunes.lookup_requests id with same | ⟨gone, r, found, old⟩
    · exact .inl same
    · refine .inr ⟨gone, AList.lookup_isSome.mp (by rw [found]; rfl), r, found, ?_⟩
      unfold Request.expired at old
      simp at old
      exact old.2
  · intro p
    rcases lookup_deletePeriods (l.deleteRequests expired) unused p with same | ⟨gone, deleted⟩
    · exact .inl same
    · obtain ⟨old, past, -⟩ := prunes.periods p deleted
      exact .inr ⟨gone, old, past, gone⟩

/-- **Maintenance is unobservable.** After a pass over a reachable ledger, later
reservations under fresh ids and settlements are answered as without it, and
leave the same balances in every period that is current from then on and in both
periods of every request that was pending. -/
theorem maintenance_unobservable {l : Ledger} {operations : List Operation}
    (hr : books.run books.init operations = some l) (faults : Faults) (scan : Scan) (now : Int)
    (batch : Nat) (later : List Operation) (follows : ∀ op ∈ later, l.Follows now op) :
    let pruned := (prune faults scan l now batch).1
    (pruned.perform later).2 = (l.perform later).2 ∧
    (∀ time day month, now ≤ time → periods time = .ok (day, month) → ∀ key,
      (pruned.perform later).1.periods.lookup ⟨key, .day, day⟩ =
          (l.perform later).1.periods.lookup ⟨key, .day, day⟩ ∧
        (pruned.perform later).1.periods.lookup ⟨key, .month, month⟩ =
          (l.perform later).1.periods.lookup ⟨key, .month, month⟩) ∧
    ∀ id r p, l.requests.lookup id = some r → r.state = .pending → r.charges p = true →
      (pruned.perform later).1.periods.lookup p = (l.perform later).1.periods.lookup p := by
  have sound : l.Sound := sound_of_reachable ⟨operations, hr⟩
  rcases prune_cases faults scan l now batch with
    ⟨e, eq⟩ | ⟨day, month, expired, unused, hp, prunes, eq⟩
  · rw [eq]
    exact ⟨rfl, fun _ _ _ _ _ _ => ⟨rfl, rfl⟩, fun _ _ _ _ _ _ => rfl⟩
  · have before : day - retentionDays * dayMs ≤ day := by
      have positive : 0 ≤ retentionDays * dayMs := by decide
      omega
    have soundPruned := sound.prune prunes
    rw [eq]
    obtain ⟨answers, agree⟩ :=
      Agree.perform hp before follows prunes.agree soundPruned
    refine ⟨answers, ?_, ?_⟩
    · intro time day' month' le hp' key
      obtain ⟨days, months⟩ := periods_mono hp hp' le
      constructor
      · apply (agree.period_rows _).resolve_right
        rintro ⟨-, old, -, -⟩
        dsimp only at old
        omega
      · apply (agree.period_rows _).resolve_right
        rintro ⟨-, -, old, -⟩
        dsimp only at old
        omega
    · intro id r p found pending charged
      apply (agree.period_rows p).resolve_right
      rintro ⟨-, -, -, absent⟩
      -- The pass kept the pending request, and with it the rows of its periods.
      have kept : (l.deleteRequests expired).requests.lookup id = some r := by
        rcases prunes.lookup_requests id with same | ⟨-, q, stored, old⟩
        · rw [same, found]
        · cases found.symm.trans stored
          unfold Request.expired at old
          simp [pending] at old
      obtain ⟨row, present⟩ := soundPruned.covered id r kept pending p charged
      cases absent.symm.trans present

/-- An old reservation is settled, a year and a day pass, and the pass deletes it
with its periods; the next reservation is answered as if it had not. -/
def lastYear : List Operation :=
  [.reserve .none { id := "key", dailyTokenLimit := 100 } "old" 90 0,
    .settle .none "old" (some 80) true 5]

theorem maintenance_unobservable_last_year :
    ∃ l, books.run books.init lastYear = some l ∧
      (prune .none .stored l 31708800000 1000).1.periods.keys = [] ∧
      ((prune .none .stored l 31708800000 1000).1.perform
          [.reserve .none { id := "key", dailyTokenLimit := 100 } "new" 90 31708800001]).2 =
        (l.perform
          [.reserve .none { id := "key", dailyTokenLimit := 100 } "new" 90 31708800001]).2 := by
  have hr : books.run books.init lastYear = some ((books.run books.init lastYear).getD {}) := rfl
  refine ⟨_, hr, by decide, (maintenance_unobservable hr .none .stored 31708800000 1000 _ ?_).1⟩
  intro op mem
  rw [List.mem_singleton] at mem
  subst mem
  exact ⟨by decide, by decide⟩

end LlamaServerManager.Quota
