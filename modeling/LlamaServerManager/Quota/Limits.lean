import LlamaServerManager.Quota.Invariant

/-!
Hard token limits. An accepted reservation leaves its periods within the limits
it was checked against; a refused one leaves no trace; and a run in which each
key keeps its limits and no settlement reports more than was reserved never
exceeds them.
-/

namespace LlamaServerManager.Quota

open Lib

/-! ### One reservation -/

theorem reserve_within {l t : Ledger} (sound : l.Sound) {faults : Faults} {key : ProxyApiKey}
    {id : String} {amount : Nat} {now : Int} {permit : QuotaPermit}
    (h : reserveAt faults l key id amount now = (t, .ok permit)) :
    ∃ day month dayRow monthRow, periods now = .ok (day, month) ∧
      t.periods.lookup ⟨key.id, .day, day⟩ = some dayRow ∧
      t.periods.lookup ⟨key.id, .month, month⟩ = some monthRow ∧
      (0 < key.dailyTokenLimit → dayRow.settled + dayRow.held ≤ key.dailyTokenLimit) ∧
      (0 < key.monthlyTokenLimit → monthRow.settled + monthRow.held ≤ key.monthlyTokenLimit) := by
  rcases reserveAt_cases faults l key id amount now with
    ⟨e, eq⟩ | ⟨r, day, month, hp, rfl, -, -, -, admitsDay, admitsMonth, eq⟩
  · cases eq.symm.trans h
  · cases eq.symm.trans h
    refine ⟨day, month, _, _, hp, Ledger.reserve_lookup l id (Request.charges_period _ .day) amount,
      Ledger.reserve_lookup l id (Request.charges_period _ .month) amount, ?_, ?_⟩
    · intro limited
      have below := (sound.admits admitsDay).2 limited
      unfold Period.hold
      dsimp only
      omega
    · intro limited
      have below := (sound.admits admitsMonth).2 limited
      unfold Period.hold
      dsimp only
      omega

theorem reserve_error {l t : Ledger} {faults : Faults} {key : ProxyApiKey} {id : String}
    {amount : Nat} {now : Int} {e : QuotaError}
    (h : reserveAt faults l key id amount now = (t, .error e)) : t = l := by
  rcases reserveAt_cases faults l key id amount now with
    ⟨e, eq⟩ | ⟨r, day, month, -, -, -, -, -, -, -, eq⟩
  · cases eq.symm.trans h
    rfl
  · cases eq.symm.trans h

/-- A reservation touches the two periods of its key at its time, and its own request. -/
theorem reserve_frame (l : Ledger) (faults : Faults) (key : ProxyApiKey) (id : String)
    (amount : Nat) (now : Int) :
    (∀ p, (∀ day month, periods now = .ok (day, month) →
        p ≠ ⟨key.id, .day, day⟩ ∧ p ≠ ⟨key.id, .month, month⟩) →
      (reserveAt faults l key id amount now).1.periods.lookup p = l.periods.lookup p) ∧
    ∀ i, i ≠ id →
      (reserveAt faults l key id amount now).1.requests.lookup i = l.requests.lookup i := by
  rcases reserveAt_cases faults l key id amount now with
    ⟨e, eq⟩ | ⟨r, day, month, hp, shape, -, -, -, -, -, eq⟩
  · rw [eq]
    exact ⟨fun _ _ => rfl, fun _ _ => rfl⟩
  · rw [eq]
    constructor
    · intro p other
      obtain ⟨notDay, notMonth⟩ := other day month hp
      have free : r.charges p = false := by
        rw [Bool.eq_false_iff, ne_eq, Request.charges_iff, shape]
        rintro (same | same)
        · exact notDay same
        · exact notMonth same
      exact Ledger.reserve_lookup_free free amount
    · intro i other
      exact AList.lookup_insert_ne other

/-- A settlement touches the two periods of its request, and the request. -/
theorem settle_frame (l : Ledger) (faults : Faults) (id : String) (actual : Option Nat)
    (complete : Bool) (clock : Int) :
    (∀ p, (∀ r, l.requests.lookup id = some r → r.charges p = false) →
      (settle faults l id actual complete clock).1.periods.lookup p = l.periods.lookup p) ∧
    ∀ i, i ≠ id →
      (settle faults l id actual complete clock).1.requests.lookup i = l.requests.lookup i := by
  rcases settle_cases faults l id actual complete clock with same | ⟨r, found, -, eq⟩
  · rw [same]
    exact ⟨fun _ _ => rfl, fun _ _ => rfl⟩
  · rw [eq]
    constructor
    · intro p other
      exact Ledger.settle_lookup_free (other r found)
    · intro i other
      rw [Ledger.settle_requests found]
      exact AList.lookup_insert_ne other

/-! ### Runs under fixed limits -/

/-- The limit of a period when every key has a fixed daily and monthly one. -/
def limitOf (limits : String → Nat × Nat) (p : PeriodId) : Nat :=
  match p.kind with
  | .day => (limits p.key).1
  | .month => (limits p.key).2

/-- Keys come with their fixed limits, and no pending request is settled with
more than it reserved. -/
def Honest (limits : String → Nat × Nat) (l : Ledger) (op : Operation) (_ : Ledger) : Prop :=
  match op with
  | .reserve _ key _ _ _ => limits key.id = (key.dailyTokenLimit, key.monthlyTokenLimit)
  | .settle _ id actual _ _ =>
    ∀ r ∈ l.requests.lookup id, r.state = .pending → ∀ v ∈ actual, (v : Int) ≤ r.reserved
  | .prune .. => True

instance (limits : String → Nat × Nat) (l : Ledger) (op : Operation) (t : Ledger) :
    Decidable (Honest limits l op t) :=
  match op with
  | .reserve _ key _ _ _ =>
    inferInstanceAs (Decidable (limits key.id = (key.dailyTokenLimit, key.monthlyTokenLimit)))
  | .settle _ id actual _ _ =>
    inferInstanceAs (Decidable (∀ r ∈ l.requests.lookup id, r.state = .pending →
      ∀ v ∈ actual, (v : Int) ≤ r.reserved))
  | .prune .. => .isTrue trivial

/-- No period exceeds its limit. -/
def Within (limits : String → Nat × Nat) (l : Ledger) : Prop :=
  ∀ p row, l.periods.lookup p = some row → 0 < limitOf limits p →
    row.settled + row.held ≤ limitOf limits p

/-- A settlement within the reservation does not raise the balance. -/
theorem settle_balance_le {row : Period} {reserved : Nat} {actual : Option Nat} (complete : Bool)
    (within : ∀ v ∈ actual, v ≤ reserved) :
    (row.settle reserved actual complete).settled + (row.settle reserved actual complete).held ≤
      row.settled + row.held := by
  have reported : actual.getD reserved ≤ reserved ∧ actual.getD 0 ≤ reserved := by
    cases actual with
    | none => exact ⟨Nat.le_refl _, Nat.zero_le _⟩
    | some v => exact ⟨within v rfl, within v rfl⟩
  unfold Period.settle charged retained
  cases complete with
  | true =>
    simp only [if_true]
    omega
  | false =>
    simp only [Bool.false_eq_true, if_false]
    omega

theorem Within.step {limits : String → Nat × Nat} {l : Ledger} {op : Operation}
    (within : Within limits l) (sound : l.Sound) (honest : Honest limits l op (l.apply op)) :
    Within limits (l.apply op) := by
  intro p row found limited
  cases op with
  | reserve faults key id amount now =>
    rw [Ledger.apply] at found
    rcases reserveAt_cases faults l key id amount now with
      ⟨e, eq⟩ | ⟨r, day, month, -, shape, -, -, -, admitsDay, admitsMonth, eq⟩
    · rw [eq] at found
      exact within p row found limited
    · rw [eq] at found
      have honest : limits key.id = (key.dailyTokenLimit, key.monthlyTokenLimit) := honest
      cases charged : r.charges p with
      | false =>
        rw [Ledger.reserve_lookup_free charged] at found
        exact within p row found limited
      | true =>
        cases (l.reserve_lookup id charged amount).symm.trans found
        have sum : (l.period p).settled + (l.period p).held + amount ≤ limitOf limits p := by
          rw [shape] at charged admitsDay admitsMonth
          rcases Request.charges_iff.mp charged with rfl | rfl
          · have limit : limitOf limits ⟨key.id, .day, day⟩ = key.dailyTokenLimit :=
              congrArg Prod.fst honest
            exact limit ▸ (sound.admits admitsDay).2 (limit ▸ limited)
          · have limit : limitOf limits ⟨key.id, .month, month⟩ = key.monthlyTokenLimit :=
              congrArg Prod.snd honest
            exact limit ▸ (sound.admits admitsMonth).2 (limit ▸ limited)
        unfold Period.hold
        dsimp only
        omega
  | settle faults id actual complete clock =>
    rw [Ledger.apply] at found
    rcases settle_cases faults l id actual complete clock with same | ⟨r, stored, pending, eq⟩
    · rw [same] at found
      exact within p row found limited
    · rw [eq] at found
      cases charged : r.charges p with
      | false =>
        rw [Ledger.settle_lookup_free charged] at found
        exact within p row found limited
      | true =>
        rw [Ledger.settle_lookup charged] at found
        obtain ⟨before, hb, rfl⟩ := Option.map_eq_some_iff.mp found
        have reserved := sound.asU64_reserved stored
        have reported : ∀ v ∈ actual, v ≤ asU64 r.reserved := by
          intro v hv
          have := honest r stored pending v hv
          omega
        exact Int.le_trans (settle_balance_le complete reported) (within p before hb limited)
  | prune faults scan now batch =>
    rw [Ledger.apply] at found
    rcases prune_cases faults scan l now batch with
      ⟨e, eq⟩ | ⟨day, month, expired, unused, -, prunes, eq⟩
    · rw [eq] at found
      exact within p row found limited
    · rw [eq] at found
      rcases lookup_deletePeriods (l.deleteRequests expired) unused p with same | ⟨gone, -⟩
      · exact within p row (same.symm.trans found) limited
      · cases gone.symm.trans found

/-- **Hard quotas.** In every reachable ledger: an accepted reservation is
committed within the limits of its key, a refused one changes nothing, and
neither reservations nor settlements touch rows of other keys, periods or
requests. Under fixed limits and honest settlements no period ever exceeds its
limit. -/
theorem hard_quota {l : Ledger} {operations : List Operation}
    (hr : books.run books.init operations = some l) :
    (∀ faults key id amount now t permit,
      reserveAt faults l key id amount now = (t, .ok permit) →
      ∃ day month dayRow monthRow, periods now = .ok (day, month) ∧
        t.periods.lookup ⟨key.id, .day, day⟩ = some dayRow ∧
        t.periods.lookup ⟨key.id, .month, month⟩ = some monthRow ∧
        (0 < key.dailyTokenLimit → dayRow.settled + dayRow.held ≤ key.dailyTokenLimit) ∧
        (0 < key.monthlyTokenLimit →
          monthRow.settled + monthRow.held ≤ key.monthlyTokenLimit)) ∧
    (∀ faults key id amount now t e,
      reserveAt faults l key id amount now = (t, .error e) → t = l) ∧
    (∀ faults key id amount now,
      (∀ p, (∀ day month, periods now = .ok (day, month) →
          p ≠ ⟨key.id, .day, day⟩ ∧ p ≠ ⟨key.id, .month, month⟩) →
        (reserveAt faults l key id amount now).1.periods.lookup p = l.periods.lookup p) ∧
      ∀ i, i ≠ id →
        (reserveAt faults l key id amount now).1.requests.lookup i = l.requests.lookup i) ∧
    (∀ faults id actual complete clock,
      (∀ p, (∀ r, l.requests.lookup id = some r → r.charges p = false) →
        (settle faults l id actual complete clock).1.periods.lookup p = l.periods.lookup p) ∧
      ∀ i, i ≠ id →
        (settle faults l id actual complete clock).1.requests.lookup i = l.requests.lookup i) ∧
    (∀ limits, books.Along (Honest limits) books.init operations → Within limits l) := by
  have sound : l.Sound := sound_of_reachable ⟨operations, hr⟩
  refine ⟨fun _ _ _ _ _ _ _ h => reserve_within sound h, fun _ _ _ _ _ _ _ h => reserve_error h,
    fun faults key id amount now => reserve_frame l faults key id amount now,
    fun faults id actual complete clock => settle_frame l faults id actual complete clock, ?_⟩
  intro limits honest
  have both : books.Reachable l ∧ Within limits l := by
    apply Machine.run_preserves_along (P := fun l => books.Reachable l ∧ Within limits l) _
      honest hr ⟨.init, fun _ _ found => by cases found⟩
    rintro l op t hn honest ⟨reachable, within⟩
    cases hn
    exact ⟨reachable.next rfl, within.step (sound_of_reachable reachable) honest⟩
  exact both.2

/-- The second reservation fits only after the first is settled below its amount. -/
def contended : List Operation :=
  let key : ProxyApiKey := { id := "key", dailyTokenLimit := 100, monthlyTokenLimit := 150 }
  [.reserve .none key "a" 60 0, .reserve .none key "b" 50 0, .settle .none "a" (some 40) true 5,
    .reserve .none key "b" 50 0]

theorem hard_quota_contended :
    ∃ l, books.run books.init contended = some l ∧ l.requests.keys = ["b", "a"] ∧
      Within (fun _ => (100, 150)) l := by
  have hr : books.run books.init contended =
      some ((books.run books.init contended).getD {}) := rfl
  obtain ⟨-, -, -, -, within⟩ := hard_quota hr
  exact ⟨_, hr, by decide, within _ (by decide)⟩

end LlamaServerManager.Quota
