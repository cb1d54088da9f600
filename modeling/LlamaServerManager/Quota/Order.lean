import LlamaServerManager.Quota.Invariant

/-!
Settlements in either order.

Two settlements rewrite a shared period row through `held - reserved + retained`
clamped to `maxTokens`. Subtracting after the clamp takes away what the clamp
already cut off, so they commute exactly when an incomplete settlement does not
saturate a row that a complete one also rewrites (`Period.settle_comm`).
-/

namespace LlamaServerManager.Quota

open Lib

/-- The settlement lifts the row's `held` above `maxTokens`, so the clamp cuts it. -/
def Period.Saturates (row : Period) (reserved : Nat) (actual : Option Nat) (complete : Bool) :
    Prop :=
  maxTokens < row.held - reserved + retained reserved actual complete

instance (row : Period) (reserved : Nat) (actual : Option Nat) (complete : Bool) :
    Decidable (row.Saturates reserved actual complete) :=
  inferInstanceAs (Decidable (_ < _))

/-- Exactly one of the settlements is incomplete, and it saturates the row. -/
def Period.Clash (row : Period) (r₁ : Nat) (a₁ : Option Nat) (c₁ : Bool) (r₂ : Nat)
    (a₂ : Option Nat) (c₂ : Bool) : Prop :=
  c₁ = false ∧ c₂ = true ∧ row.Saturates r₁ a₁ c₁ ∨
    c₁ = true ∧ c₂ = false ∧ row.Saturates r₂ a₂ c₂

instance (row : Period) (r₁ : Nat) (a₁ : Option Nat) (c₁ : Bool) (r₂ : Nat) (a₂ : Option Nat)
    (c₂ : Bool) : Decidable (row.Clash r₁ a₁ c₁ r₂ a₂ c₂) :=
  inferInstanceAs (Decidable (_ ∨ _))

/-- Two settlements of one row commute unless they clash. -/
theorem Period.settle_comm {row : Period} (r₁ r₂ : Nat) (a₁ a₂ : Option Nat) (c₁ c₂ : Bool)
    (full : row.held ≤ maxTokens) (pos₁ : 1 ≤ r₁) (pos₂ : 1 ≤ r₂) (small₁ : r₁ ≤ maxTokens)
    (small₂ : r₂ ≤ maxTokens) :
    (row.settle r₁ a₁ c₁).settle r₂ a₂ c₂ = (row.settle r₂ a₂ c₂).settle r₁ a₁ c₁ ↔
      ¬ row.Clash r₁ a₁ c₁ r₂ a₂ c₂ := by
  -- Only `held` depends on the order.
  have settled : ((row.settle r₁ a₁ c₁).settle r₂ a₂ c₂).settled =
      ((row.settle r₂ a₂ c₂).settle r₁ a₁ c₁).settled := by
    simp only [settle]
    omega
  have pending : ((row.settle r₁ a₁ c₁).settle r₂ a₂ c₂).pending =
      ((row.settle r₂ a₂ c₂).settle r₁ a₁ c₁).pending := rfl
  have uncertain : ((row.settle r₁ a₁ c₁).settle r₂ a₂ c₂).uncertain =
      ((row.settle r₂ a₂ c₂).settle r₁ a₁ c₁).uncertain := by
    simp only [settle]
    omega
  have byHeld : (row.settle r₁ a₁ c₁).settle r₂ a₂ c₂ = (row.settle r₂ a₂ c₂).settle r₁ a₁ c₁ ↔
      ((row.settle r₁ a₁ c₁).settle r₂ a₂ c₂).held =
        ((row.settle r₂ a₂ c₂).settle r₁ a₁ c₁).held := by
    rw [Period.mk.injEq]
    exact ⟨fun same => same.2.1, fun same => ⟨settled, same, pending, uncertain⟩⟩
  rw [byHeld]
  have kept₁ := Ledger.le_retained a₁ small₁
  have kept₂ := Ledger.le_retained a₂ small₂
  unfold Clash Saturates
  simp only [settle]
  cases c₁ with
  | true =>
    have none₁ : retained r₁ a₁ true = 0 := rfl
    cases c₂ with
    | true =>
      have none₂ : retained r₂ a₂ true = 0 := rfl
      simp only [none₁, none₂]
      simp
      omega
    | false =>
      simp only [none₁]
      simp
      omega
  | false =>
    cases c₂ with
    | true =>
      have none₂ : retained r₂ a₂ true = 0 := rfl
      simp only [none₂]
      simp
      omega
    | false =>
      simp
      omega

/-! ### Two settlements of a ledger -/

/-- The row of the request without the time it was written. -/
def Request.outcome (r : Request) : Request := { r with updated := 0 }

/-- The settlements of the two requests clash in a row both are charged to. -/
def Ledger.Clash (l : Ledger) (p : PeriodId) (r₁ : Request) (a₁ : Option Nat) (c₁ : Bool)
    (r₂ : Request) (a₂ : Option Nat) (c₂ : Bool) : Prop :=
  r₁.charges p = true ∧ r₂.charges p = true ∧ ∃ row, l.periods.lookup p = some row ∧
    row.Clash (asU64 r₁.reserved) a₁ c₁ (asU64 r₂.reserved) a₂ c₂

section Two

variable {l : Ledger} {i j : String} {r₁ r₂ : Request} (a₁ a₂ : Option Nat) (c₁ c₂ : Bool)
  (t₁ t₂ : Int)

/-- Settling one request leaves the other pending. -/
theorem settle_twice (ne : i ≠ j) (found₁ : l.requests.lookup i = some r₁)
    (found₂ : l.requests.lookup j = some r₂) (pending₁ : r₁.state = .pending)
    (pending₂ : r₂.state = .pending) :
    (settle .none (settle .none l i a₁ c₁ t₁).1 j a₂ c₂ t₂).1 =
        (l.settle i r₁ a₁ c₁ t₁).settle j r₂ a₂ c₂ t₂ ∧
      ((l.settle i r₁ a₁ c₁ t₁).settle j r₂ a₂ c₂ t₂).requests =
        (l.requests.insert i (r₁.settle a₁ c₁ t₁)).insert j (r₂.settle a₂ c₂ t₂) := by
  have requests : (l.settle i r₁ a₁ c₁ t₁).requests = l.requests.insert i (r₁.settle a₁ c₁ t₁) :=
    Ledger.settle_requests found₁
  have other : (l.settle i r₁ a₁ c₁ t₁).requests.lookup j = some r₂ := by
    rw [requests, AList.lookup_insert_ne ne.symm, found₂]
  rw [settle_of_pending a₁ c₁ t₁ found₁ pending₁]
  dsimp only
  rw [settle_of_pending a₂ c₂ t₂ other pending₂]
  dsimp only
  rw [Ledger.settle_requests other, requests]
  exact ⟨rfl, rfl⟩

theorem settle_requests_comm (ne : i ≠ j) (t₁' t₂' : Int) (id : String) :
    (((l.requests.insert i (r₁.settle a₁ c₁ t₁)).insert j (r₂.settle a₂ c₂ t₂)).lookup id).map
        Request.outcome =
      (((l.requests.insert j (r₂.settle a₂ c₂ t₂')).insert i (r₁.settle a₁ c₁ t₁')).lookup id).map
        Request.outcome := by
  by_cases first : id = i
  · subst first
    rw [AList.lookup_insert_ne ne, AList.lookup_insert, AList.lookup_insert]
    rfl
  · by_cases second : id = j
    · subst second
      rw [AList.lookup_insert, AList.lookup_insert_ne first, AList.lookup_insert]
      rfl
    · rw [AList.lookup_insert_ne second, AList.lookup_insert_ne first,
        AList.lookup_insert_ne first, AList.lookup_insert_ne second]

theorem settle_periods_comm (sound : l.Sound) (found₁ : l.requests.lookup i = some r₁)
    (found₂ : l.requests.lookup j = some r₂) (t₁' t₂' : Int) (p : PeriodId) :
    ((l.settle i r₁ a₁ c₁ t₁).settle j r₂ a₂ c₂ t₂).periods.lookup p =
        ((l.settle j r₂ a₂ c₂ t₂').settle i r₁ a₁ c₁ t₁').periods.lookup p ↔
      ¬ l.Clash p r₁ a₁ c₁ r₂ a₂ c₂ := by
  cases first : r₁.charges p with
  | false =>
    have apart : ¬ l.Clash p r₁ a₁ c₁ r₂ a₂ c₂ := fun clash => by
      cases first.symm.trans clash.1
    simp only [apart, not_false_eq_true, iff_true]
    cases second : r₂.charges p with
    | false =>
      rw [Ledger.settle_lookup_free second, Ledger.settle_lookup_free first,
        Ledger.settle_lookup_free first, Ledger.settle_lookup_free second]
    | true =>
      rw [Ledger.settle_lookup second, Ledger.settle_lookup_free first,
        Ledger.settle_lookup_free first, Ledger.settle_lookup second]
  | true =>
    cases second : r₂.charges p with
    | false =>
      have apart : ¬ l.Clash p r₁ a₁ c₁ r₂ a₂ c₂ := fun clash => by
        cases second.symm.trans clash.2.1
      simp only [apart, not_false_eq_true, iff_true]
      rw [Ledger.settle_lookup_free second, Ledger.settle_lookup first,
        Ledger.settle_lookup first, Ledger.settle_lookup_free second]
    | true =>
      rw [Ledger.settle_lookup second, Ledger.settle_lookup first,
        Ledger.settle_lookup first, Ledger.settle_lookup second]
      cases row : l.periods.lookup p with
      | none =>
        have apart : ¬ l.Clash p r₁ a₁ c₁ r₂ a₂ c₂ := by
          rintro ⟨-, -, row', found, -⟩
          cases row.symm.trans found
        simp only [apart, not_false_eq_true, iff_true]
        rfl
      | some row' =>
        have exact₁ := sound.asU64_reserved found₁
        have exact₂ := sound.asU64_reserved found₂
        have pos₁ := sound.reserved_pos i r₁ found₁
        have pos₂ := sound.reserved_pos j r₂ found₂
        have small₁ := sound.reserved_le i r₁ found₁
        have small₂ := sound.reserved_le j r₂ found₂
        have comm := Period.settle_comm (asU64 r₁.reserved) (asU64 r₂.reserved) a₁ a₂ c₁ c₂
          (sound.held_le p row' row) (by omega) (by omega) (by omega) (by omega)
        simp only [Option.map_some, Option.some.injEq]
        rw [comm]
        unfold Ledger.Clash
        simp only [first, second, row, true_and, Option.some.injEq, exists_eq_left']

end Two

/-- **Settlements commute unless they clash, and happen once.** In every
reachable ledger two pending requests end up in the same states in either order,
with the same row of a period exactly when they do not clash in it; a second
settlement of a request changes nothing. -/
theorem settlements_commute {l : Ledger} {operations : List Operation}
    (hr : books.run books.init operations = some l) :
    (∀ i j r₁ r₂, i ≠ j → l.requests.lookup i = some r₁ → l.requests.lookup j = some r₂ →
      r₁.state = .pending → r₂.state = .pending → ∀ a₁ c₁ a₂ c₂ t₁ t₂ t₁' t₂',
      let ij := (settle .none (settle .none l i a₁ c₁ t₁).1 j a₂ c₂ t₂).1
      let ji := (settle .none (settle .none l j a₂ c₂ t₂').1 i a₁ c₁ t₁').1
      (∀ id, (ij.requests.lookup id).map Request.outcome =
        (ji.requests.lookup id).map Request.outcome) ∧
      ∀ p, ij.periods.lookup p = ji.periods.lookup p ↔ ¬ l.Clash p r₁ a₁ c₁ r₂ a₂ c₂) ∧
    ∀ id a c t faults a' c' t',
      (settle faults (settle .none l id a c t).1 id a' c' t').1 = (settle .none l id a c t).1 := by
  have sound : l.Sound := sound_of_reachable ⟨operations, hr⟩
  constructor
  · intro i j r₁ r₂ ne found₁ found₂ pending₁ pending₂ a₁ c₁ a₂ c₂ t₁ t₂ t₁' t₂'
    obtain ⟨eq, requests⟩ := settle_twice a₁ a₂ c₁ c₂ t₁ t₂ ne found₁ found₂ pending₁ pending₂
    obtain ⟨eq', requests'⟩ :=
      settle_twice a₂ a₁ c₂ c₁ t₂' t₁' ne.symm found₂ found₁ pending₂ pending₁
    dsimp only
    rw [eq, eq', requests, requests']
    exact ⟨settle_requests_comm a₁ a₂ c₁ c₂ t₁ t₂ ne t₁' t₂',
      settle_periods_comm a₁ a₂ c₁ c₂ t₁ t₂ sound found₁ found₂ t₁' t₂'⟩
  · intro id a c t faults a' c' t'
    apply settle_of_terminal
    intro r found
    rcases settle_cases .none l id a c t with same | ⟨q, stored, -, eq⟩
    · rw [same] at found
      intro pending
      rw [settle_of_pending a c t found pending] at same
      have settled := congrArg (fun l => l.requests.lookup id) same
      simp only [Ledger.settle_requests found, AList.lookup_insert, found] at settled
      rw [← Option.some.inj settled] at pending
      cases c <;> simp [Request.settle] at pending
    · rw [eq, Ledger.settle_requests stored] at found
      cases (AList.lookup_insert l.requests).symm.trans found
      cases c <;> simp [Request.settle]

/-- Two reservations of one key without limits. -/
def twoPending : List Operation :=
  [.reserve .none { id := "key" } "a" 30 0, .reserve .none { id := "key" } "b" 20 0]

theorem settlements_commute_two_pending :
    ∃ l, books.run books.init twoPending = some l ∧
      (settle .none (settle .none l "a" (some 35) false 1).1 "b" (some 5) true 2).1.periods.lookup
          ⟨"key", .day, 0⟩ =
        (settle .none (settle .none l "b" (some 5) true 3).1 "a" (some 35) false 4).1.periods.lookup
          ⟨"key", .day, 0⟩ := by
  have hr : books.run books.init twoPending =
      some ((books.run books.init twoPending).getD {}) := rfl
  refine ⟨_, hr, (((settlements_commute hr).1 "a" "b"
    ⟨"key", 0, 0, 30, .pending, none, 0⟩ ⟨"key", 0, 0, 20, .pending, none, 0⟩ (by decide) rfl rfl
    rfl rfl (some 35) false (some 5) true 1 2 4 3).2 _).mpr ?_⟩
  rintro ⟨-, -, row, found, clash⟩
  cases found
  revert clash
  decide

/-- Saturation breaks the order-independence: what an incomplete settlement
reports above `maxTokens` is cut off before the complete one gives its
reservation back, or after. -/
theorem settlements_of_saturated_row :
    ¬ ∀ operations l, books.run books.init operations = some l →
      ∀ i j r₁ r₂, i ≠ j → l.requests.lookup i = some r₁ → l.requests.lookup j = some r₂ →
        r₁.state = .pending → r₂.state = .pending → ∀ a₁ c₁ a₂ c₂ t₁ t₂ p,
        (settle .none (settle .none l i a₁ c₁ t₁).1 j a₂ c₂ t₂).1.periods.lookup p =
          (settle .none (settle .none l j a₂ c₂ t₂).1 i a₁ c₁ t₁).1.periods.lookup p := by
  intro commute
  have hr : books.run books.init twoPending =
      some ((books.run books.init twoPending).getD {}) := rfl
  have same := commute twoPending _ hr "a" "b"
    ⟨"key", 0, 0, 30, .pending, none, 0⟩ ⟨"key", 0, 0, 20, .pending, none, 0⟩ (by decide) rfl rfl
    rfl rfl (some 9007199254740991) false (some 0) true 1 2 ⟨"key", .day, 0⟩
  exact absurd same (by decide)

end LlamaServerManager.Quota
