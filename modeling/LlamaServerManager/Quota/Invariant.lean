import LlamaServerManager.Lib.Machine
import LlamaServerManager.Quota.Transactions

/-!
The invariant of the quota ledger. `Ledger.Sound` ties the two denormalised
period rows of a request to the request table; the three transactions keep it, so
every ledger that `books` reaches from the empty one is sound.
-/

namespace LlamaServerManager.Quota

open Lib

/-! ### What is pending in a period -/

/-- What a pending request contributes to a period it is charged to. -/
def Request.share (r : Request) (p : PeriodId) (n : Int) : Int :=
  if r.state = .pending ∧ r.charges p = true then n else 0

theorem Request.share_of_terminal {r : Request} (h : r.state ≠ .pending) (p : PeriodId) (n : Int) :
    r.share p n = 0 :=
  if_neg fun both => h both.1

theorem Request.share_of_free {r : Request} {p : PeriodId} (h : r.charges p = false) (n : Int) :
    r.share p n = 0 :=
  if_neg fun both => by rw [h] at both; cases both.2

namespace Ledger

/-- The number of pending requests charged to the period. -/
def pendingFor (l : Ledger) (p : PeriodId) : Int := Dict.sum (fun r => r.share p 1) l.requests

/-- The sum of their reservations. -/
def reservedFor (l : Ledger) (p : PeriodId) : Int :=
  Dict.sum (fun r => r.share p r.reserved) l.requests

/-- Every column is in range, every pending request has both of its periods, and
every period row accounts for its pending requests. -/
structure Sound (l : Ledger) : Prop where
  reserved_pos : ∀ id r, l.requests.lookup id = some r → 1 ≤ r.reserved
  reserved_le : ∀ id r, l.requests.lookup id = some r → r.reserved ≤ maxTokens
  actual_range : ∀ id r a, l.requests.lookup id = some r → r.actual = some a →
    0 ≤ a ∧ a ≤ maxTokens
  covered : ∀ id r, l.requests.lookup id = some r → r.state = .pending →
    ∀ p, r.charges p = true → ∃ row, l.periods.lookup p = some row
  pending_eq : ∀ p row, l.periods.lookup p = some row → row.pending = l.pendingFor p
  held_ge : ∀ p row, l.periods.lookup p = some row → row.uncertain + l.reservedFor p ≤ row.held
  uncertain_nonneg : ∀ p row, l.periods.lookup p = some row → 0 ≤ row.uncertain
  settled_nonneg : ∀ p row, l.periods.lookup p = some row → 0 ≤ row.settled
  settled_le : ∀ p row, l.periods.lookup p = some row → row.settled ≤ maxTokens
  held_le : ∀ p row, l.periods.lookup p = some row → row.held ≤ maxTokens

theorem empty_sound : ({} : Ledger).Sound := by
  constructor <;> intro <;> intros <;> simp_all

variable {l : Ledger}

variable {id : String} {r : Request}

theorem Sound.share_nonneg (sound : l.Sound) (p : PeriodId)
    (found : l.requests.lookup id = some r) : 0 ≤ r.share p r.reserved := by
  have pos := sound.reserved_pos id r found
  unfold Request.share
  split <;> omega

theorem Sound.reservedFor_nonneg (sound : l.Sound) (p : PeriodId) : 0 ≤ l.reservedFor p := by
  have zero : Dict.sum (fun _ => 0) l.requests = 0 := Dict.sum_eq_zero fun _ _ _ => rfl
  rw [← zero]
  exact Dict.sum_le_sum fun _ _ found => sound.share_nonneg p found

/-- Every reservation is at least one token, so the pending count is bounded by
the reserved amount. -/
theorem Sound.pendingFor_le (sound : l.Sound) (p : PeriodId) :
    0 ≤ l.pendingFor p ∧ l.pendingFor p ≤ l.reservedFor p := by
  constructor
  · apply Dict.sum_nonneg
    intro r
    unfold Request.share
    split <;> decide
  · apply Dict.sum_le_sum
    intro id r found
    have pos := sound.reserved_pos id r found
    unfold Request.share
    split <;> omega

/-- A period without a row has no pending request. -/
theorem Sound.free_of_absent (sound : l.Sound) {p : PeriodId} (absent : l.periods.lookup p = none)
    (n : Request → Int) : Dict.sum (fun r => r.share p (n r)) l.requests = 0 := by
  apply Dict.sum_eq_zero
  intro id r found
  apply if_neg
  rintro ⟨pending, charged⟩
  obtain ⟨row, present⟩ := sound.covered id r found pending p charged
  rw [absent] at present
  cases present

/-- The balances of a period, with zeros for an absent row. -/
theorem Sound.period (sound : l.Sound) (p : PeriodId) :
    (l.period p).pending = l.pendingFor p ∧
      (l.period p).uncertain + l.reservedFor p ≤ (l.period p).held ∧
      0 ≤ (l.period p).uncertain ∧ 0 ≤ (l.period p).settled ∧
      (l.period p).settled ≤ maxTokens ∧ (l.period p).held ≤ maxTokens := by
  unfold Ledger.period
  cases found : l.periods.lookup p with
  | none =>
    have pending := sound.free_of_absent found fun _ => 1
    have reserved := sound.free_of_absent found Request.reserved
    simp [pendingFor, reservedFor, pending, reserved]
  | some row =>
    exact ⟨sound.pending_eq p row found, sound.held_ge p row found,
      sound.uncertain_nonneg p row found, sound.settled_nonneg p row found,
      sound.settled_le p row found, sound.held_le p row found⟩

/-- In a sound ledger the admission test is about the exact sum. -/
theorem Sound.admits (sound : l.Sound) {p : PeriodId} {limit amount : Nat}
    (admits : l.Admits p limit amount) :
    (l.period p).settled + (l.period p).held + amount ≤ maxTokens ∧
      (0 < limit → (l.period p).settled + (l.period p).held + amount ≤ limit) := by
  obtain ⟨-, held, uncertain, low, high, heldHigh⟩ := sound.period p
  have reserved := sound.reservedFor_nonneg p
  have settledU := asU64_of_nonneg low high
  have heldU := asU64_of_nonneg (n := (l.period p).held) (by omega) heldHigh
  obtain ⟨below, small⟩ := admits
  unfold saturatingAdd at below small
  unfold maxTokens at *
  constructor
  · omega
  · intro limited
    have := below limited
    omega

/-! ### The transactions keep the invariant -/

theorem sum_share_reserve (fresh : id ∉ l.requests) (amount : Nat) (p : PeriodId)
    (n : Request → Int) :
    Dict.sum (fun r => r.share p (n r)) (l.reserve id r amount).requests =
      Dict.sum (fun r => r.share p (n r)) l.requests + r.share p (n r) :=
  Dict.sum_insert_of_notMem _ fresh

/-- A settled request contributes to its periods no longer. -/
theorem sum_share_settle (found : l.requests.lookup id = some r) (actual : Option Nat)
    (complete : Bool) (clock : Int) (p : PeriodId) (n : Request → Int) :
    Dict.sum (fun r => r.share p (n r)) (l.settle id r actual complete clock).requests =
      Dict.sum (fun r => r.share p (n r)) l.requests - r.share p (n r) := by
  have terminal : (r.settle actual complete clock).state ≠ .pending := by
    cases complete <;> simp [Request.settle]
  rw [settle_requests found, Dict.sum_insert_of_lookup _ _ found,
    Request.share_of_terminal terminal, Int.add_zero]

/-- Deleted requests contributed nothing. -/
theorem sum_share_prune {cutoff month : Int} {expired : List (String × Request)}
    {unused : List PeriodId} (prunes : l.Prunes cutoff month expired unused) (p : PeriodId)
    (n : Request → Int) :
    Dict.sum (fun r => r.share p (n r)) (l.deleteRequests expired).requests =
      Dict.sum (fun r => r.share p (n r)) l.requests := by
  unfold deleteRequests
  dsimp only
  apply Dict.sum_filter
  intro id r found gone
  simp only [Bool.not_eq_false', List.any_eq_true, beq_iff_eq] at gone
  obtain ⟨e, he, rfl⟩ := gone
  obtain ⟨stored, old⟩ := prunes.requests e he
  cases found.symm.trans stored
  apply Request.share_of_terminal
  unfold Request.expired at old
  simp at old
  exact old.2

theorem Sound.reserve (sound : l.Sound) {amount : Nat} (fresh : id ∉ l.requests)
    (pending : r.state = .pending) (reserved : r.reserved = amount) (positive : 0 < amount)
    (small : amount ≤ maxTokens) (actual : r.actual = none) (admits : ∀ p, r.charges p = true →
      (l.period p).settled + (l.period p).held + amount ≤ maxTokens) :
    (l.reserve id r amount).Sound := by
  have requests : ∀ i q, (l.reserve id r amount).requests.lookup i = some q →
      i = id ∧ q = r ∨ l.requests.lookup i = some q := by
    intro i q found
    by_cases same : i = id
    · subst same
      have found : (l.requests.insert i r).lookup i = some q := found
      rw [AList.lookup_insert] at found
      exact .inl ⟨rfl, (Option.some.inj found).symm⟩
    · exact .inr ((AList.lookup_insert_ne same).symm.trans found)
  have rows : ∀ p row, (l.reserve id r amount).periods.lookup p = some row →
      r.charges p = true ∧ row = (l.period p).hold amount ∨
        r.charges p = false ∧ l.periods.lookup p = some row := by
    intro p row found
    cases charged : r.charges p with
    | true =>
      rw [reserve_lookup l id charged] at found
      exact .inl ⟨rfl, (Option.some.inj found).symm⟩
    | false =>
      rw [reserve_lookup_free charged] at found
      exact .inr ⟨rfl, found⟩
  have share : ∀ p, r.charges p = true → ∀ n, r.share p n = n := fun p charged n =>
    if_pos ⟨pending, charged⟩
  have pendingFor : ∀ p, (l.reserve id r amount).pendingFor p = l.pendingFor p + r.share p 1 :=
    fun p => sum_share_reserve fresh amount p fun _ => 1
  have reservedFor : ∀ p, (l.reserve id r amount).reservedFor p =
      l.reservedFor p + r.share p r.reserved :=
    fun p => sum_share_reserve fresh amount p Request.reserved
  constructor
  · intro i q found
    rcases requests i q found with ⟨-, rfl⟩ | old
    · omega
    · exact sound.reserved_pos i q old
  · intro i q found
    rcases requests i q found with ⟨-, rfl⟩ | old
    · omega
    · exact sound.reserved_le i q old
  · intro i q a found ha
    rcases requests i q found with ⟨-, rfl⟩ | old
    · rw [actual] at ha
      cases ha
    · exact sound.actual_range i q a old ha
  · intro i q found hq p charged
    cases own : r.charges p with
    | true => exact ⟨_, reserve_lookup l id own amount⟩
    | false =>
      rcases requests i q found with ⟨-, rfl⟩ | old
      · rw [charged] at own
        cases own
      · rw [reserve_lookup_free own]
        exact sound.covered i q old hq p charged
  · intro p row found
    rw [pendingFor]
    rcases rows p row found with ⟨charged, rfl⟩ | ⟨free, old⟩
    · rw [share p charged, ← (sound.period p).1]
      rfl
    · rw [Request.share_of_free free, Int.add_zero]
      exact sound.pending_eq p row old
  · intro p row found
    rw [reservedFor]
    rcases rows p row found with ⟨charged, rfl⟩ | ⟨free, old⟩
    · have := (sound.period p).2.1
      rw [share p charged, Period.hold]
      dsimp only
      omega
    · rw [Request.share_of_free free, Int.add_zero]
      exact sound.held_ge p row old
  · intro p row found
    rcases rows p row found with ⟨charged, rfl⟩ | ⟨free, old⟩
    · exact (sound.period p).2.2.1
    · exact sound.uncertain_nonneg p row old
  · intro p row found
    rcases rows p row found with ⟨charged, rfl⟩ | ⟨free, old⟩
    · exact (sound.period p).2.2.2.1
    · exact sound.settled_nonneg p row old
  · intro p row found
    rcases rows p row found with ⟨charged, rfl⟩ | ⟨free, old⟩
    · exact (sound.period p).2.2.2.2.1
    · exact sound.settled_le p row old
  · intro p row found
    rcases rows p row found with ⟨charged, rfl⟩ | ⟨free, old⟩
    · have := admits p charged
      have := (sound.period p).2.2.2.1
      rw [Period.hold]
      dsimp only
      omega
    · exact sound.held_le p row old

/-- An incomplete settlement keeps at least the reservation. -/
theorem le_retained {reserved : Nat} (actual : Option Nat) (small : reserved ≤ maxTokens) :
    reserved ≤ retained reserved actual false :=
  Nat.le_min.mpr ⟨Nat.le_max_right _ _, small⟩

/-- The reservation of a stored request, read back unsigned. -/
theorem Sound.asU64_reserved (sound : l.Sound) (found : l.requests.lookup id = some r) :
    (asU64 r.reserved : Int) = r.reserved :=
  asU64_of_nonneg (Int.le_trans (by decide) (sound.reserved_pos id r found))
    (sound.reserved_le id r found)

/-- A row that covers a pending reservation of `reserved` tokens keeps covering
the rest after the settlement, and stays in range. -/
theorem settle_covers {row : Period} {reserved : Nat} {rest : Int} (actual : Option Nat)
    (complete : Bool) (positive : 1 ≤ reserved) (small : reserved ≤ maxTokens)
    (covers : row.uncertain + (rest + reserved) ≤ row.held) (full : row.held ≤ maxTokens)
    (known : 0 ≤ row.settled) :
    (row.settle reserved actual complete).uncertain + rest ≤
        (row.settle reserved actual complete).held ∧
      0 ≤ (row.settle reserved actual complete).settled := by
  unfold Period.settle
  dsimp only
  cases complete with
  | true =>
    have none : retained reserved actual true = 0 := rfl
    rw [none]
    simp only [if_true]
    omega
  | false =>
    have kept := le_retained actual small
    simp only [Bool.false_eq_true, if_false]
    omega

theorem Sound.settle (sound : l.Sound) (actual : Option Nat) (complete : Bool) (clock : Int)
    (stored : l.requests.lookup id = some r) (pending : r.state = .pending) :
    (l.settle id r actual complete clock).Sound := by
  have positive := sound.reserved_pos id r stored
  have small := sound.reserved_le id r stored
  have exact_ := sound.asU64_reserved stored
  have requests : ∀ i q, (l.settle id r actual complete clock).requests.lookup i = some q →
      i = id ∧ q = r.settle actual complete clock ∨ i ≠ id ∧ l.requests.lookup i = some q := by
    intro i q found
    rw [settle_requests stored] at found
    by_cases same : i = id
    · subst same
      rw [AList.lookup_insert] at found
      exact .inl ⟨rfl, (Option.some.inj found).symm⟩
    · exact .inr ⟨same, (AList.lookup_insert_ne same).symm.trans found⟩
  have rows : ∀ p row, (l.settle id r actual complete clock).periods.lookup p = some row →
      (∃ before, l.periods.lookup p = some before ∧ r.charges p = true ∧
        row = before.settle (asU64 r.reserved) actual complete) ∨
      r.charges p = false ∧ l.periods.lookup p = some row := by
    intro p row found
    cases charged : r.charges p with
    | true =>
      rw [settle_lookup charged] at found
      obtain ⟨before, hb, rfl⟩ := Option.map_eq_some_iff.mp found
      exact .inl ⟨before, hb, rfl, rfl⟩
    | false =>
      rw [settle_lookup_free charged] at found
      exact .inr ⟨rfl, found⟩
  have share : ∀ p, r.charges p = true → ∀ n, r.share p n = n := fun p charged n =>
    if_pos ⟨pending, charged⟩
  have pendingFor : ∀ p, (l.settle id r actual complete clock).pendingFor p =
      l.pendingFor p - r.share p 1 :=
    fun p => sum_share_settle stored actual complete clock p fun _ => 1
  have reservedFor : ∀ p, (l.settle id r actual complete clock).reservedFor p =
      l.reservedFor p - r.share p r.reserved :=
    fun p => sum_share_settle stored actual complete clock p Request.reserved
  have covers : ∀ p before, l.periods.lookup p = some before → r.charges p = true →
      ((before.settle (asU64 r.reserved) actual complete).uncertain +
          (l.reservedFor p - r.reserved) ≤
        (before.settle (asU64 r.reserved) actual complete).held ∧
      0 ≤ (before.settle (asU64 r.reserved) actual complete).settled) := by
    intro p before hb charged
    have ge := sound.held_ge p before hb
    apply settle_covers actual complete (by omega) (by omega) (by omega)
      (sound.held_le p before hb) (sound.settled_nonneg p before hb)
  constructor
  · intro i q found
    rcases requests i q found with ⟨-, rfl⟩ | ⟨-, old⟩
    · exact positive
    · exact sound.reserved_pos i q old
  · intro i q found
    rcases requests i q found with ⟨-, rfl⟩ | ⟨-, old⟩
    · exact small
    · exact sound.reserved_le i q old
  · intro i q a found ha
    rcases requests i q found with ⟨-, rfl⟩ | ⟨-, old⟩
    · obtain ⟨v, -, rfl⟩ := Option.map_eq_some_iff.mp ha
      omega
    · exact sound.actual_range i q a old ha
  · intro i q found hq p charged
    rcases requests i q found with ⟨-, rfl⟩ | ⟨-, old⟩
    · cases complete <;> simp [Request.settle] at hq
    · obtain ⟨row, hrow⟩ := sound.covered i q old hq p charged
      cases own : r.charges p with
      | true => exact ⟨_, by rw [settle_lookup own, hrow]; rfl⟩
      | false => exact ⟨row, by rw [settle_lookup_free own, hrow]⟩
  · intro p row found
    rw [pendingFor]
    rcases rows p row found with ⟨before, hb, charged, rfl⟩ | ⟨free, old⟩
    · rw [share p charged, ← sound.pending_eq p before hb]
      rfl
    · rw [Request.share_of_free free, Int.sub_zero]
      exact sound.pending_eq p row old
  · intro p row found
    rw [reservedFor]
    rcases rows p row found with ⟨before, hb, charged, rfl⟩ | ⟨free, old⟩
    · rw [share p charged]
      exact (covers p before hb charged).1
    · rw [Request.share_of_free free, Int.sub_zero]
      exact sound.held_ge p row old
  · intro p row found
    rcases rows p row found with ⟨before, hb, charged, rfl⟩ | ⟨free, old⟩
    · have := sound.uncertain_nonneg p before hb
      unfold Period.settle
      dsimp only
      split <;> omega
    · exact sound.uncertain_nonneg p row old
  · intro p row found
    rcases rows p row found with ⟨before, hb, charged, rfl⟩ | ⟨free, old⟩
    · exact (covers p before hb charged).2
    · exact sound.settled_nonneg p row old
  · intro p row found
    rcases rows p row found with ⟨before, hb, charged, rfl⟩ | ⟨free, old⟩
    · exact Int.min_le_left _ _
    · exact sound.settled_le p row old
  · intro p row found
    rcases rows p row found with ⟨before, hb, charged, rfl⟩ | ⟨free, old⟩
    · exact Int.min_le_left _ _
    · exact sound.held_le p row old

/-- A pass deletes only what nothing pending needs. -/
theorem Sound.prune (sound : l.Sound) {cutoff month : Int} {expired : List (String × Request)}
    {unused : List PeriodId} (prunes : l.Prunes cutoff month expired unused) :
    ((l.deleteRequests expired).deletePeriods unused).Sound := by
  have requests : ∀ i q, ((l.deleteRequests expired).deletePeriods unused).requests.lookup i =
      some q → l.requests.lookup i = some q := by
    intro i q found
    rcases prunes.lookup_requests i with same | ⟨gone, -⟩
    · exact same ▸ found
    · cases gone.symm.trans found
  have rows : ∀ p row, ((l.deleteRequests expired).deletePeriods unused).periods.lookup p =
      some row → l.periods.lookup p = some row := by
    intro p row found
    rcases lookup_deletePeriods (l.deleteRequests expired) unused p with same | ⟨gone, -⟩
    · exact same.symm.trans found
    · cases gone.symm.trans found
  have pendingFor : ∀ p, ((l.deleteRequests expired).deletePeriods unused).pendingFor p =
      l.pendingFor p := fun p => sum_share_prune prunes p fun _ => 1
  have reservedFor : ∀ p, ((l.deleteRequests expired).deletePeriods unused).reservedFor p =
      l.reservedFor p := fun p => sum_share_prune prunes p Request.reserved
  constructor
  · exact fun i q found => sound.reserved_pos i q (requests i q found)
  · exact fun i q found => sound.reserved_le i q (requests i q found)
  · exact fun i q a found => sound.actual_range i q a (requests i q found)
  · intro i q found pending p charged
    obtain ⟨row, present⟩ := sound.covered i q (requests i q found) pending p charged
    rcases lookup_deletePeriods (l.deleteRequests expired) unused p with same | ⟨-, gone⟩
    · exact ⟨row, same.trans present⟩
    · -- A period a remaining request is charged to is not deleted.
      have free := (prunes.periods p gone).2.2.2 i q found
      rw [charged] at free
      cases free
  · exact fun p row found => (pendingFor p).symm ▸ sound.pending_eq p row (rows p row found)
  · exact fun p row found => (reservedFor p).symm ▸ sound.held_ge p row (rows p row found)
  · exact fun p row found => sound.uncertain_nonneg p row (rows p row found)
  · exact fun p row found => sound.settled_nonneg p row (rows p row found)
  · exact fun p row found => sound.settled_le p row (rows p row found)
  · exact fun p row found => sound.held_le p row (rows p row found)

end Ledger

/-! ### Runs -/

/-- One call of `reserve_at`, `settle` or `prune`, with what the database, the
clock and the scan order decided. -/
inductive Operation where
  | reserve (faults : Faults) (key : ProxyApiKey) (id : String) (amount : Nat) (now : Int)
  | settle (faults : Faults) (id : String) (actual : Option Nat) (complete : Bool) (clock : Int)
  | prune (faults : Faults) (scan : Scan) (now : Int) (batch : Nat)

/-- The committed ledger. -/
def Ledger.apply (l : Ledger) : Operation → Ledger
  | .reserve faults key id amount now => (reserveAt faults l key id amount now).1
  | .settle faults id actual complete clock => (Quota.settle faults l id actual complete clock).1
  | .prune faults scan now batch => (Quota.prune faults scan l now batch).1

/-- Every sequence of transactions, from the empty ledger. -/
def books : Machine Ledger Operation where
  init := {}
  next l op := some (l.apply op)

theorem Ledger.Sound.apply {l : Ledger} (sound : l.Sound) (op : Operation) : (l.apply op).Sound := by
  cases op with
  | reserve faults key id amount now =>
    rcases reserveAt_cases faults l key id amount now with
      ⟨e, eq⟩ | ⟨r, day, month, -, rfl, positive, small, fresh, admitsDay, admitsMonth, eq⟩
    · rw [Ledger.apply, eq]
      exact sound
    · rw [Ledger.apply, eq]
      apply sound.reserve fresh rfl rfl positive small rfl
      intro p charged
      rcases Request.charges_iff.mp charged with rfl | rfl
      · exact (sound.admits admitsDay).1
      · exact (sound.admits admitsMonth).1
  | settle faults id actual complete clock =>
    rcases settle_cases faults l id actual complete clock with same | ⟨r, found, pending, eq⟩
    · rw [Ledger.apply, same]
      exact sound
    · rw [Ledger.apply, eq]
      exact sound.settle actual complete clock found pending
  | prune faults scan now batch =>
    rcases prune_cases faults scan l now batch with
      ⟨e, eq⟩ | ⟨day, month, expired, unused, -, prunes, eq⟩
    · rw [Ledger.apply, eq]
      exact sound
    · rw [Ledger.apply, eq]
      exact sound.prune prunes

/-- Every reachable ledger is sound. -/
theorem sound_of_reachable {l : Ledger} (h : books.Reachable l) : l.Sound := by
  apply Machine.Reachable.invariant Ledger.empty_sound _ h
  rintro l op t ⟨⟩ sound
  exact sound.apply op

end LlamaServerManager.Quota
