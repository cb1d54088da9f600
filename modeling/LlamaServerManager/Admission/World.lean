import LlamaServerManager.Lib.Machine
import LlamaServerManager.Admission.Invariant

/-!
The admission ledger under every interleaving of its critical sections.

`World` adds to the shared state the guards that are alive (`Waiter`s and
`AdmissionPermit`s, whose drops are steps) and two history variables: the
tickets in the order they were admitted, and how many were issued. `machine`
takes one critical section per step. Every state reached while fewer than 2^64
tickets are issued is `Good`.
-/

namespace LlamaServerManager.Admission

open Lib

/-! ### The world of one admission object -/

/-- The shared state, the live guards, and two history variables. -/
structure World where
  state : State := .default
  /-- Tickets of the live `Waiter` guards. -/
  waiters : List Nat := []
  /-- Tickets of the live `AdmissionPermit`s. -/
  permits : List Nat := []
  /-- History: tickets and keys in the order of admission. -/
  admitted : List (Nat × String) := []
  /-- History: how many tickets were issued. -/
  issued : Nat := 0

/-- One critical section. -/
inductive Action where
  | acquire (key : String)
  | inspect (id : Nat)
  | dropWaiter (id : Nat)
  | dropPermit (id : Nat)
  | target (id : Nat) (model inst : String)
  | configure (config : ProxyConfig)

namespace World

/-- A permit is handed out: its guard is alive and the admission is recorded. -/
def grant (w : World) (s : State) (id : Nat) : World :=
  { w with state := s, permits := id :: w.permits, admitted := w.admitted ++ [(id, s.keyOf id)] }

/-- A waiter inspects the state only while its guard is alive; a guard is
dropped, and `target` called, only while it is alive. -/
def next (w : World) : Action → Option World
  | .acquire key =>
    match w.state.acquire key with
    | (s, .permit id) => some { w.grant s id with issued := w.issued + 1 }
    | (_, .refused) => some w
    | (s, .waiter id) =>
      some { w with state := s, waiters := id :: w.waiters, issued := w.issued + 1 }
  | .inspect id =>
    if id ∈ w.waiters then
      match w.state.admitWaiter id with
      | some s => some (w.grant s id)
      | none => some w
    else none
  | .dropWaiter id =>
    if id ∈ w.waiters then
      some { w with state := w.state.dropWaiter id, waiters := w.waiters.erase id }
    else none
  | .dropPermit id =>
    if id ∈ w.permits then
      some { w with state := w.state.dropPermit id, permits := w.permits.erase id }
    else none
  | .target id model inst =>
    if id ∈ w.permits then some { w with state := w.state.target id model inst } else none
  | .configure config => some { w with state := w.state.configure config }

end World

/-- Every interleaving of the critical sections, from `Admission::default`. -/
def machine : Machine World Action where
  init := {}
  next := World.next

/-- While fewer than 2^64 tickets are issued the collections agree, tickets are
numbered without gaps, and everything recorded has a live guard. -/
structure World.Good (w : World) : Prop where
  wf : w.state.Wf
  next_eq : w.state.next = w.issued
  waiting_guarded : ∀ e ∈ w.state.waiting, e.1 ∈ w.waiters
  active_guarded : ∀ id ∈ w.state.active, id ∈ w.permits

namespace World

theorem init_good : machine.init.Good where
  wf := State.default_wf
  next_eq := rfl
  waiting_guarded := by simp [machine, State.default]
  active_guarded := by simp [machine, State.default]

/-- The fresh ticket: not waiting, not active, and not yet the last `u64`. -/
theorem Good.fresh {w : World} (good : w.Good) :
    (∀ e ∈ w.state.waiting, e.1 < w.state.next) ∧ w.state.next ∉ w.state.active := by
  refine ⟨good.wf.waiting_lt, fun h => ?_⟩
  have := good.wf.active_lt _ h
  omega

variable {w t : World}

theorem Good.acquire {key : String} (good : w.Good) (few : w.issued + 1 < 2 ^ 64)
    (h : w.next (.acquire key) = some t) : t.Good := by
  obtain ⟨below, fresh⟩ := good.fresh
  have room : w.state.next + 1 < 2 ^ 64 := by rw [good.next_eq]; exact few
  have succ := State.advance_next room
  have lt : w.state.next < w.state.advance.next := by omega
  rcases w.state.acquire_cases key with ⟨eq, -⟩ | eq | ⟨eq, len, keyLen, -⟩ <;>
    simp only [World.next, eq, Option.some.injEq] at h <;> subst h
  · refine ⟨(good.wf.advance room).activate lt fresh fun e he same => ?_, ?_, ?_, ?_⟩
    · have := below e he
      omega
    · exact succ.trans (congrArg (· + 1) good.next_eq)
    · exact good.waiting_guarded
    · intro id hid
      rcases (AList.mem_insert w.state.active).mp hid with rfl | old
      · exact List.mem_cons_self
      · exact List.mem_cons_of_mem _ (good.active_guarded id old)
  · exact good
  · refine ⟨(good.wf.advance room).enqueue lt below fresh len keyLen, ?_, ?_, ?_⟩
    · exact succ.trans (congrArg (· + 1) good.next_eq)
    · intro e he
      rcases List.mem_append.mp he with old | new
      · exact List.mem_cons_of_mem _ (good.waiting_guarded e old)
      · rw [List.mem_singleton.mp new]
        exact List.mem_cons_self
    · exact good.active_guarded

theorem Good.inspect {id : Nat} (good : w.Good) (h : w.next (.inspect id) = some t) : t.Good := by
  simp only [World.next] at h
  split at h
  swap
  · cases h
  cases admitted : w.state.admitWaiter id with
  | none =>
    simp only [admitted, Option.some.injEq] at h
    exact h ▸ good
  | some s =>
    simp only [admitted, Option.some.injEq] at h
    subst h
    obtain ⟨-, key, u, hu, rfl⟩ := State.admitWaiter_eq_some admitted
    obtain ⟨uwf, gone, lt, fresh⟩ := good.wf.removeWaiter hu
    obtain ⟨left, right, eq, -, rfl⟩ := State.removeWaiter_eq_some hu
    refine ⟨uwf.activate lt fresh gone, good.next_eq, ?_, ?_⟩
    · intro e he
      apply good.waiting_guarded e
      rw [eq]
      exact (List.Sublist.append_left (List.sublist_cons_self _ _) _).subset he
    · intro i hi
      rcases (AList.mem_insert w.state.active).mp hi with rfl | old
      · exact List.mem_cons_self
      · exact List.mem_cons_of_mem _ (good.active_guarded i old)

theorem Good.dropWaiter {id : Nat} (good : w.Good) (h : w.next (.dropWaiter id) = some t) :
    t.Good := by
  simp only [World.next] at h
  split at h
  swap
  · cases h
  cases h
  rcases w.state.dropWaiter_cases id with ⟨same, absent⟩ | ⟨key, u, hu, eq⟩
  · refine ⟨?_, ?_, ?_, ?_⟩
    · rw [same]; exact good.wf
    · rw [same]; exact good.next_eq
    · intro e he
      rw [same] at he
      exact (List.mem_erase_of_ne (absent e he)).mpr (good.waiting_guarded e he)
    · rw [same]; exact good.active_guarded
  · obtain ⟨uwf, gone, -, -⟩ := good.wf.removeWaiter hu
    obtain ⟨left, right, split, -, shape⟩ := State.removeWaiter_eq_some hu
    refine ⟨eq ▸ uwf, ?_, ?_, ?_⟩
    · rw [eq, shape]; exact good.next_eq
    · intro e he
      rw [eq] at he
      refine (List.mem_erase_of_ne (gone e he)).mpr (good.waiting_guarded e ?_)
      rw [shape] at he
      rw [split]
      exact (List.Sublist.append_left (List.sublist_cons_self _ _) _).subset he
    · rw [eq, shape]; exact good.active_guarded

theorem Good.dropPermit {id : Nat} (good : w.Good) (h : w.next (.dropPermit id) = some t) :
    t.Good := by
  simp only [World.next] at h
  split at h
  swap
  · cases h
  cases h
  cases found : w.state.active.lookup id with
  | none =>
    have same := State.dropPermit_of_none found
    refine ⟨by rw [same]; exact good.wf, by rw [same]; exact good.next_eq,
      by rw [same]; exact good.waiting_guarded, ?_⟩
    intro i hi
    rw [same] at hi
    have ne : i ≠ id := fun e => AList.lookup_eq_none.mp found (e ▸ hi)
    exact (List.mem_erase_of_ne ne).mpr (good.active_guarded i hi)
  | some entry =>
    obtain ⟨key, model, inst⟩ := entry
    obtain ⟨keyActive, eq, -⟩ := State.dropPermit_eq good.wf.counted found
    refine ⟨good.wf.dropPermit, by rw [eq]; exact good.next_eq,
      by rw [eq]; exact good.waiting_guarded, ?_⟩
    intro i hi
    rw [eq] at hi
    obtain ⟨ne, old⟩ := AList.mem_erase.mp hi
    exact (List.mem_erase_of_ne ne).mpr (good.active_guarded i old)

theorem Good.target {id : Nat} {model inst : String} (good : w.Good)
    (h : w.next (.target id model inst) = some t) : t.Good := by
  simp only [World.next] at h
  split at h
  swap
  · cases h
  cases h
  rcases w.state.target_eq id model inst with same | ⟨key, model', inst', model'', found, eq⟩
  · exact ⟨good.wf.target, by rw [same]; exact good.next_eq,
      by rw [same]; exact good.waiting_guarded, by rw [same]; exact good.active_guarded⟩
  · refine ⟨good.wf.target, by rw [eq]; exact good.next_eq,
      by rw [eq]; exact good.waiting_guarded, ?_⟩
    intro i hi
    rw [eq] at hi
    rcases (AList.mem_insert w.state.active).mp hi with rfl | old
    · exact good.active_guarded i (AList.lookup_isSome.mp (by rw [found]; rfl))
    · exact good.active_guarded i old

/-- Tickets are only issued. -/
theorem issued_mono {a : Action} (h : w.next a = some t) : w.issued ≤ t.issued := by
  cases a with
  | acquire key =>
    rcases w.state.acquire_cases key with ⟨eq, -⟩ | eq | ⟨eq, -⟩ <;>
      simp only [World.next, eq, Option.some.injEq] at h <;> subst h
    · exact Nat.le_succ _
    · exact Nat.le_refl _
    · exact Nat.le_succ _
  | inspect id =>
    simp only [World.next] at h
    split at h
    · split at h <;> (cases h; exact Nat.le_refl _)
    · cases h
  | dropWaiter id | dropPermit id | target id =>
    simp only [World.next] at h
    split at h
    · cases h; exact Nat.le_refl _
    · cases h
  | configure config => cases h; exact Nat.le_refl _

/-- One critical section keeps the invariant while tickets last. -/
theorem Good.next {a : Action} (good : w.Good) (few : t.issued < 2 ^ 64) (h : w.next a = some t) :
    t.Good := by
  cases a with
  | acquire key =>
    by_cases last : w.issued + 1 < 2 ^ 64
    · exact good.acquire last h
    · -- The last ticket number is never handed out: only a refusal is left.
      rcases w.state.acquire_cases key with ⟨eq, -⟩ | eq | ⟨eq, -⟩ <;>
        simp only [World.next, eq, Option.some.injEq] at h <;> subst h
      · exact absurd few last
      · exact good
      · exact absurd few last
  | inspect id => exact good.inspect h
  | dropWaiter id => exact good.dropWaiter h
  | dropPermit id => exact good.dropPermit h
  | target id model inst => exact good.target h
  | configure config =>
    cases h
    exact ⟨good.wf.configure, good.next_eq, good.waiting_guarded, good.active_guarded⟩

/-- The invariant of every run that issues fewer than 2^64 tickets. -/
theorem good_of_run {w : World} {actions : List Action}
    (hr : machine.run machine.init actions = some w) (few : w.issued < 2 ^ 64) : w.Good := by
  have kept : w.issued < 2 ^ 64 → w.Good := by
    refine Machine.run_preserves (P := fun w => w.issued < 2 ^ 64 → w.Good) ?_ hr
      fun _ => init_good
    intro s a t h ih few
    exact (ih (lt_of_le_of_lt (issued_mono h) few)).next few h
  exact kept few

/-- A step that adds an active entry adds it below both limits. -/
theorem next_adds_active {a : Action} {id : Nat} (wf : w.state.Wf) (h : w.next a = some t)
    (absent : id ∉ w.state.active) (added : id ∈ t.state.active) :
    w.state.active.size < w.state.limit ∧
      w.state.available (t.state.keyOf id) = true := by
  cases a with
  | acquire key =>
    rcases w.state.acquire_cases key with ⟨eq, room, avail, -⟩ | eq | ⟨eq, -⟩ <;>
      simp only [World.next, eq, Option.some.injEq] at h <;> subst h
    · rcases (AList.mem_insert w.state.active).mp added with rfl | old
      · exact ⟨room, by rw [grant, State.keyOf_activate]; exact avail⟩
      · exact absurd old absent
    · exact absurd added absent
    · exact absurd added absent
  | inspect i =>
    simp only [World.next] at h
    split at h
    swap
    · cases h
    cases admitted : w.state.admitWaiter i with
    | none =>
      simp only [admitted, Option.some.injEq] at h
      subst h
      exact absurd added absent
    | some s =>
      simp only [admitted, Option.some.injEq] at h
      subst h
      obtain ⟨left, key, right, -, room, avail, -, -, rfl⟩ := wf.admitWaiter admitted
      rcases (AList.mem_insert w.state.active).mp added with rfl | old
      · exact ⟨room, by rw [grant, State.keyOf_activate]; exact avail⟩
      · exact absurd old absent
  | dropWaiter i =>
    simp only [World.next] at h
    split at h
    · cases h
      rcases w.state.dropWaiter_cases i with ⟨same, -⟩ | ⟨key, u, hu, eq⟩
      · rw [same] at added
        exact absurd added absent
      · obtain ⟨left, right, -, -, shape⟩ := State.removeWaiter_eq_some hu
        rw [eq, shape] at added
        exact absurd added absent
    · cases h
  | dropPermit i =>
    simp only [World.next] at h
    split at h
    · cases h
      exact absurd (State.dropPermit_active_subset w.state i id added) absent
    · cases h
  | target i model inst =>
    simp only [World.next] at h
    split at h
    · cases h
      exact absurd (State.target_active_subset w.state i model inst id added) absent
    · cases h
  | configure config =>
    cases h
    exact absurd added absent

end World

/-- What the ledger promises in one state of the system. -/
structure LedgerInvariant (w : World) : Prop where
  tickets_distinct : (w.state.waiting.map (·.1) ++ w.state.active.keys).Nodup
  turns_nodup : w.state.turns.Nodup
  turns_exact : ∀ key, key ∈ w.state.turns ↔ ∃ e ∈ w.state.waiting, e.2 = key
  key_active_exact : ∀ key, (w.state.keyActive.lookup key).getD 0 = w.state.activeOf key
  key_active_nonzero : ∀ key, w.state.keyActive.lookup key ≠ some 0
  waiting_bounded : w.state.waiting.length ≤ 4096
  key_waiting_bounded : ∀ key, w.state.waitingOf key ≤ 256
  /-- A step adds an active entry only below both limits then in force. -/
  adds_below_limits : ∀ action t id, machine.next w action = some t →
    id ∉ w.state.active → id ∈ t.state.active →
    w.state.active.size < w.state.limit ∧
      (w.state.keyActive.lookup (t.state.keyOf id)).getD 0 <
        w.state.keyLimit (t.state.keyOf id)
  /-- With every guard dropped nothing is left behind. -/
  drained : w.permits = [] → w.waiters = [] →
    w.state.active = ∅ ∧ w.state.keyActive = ∅ ∧ w.state.waiting = [] ∧ w.state.turns = []

/-- A well-formed state in which no guard is alive is empty in all four
collections. -/
theorem World.Good.drained {w : World} (good : w.Good) (permits : w.permits = [])
    (waiters : w.waiters = []) :
    w.state.active = ∅ ∧ w.state.keyActive = ∅ ∧ w.state.waiting = [] ∧ w.state.turns = [] := by
  have waiting : w.state.waiting = [] := by
    apply List.eq_nil_iff_forall_not_mem.mpr
    intro e he
    have := good.waiting_guarded e he
    simp [waiters] at this
  have active : w.state.active = ∅ := by
    apply Dict.eq_empty_of_keys
    apply List.eq_nil_iff_forall_not_mem.mpr
    intro id hid
    have := good.active_guarded id hid
    simp [permits] at this
  have keyActive : w.state.keyActive = ∅ := by
    apply Dict.eq_empty_of_keys
    apply List.eq_nil_iff_forall_not_mem.mpr
    intro key hkey
    obtain ⟨count, hcount⟩ := Option.isSome_iff_exists.mp (AList.lookup_isSome.mpr hkey)
    have exact_ := good.wf.counted key
    have nonzero := good.wf.no_zero key
    rw [hcount] at exact_ nonzero
    simp [State.activeOf, active] at exact_
    exact nonzero (congrArg some exact_)
  have turns : w.state.turns = [] := by
    apply List.eq_nil_iff_forall_not_mem.mpr
    intro key hkey
    obtain ⟨e, he, -⟩ := (good.wf.mem_turns key).mp hkey
    simp [waiting] at he
  exact ⟨active, keyActive, waiting, turns⟩

/-- **The admission ledger invariant.** It holds in every state that any
interleaving of the critical sections reaches from `Admission::default` while
fewer than 2^64 tickets have been issued. -/
theorem ledger_invariant {w : World} {actions : List Action}
    (hr : machine.run machine.init actions = some w) (few : w.issued < 2 ^ 64) :
    LedgerInvariant w := by
  have good := World.good_of_run hr few
  constructor
  · rw [List.nodup_append]
    refine ⟨good.wf.sorted.imp (fun lt => Nat.ne_of_lt lt), w.state.active.keys_nodup, ?_⟩
    intro a ha b hb same
    obtain ⟨e, he, rfl⟩ := List.mem_map.mp ha
    exact good.wf.disjoint e he (AList.mem_keys.mpr (same ▸ hb))
  · exact good.wf.turns_nodup
  · exact good.wf.mem_turns
  · exact good.wf.counted
  · exact good.wf.no_zero
  · exact good.wf.waiting_le
  · exact good.wf.waitingOf_le
  · intro action t id h absent added
    obtain ⟨room, avail⟩ := World.next_adds_active good.wf h absent added
    exact ⟨room, of_decide_eq_true avail⟩
  · exact good.drained

/-- Two keys through one slot: the second request waits, is admitted after the
first finishes, and both permits are dropped. -/
def twoKeys : List Action :=
  [.configure { maxConcurrentRequests := 1, fairQueueEnabled := true },
    .acquire "a", .acquire "b", .inspect 1, .dropPermit 0, .inspect 1,
    .target 1 "model" "instance", .dropWaiter 1, .dropPermit 1]

theorem ledger_invariant_two_keys :
    ∃ w, machine.run machine.init twoKeys = some w ∧ w.permits = [] ∧ w.waiters = [] ∧
      w.admitted = [(0, "a"), (1, "b")] ∧ LedgerInvariant w := by
  have hr : machine.run machine.init twoKeys =
      some ((machine.run machine.init twoKeys).getD {}) := rfl
  exact ⟨_, hr, by decide, by decide, by decide, ledger_invariant hr (by decide)⟩

end LlamaServerManager.Admission
