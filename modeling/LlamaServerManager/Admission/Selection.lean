import LlamaServerManager.Admission.State

/-!
What the critical sections of the admission state do, stated once: which ticket
`selected` names, what `removeWaiter` takes out, and the shape of the state
after each operation. Every invariant of the admission queue is derived from
these and never unfolds the operations again.

`State.Wf` is the well-formedness every reachable state has.
-/

namespace LlamaServerManager.Admission

open Lib

namespace State

/-- The number of active entries of a key. -/
def activeOf (s : State) (key : String) : Nat := s.active.count fun e => e.1 == key

/-- The number of waiting entries of a key. -/
def waitingOf (s : State) (key : String) : Nat := (s.waiting.filter fun w => w.2 == key).length

/-- The four collections agree: tickets are fresh and ordered, `turns` lists the
waiting keys once each, and `keyActive` counts the active entries. -/
structure Wf (s : State) : Prop where
  sorted : (s.waiting.map (·.1)).Pairwise (· < ·)
  waiting_lt : ∀ w ∈ s.waiting, w.1 < s.next
  active_lt : ∀ id ∈ s.active, id < s.next
  disjoint : ∀ w ∈ s.waiting, w.1 ∉ s.active
  turns_nodup : s.turns.Nodup
  mem_turns : ∀ k, k ∈ s.turns ↔ ∃ w ∈ s.waiting, w.2 = k
  counted : ∀ k, (s.keyActive.lookup k).getD 0 = s.activeOf k
  no_zero : ∀ k, s.keyActive.lookup k ≠ some 0
  waiting_le : s.waiting.length ≤ maxWaiters
  waitingOf_le : ∀ k, s.waitingOf k ≤ maxKeyWaiters

/-! ### Selection -/

/-- The selected ticket: capacity is free, its key is below its limit, it is the
first waiter of its key, and its key is the first available one of the queue
(in fair mode: of `turns`). -/
theorem selected_eq_some {s : State} {id : Nat} (h : s.selected = some id) :
    s.active.size < s.limit ∧ ∃ left key right,
      s.waiting = left ++ (id, key) :: right ∧ s.available key = true ∧
      (∀ w ∈ left, w.2 ≠ key) ∧ (s.fair = true → s.turns.find? s.available = some key) := by
  unfold selected at h
  split at h
  · cases h
  · rename_i room
    refine ⟨not_le.mp room, ?_⟩
    split at h
    · rename_i fair
      obtain ⟨key, hkey, hfind⟩ := Option.bind_eq_some_iff.mp h
      obtain ⟨⟨id', key'⟩, hw, rfl⟩ := Option.map_eq_some_iff.mp hfind
      obtain ⟨hp, left, right, eq, hleft⟩ := List.find?_eq_some_iff_append.mp hw
      have same : key' = key := by simpa using hp
      subst same
      refine ⟨left, key', right, eq, List.find?_some hkey, ?_, fun _ => hkey⟩
      intro w hw
      simpa using hleft w hw
    · rename_i unfair
      obtain ⟨⟨id', key'⟩, hw, rfl⟩ := Option.map_eq_some_iff.mp h
      obtain ⟨hp, left, right, eq, hleft⟩ := List.find?_eq_some_iff_append.mp hw
      refine ⟨left, key', right, eq, hp, ?_, fun fair => absurd fair unfair⟩
      intro w hw same
      have := hleft w hw
      rw [same, hp] at this
      cases this

/-- A selected ticket is waiting, with an available key. -/
theorem selected_mem {s : State} {id : Nat} (h : s.selected = some id) :
    ∃ key, (id, key) ∈ s.waiting ∧ s.available key = true := by
  obtain ⟨-, left, key, right, eq, avail, -⟩ := selected_eq_some h
  exact ⟨key, eq ▸ List.mem_append_right _ List.mem_cons_self, avail⟩

/-- Nothing is selected exactly when there is no free capacity or every waiting
key is at its limit: the two queue modes agree on this. -/
theorem selected_eq_none {s : State} (wf : s.Wf) :
    s.selected = none ↔ s.limit ≤ s.active.size ∨ ∀ w ∈ s.waiting, s.available w.2 = false := by
  by_cases full : s.limit ≤ s.active.size
  · simp [selected, full]
  rw [selected, if_neg full, or_iff_right full]
  split
  · simp only [Option.bind_eq_bind, Option.bind_eq_none_iff, Option.map_eq_none_iff]
    constructor
    · intro h w hw
      cases found : s.turns.find? s.available with
      | none =>
        have := List.find?_eq_none.mp found w.2 ((wf.mem_turns _).mpr ⟨w, hw, rfl⟩)
        simpa using this
      | some key =>
        -- An available key in `turns` has a waiter, so the second search succeeds.
        obtain ⟨v, hv, same⟩ := (wf.mem_turns key).mp (List.mem_of_find?_eq_some found)
        have := List.find?_eq_none.mp (h key found) v hv
        simp [same] at this
    · intro h key found
      obtain ⟨v, hv, same⟩ := (wf.mem_turns key).mp (List.mem_of_find?_eq_some found)
      have := List.find?_some found
      rw [← same, h v hv] at this
      cases this
  · rw [Option.map_eq_none_iff, List.find?_eq_none]
    exact forall₂_congr fun w _ => by rw [Bool.not_eq_true]

/-! ### Removal -/

/-- Removal takes out the ticket's entry. `turns` loses the key when it was its
last waiter, and otherwise moves it to the back if asked to. -/
theorem removeWaiter_eq_some {s t : State} {id : Nat} {rotate : Bool} {key : String}
    (h : s.removeWaiter id rotate = some (key, t)) :
    ∃ left right, s.waiting = left ++ (id, key) :: right ∧ (∀ w ∈ left, w.1 ≠ id) ∧
      t = { s with
        waiting := left ++ right
        turns :=
          if (left ++ right).any (fun w => w.2 == key) = true then
            if rotate then (s.turns.filter fun k => k != key) ++ [key] else s.turns
          else s.turns.filter fun k => k != key } := by
  unfold removeWaiter at h
  obtain ⟨⟨id', key'⟩, hw, h⟩ := Option.bind_eq_some_iff.mp h
  obtain ⟨hp, left, right, eq, hleft⟩ := List.find?_eq_some_iff_append.mp hw
  have same : id' = id := by simpa using hp
  subst same
  have erased : (s.waiting.eraseP fun w => w.1 == id') = left ++ right := by
    rw [eq, List.eraseP_append_right]
    · rw [List.eraseP_cons_of_pos (by simp)]
    · intro b hb
      simpa using hleft b hb
  simp only [Option.pure_def, Option.some.injEq, Prod.mk.injEq, erased] at h
  obtain ⟨rfl, rfl⟩ := h
  refine ⟨left, right, eq, fun w hw => by simpa using hleft w hw, ?_⟩
  cases remaining : (left ++ right).any fun w => w.2 == key' <;> cases rotate <;>
    simp only [Bool.false_or, Bool.true_or, Bool.not_true, Bool.not_false, Bool.false_eq_true,
      if_true, if_false, List.append_nil]

theorem removeWaiter_eq_none {s : State} {id : Nat} {rotate : Bool} :
    s.removeWaiter id rotate = none ↔ ∀ w ∈ s.waiting, w.1 ≠ id := by
  cases found : s.waiting.find? fun w => w.1 == id with
  | none =>
    have := List.find?_eq_none.mp found
    simpa [removeWaiter, found] using this
  | some e =>
    have mem := List.mem_of_find?_eq_some found
    have same : e.1 = id := by simpa using List.find?_some found
    simp only [removeWaiter, found, Option.bind_eq_bind, Option.bind_some, Option.pure_def,
      reduceCtorEq, false_iff, not_forall]
    exact ⟨e, mem, fun h => h same⟩

end State

end LlamaServerManager.Admission
