import LlamaServerManager.Router.Targets
import Mathlib.Algebra.GroupWithZero.Nat

/-!
What selection finds: an eligible candidate of the best priority, whenever a
candidate is eligible (`selectTargetLocked_eq_some`, `selectTargetLocked_eq_none`).
It changes the scheduling counters only.
-/

namespace LlamaServerManager.Router

open Lib

/-! ### The strategies -/

theorem minBy_mem {α : Type} {order : α → α → Ordering} {xs : List α} {x : α}
    (h : minBy order xs = some x) : x ∈ xs := by
  cases xs with
  | nil => cases h
  | cons first rest =>
    cases h
    induction rest generalizing first with
    | nil => exact List.mem_cons_self
    | cons y ys ih =>
      rw [List.foldl_cons]
      rcases List.mem_cons.mp (ih (if order first y = .gt then y else first)) with eq | mem
      · rw [eq]
        split
        · exact List.mem_cons_of_mem _ List.mem_cons_self
        · exact List.mem_cons_self
      · exact List.mem_cons_of_mem _ (List.mem_cons_of_mem _ mem)

theorem minBy_isSome {α : Type} {order : α → α → Ordering} {xs : List α} (h : xs ≠ []) :
    (minBy order xs).isSome := by
  cases xs with
  | nil => exact absurd rfl h
  | cons _ _ => rfl

theorem pickWeighted_mem {ticket : Nat} {xs : List RoutingCandidate} {c : RoutingCandidate}
    (h : pickWeighted ticket xs = some c) : c ∈ xs := by
  induction xs generalizing ticket with
  | nil => cases h
  | cons candidate rest ih =>
    simp only [pickWeighted] at h
    split at h
    · cases h
      exact List.mem_cons_self
    · exact List.mem_cons_of_mem _ (ih h)

/-- A ticket below the sum of the weights has a candidate. -/
theorem pickWeighted_isSome {ticket : Nat} {xs : List RoutingCandidate}
    (h : ticket < (xs.map fun candidate => max candidate.weight 1).sum) :
    (pickWeighted ticket xs).isSome := by
  induction xs generalizing ticket with
  | nil => exact absurd h (Nat.not_lt_zero _)
  | cons candidate rest ih =>
    rw [List.map_cons, List.sum_cons] at h
    simp only [pickWeighted]
    split
    · rfl
    · exact ih (by omega)

theorem weights_pos {xs : List RoutingCandidate} (h : xs ≠ []) :
    0 < (xs.map fun candidate => max candidate.weight 1).sum := by
  cases xs with
  | nil => exact absurd rfl h
  | cons candidate rest =>
    rw [List.map_cons, List.sum_cons]
    omega

/-! ### Eligible candidates -/

namespace RouterRuntime

variable {r : RouterRuntime} {now : Nat} {candidate : RoutingCandidate}

/-- The candidate's target is at the limit of the route, or at its known slots. -/
def Full (r : RouterRuntime) (candidate : RoutingCandidate) : Prop :=
  let target := r.entry candidate.instanceId
  (0 < candidate.maxConcurrentRequests ∧
      candidate.maxConcurrentRequests ≤ target.activeRequests) ∨
    ∃ slots, target.capabilities.totalSlots = some slots ∧ 0 < slots ∧
      slots ≤ target.activeRequests

/-- The candidate's target, if it has one, is ready and its circuit closed. -/
def Closed (r : RouterRuntime) (now : Nat) (id : String) : Prop :=
  ∀ target, r.targets.lookup id = some target →
    target.ready = true ∧ target.circuitOpenUntilMs ≤ now

theorem eligible_iff :
    r.eligible now candidate = true ↔ r.Closed now candidate.instanceId ∧ ¬ r.Full candidate := by
  unfold eligible Closed Full entry
  cases r.targets.lookup candidate.instanceId with
  | none =>
    simp [atSlotCapacity]
    omega
  | some target =>
    cases slots : target.capabilities.totalSlots with
    | none =>
      simp [atSlotCapacity, slots]
      grind
    | some n =>
      by_cases pos : 0 < n
      · simp [atSlotCapacity, slots, Option.filter, pos]
        grind
      · simp [atSlotCapacity, slots, Option.filter, pos]
        grind

end RouterRuntime

/-! ### Selection -/

namespace RouterRuntime

variable {compareLoad : Load → Load → Option Ordering} {r : RouterRuntime}
  {candidates : List RoutingCandidate} {strategy routingKey : String} {now : Nat}

@[simp] theorem nextSchedulingTicket_targets :
    (r.nextSchedulingTicket strategy routingKey).2.targets = r.targets := rfl

theorem schedule_mem {best : List RoutingCandidate} {c : RoutingCandidate}
    (h : (r.schedule compareLoad best strategy routingKey).1 = some c) : c ∈ best := by
  unfold schedule at h
  split at h
  · exact List.mem_of_getElem? h
  split at h
  · exact minBy_mem h
  split at h
  · exact pickWeighted_mem h
  · exact List.mem_of_head? h

theorem schedule_isSome {best : List RoutingCandidate} (h : best ≠ []) :
    (r.schedule compareLoad best strategy routingKey).1.isSome := by
  unfold schedule
  split
  · have bound := Nat.mod_lt (r.nextSchedulingTicket strategy routingKey).1
      (List.length_pos_iff.mpr h)
    show (best[(r.nextSchedulingTicket strategy routingKey).1 % best.length]?).isSome = true
    rw [List.getElem?_eq_getElem bound]
    rfl
  split
  · exact minBy_isSome h
  split
  · exact pickWeighted_isSome (Nat.mod_lt _ (weights_pos h))
  · exact List.isSome_head?.mpr h

/-- Selection leaves the targets alone. -/
theorem schedule_keeps {best : List RoutingCandidate} :
    (r.schedule compareLoad best strategy routingKey).2.targets = r.targets ∧
      (r.schedule compareLoad best strategy routingKey).2.identities = r.identities := by
  unfold schedule
  split
  · exact ⟨rfl, rfl⟩
  split
  · exact ⟨rfl, rfl⟩
  split
  · exact ⟨rfl, rfl⟩
  · exact ⟨rfl, rfl⟩

theorem selectTargetLocked_keeps :
    (r.selectTargetLocked compareLoad now candidates strategy routingKey).2.targets = r.targets ∧
      (r.selectTargetLocked compareLoad now candidates strategy routingKey).2.identities =
        r.identities := by
  unfold selectTargetLocked
  simp only
  split
  · exact ⟨rfl, rfl⟩
  · exact schedule_keeps

/-- What is selected is an eligible candidate of the best priority. -/
theorem selectTargetLocked_eq_some {c : RoutingCandidate}
    (h : (r.selectTargetLocked compareLoad now candidates strategy routingKey).1 = some c) :
    c ∈ candidates ∧ r.eligible now c = true ∧
      ∀ d ∈ candidates, r.eligible now d = true → c.priority ≤ d.priority := by
  unfold selectTargetLocked at h
  simp only at h
  split at h
  · cases h
  · next best least =>
      have ⟨mem, same⟩ := List.mem_filter.mp (schedule_mem h)
      have ⟨listed, eligible⟩ := List.mem_filter.mp mem
      refine ⟨listed, eligible, fun d there ready => ?_⟩
      have below := (List.min?_eq_some_iff.mp least).2 d.priority
        (List.mem_map_of_mem (List.mem_filter.mpr ⟨there, ready⟩))
      rw [of_decide_eq_true same]
      exact below

/-- Nothing is selected only when no candidate is eligible. -/
theorem selectTargetLocked_eq_none :
    (r.selectTargetLocked compareLoad now candidates strategy routingKey).1 = none ↔
      ∀ c ∈ candidates, r.eligible now c = false := by
  constructor
  · intro h c mem
    by_contra eligible
    have listed : c ∈ candidates.filter (r.eligible now) :=
      List.mem_filter.mpr ⟨mem, Bool.not_eq_false _ ▸ eligible⟩
    unfold selectTargetLocked at h
    simp only at h
    split at h
    · next absent =>
        rw [List.min?_eq_none_iff, List.map_eq_nil_iff] at absent
        rw [absent] at listed
        cases listed
    · next best least =>
        obtain ⟨top, there, eq⟩ := List.mem_map.mp (List.min?_eq_some_iff.mp least).1
        have kept : top ∈ (candidates.filter (r.eligible now)).filter
            fun candidate => candidate.priority = best :=
          List.mem_filter.mpr ⟨there, decide_eq_true eq⟩
        have found : (r.schedule compareLoad ((candidates.filter (r.eligible now)).filter
            fun candidate => candidate.priority = best) strategy routingKey).1.isSome :=
          schedule_isSome (List.ne_nil_of_mem kept)
        rw [h] at found
        cases found
  · intro h
    cases found : (r.selectTargetLocked compareLoad now candidates strategy routingKey).1 with
    | none => rfl
    | some c =>
      obtain ⟨mem, eligible, _⟩ := selectTargetLocked_eq_some found
      rw [h c mem] at eligible
      cases eligible

end RouterRuntime

end LlamaServerManager.Router
