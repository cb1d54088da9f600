import LlamaServerManager.Lib.Rotation
import LlamaServerManager.Router.Selection
import Mathlib.Algebra.GroupWithZero.Nat

/-!
The shares of the candidates under `roundRobin` and `weighted` scheduling.

Both strategies walk a fixed list, the `wheel`, by a counter of their own: the
candidates themselves, or each as often as it weighs. Between two selections for
a key its counter is left alone (`next_counter`), so the selections of a stretch
of a run are consecutive turns of the wheel (`Stretch.picks_eq`), whatever else
happens in between.
-/

namespace LlamaServerManager.Router

open Lib

/-! ### The wheels -/

/-- Each candidate as often as it weighs. -/
def weightedWheel (best : List RoutingCandidate) : List RoutingCandidate :=
  best.flatMap fun candidate => List.replicate (max candidate.weight 1) candidate

def totalWeight (best : List RoutingCandidate) : Nat :=
  (best.map fun candidate => max candidate.weight 1).sum

theorem length_weightedWheel (best : List RoutingCandidate) :
    (weightedWheel best).length = totalWeight best := by
  simp [weightedWheel, totalWeight, List.length_flatMap]

/-- The subtracting walk finds the ticket's place on the wheel. -/
theorem pickWeighted_eq (ticket : Nat) (best : List RoutingCandidate) :
    pickWeighted ticket best = (weightedWheel best)[ticket]? := by
  induction best generalizing ticket with
  | nil => rfl
  | cons candidate rest ih =>
    have unfolded : weightedWheel (candidate :: rest) =
        List.replicate (max candidate.weight 1) candidate ++ weightedWheel rest := rfl
    rw [unfolded, pickWeighted]
    split
    · rename_i inside
      rw [List.getElem?_append_left (by rwa [List.length_replicate])]
      exact (List.getElem?_replicate_of_lt inside).symm
    · rename_i outside
      rw [List.getElem?_append_right (by rw [List.length_replicate]; omega),
        List.length_replicate]
      exact ih _

theorem count_weightedWheel (best : List RoutingCandidate) (candidate : RoutingCandidate) :
    (weightedWheel best).count candidate = best.count candidate * max candidate.weight 1 := by
  induction best with
  | nil => simp [weightedWheel]
  | cons first rest ih =>
    have unfolded : weightedWheel (first :: rest) =
        List.replicate (max first.weight 1) first ++ weightedWheel rest := rfl
    rw [unfolded, List.count_append, ih, List.count_replicate, List.count_cons]
    by_cases same : first = candidate
    · subst same
      simp [Nat.add_mul, Nat.add_comm]
    · simp [same]

/-- The list a strategy walks by its counter. -/
def wheel (strategy : String) (best : List RoutingCandidate) : List RoutingCandidate :=
  if strategy = "weighted" then weightedWheel best else best

/-! ### The counters -/

/-- These strategies take tickets. -/
def Ticketed (strategy : String) : Prop := strategy = "roundRobin" ∨ strategy = "weighted"

def schedulingKey (strategy routingKey : String) : String := strategy ++ "\u001f" ++ routingKey

theorem schedulingKey_inj {strategy other routingKey otherKey : String} (one : Ticketed strategy)
    (two : Ticketed other) (same : schedulingKey strategy routingKey =
      schedulingKey other otherKey) : strategy = other ∧ routingKey = otherKey := by
  have lists := congrArg String.toList same
  rcases one with rfl | rfl <;> rcases two with rfl | rfl <;>
    simp [schedulingKey] at lists ⊢
  · exact String.toList_injective lists
  · exact String.toList_injective lists

namespace RouterRuntime

variable {compareLoad : Load → Load → Option Ordering} {r : RouterRuntime} {now : Nat}
  {best candidates : List RoutingCandidate} {strategy routingKey other otherKey : String}

/-- The next ticket of a key. -/
def counter (r : RouterRuntime) (strategy routingKey : String) : Nat :=
  (r.schedulingCounters.lookup (schedulingKey strategy routingKey)).getD 0

/-- The eligible candidates of the best priority. -/
def bestCandidates (r : RouterRuntime) (now : Nat) (candidates : List RoutingCandidate) :
    List RoutingCandidate :=
  let eligible := candidates.filter (r.eligible now)
  match (eligible.map RoutingCandidate.priority).min? with
  | none => []
  | some best => eligible.filter fun candidate => candidate.priority = best

/-- Selection schedules the best candidates, if there are any. -/
theorem selectTargetLocked_of_ne (ne : r.bestCandidates now candidates ≠ []) :
    r.selectTargetLocked compareLoad now candidates strategy routingKey =
      r.schedule compareLoad (r.bestCandidates now candidates) strategy routingKey := by
  revert ne
  unfold selectTargetLocked bestCandidates
  dsimp only
  cases ((candidates.filter (r.eligible now)).map RoutingCandidate.priority).min? with
  | none => exact fun ne => absurd rfl ne
  | some best => exact fun _ => rfl

theorem selectTargetLocked_of_nil (nil : r.bestCandidates now candidates = []) :
    r.selectTargetLocked compareLoad now candidates strategy routingKey = (none, r) := by
  revert nil
  unfold selectTargetLocked bestCandidates
  dsimp only
  cases least : ((candidates.filter (r.eligible now)).map RoutingCandidate.priority).min? with
  | none => exact fun _ => rfl
  | some best =>
    intro nil
    obtain ⟨candidate, mem, is⟩ := List.mem_map.mp (List.min?_mem least)
    have found : candidate ∈ (candidates.filter (r.eligible now)).filter
        fun candidate => decide (candidate.priority = best) :=
      List.mem_filter.mpr ⟨mem, decide_eq_true is⟩
    exact absurd nil (List.ne_nil_of_mem found)

theorem ticket_eq : (r.nextSchedulingTicket strategy routingKey).1 =
    r.counter strategy routingKey := by
  unfold nextSchedulingTicket counter schedulingKey
  dsimp only
  split
  · rename_i new
    rw [Option.isNone_iff_eq_none.mp new.1]
    rfl
  · rfl

theorem counter_ticket : (r.nextSchedulingTicket strategy routingKey).2.counter strategy
    routingKey = (r.counter strategy routingKey + 1) % 2 ^ 64 := by
  have ticket : (r.nextSchedulingTicket strategy routingKey).1 = r.counter strategy routingKey :=
    ticket_eq
  rw [← ticket]
  unfold nextSchedulingTicket counter schedulingKey
  dsimp only
  rw [AList.lookup_insert]
  rfl

/-- A ticket for another key leaves the counter alone, unless it evicts it. -/
theorem counter_ticket_other (ne : schedulingKey strategy routingKey ≠ schedulingKey other otherKey)
    (kept : (r.schedulingCounters.lookup (schedulingKey strategy routingKey)).isSome →
      ((r.nextSchedulingTicket other otherKey).2.schedulingCounters.lookup
        (schedulingKey strategy routingKey)).isSome) :
    (r.nextSchedulingTicket other otherKey).2.counter strategy routingKey =
      r.counter strategy routingKey := by
  revert kept
  unfold nextSchedulingTicket counter
  dsimp only
  rw [← schedulingKey.eq_def, AList.lookup_insert_ne ne]
  split
  · cases r.schedulingCounters.lookup (schedulingKey strategy routingKey) with
    | none => exact fun _ => rfl
    | some count => exact fun kept => absurd (kept rfl) (by simp)
  · exact fun _ => rfl

/-- A selection of a strategy with tickets is a turn of the wheel. -/
theorem schedule_ticketed (ticketed : Ticketed strategy) :
    r.schedule compareLoad best strategy routingKey =
      ((wheel strategy best)[r.counter strategy routingKey % (wheel strategy best).length]?,
        (r.nextSchedulingTicket strategy routingKey).2) := by
  have ticket : (r.nextSchedulingTicket strategy routingKey).1 = r.counter strategy routingKey :=
    ticket_eq
  unfold schedule
  rcases ticketed with rfl | rfl
  · simp [wheel, ← ticket]
  · simp [wheel, ← ticket, pickWeighted_eq, length_weightedWheel, totalWeight]

/-- The other strategies take no ticket. -/
theorem schedule_unticketed (unticketed : ¬ Ticketed strategy) :
    (r.schedule compareLoad best strategy routingKey).2 = r := by
  unfold Ticketed at unticketed
  push Not at unticketed
  simp [schedule, unticketed]
  split <;> rfl

end RouterRuntime

/-! ### Stretches of a run -/

/-- What a label selects from, and for which strategy and key. -/
def Label.selection : Label → Option (Nat × List RoutingCandidate × String × String)
  | .selectAndAcquire now _ candidates strategy routingKey =>
    some (now, candidates, strategy, routingKey)
  | .selectTarget now candidates strategy routingKey =>
    some (now, candidates, strategy, routingKey)
  | _ => none

section

variable {compareLoad : Load → Load → Option Ordering} {s t u : State} {label : Label}
  {strategy routingKey : String} {best : List RoutingCandidate}
  {picks : List (Option RoutingCandidate)}

/-- Only selections touch the counters. -/
theorem next_schedulingCounters (step : next compareLoad s label = some t) :
    t.runtime.schedulingCounters =
      match label.selection with
      | none => s.runtime.schedulingCounters
      | some (now, candidates, strategy, routingKey) =>
        (s.runtime.selectTargetLocked compareLoad now candidates strategy
          routingKey).2.schedulingCounters := by
  cases label with
  | selectAndAcquire now later candidates strategy routingKey =>
    simp only [next, RouterRuntime.selectAndAcquireTarget] at step
    dsimp only [Label.selection]
    revert step
    generalize s.runtime.selectTargetLocked compareLoad now candidates strategy routingKey = found
    obtain ⟨selected, runtime⟩ := found
    intro step
    cases selected with
    | none =>
      cases step
      rfl
    | some selected =>
      cases step
      rfl
  | selectTarget now candidates strategy routingKey =>
    cases step
    rfl
  | dropPermit permit =>
    simp only [next] at step
    split at step
    · cases step
      dsimp only [Label.selection, RouterRuntime.dropPermit]
      split
      · rfl
      · split <;> rfl
    · cases step
  | retainTargets instanceIds =>
    cases step
    rfl
  | markProbeSuccess instanceId timestamp capabilities =>
    cases step
    rfl
  | markProbeFailure instanceId error unhealthyThreshold recoveryCooldown timestamp =>
    cases step
    rfl

/-- The counter of a key is not evicted by the step. -/
def Kept (strategy routingKey : String) (s t : State) : Prop :=
  (s.runtime.schedulingCounters.lookup (schedulingKey strategy routingKey)).isSome →
    (t.runtime.schedulingCounters.lookup (schedulingKey strategy routingKey)).isSome

theorem counter_congr (same : t.runtime.schedulingCounters = s.runtime.schedulingCounters) :
    t.runtime.counter strategy routingKey = s.runtime.counter strategy routingKey := by
  unfold RouterRuntime.counter
  rw [same]

/-- **A step that does not select for the key leaves its counter alone.** -/
theorem next_counter (ticketed : Ticketed strategy) (step : next compareLoad s label = some t)
    (elsewhere : ∀ now candidates,
      label.selection ≠ some (now, candidates, strategy, routingKey))
    (kept : Kept strategy routingKey s t) :
    t.runtime.counter strategy routingKey = s.runtime.counter strategy routingKey := by
  have counters := next_schedulingCounters step
  cases selects : label.selection with
  | none =>
    rw [selects] at counters
    exact counter_congr counters
  | some selection =>
    obtain ⟨now, candidates, other, otherKey⟩ := selection
    rw [selects] at counters
    dsimp only at counters
    by_cases nil : s.runtime.bestCandidates now candidates = []
    · rw [RouterRuntime.selectTargetLocked_of_nil nil] at counters
      exact counter_congr counters
    · rw [RouterRuntime.selectTargetLocked_of_ne nil] at counters
      by_cases takes : Ticketed other
      · rw [RouterRuntime.schedule_ticketed takes] at counters
        have ne : schedulingKey strategy routingKey ≠ schedulingKey other otherKey := by
          intro same
          obtain ⟨rfl, rfl⟩ := schedulingKey_inj ticketed takes same
          exact elsewhere now candidates selects
        unfold Kept at kept
        rw [counters] at kept
        have left := RouterRuntime.counter_ticket_other ne kept
        unfold RouterRuntime.counter at left ⊢
        rw [counters]
        exact left
      · rw [RouterRuntime.schedule_unticketed takes] at counters
        exact counter_congr counters

/-- A stretch of a run in which every selection for the key has the same best candidates, with
what these selections pick; the counter of the key is not evicted. -/
inductive Stretch (compareLoad : Load → Load → Option Ordering) (strategy routingKey : String)
    (best : List RoutingCandidate) : State → List (Option RoutingCandidate) → State → Prop
  | done {s : State} : Stretch compareLoad strategy routingKey best s [] s
  | other {s t u : State} {label : Label} {picks : List (Option RoutingCandidate)} :
      next compareLoad s label = some t →
      (∀ now candidates, label.selection ≠ some (now, candidates, strategy, routingKey)) →
      Kept strategy routingKey s t →
      Stretch compareLoad strategy routingKey best t picks u →
      Stretch compareLoad strategy routingKey best s picks u
  | select {s t u : State} {label : Label} {picks : List (Option RoutingCandidate)} {now : Nat}
      {candidates : List RoutingCandidate} :
      next compareLoad s label = some t →
      label.selection = some (now, candidates, strategy, routingKey) →
      s.runtime.bestCandidates now candidates = best →
      Stretch compareLoad strategy routingKey best t picks u →
      Stretch compareLoad strategy routingKey best s
        ((s.runtime.selectTargetLocked compareLoad now candidates strategy routingKey).1 :: picks) u

/-- The selections of a stretch are consecutive turns of the wheel. -/
theorem Stretch.picks_eq (stretch : Stretch compareLoad strategy routingKey best s picks t)
    (ticketed : Ticketed strategy) (some_ : best ≠ [])
    (unwrapped : s.runtime.counter strategy routingKey + picks.length ≤ 2 ^ 64) :
    picks = turns (wheel strategy best) (s.runtime.counter strategy routingKey) picks.length := by
  induction stretch with
  | done => rfl
  | other step elsewhere kept _ ih =>
    rw [next_counter ticketed step elsewhere kept] at ih
    exact ih unwrapped
  | @select s t u label picks now candidates step selects is _ ih =>
    have counters := next_schedulingCounters step
    rw [selects] at counters
    dsimp only at counters
    rw [RouterRuntime.selectTargetLocked_of_ne (is ▸ some_),
      RouterRuntime.schedule_ticketed ticketed] at counters ⊢
    rw [is, List.length_cons, turns_succ]
    rw [List.length_cons] at unwrapped
    have after : t.runtime.counter strategy routingKey =
        (s.runtime.counter strategy routingKey + 1) % 2 ^ 64 := by
      rw [← RouterRuntime.counter_ticket]
      unfold RouterRuntime.counter
      rw [counters]
    congr 1
    cases last : picks with
    | nil => rfl
    | cons pick rest =>
      have below : s.runtime.counter strategy routingKey + 1 < 2 ^ 64 := by
        rw [last, List.length_cons] at unwrapped
        omega
      rw [Nat.mod_eq_of_lt below] at after
      rw [after] at ih
      rw [← last]
      exact ih (by omega)

/-- Over as many selections as the wheel has places, each place is picked once. -/
theorem Stretch.perm (stretch : Stretch compareLoad strategy routingKey best s picks t)
    (ticketed : Ticketed strategy) (full : picks.length = (wheel strategy best).length)
    (unwrapped : s.runtime.counter strategy routingKey + picks.length ≤ 2 ^ 64) :
    picks.Perm ((wheel strategy best).map some) := by
  by_cases nil : best = []
  · subst nil
    have empty : wheel strategy [] = [] := by
      unfold wheel
      split <;> rfl
    rw [empty] at full ⊢
    rw [List.eq_nil_of_length_eq_zero full]
    exact List.Perm.refl _
  · rw [stretch.picks_eq ticketed nil unwrapped, full]
    exact turns_perm _ _

end

/-- **Scheduling is exactly proportional**: over one round of selections for a key `weighted`
picks each candidate as often as it weighs and `roundRobin` picks each once, whatever happens
in between, and the weighted walk never comes out empty. -/
theorem scheduling_proportional (compareLoad : Load → Load → Option Ordering)
    (routingKey : String) (best : List RoutingCandidate) :
    (∀ s picks t, Stretch compareLoad "weighted" routingKey best s picks t →
      s.runtime.counter "weighted" routingKey + picks.length ≤ 2 ^ 64 →
      picks.length = totalWeight best →
      picks.Perm ((weightedWheel best).map some) ∧
        ∀ candidate, picks.count (some candidate) =
          best.count candidate * max candidate.weight 1) ∧
    (∀ s picks t, Stretch compareLoad "roundRobin" routingKey best s picks t →
      s.runtime.counter "roundRobin" routingKey + picks.length ≤ 2 ^ 64 →
      picks.length = best.length → picks.Perm (best.map some)) ∧
    (best ≠ [] → ∀ ticket, (pickWeighted (ticket % totalWeight best) best).isSome) := by
  refine ⟨?_, ?_, ?_⟩
  · intro s picks t stretch unwrapped full
    have perm := stretch.perm (.inr rfl) (full.trans (length_weightedWheel best).symm) unwrapped
    refine ⟨perm, fun candidate => ?_⟩
    rw [perm.count_eq, ← count_weightedWheel]
    exact List.count_map_of_injective _ some (Option.some_injective _) candidate
  · intro s picks t stretch unwrapped full
    exact stretch.perm (.inl rfl) full unwrapped
  · intro some_ ticket
    exact pickWeighted_isSome (Nat.mod_lt _ (weights_pos some_))

/-- Two candidates, one of them twice as heavy. -/
def twoCandidates : List RoutingCandidate := [⟨"a", 0, 2, 0⟩, ⟨"b", 0, 1, 0⟩]

/-- Three selections for one key, with one for another in between. -/
theorem scheduling_proportional_twoCandidates :
    ∃ picks t, Stretch (fun _ _ => none) "weighted" "m" twoCandidates {} picks t ∧
      picks.Perm ((weightedWheel twoCandidates).map some) := by
  have weighted : ∀ s : State, next (fun _ _ => none) s
      (.selectTarget 0 twoCandidates "weighted" "m") = some _ := fun _ => rfl
  have between : ∀ s : State, next (fun _ _ => none) s
      (.selectTarget 0 twoCandidates "weighted" "n") = some _ := fun _ => rfl
  have stretch : Stretch (fun _ _ => none) "weighted" "m" twoCandidates {} _ _ :=
    .select (weighted _) rfl rfl <| .other (between _) (by simp [Label.selection]) (fun _ => rfl) <|
      .select (weighted _) rfl rfl <| .select (weighted _) rfl rfl .done
  have unwrapped : (0 : Nat) + 3 ≤ 2 ^ 64 := by omega
  exact ⟨_, _, stretch, ((scheduling_proportional (fun _ _ => none) "m" twoCandidates).1 _ _ _
    stretch unwrapped rfl).1⟩

end LlamaServerManager.Router
