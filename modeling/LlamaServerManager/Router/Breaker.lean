import LlamaServerManager.Router.Ledger

/-!
The circuit breaker and the classification of overload (`breaker_exact`): an open
circuit is an unready target, so that whether a request is refused, and how,
does not depend on the clock readings.
-/

namespace LlamaServerManager.Router

open Lib

variable {compareLoad : Load → Load → Option Ordering}

/-- The instance may be tried: it has no entry yet, or a ready one. -/
def RouterRuntime.Ready (r : RouterRuntime) (id : String) : Prop :=
  ∀ target, r.targets.lookup id = some target → target.ready = true

/-- An open circuit is an unready target. -/
def RouterRuntime.Breaker (r : RouterRuntime) : Prop :=
  ∀ id target, r.targets.lookup id = some target → 0 < target.circuitOpenUntilMs →
    target.ready = false

/-- The failure that opens the circuit of an instance. -/
def Label.trips (r : RouterRuntime) (id : String) : Label → Prop
  | .markProbeFailure instanceId _ unhealthyThreshold _ _ =>
    instanceId = id ∧
      max unhealthyThreshold 1 ≤ min ((r.entry id).consecutiveFailures + 1) (2 ^ 32 - 1)
  | _ => False

/-- A success of the instance, or its eviction. -/
def Label.restores (id : String) : Label → Prop
  | .markProbeSuccess instanceId _ _ => instanceId = id
  | .retainTargets instanceIds => id ∉ instanceIds
  | _ => False

/-! ### What the operations do to one target -/

/-- A step either replaces an entry with one that an operation made of it, or
leaves the entry, or there is none afterwards. -/
inductive Moved (r : RouterRuntime) (id : String) (target : TargetRuntime) : Label → Prop
  | kept {label : Label} : r.targets.lookup id = some target → Moved r id target label
  | acquired {now later : Nat} {candidates : List RoutingCandidate}
      {strategy routingKey : String} :
      target = { r.entry id with activeRequests := (r.entry id).activeRequests + 1 } →
      Moved r id target (.selectAndAcquire now later candidates strategy routingKey)
  | released {permit : TargetRequestPermit} {old : TargetRuntime} :
      r.targets.lookup id = some old →
      target = { old with activeRequests := old.activeRequests - 1 } →
      Moved r id target (.dropPermit permit)
  | succeeded {timestamp : Nat} {capabilities : Option TargetCapabilities} :
      target.ready = true → target.circuitOpenUntilMs = 0 →
      Moved r id target (.markProbeSuccess id timestamp capabilities)
  | tripped {error : String} {unhealthyThreshold recoveryCooldown timestamp : Nat} :
      target.ready = false →
      Moved r id target (.markProbeFailure id error unhealthyThreshold recoveryCooldown timestamp)
  | failed {error : String} {unhealthyThreshold recoveryCooldown timestamp : Nat} :
      ¬ Label.trips r id (.markProbeFailure id error unhealthyThreshold recoveryCooldown
        timestamp) →
      target.ready = (r.entry id).ready →
      target.circuitOpenUntilMs = (r.entry id).circuitOpenUntilMs →
      Moved r id target (.markProbeFailure id error unhealthyThreshold recoveryCooldown timestamp)

variable {s t : State} {label : Label} {id : String}

theorem next_moved (step : next compareLoad s label = some t) {target : TargetRuntime}
    (found : t.runtime.targets.lookup id = some target) :
    Moved s.runtime id target label := by
  cases label with
  | selectAndAcquire now later candidates strategy routingKey =>
    simp only [Router.next, RouterRuntime.selectAndAcquireTarget] at step
    have keeps : (s.runtime.selectTargetLocked compareLoad now candidates strategy
        routingKey).2.targets = s.runtime.targets ∧ (s.runtime.selectTargetLocked compareLoad now
          candidates strategy routingKey).2.identities = s.runtime.identities :=
      RouterRuntime.selectTargetLocked_keeps
    revert step keeps
    generalize s.runtime.selectTargetLocked compareLoad now candidates strategy routingKey = out
    obtain ⟨selected, runtime⟩ := out
    rintro step ⟨targets, identities⟩
    have same : ∀ id, runtime.entry id = s.runtime.entry id := fun id => by
      unfold RouterRuntime.entry
      rw [targets, identities]
    cases selected with
    | none =>
      cases step
      exact .kept (targets ▸ found)
    | some selected =>
      cases step
      rcases RouterRuntime.lookup_update found with ⟨rfl, rfl⟩ | ⟨_, there⟩
      · exact .acquired (by rw [same])
      · exact .kept (targets ▸ there)
  | selectTarget now candidates strategy routingKey =>
    cases step
    have keeps : (s.runtime.selectTargetLocked compareLoad now candidates strategy
        routingKey).2.targets = s.runtime.targets := RouterRuntime.selectTargetLocked_keeps.1
    exact .kept (keeps ▸ found)
  | dropPermit permit =>
    simp only [Router.next] at step
    split at step
    · cases step
      by_cases current : ∃ old, s.runtime.targets.lookup permit.instanceId = some old ∧
          old.identity = permit.targetIdentity
      · obtain ⟨old, was, same⟩ := current
        have targets := (RouterRuntime.dropPermit_current was same).1
        rw [targets] at found
        by_cases eq : id = permit.instanceId
        · rw [eq, AList.lookup_insert] at found
          exact .released (eq ▸ was) (Option.some.inj found).symm
        · rw [AList.lookup_insert_ne eq] at found
          exact .kept found
      · rw [RouterRuntime.dropPermit_stale fun old was same => current ⟨old, was, same⟩] at found
        exact .kept found
    · cases step
  | retainTargets instanceIds =>
    cases step
    exact .kept (RouterRuntime.lookup_retainTargets found)
  | markProbeSuccess instanceId timestamp capabilities =>
    cases step
    rcases RouterRuntime.lookup_update found with ⟨rfl, rfl⟩ | ⟨_, there⟩
    · exact .succeeded rfl rfl
    · exact .kept there
  | markProbeFailure instanceId error unhealthyThreshold recoveryCooldown timestamp =>
    cases step
    rcases RouterRuntime.lookup_update found with ⟨rfl, eq⟩ | ⟨_, there⟩
    · simp only at eq
      split at eq
      · rw [eq]
        exact .tripped rfl
      · next below =>
          rw [eq]
          exact .failed (fun trips => below trips.2) rfl rfl
    · exact .kept there

theorem RouterRuntime.Breaker.entry {r : RouterRuntime} (h : r.Breaker)
    (open_ : 0 < (r.entry id).circuitOpenUntilMs) : (r.entry id).ready = false := by
  cases found : r.targets.lookup id with
  | none =>
    rw [RouterRuntime.entry, found] at open_
    exact absurd open_ (lt_irrefl 0)
  | some target =>
    rw [entry_of_lookup found] at open_ ⊢
    exact h id target found open_

theorem next_breaker (step : next compareLoad s label = some t) (h : s.runtime.Breaker) :
    t.runtime.Breaker := by
  intro id target found opened
  cases next_moved step found with
  | kept there => exact h id target there opened
  | acquired eq =>
    rw [eq] at opened ⊢
    exact h.entry opened
  | @released _ old there eq =>
    rw [eq] at opened ⊢
    exact h id old there opened
  | succeeded _ closed => rw [closed] at opened; cases opened
  | tripped unready => exact unready
  | failed _ ready circuit =>
    rw [ready]
    exact h.entry (circuit ▸ opened)

theorem reachable_breaker {s : State} (reached : (machine compareLoad).Reachable s) :
    s.runtime.Breaker :=
  reached.invariant (P := fun s => s.runtime.Breaker) (fun _ _ found => (nomatch found))
    fun _ _ _ step h => next_breaker step h

/-! ### A tripped target -/

/-- The instance has an entry, and it is not ready. -/
def RouterRuntime.Down (r : RouterRuntime) (id : String) : Prop :=
  ∃ target, r.targets.lookup id = some target ∧ target.ready = false

/-- Entries go away by eviction only. -/
theorem next_lookup (step : next compareLoad s label = some t) (stays : ¬ label.restores id)
    {old : TargetRuntime} (was : s.runtime.targets.lookup id = some old) :
    ∃ target, t.runtime.targets.lookup id = some target := by
  have updated : ∀ {r : RouterRuntime} {other : String} {f : TargetRuntime → TargetRuntime},
      r.targets.lookup id = some old → ∃ target, (r.update other f).targets.lookup id =
        some target := by
    intro r other f there
    by_cases eq : id = other
    · subst eq
      exact ⟨_, RouterRuntime.lookup_update_self⟩
    · exact ⟨old, (RouterRuntime.lookup_update_ne eq).trans there⟩
  cases label with
  | selectAndAcquire now later candidates strategy routingKey =>
    simp only [Router.next, RouterRuntime.selectAndAcquireTarget] at step
    have keeps : (s.runtime.selectTargetLocked compareLoad now candidates strategy
        routingKey).2.targets = s.runtime.targets := RouterRuntime.selectTargetLocked_keeps.1
    revert step keeps
    generalize s.runtime.selectTargetLocked compareLoad now candidates strategy routingKey = out
    obtain ⟨selected, runtime⟩ := out
    intro step targets
    have there : runtime.targets.lookup id = some old := targets ▸ was
    cases selected with
    | none =>
      cases step
      exact ⟨old, there⟩
    | some selected =>
      cases step
      exact updated there
  | selectTarget now candidates strategy routingKey =>
    cases step
    have keeps : (s.runtime.selectTargetLocked compareLoad now candidates strategy
        routingKey).2.targets = s.runtime.targets := RouterRuntime.selectTargetLocked_keeps.1
    exact ⟨old, keeps ▸ was⟩
  | dropPermit permit =>
    simp only [Router.next] at step
    split at step
    · cases step
      unfold RouterRuntime.dropPermit
      split
      · exact ⟨old, was⟩
      · split
        · next target _ _ =>
            by_cases eq : id = permit.instanceId
            · rw [eq]
              exact ⟨_, AList.lookup_insert _⟩
            · exact ⟨old, (AList.lookup_insert_ne eq).trans was⟩
        · exact ⟨old, was⟩
    · cases step
  | retainTargets instanceIds =>
    cases step
    have listed : instanceIds.contains id = true :=
      List.contains_iff_mem.mpr (not_not.mp stays)
    exact ⟨old, (Dict.lookup_filter_of_keep fun _ => listed).trans was⟩
  | markProbeSuccess instanceId timestamp capabilities =>
    cases step
    exact updated was
  | markProbeFailure instanceId error unhealthyThreshold recoveryCooldown timestamp =>
    cases step
    exact updated was

theorem next_down (step : next compareLoad s label = some t) (stays : ¬ label.restores id)
    (down : s.runtime.Down id) :
    t.runtime.Down id := by
  obtain ⟨old, was, unready⟩ := down
  obtain ⟨target, found⟩ := next_lookup step stays was
  have before : (s.runtime.entry id).ready = false := by
    rw [RouterRuntime.entry_of_lookup was]
    exact unready
  refine ⟨target, found, ?_⟩
  cases next_moved step found with
  | kept there =>
    cases was.symm.trans there
    exact unready
  | acquired eq =>
    rw [eq]
    exact before
  | released there eq =>
    cases was.symm.trans there
    rw [eq]
    exact unready
  | succeeded _ _ => exact absurd rfl stays
  | tripped unready => exact unready
  | failed _ ready _ => exact ready.trans before

theorem run_down {labels : List Label} (ran : (machine compareLoad).run s labels = some t)
    (stays : ∀ label ∈ labels, ¬ label.restores id) (down : s.runtime.Down id) :
    t.runtime.Down id := by
  induction labels generalizing s with
  | nil =>
    cases ran
    exact down
  | cons label labels ih =>
    obtain ⟨m, step, rest⟩ := (machine compareLoad).run_cons_eq_some.mp ran
    exact ih rest (fun l mem => stays l (List.mem_cons_of_mem _ mem))
      (next_down step (stays label List.mem_cons_self) down)

theorem trips_down (trips : label.trips s.runtime id) (step : next compareLoad s label = some t) :
    t.runtime.Down id := by
  cases label with
  | markProbeFailure instanceId error unhealthyThreshold recoveryCooldown timestamp =>
    obtain ⟨rfl, reached⟩ := trips
    cases step
    refine ⟨_, RouterRuntime.lookup_update_self, ?_⟩
    simp only
    rw [if_pos reached]
  | selectAndAcquire _ _ _ _ _ => exact trips.elim
  | selectTarget _ _ _ _ => exact trips.elim
  | dropPermit _ => exact trips.elim
  | retainTargets _ => exact trips.elim
  | markProbeSuccess _ _ _ => exact trips.elim

/-! ### Selection and its errors -/

/-- With the invariant, what is eligible does not depend on the clock. -/
theorem RouterRuntime.Breaker.eligible_iff {r : RouterRuntime} (h : r.Breaker) {now : Nat}
    {candidate : RoutingCandidate} : r.eligible now candidate = true ↔
      r.Ready candidate.instanceId ∧ ¬ r.Full candidate := by
  rw [RouterRuntime.eligible_iff]
  refine and_congr_left fun _ => ⟨fun closed target found => (closed target found).1,
    fun ready target found => ⟨ready target found, ?_⟩⟩
  by_contra opened
  have unready := h _ target found (by omega)
  rw [ready target found] at unready
  cases unready

/-- The classification of a refusal reads readiness only. -/
theorem RouterRuntime.Breaker.any_ready {r : RouterRuntime} (h : r.Breaker) {later : Nat}
    {candidates : List RoutingCandidate} :
    (candidates.any fun candidate => (r.targets.lookup candidate.instanceId).all fun state =>
      state.ready && state.circuitOpenUntilMs ≤ later) = true ↔
      ∃ candidate ∈ candidates, r.Ready candidate.instanceId := by
  rw [List.any_eq_true]
  refine exists_congr fun candidate => and_congr_right fun _ => ?_
  unfold RouterRuntime.Ready
  cases found : r.targets.lookup candidate.instanceId with
  | none => simp
  | some target =>
    have closed : target.ready = true → target.circuitOpenUntilMs ≤ later := by
      intro ready
      by_contra opened
      have unready := h _ target found (by omega)
      rw [ready] at unready
      cases unready
    simpa using closed

/-- **The breaker and the refusals.** In every reachable state an open circuit is an
unready target. From a failure that reaches the threshold on, the instance is
not selected until a success or an eviction. What is selected is a ready
candidate below its limits, of the best priority among these; and a refusal is
`unavailable` exactly when no candidate is ready, and `capacity` exactly when
one is and every ready one is at its limits, at any clock readings. -/
theorem breaker_exact {s : State} (reached : (machine compareLoad).Reachable s) :
    (∀ id target, s.runtime.targets.lookup id = some target → 0 < target.circuitOpenUntilMs →
      target.ready = false) ∧
    (∀ id label t labels u, Label.trips s.runtime id label →
      next compareLoad s label = some t → (machine compareLoad).run t labels = some u →
      (∀ l ∈ labels, ¬ l.restores id) →
      ∀ now later candidates strategy routingKey candidate permit,
        (u.runtime.selectAndAcquireTarget compareLoad now later candidates strategy routingKey).1 =
          .ok (candidate, permit) → candidate.instanceId ≠ id) ∧
    ∀ now later candidates strategy routingKey,
      let result :=
        (s.runtime.selectAndAcquireTarget compareLoad now later candidates strategy routingKey).1
      (∀ candidate permit, result = .ok (candidate, permit) →
        candidate ∈ candidates ∧ s.runtime.Ready candidate.instanceId ∧
          ¬ s.runtime.Full candidate ∧
          ∀ other ∈ candidates, s.runtime.Ready other.instanceId → ¬ s.runtime.Full other →
            candidate.priority ≤ other.priority) ∧
      (result = .error .unavailable ↔
        ∀ candidate ∈ candidates, ¬ s.runtime.Ready candidate.instanceId) ∧
      (result = .error .capacity ↔
        (∃ candidate ∈ candidates, s.runtime.Ready candidate.instanceId) ∧
          ∀ candidate ∈ candidates, s.runtime.Ready candidate.instanceId →
            s.runtime.Full candidate) := by
  have breaker := reachable_breaker reached
  refine ⟨breaker, ?_, ?_⟩
  · intro id label t labels u trips step ran stays now later candidates strategy routingKey
      candidate permit acquired eq
    obtain ⟨target, found, unready⟩ := run_down ran stays (trips_down trips step)
    unfold RouterRuntime.selectAndAcquireTarget at acquired
    split at acquired
    · cases acquired
    · next selected runtime out =>
        cases acquired
        obtain ⟨_, eligible, _⟩ := RouterRuntime.selectTargetLocked_eq_some
          (congrArg Prod.fst out)
        have ready := ((RouterRuntime.eligible_iff.mp eligible).1 target (eq ▸ found)).1
        rw [unready] at ready
        cases ready
  · intro now later candidates strategy routingKey
    unfold RouterRuntime.selectAndAcquireTarget
    split
    · next runtime out =>
        have none_ := RouterRuntime.selectTargetLocked_eq_none.mp (congrArg Prod.fst out)
        have targets : runtime.targets = s.runtime.targets := by
          have keeps : (s.runtime.selectTargetLocked compareLoad now candidates strategy
              routingKey).2.targets = s.runtime.targets :=
            RouterRuntime.selectTargetLocked_keeps.1
          rw [out] at keeps
          exact keeps
        have any : (candidates.any fun candidate =>
            (s.runtime.targets.lookup candidate.instanceId).all fun state =>
              state.ready && state.circuitOpenUntilMs ≤ later) = true ↔
            ∃ candidate ∈ candidates, s.runtime.Ready candidate.instanceId :=
          breaker.any_ready
        have full : ∀ candidate ∈ candidates, s.runtime.Ready candidate.instanceId →
            s.runtime.Full candidate := by
          intro candidate mem ready
          by_contra room
          have eligible : s.runtime.eligible now candidate = true :=
            breaker.eligible_iff.mpr ⟨ready, room⟩
          rw [none_ candidate mem] at eligible
          cases eligible
        simp only [targets]
        refine ⟨fun _ _ eq => (nomatch eq), ?_, ?_⟩
        · constructor
          · intro eq candidate mem ready
            rw [if_pos (any.mpr ⟨candidate, mem, ready⟩)] at eq
            cases eq
          · intro unready
            have absent := mt any.mp fun ⟨candidate, mem, ready⟩ => unready candidate mem ready
            rw [if_neg absent]
        · constructor
          · intro eq
            refine ⟨?_, full⟩
            by_contra absent
            rw [if_neg (mt any.mp absent)] at eq
            cases eq
          · rintro ⟨ready, _⟩
            rw [if_pos (any.mpr ready)]
    · next selected runtime out =>
        obtain ⟨mem, eligible, best⟩ := RouterRuntime.selectTargetLocked_eq_some
          (congrArg Prod.fst out)
        obtain ⟨ready, room⟩ := breaker.eligible_iff.mp eligible
        refine ⟨?_, ?_, ?_⟩
        · intro candidate permit eq
          cases eq
          exact ⟨mem, ready, room, fun other listed isReady free =>
            best other listed (breaker.eligible_iff.mpr ⟨isReady, free⟩)⟩
        · exact ⟨fun eq => (nomatch eq), fun unready => absurd ready (unready selected mem)⟩
        · exact ⟨fun eq => (nomatch eq), fun ⟨_, full⟩ => absurd (full selected mem ready) room⟩

/-- A target that fails its probes, as the router's own tests have it. -/
def offline : List Label :=
  [.selectAndAcquire 1 1 [⟨"atomic", 0, 1, 1⟩] "priorityFailover" "shared",
    .dropPermit ⟨"atomic", 0⟩, .markProbeFailure "atomic" "offline" 1 60000 2]

theorem breaker_exact_offline : ∃ s : State,
    (machine fun left right => some (compare left.1 right.1)).run {} offline = some s ∧
    (s.runtime.targets.lookup "atomic").map TargetRuntime.circuitOpenUntilMs = some 60002 ∧
    ∀ target, s.runtime.targets.lookup "atomic" = some target → 0 < target.circuitOpenUntilMs →
      target.ready = false := by
  have ends : ((machine fun left right => some (compare left.1 right.1)).run {} offline).map
      (fun s => (s.runtime.targets.lookup "atomic").map TargetRuntime.circuitOpenUntilMs) =
        some (some 60002) := by
    decide +kernel
  obtain ⟨s, ran, circuit⟩ := Option.map_eq_some_iff.mp ends
  have reached : (machine fun left right => some (compare left.1 right.1)).Reachable s :=
    ⟨offline, ran⟩
  exact ⟨s, ran, circuit, (breaker_exact reached).1 "atomic"⟩

end LlamaServerManager.Router
