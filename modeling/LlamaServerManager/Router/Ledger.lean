import LlamaServerManager.Router.Selection

/-!
The active requests of a target are the permits of its entry
(`active_requests_counted`). Entries are evicted and made again under the same
id while permits are out; what ties a permit to its entry is the identity, and
the invariant is that identities are drawn once.
-/

namespace LlamaServerManager.Router

open Lib

variable {compareLoad : Load → Load → Option Ordering}

/-- The number of live permits of an identity. -/
def live (permits : List TargetRequestPermit) (identity : Nat) : Nat :=
  permits.countP fun permit => permit.targetIdentity = identity

/-- Every entry counts its permits, and identities are drawn once. -/
structure Counted (s : State) : Prop where
  counted : ∀ id target, s.runtime.targets.lookup id = some target →
    target.activeRequests = live s.permits target.identity
  owned : ∀ id target, s.runtime.targets.lookup id = some target → ∀ permit ∈ s.permits,
    permit.targetIdentity = target.identity → permit.instanceId = id
  drawn : ∀ id target, s.runtime.targets.lookup id = some target →
    target.identity < s.runtime.identities
  given : ∀ permit ∈ s.permits, permit.targetIdentity < s.runtime.identities
  distinct : ∀ id id' target target', s.runtime.targets.lookup id = some target →
    s.runtime.targets.lookup id' = some target' → target.identity = target'.identity → id = id'

/-! ### Entries -/

namespace RouterRuntime

variable {r : RouterRuntime} {id other : String} {f : TargetRuntime → TargetRuntime}
  {target : TargetRuntime}

theorem entry_of_lookup (h : r.targets.lookup id = some target) : r.entry id = target := by
  rw [entry, h]
  rfl

theorem lookup_update_self : (r.update id f).targets.lookup id = some (f (r.entry id)) :=
  AList.lookup_insert _

theorem lookup_update_ne (ne : other ≠ id) :
    (r.update id f).targets.lookup other = r.targets.lookup other :=
  AList.lookup_insert_ne ne

/-- An entry after an update is the updated one, or was there. -/
theorem lookup_update (h : (r.update id f).targets.lookup other = some target) :
    other = id ∧ target = f (r.entry id) ∨ other ≠ id ∧ r.targets.lookup other = some target := by
  by_cases eq : other = id
  · subst eq
    rw [lookup_update_self] at h
    exact .inl ⟨rfl, (Option.some.inj h).symm⟩
  · exact .inr ⟨eq, lookup_update_ne eq ▸ h⟩

theorem lookup_retainTargets {ids : List String}
    (h : (r.retainTargets ids).targets.lookup id = some target) :
    r.targets.lookup id = some target := by
  have kept : (r.targets.lookup id).filter (fun _ => ids.contains id) = some target :=
    (Dict.lookup_filter (fun id _ => ids.contains id) r.targets id).symm.trans h
  exact (Option.filter_eq_some_iff.mp kept).1

end RouterRuntime

/-! ### The steps -/

variable {permits : List TargetRequestPermit} {permit : TargetRequestPermit}

theorem live_append {identity : Nat} : live (permits ++ [permit]) identity =
      live permits identity + if permit.targetIdentity = identity then 1 else 0 := by
  rw [live, List.countP_append, List.countP_singleton]
  simp [live]

theorem live_erase {identity : Nat} (mem : permit ∈ permits) : live permits identity =
      live (permits.erase permit) identity +
        if permit.targetIdentity = identity then 1 else 0 := by
  unfold live
  rw [(List.perm_cons_erase mem).countP_eq, List.countP_cons]
  simp

theorem live_pos (mem : permit ∈ permits) : 0 < live permits permit.targetIdentity :=
  List.countP_pos_iff.mpr ⟨permit, mem, decide_eq_true rfl⟩

variable {s : State}

/-- The entry of an instance counts its permits even when it is about to be made. -/
theorem Counted.entry (h : Counted s) (id : String) :
    (s.runtime.entry id).activeRequests = live s.permits (s.runtime.entry id).identity ∧
      (∀ permit ∈ s.permits, permit.targetIdentity = (s.runtime.entry id).identity →
        permit.instanceId = id) ∧
      (s.runtime.entry id).identity ≤ s.runtime.identities ∧
      ∀ id' target', s.runtime.targets.lookup id' = some target' →
        (s.runtime.entry id).identity = target'.identity → id = id' := by
  cases found : s.runtime.targets.lookup id with
  | some target =>
    rw [RouterRuntime.entry_of_lookup found]
    exact ⟨h.counted id target found, h.owned id target found,
      (h.drawn id target found).le, fun id' target' => h.distinct id id' target target' found⟩
  | none =>
    have fresh : s.runtime.entry id = { identity := s.runtime.identities } := by
      rw [RouterRuntime.entry, found]
      rfl
    rw [fresh]
    have unused : ∀ permit ∈ s.permits, permit.targetIdentity ≠ s.runtime.identities :=
      fun permit mem => (h.given permit mem).ne
    refine ⟨?_, fun permit mem eq => absurd eq (unused permit mem), le_rfl, ?_⟩
    · exact (List.countP_eq_zero.mpr fun permit mem => by
        rw [decide_eq_true_eq]
        exact unused permit mem).symm
    · intro id' target' there eq
      exact absurd eq.symm (h.drawn id' target' there).ne

/-- An update that keeps the identity, with the permits it gives out. -/
theorem Counted.update (h : Counted s) {id : String} {f : TargetRuntime → TargetRuntime}
    (same : (f (s.runtime.entry id)).identity = (s.runtime.entry id).identity)
    (counted : (f (s.runtime.entry id)).activeRequests =
      live permits (s.runtime.entry id).identity)
    (others : ∀ identity, identity ≠ (s.runtime.entry id).identity →
      live permits identity = live s.permits identity)
    (new : ∀ permit ∈ permits, permit ∈ s.permits ∨
      permit = ⟨id, (s.runtime.entry id).identity⟩) :
    Counted ⟨s.runtime.update id f, permits⟩ := by
  obtain ⟨_, owned, bound, distinct⟩ := h.entry id
  have later : (s.runtime.update id f).identities = s.runtime.identities + 1 := rfl
  constructor
  · intro other target found
    rcases RouterRuntime.lookup_update found with ⟨rfl, rfl⟩ | ⟨ne, there⟩
    · rw [same]
      exact counted
    · rw [h.counted other target there, others _ fun eq => ne (distinct _ _ there eq.symm).symm]
  · intro other target found permit mem eq
    rcases RouterRuntime.lookup_update found with ⟨rfl, rfl⟩ | ⟨ne, there⟩
    · rcases new permit mem with old | rfl
      · exact owned permit old (eq.trans same)
      · rfl
    · rcases new permit mem with old | rfl
      · exact h.owned other target there permit old eq
      · exact distinct other target there eq
  · intro other target found
    rcases RouterRuntime.lookup_update found with ⟨rfl, rfl⟩ | ⟨ne, there⟩
    · rw [same, later]
      omega
    · have := h.drawn other target there
      rw [later]
      omega
  · intro permit mem
    rcases new permit mem with old | rfl
    · have := h.given permit old
      rw [later]
      omega
    · rw [later]
      exact Nat.lt_succ_of_le bound
  · intro other other' target target' found found' eq
    rcases RouterRuntime.lookup_update found with ⟨rfl, rfl⟩ | ⟨ne, there⟩
    · rcases RouterRuntime.lookup_update found' with ⟨rfl, rfl⟩ | ⟨ne', there'⟩
      · rfl
      · exact distinct other' target' there' (same.symm.trans eq)
    · rcases RouterRuntime.lookup_update found' with ⟨rfl, rfl⟩ | ⟨ne', there'⟩
      · exact (distinct other target there (same.symm.trans eq.symm)).symm
      · exact h.distinct other other' target target' there there' eq

/-- An operation of a probe or of a failed request. -/
theorem Counted.mark (h : Counted s) {id : String} {f : TargetRuntime → TargetRuntime}
    (keeps : ∀ target, (f target).identity = target.identity ∧
      (f target).activeRequests = target.activeRequests) :
    Counted { s with runtime := s.runtime.update id f } :=
  h.update (keeps _).1 ((keeps _).2.trans (h.entry id).1) (fun _ _ => rfl) fun _ => .inl

/-- Only the targets and the identities matter. -/
theorem Counted.congr (h : Counted s) {runtime : RouterRuntime}
    (keeps : runtime.targets = s.runtime.targets ∧ runtime.identities = s.runtime.identities) :
    Counted { s with runtime } := by
  obtain ⟨targets, identities⟩ := keeps
  constructor
  · rw [targets]
    exact h.counted
  · rw [targets]
    exact h.owned
  · rw [targets, identities]
    exact h.drawn
  · rw [identities]
    exact h.given
  · rw [targets]
    exact h.distinct

theorem Counted.acquire (h : Counted s) (id : String) : Counted ⟨s.runtime.update id fun target =>
        { target with activeRequests := target.activeRequests + 1 },
      s.permits ++ [⟨id, (s.runtime.entry id).identity⟩]⟩ := by
  refine h.update rfl ?_ ?_ ?_
  · rw [live_append, if_pos rfl, (h.entry id).1]
  · intro identity ne
    rw [live_append, if_neg ne.symm]
    rfl
  · intro permit mem
    exact (List.mem_append.mp mem).imp_right List.mem_singleton.mp

theorem Counted.retain (h : Counted s) (ids : List String) :
    Counted { s with runtime := s.runtime.retainTargets ids } where
  counted id target found := h.counted id target (RouterRuntime.lookup_retainTargets found)
  owned id target found := h.owned id target (RouterRuntime.lookup_retainTargets found)
  drawn id target found := h.drawn id target (RouterRuntime.lookup_retainTargets found)
  given := h.given
  distinct id id' target target' found found' :=
    h.distinct id id' target target' (RouterRuntime.lookup_retainTargets found)
      (RouterRuntime.lookup_retainTargets found')

/-- A permit whose entry is gone, or was made again, changes nothing. -/
theorem RouterRuntime.dropPermit_stale {r : RouterRuntime}
    (stale : ∀ target, r.targets.lookup permit.instanceId = some target →
      target.identity ≠ permit.targetIdentity) : r.dropPermit permit = r := by
  unfold dropPermit
  split
  · rfl
  · next target found => rw [if_neg (stale target found)]

/-- A permit of the current entry takes one request off it. -/
theorem RouterRuntime.dropPermit_current {r : RouterRuntime} {target : TargetRuntime}
    (found : r.targets.lookup permit.instanceId = some target)
    (same : target.identity = permit.targetIdentity) :
    let returned := { target with activeRequests := target.activeRequests - 1 }
    (r.dropPermit permit).targets = r.targets.insert permit.instanceId returned ∧
      (r.dropPermit permit).identities = r.identities := by
  unfold dropPermit
  simp only [found, if_pos same, and_self]

theorem Counted.drop (h : Counted s) (mem : permit ∈ s.permits) :
    Counted ⟨s.runtime.dropPermit permit, s.permits.erase permit⟩ := by
  have sub : ∀ p ∈ s.permits.erase permit, p ∈ s.permits := fun p => List.mem_of_mem_erase
  by_cases current : ∃ target, s.runtime.targets.lookup permit.instanceId = some target ∧
      target.identity = permit.targetIdentity
  · obtain ⟨target, found, same⟩ := current
    obtain ⟨targets, identities⟩ := RouterRuntime.dropPermit_current found same
    -- An entry afterwards is the one given back to, or another one.
    have cases_ : ∀ {id : String} {new : TargetRuntime},
        (s.runtime.dropPermit permit).targets.lookup id = some new →
        ∃ old, s.runtime.targets.lookup id = some old ∧ new.identity = old.identity ∧
          new.activeRequests =
            old.activeRequests - if permit.targetIdentity = old.identity then 1 else 0 := by
      intro id new there
      rw [targets] at there
      by_cases eq : id = permit.instanceId
      · rw [eq, AList.lookup_insert] at there
        cases there
        refine ⟨target, eq ▸ found, rfl, ?_⟩
        rw [if_pos same.symm]
      · rw [AList.lookup_insert_ne eq] at there
        refine ⟨new, there, rfl, ?_⟩
        rw [if_neg fun eq' => eq (h.owned id new there permit mem eq').symm]
        rfl
    constructor
    · intro id new there
      obtain ⟨old, was, identity, active⟩ := cases_ there
      have before := h.counted id old was
      have split : live s.permits old.identity = live (s.permits.erase permit) old.identity +
          if permit.targetIdentity = old.identity then 1 else 0 := live_erase mem
      rw [active, identity]
      show _ = live (s.permits.erase permit) old.identity
      omega
    · intro id new there p among eq
      obtain ⟨old, was, identity, _⟩ := cases_ there
      exact h.owned id old was p (sub p among) (eq.trans identity)
    · intro id new there
      obtain ⟨old, was, identity, _⟩ := cases_ there
      show new.identity < (s.runtime.dropPermit permit).identities
      rw [identity, identities]
      exact h.drawn id old was
    · intro p among
      show p.targetIdentity < (s.runtime.dropPermit permit).identities
      rw [identities]
      exact h.given p (sub p among)
    · intro id id' new new' there there' eq
      obtain ⟨old, was, identity, _⟩ := cases_ there
      obtain ⟨old', was', identity', _⟩ := cases_ there'
      exact h.distinct id id' old old' was was' (identity.symm.trans (eq.trans identity'))
  · have stale : ∀ target, s.runtime.targets.lookup permit.instanceId = some target →
        target.identity ≠ permit.targetIdentity :=
      fun target found same => current ⟨target, found, same⟩
    rw [RouterRuntime.dropPermit_stale stale]
    refine ⟨fun id target found => ?_, fun id target found p among => h.owned id target found p
      (sub p among), h.drawn, fun p among => h.given p (sub p among), h.distinct⟩
    have other : permit.targetIdentity ≠ target.identity := by
      intro eq
      have same := h.owned id target found permit mem eq
      exact stale target (same ▸ found) eq.symm
    have split : live s.permits target.identity = live (s.permits.erase permit) target.identity +
        if permit.targetIdentity = target.identity then 1 else 0 := live_erase mem
    rw [if_neg other] at split
    rw [h.counted id target found, split]
    rfl

/-- Every step keeps the count. -/
theorem Counted.next {s t : State} (label : Label) (h : Counted s)
    (step : next compareLoad s label = some t) : Counted t := by
  cases label with
  | selectAndAcquire now later candidates strategy routingKey =>
    simp only [Router.next, RouterRuntime.selectAndAcquireTarget] at step
    have keeps : (s.runtime.selectTargetLocked compareLoad now candidates strategy
        routingKey).2.targets = s.runtime.targets ∧ (s.runtime.selectTargetLocked compareLoad now
          candidates strategy routingKey).2.identities = s.runtime.identities :=
      RouterRuntime.selectTargetLocked_keeps
    revert step keeps
    generalize s.runtime.selectTargetLocked compareLoad now candidates strategy routingKey = found
    obtain ⟨selected, runtime⟩ := found
    intro step keeps
    have selected_counted : Counted { s with runtime } := h.congr keeps
    cases selected with
    | none =>
      cases step
      exact selected_counted
    | some selected =>
      cases step
      exact selected_counted.acquire selected.instanceId
  | selectTarget now candidates strategy routingKey =>
    cases step
    exact h.congr RouterRuntime.selectTargetLocked_keeps
  | dropPermit permit =>
    simp only [Router.next] at step
    split at step
    · next mem =>
        cases step
        exact h.drop mem
    · cases step
  | retainTargets instanceIds =>
    cases step
    exact h.retain instanceIds
  | markProbeSuccess instanceId timestamp capabilities =>
    cases step
    exact h.mark fun _ => ⟨rfl, rfl⟩
  | markProbeFailure instanceId error unhealthyThreshold recoveryCooldown timestamp =>
    cases step
    refine h.mark fun target => ?_
    simp only
    split
    · exact ⟨rfl, rfl⟩
    · exact ⟨rfl, rfl⟩

theorem reachable_counted (reached : (machine compareLoad).Reachable s) : Counted s := by
  refine reached.invariant ?_ fun s label t step h => h.next label step
  exact ⟨fun _ _ found => (nomatch found), fun _ _ found => (nomatch found),
    fun _ _ found => (nomatch found), fun _ mem => (nomatch mem),
    fun _ _ _ _ found => (nomatch found)⟩

/-! ### The ledger -/

/-- **The concurrency ledger.** In every reachable state an entry counts the live
permits of its identity, so that dropping a permit never saturates and never
touches an entry made again under the same id; and what is acquired was below
the limit of its route and below the known slots of its target. -/
theorem active_requests_counted {s : State} (reached : (machine compareLoad).Reachable s) :
    (∀ id target, s.runtime.targets.lookup id = some target →
      target.activeRequests = live s.permits target.identity) ∧
    (∀ permit ∈ s.permits, ∀ target, s.runtime.targets.lookup permit.instanceId = some target →
      target.identity = permit.targetIdentity → 0 < target.activeRequests) ∧
    (∀ permit ∈ s.permits, ∀ id target, s.runtime.targets.lookup id = some target →
      target.identity ≠ permit.targetIdentity →
        (s.runtime.dropPermit permit).targets.lookup id = some target) ∧
    ∀ now later candidates strategy routingKey candidate permit,
      (s.runtime.selectAndAcquireTarget compareLoad now later candidates strategy routingKey).1 =
        .ok (candidate, permit) →
      candidate ∈ candidates ∧ permit.instanceId = candidate.instanceId ∧
        (0 < candidate.maxConcurrentRequests →
          (s.runtime.entry candidate.instanceId).activeRequests <
            candidate.maxConcurrentRequests) ∧
        ∀ slots, (s.runtime.entry candidate.instanceId).capabilities.totalSlots = some slots →
          0 < slots → (s.runtime.entry candidate.instanceId).activeRequests < slots := by
  have h := reachable_counted reached
  refine ⟨h.counted, ?_, ?_, ?_⟩
  · intro permit mem target found same
    rw [h.counted _ target found, same]
    exact live_pos mem
  · intro permit mem id target found other
    by_cases eq : id = permit.instanceId
    · have stale : ∀ entry, s.runtime.targets.lookup permit.instanceId = some entry →
          entry.identity ≠ permit.targetIdentity := by
        intro entry there
        rw [← eq, found] at there
        cases there
        exact other
      rw [RouterRuntime.dropPermit_stale stale]
      exact found
    · unfold RouterRuntime.dropPermit
      split
      · exact found
      · split
        · exact (AList.lookup_insert_ne eq).trans found
        · exact found
  · intro now later candidates strategy routingKey candidate permit acquired
    unfold RouterRuntime.selectAndAcquireTarget at acquired
    split at acquired
    · cases acquired
    · next selected runtime found =>
        cases acquired
        obtain ⟨mem, eligible, _⟩ := RouterRuntime.selectTargetLocked_eq_some
          (congrArg Prod.fst found)
        have room := not_or.mp (RouterRuntime.eligible_iff.mp eligible).2
        refine ⟨mem, rfl, fun pos => ?_, fun slots known pos => ?_⟩
        · exact not_le.mp fun full => room.1 ⟨pos, full⟩
        · exact not_le.mp fun full => room.2 ⟨slots, known, pos, full⟩

/-- An instance that is stopped and restarted while a request is out, and then
gets another one. -/
def restarted : List Label :=
  let target : RoutingCandidate := ⟨"restarted", 0, 1, 1⟩
  [.selectAndAcquire 1 1 [target] "priorityFailover" "model", .retainTargets [],
    .markProbeSuccess "restarted" 2 none,
    .selectAndAcquire 3 3 [target] "priorityFailover" "model"]

theorem active_requests_counted_restarted : ∃ s : State,
    (machine fun left right => some (compare left.1 right.1)).run {} restarted = some s ∧
    s.permits.length = 2 ∧
    ∀ target, s.runtime.targets.lookup "restarted" = some target →
      target.activeRequests = live s.permits target.identity := by
  have ends : ((machine fun left right => some (compare left.1 right.1)).run {} restarted).map
      (fun s => s.permits.length) = some 2 := by
    decide +kernel
  obtain ⟨s, ran, length⟩ := Option.map_eq_some_iff.mp ends
  have reached : (machine fun left right => some (compare left.1 right.1)).Reachable s :=
    ⟨restarted, ran⟩
  exact ⟨s, ran, length, (active_requests_counted reached).1 "restarted"⟩

end LlamaServerManager.Router
