import LlamaServerManager.Runtime.Sync

/-!
Convergence of the daemon to the app's configuration.

The invariant has one clause for a system at rest and one for each stage of a
critical section. At rest (`Quiet`) the daemon has accepted what the app holds
and the requests still on their way carry nothing else; a change makes the
clause vacuous, since it leaves the app with an unmarked change or a generation
still to deliver. A critical section that may complete a generation carries a
snapshot that covers every change marked up to it (`Covers`), so the clause
holds again when the generation is complete. Only there the order of the requests
counts (`InOrder`): with the reply no earlier request is left that could follow.
-/

namespace LlamaServerManager.Runtime

open Lib

variable {P I : Type} {site : Site P I}

/-! ### The daemon -/

namespace Daemon

variable {d : Daemon P I} {persistError : Option String} {revision : Nat} {proxyConfig : P}
  {instances : I}

@[simp] theorem startProxy_configRevision (serving : Bool) (fault : Option StartFault) :
    (d.startProxy site serving fault).configRevision = d.configRevision := by
  unfold startProxy
  repeat' split
  all_goals rfl

variable [DecidableEq P] [DecidableEq I]

variable (site d persistError revision proxyConfig instances) in
/-- The cases of `sync_config`: refused, already in place, or stored. -/
theorem syncConfig_cases :
    (∃ error, d.syncConfig site persistError revision proxyConfig instances = (.error error, d)) ∨
    ∃ config, site.normalize proxyConfig instances = .ok config ∧
      ((d.syncConfig site persistError revision proxyConfig instances = (.ok (), d) ∧
          d.proxyConfig = config ∧ d.instances = instances) ∨
        (d.syncConfig site persistError revision proxyConfig instances =
            (.ok (), d.store site revision config instances) ∧
          d.configRevision < revision)) := by
  unfold syncConfig
  cases normal : site.normalize proxyConfig instances with
  | error error => exact .inl ⟨error, rfl⟩
  | ok config =>
    dsimp only
    split
    · next «matches» =>
        simp only [runtimeConfigMatches, Bool.and_eq_true, decide_eq_true_eq] at «matches»
        exact .inr ⟨config, rfl, .inl ⟨rfl, «matches»⟩⟩
    · split
      · exact .inl ⟨_, rfl⟩
      · split
        · exact .inl ⟨_, rfl⟩
        · next newer =>
            cases persistError with
            | none => exact .inr ⟨config, rfl, .inr ⟨rfl, Nat.lt_of_not_le newer⟩⟩
            | some error => exact .inl ⟨error, rfl⟩

/-- A `sync_config` that returns `Ok` leaves the daemon with the normalized
configuration of the request. -/
theorem syncConfig_ok
    (ok : (d.syncConfig site persistError revision proxyConfig instances).1.isOk) :
    let after := (d.syncConfig site persistError revision proxyConfig instances).2
    site.normalize proxyConfig instances = .ok after.proxyConfig ∧ after.instances = instances := by
  obtain ⟨error, refused⟩ | ⟨config, normal, ⟨kept, same⟩ | ⟨stored, _⟩⟩ :=
    syncConfig_cases site d persistError revision proxyConfig instances
  · rw [refused] at ok
    cases ok
  · rw [kept]
    exact ⟨same.1 ▸ normal, same.2⟩
  · rw [stored]
    exact ⟨normal, rfl⟩

theorem syncConfig_error {error : String}
    (refused : (d.syncConfig site persistError revision proxyConfig instances).1 = .error error) :
    (d.syncConfig site persistError revision proxyConfig instances).2 = d := by
  obtain ⟨_, same⟩ | ⟨_, _, ⟨same, _⟩ | ⟨stored, _⟩⟩ :=
    syncConfig_cases site d persistError revision proxyConfig instances
  · rw [same]
  · rw [same]
  · rw [stored] at refused
    cases refused

theorem syncConfig_replaces
    (replaced : (d.syncConfig site persistError revision proxyConfig instances).2 ≠ d) :
    d.configRevision < revision ∧
      (d.syncConfig site persistError revision proxyConfig instances).2.configRevision =
        revision := by
  obtain ⟨_, same⟩ | ⟨_, _, ⟨same, _⟩ | ⟨stored, newer⟩⟩ :=
    syncConfig_cases site d persistError revision proxyConfig instances
  · exact absurd (by rw [same]) replaced
  · exact absurd (by rw [same]) replaced
  · rw [stored]
    exact ⟨newer, rfl⟩

theorem syncConfig_revision_le :
    d.configRevision ≤
      (d.syncConfig site persistError revision proxyConfig instances).2.configRevision := by
  by_cases same : (d.syncConfig site persistError revision proxyConfig instances).2 = d
  · rw [same]
  · obtain ⟨newer, stored⟩ := syncConfig_replaces same
    rw [stored]
    exact newer.le

end Daemon

/-! ### The invariant -/

/-- The generation a critical section may complete: no earlier than the
completed ones, and after them when the section itself has marked it. -/
def Purpose.Owes (a : App P I) : Purpose P → Prop
  | .bridge generation =>
    a.syncedGeneration ≤ generation ∧ generation ≤ a.changeGeneration
  | .apply generation _ | .rollback generation _ =>
    a.syncedGeneration < generation ∧ generation ≤ a.changeGeneration

/-- The instances of a snapshot are the app's, up to a change that is not marked
or marked after `generation`. -/
def App.Covers (a : App P I) (generation : Nat) (instances : I) : Prop :=
  instances = a.instances ∨ 0 < a.unmarked ∨ generation < a.changeGeneration

/-- `start_proxy_for_app` and `stop_proxy` change the proxy configuration before
they mark the change. -/
def Stage.Steady : Stage P I → Prop
  | .switching _ => False
  | _ => True

namespace System

variable (site) in
/-- The last configuration the daemon accepted is the normalized
`proxyConfig` with `instances`. -/
def Accepts (s : System P I) (proxyConfig : P) (instances : I) : Prop :=
  ∃ config, s.accepted = some (config, instances) ∧
    site.normalize proxyConfig instances = .ok config

/-- The request carries the app's configuration. -/
def Current (s : System P I) (r : Request P I) : Prop :=
  r.proxyConfig = s.app.proxyConfig ∧ r.instances = s.app.instances

variable (site) in
def Quiet (s : System P I) : Prop :=
  s.app.configSyncPending = false → s.app.unmarked = 0 →
    s.Accepts site s.app.proxyConfig s.app.instances ∧ ∀ r ∈ s.abandoned, s.Current r

variable (site) in
/-- What the stage of the critical section says of the system. -/
def StageInv (s : System P I) : Prop :=
  match s.stage with
  | .free | .switching _ => True
  | .applying generation _ _ | .rollingBack generation =>
    s.app.syncedGeneration < generation ∧ generation ≤ s.app.changeGeneration
  | .failed _ | .restored _ => s.app.syncedGeneration < s.app.changeGeneration
  | .syncing purpose => purpose.Owes s.app
  | .read purpose proxyConfig => purpose.Owes s.app ∧ proxyConfig = s.app.proxyConfig
  | .calling purpose call =>
    purpose.Owes s.app ∧ call.request.proxyConfig = s.app.proxyConfig ∧
      s.app.Covers purpose.generation call.request.instances
  | .synced purpose =>
    purpose.Owes s.app ∧ s.abandoned = [] ∧
      ∃ instances, s.Accepts site s.app.proxyConfig instances ∧
        s.app.Covers purpose.generation instances

variable (site) in
/-- The invariant of every run. `quiet` is what convergence asks for: a stage in which
nothing is under way leaves both sides with the same configuration. -/
structure Inv (s : System P I) : Prop where
  generations : s.app.syncedGeneration ≤ s.app.changeGeneration
  stage : s.StageInv site
  quiet : s.stage.Steady → s.Quiet site

variable {s : System P I}

/-- A generation still to deliver makes the clause of a quiet system vacuous. -/
theorem Quiet.of_behind (behind : s.app.syncedGeneration < s.app.changeGeneration) :
    s.Quiet site := by
  intro settled
  exact absurd behind (of_decide_eq_false settled)

theorem Quiet.of_unmarked (unmarked : 0 < s.app.unmarked) : s.Quiet site :=
  fun _ none => absurd none unmarked.ne'

end System

theorem Purpose.Owes.le {a : App P I} {purpose : Purpose P} (owes : purpose.Owes a) :
    a.syncedGeneration ≤ purpose.generation ∧ purpose.generation ≤ a.changeGeneration := by
  cases purpose with
  | bridge generation => exact owes
  | apply generation previous => exact ⟨owes.1.le, owes.2⟩
  | rollback generation clean => exact ⟨owes.1.le, owes.2⟩

theorem Purpose.Owes.mono {a b : App P I} {purpose : Purpose P} (owes : purpose.Owes a)
    (synced : b.syncedGeneration = a.syncedGeneration)
    (change : a.changeGeneration ≤ b.changeGeneration) : purpose.Owes b := by
  cases purpose with
  | bridge generation => exact ⟨synced ▸ owes.1, owes.2.trans change⟩
  | apply generation previous => exact ⟨synced ▸ owes.1, owes.2.trans change⟩
  | rollback generation clean => exact ⟨synced ▸ owes.1, owes.2.trans change⟩

/-- Of a settled app without unmarked changes a covering snapshot has the instances. -/
theorem App.Covers.eq {a : App P I} {purpose : Purpose P} {instances : I}
    (covers : a.Covers purpose.generation instances) (owes : purpose.Owes a)
    (settled : a.configSyncPending = false) (none : a.unmarked = 0) : instances = a.instances := by
  have latest : ¬ a.syncedGeneration < a.changeGeneration := of_decide_eq_false settled
  have within := owes.le
  obtain same | unmarked | later := covers
  · exact same
  · exact absurd none unmarked.ne'
  · omega

namespace System

variable {s t : System P I} {purpose : Purpose P} {call : Call P I}

/-! ### Changes of the instances -/

theorem Inv.setInstances (inv : s.Inv site) (instances : I) :
    Inv site { s with app := { s.app with instances, unmarked := s.app.unmarked + 1 } } := by
  refine ⟨inv.generations, ?_, fun _ => .of_unmarked (Nat.succ_pos _)⟩
  have before := inv.stage
  have unmarked : 0 < s.app.unmarked + 1 := Nat.succ_pos _
  unfold StageInv at before ⊢
  dsimp only
  split at before
  case h_9 => exact ⟨before.1, before.2.1, .inr (.inl unmarked)⟩
  case h_10 =>
    obtain ⟨owes, none, snapshot, accepts, _⟩ := before
    exact ⟨owes, none, snapshot, accepts, .inr (.inl unmarked)⟩
  all_goals exact before

/-- A mark leaves every snapshot behind that was taken before it. -/
theorem Inv.markPending (inv : s.Inv site) (unmarked : Nat) :
    Inv site { s with app := { s.app.markConfigSyncPending with unmarked } } := by
  have later : s.app.changeGeneration < s.app.changeGeneration + 1 := Nat.lt_succ_self _
  have behind : s.app.syncedGeneration < s.app.changeGeneration + 1 :=
    inv.generations.trans_lt later
  refine ⟨behind.le, ?_, fun _ => .of_behind behind⟩
  have before := inv.stage
  unfold StageInv at before ⊢
  dsimp only
  split at before
  · trivial
  · trivial
  · exact ⟨before.1, before.2.trans later.le⟩
  · exact ⟨before.1, before.2.trans later.le⟩
  · exact behind
  · exact behind
  · exact before.mono rfl later.le
  · exact ⟨before.1.mono rfl later.le, before.2⟩
  · obtain ⟨owes, proxyConfig, _⟩ := before
    exact ⟨owes.mono rfl later.le, proxyConfig, .inr (.inr (owes.le.2.trans_lt later))⟩
  · obtain ⟨owes, none, snapshot, accepts, _⟩ := before
    exact ⟨owes.mono rfl later.le, none, snapshot, accepts,
      .inr (.inr (owes.le.2.trans_lt later))⟩

/-! ### The call -/

theorem Inv.calling (inv : s.Inv site) (stage : s.stage = .calling purpose call) :
    purpose.Owes s.app ∧ call.request.proxyConfig = s.app.proxyConfig ∧
      s.app.Covers purpose.generation call.request.instances := by
  have facts := inv.stage
  rwa [StageInv, stage] at facts

/-- A call in a quiet system carries the app's configuration. -/
theorem Inv.current (inv : s.Inv site) (stage : s.stage = .calling purpose call)
    (settled : s.app.configSyncPending = false) (none : s.app.unmarked = 0) :
    s.Current call.request := by
  obtain ⟨owes, proxyConfig, covers⟩ := inv.calling stage
  exact ⟨proxyConfig, covers.eq owes settled none⟩

theorem Inv.quiet_calling (inv : s.Inv site) (stage : s.stage = .calling purpose call) :
    s.Quiet site := by
  refine inv.quiet ?_
  rw [stage]
  trivial

/-- The call goes on with the same request, up to its revision. -/
theorem Inv.goesOn (inv : s.Inv site) (stage : s.stage = .calling purpose call)
    {later : Call P I} (proxyConfig : later.request.proxyConfig = call.request.proxyConfig)
    (instances : later.request.instances = call.request.instances) :
    Inv site { s with stage := .calling purpose later } := by
  obtain ⟨owes, same, covers⟩ := inv.calling stage
  refine ⟨inv.generations, ⟨owes, proxyConfig.trans same, ?_⟩, fun _ => inv.quiet_calling stage⟩
  rw [instances]
  exact covers

/-- Drawing a revision changes nothing else. -/
theorem Inv.draw (inv : s.Inv site) (configRevision : Nat) :
    Inv site { s with app := { s.app with configRevision } } := by
  refine ⟨inv.generations, ?_, inv.quiet⟩
  have before := inv.stage
  unfold StageInv at before ⊢
  dsimp only
  split at before
  case h_7 => exact before.mono rfl le_rfl
  case h_8 => exact ⟨before.1.mono rfl le_rfl, before.2⟩
  case h_9 => exact ⟨before.1.mono rfl le_rfl, before.2⟩
  case h_10 => exact ⟨before.1.mono rfl le_rfl, before.2⟩
  all_goals exact before

theorem Inv.unsynced (inv : s.Inv site) (stage : s.stage = .calling purpose call) :
    Inv site (s.unsynced purpose) := by
  have quiet := inv.quiet_calling stage
  obtain ⟨owes, _⟩ := inv.calling stage
  cases purpose with
  | bridge generation => exact ⟨inv.generations, trivial, fun _ => quiet⟩
  | apply generation previous =>
    exact ⟨inv.generations, owes.1.trans_le owes.2, fun _ => quiet⟩
  | rollback generation clean => exact ⟨inv.generations, trivial, fun _ => quiet⟩

theorem Inv.callFailed (inv : s.Inv site) (stage : s.stage = .calling purpose call)
    (error : String) : Inv site (s.callFailed purpose call error) := by
  unfold System.callFailed
  split
  · exact inv.goesOn stage rfl rfl
  · exact inv.unsynced stage

/-- A request given up on joins the others; of a quiet system it is current. -/
theorem Inv.abandon (inv : s.Inv site) (stage : s.stage = .calling purpose call)
    (error : String) :
    Inv site
      { s with
        stage := .calling purpose { call with phase := .failed error }
        abandoned := s.abandoned ++ [call.request] } := by
  have facts := inv.calling stage
  refine ⟨inv.generations, facts, fun _ settled none => ?_⟩
  obtain ⟨accepts, current⟩ := inv.quiet_calling stage settled none
  refine ⟨accepts, ?_⟩
  intro r hr
  obtain earlier | last := List.mem_append.mp hr
  · exact current r earlier
  · cases List.mem_singleton.mp last
    exact inv.current stage settled none

theorem Inv.callStep (inv : s.Inv site) (stage : s.stage = .calling purpose call)
    {step : Step P I} (h : s.callStep purpose call step = some t) : Inv site t := by
  unfold System.callStep at h
  split at h
  · obtain ⟨_, h⟩ := Option.ite_none_right_eq_some.mp h
    cases h
    exact inv.goesOn stage rfl rfl
  · obtain ⟨_, h⟩ := Option.ite_none_right_eq_some.mp h
    cases h
    exact inv.callFailed stage _
  · split at h
    · cases h
      exact inv.goesOn stage rfl rfl
    · cases h
      exact inv.goesOn stage rfl rfl
    · cases h
      exact inv.abandon stage _
    · cases h
  · split at h
    · cases h
      exact inv.goesOn stage rfl rfl
    · cases h
  · split at h
    · cases h
      exact inv.callFailed stage _
    · cases h
  · next wall seen =>
      obtain ⟨_, h⟩ := Option.ite_none_right_eq_some.mp h
      cases h
      have drawn := inv.draw (nextConfigRevision wall s.app.configRevision)
      exact drawn.goesOn stage rfl rfl
  · cases h

/-! ### The critical section -/

theorem Inv.persisted (inv : s.Inv site) {succeeds : Bool} (h : s.persisted succeeds = some t) :
    Inv site t := by
  unfold System.persisted at h
  have facts := inv.stage
  unfold StageInv at facts
  split at h
  · next generation previous config stage =>
      rw [stage] at facts
      have behind : s.app.syncedGeneration < s.app.changeGeneration := facts.1.trans_le facts.2
      split at h
      · cases h
        exact ⟨inv.generations, facts, fun _ => .of_behind behind⟩
      · cases h
        exact ⟨inv.generations, behind, fun _ => .of_behind behind⟩
  · next generation stage =>
      rw [stage] at facts
      cases h
      exact ⟨inv.generations, facts, fun _ => .of_behind (facts.1.trans_le facts.2)⟩
  · cases h

theorem Inv.advance (inv : s.Inv site) (h : s.advance = some t) : Inv site t := by
  unfold System.advance at h
  have facts := inv.stage
  unfold StageInv at facts
  have marked : s.app.syncedGeneration < s.app.changeGeneration + 1 :=
    Nat.lt_succ_of_le inv.generations
  split at h
  · cases h
    exact ⟨marked.le, ⟨marked, le_rfl⟩, fun _ => .of_behind marked⟩
  · next previous stage =>
      rw [stage] at facts
      cases h
      exact ⟨inv.generations, facts, fun _ => .of_behind facts⟩
  · cases h
    exact ⟨marked.le, ⟨marked, le_rfl⟩, fun _ => .of_behind marked⟩
  · next purpose stage =>
      rw [stage] at facts
      cases h
      refine ⟨inv.generations, ⟨facts, rfl⟩, fun _ => inv.quiet ?_⟩
      rw [stage]
      trivial
  · cases h

/-- **A completed generation leaves the system quiet**: the requests of earlier
calls are handled, and the snapshot covers every change up to the generation. -/
theorem Inv.complete (inv : s.Inv site) (stage : s.stage = .synced purpose) :
    Inv site
      { s with app := s.app.markConfigSyncComplete purpose.generation, stage := .free } := by
  have facts := inv.stage
  rw [StageInv, stage] at facts
  obtain ⟨owes, handled, instances, accepts, covers⟩ := facts
  obtain ⟨after, within⟩ := owes.le
  have synced : max s.app.syncedGeneration purpose.generation = purpose.generation :=
    max_eq_right after
  refine ⟨?_, trivial, fun _ settled none => ?_⟩
  · show max s.app.syncedGeneration purpose.generation ≤ s.app.changeGeneration
    rw [synced]
    exact within
  · have latest : ¬ max s.app.syncedGeneration purpose.generation < s.app.changeGeneration :=
      of_decide_eq_false settled
    rw [synced] at latest
    have same : instances = s.app.instances := by
      obtain same | unmarked | later := covers
      · exact same
      · exact absurd none unmarked.ne'
      · exact absurd later latest
    subst same
    refine ⟨accepts, ?_⟩
    intro r hr
    rw [show s.abandoned = [] from handled] at hr
    cases hr

theorem Inv.finish (inv : s.Inv site) {succeeds : Bool} (h : s.finish succeeds = some t) :
    Inv site t := by
  have leave : ∀ {purpose : Purpose P}, s.stage = .synced purpose →
      Inv site { s with stage := .free } := by
    intro purpose stage
    refine ⟨inv.generations, trivial, fun _ => inv.quiet ?_⟩
    rw [stage]
    trivial
  unfold System.finish at h
  split at h
  · next generation stage =>
      cases h
      cases succeeds with
      | true => exact inv.complete stage
      | false => exact leave stage
  · next generation previous stage =>
      split at h
      · cases h
        exact inv.complete stage
      · cases h
        have facts := inv.stage
        rw [StageInv, stage] at facts
        have behind := facts.1.1.trans_le facts.1.2
        exact ⟨inv.generations, behind, fun _ => .of_behind behind⟩
  · next generation clean stage =>
      cases h
      cases clean && succeeds with
      | true => exact inv.complete stage
      | false => exact leave stage
  · cases h

theorem Inv.of_enter {later : System P I} (kept : s.stage = .free → Inv site later)
    (h : s.enter later = some t) : Inv site t := by
  unfold System.enter at h
  split at h
  · next stage =>
      cases h
      exact kept stage
  · cases h

/-! ### What leaves the daemon alone -/

theorem callFailed_daemon (error : String) :
    (s.callFailed purpose call error).daemon = s.daemon := by
  unfold callFailed
  split
  · rfl
  · cases purpose <;> rfl

theorem callStep_daemon {step : Step P I} (h : s.callStep purpose call step = some t) :
    t.daemon = s.daemon := by
  unfold callStep at h
  split at h
  · obtain ⟨_, h⟩ := Option.ite_none_right_eq_some.mp h
    cases h
    rfl
  · obtain ⟨_, h⟩ := Option.ite_none_right_eq_some.mp h
    cases h
    exact callFailed_daemon _
  · split at h <;> cases h <;> rfl
  · split at h <;> cases h
    rfl
  · split at h <;> cases h
    exact callFailed_daemon _
  · obtain ⟨_, h⟩ := Option.ite_none_right_eq_some.mp h
    cases h
    rfl
  · cases h

theorem persisted_daemon {succeeds : Bool} (h : s.persisted succeeds = some t) :
    t.daemon = s.daemon := by
  unfold persisted at h
  repeat' split at h
  all_goals cases h <;> rfl

theorem advance_daemon (h : s.advance = some t) : t.daemon = s.daemon := by
  unfold advance at h
  split at h <;> cases h <;> rfl

theorem finish_daemon {succeeds : Bool} (h : s.finish succeeds = some t) :
    t.daemon = s.daemon := by
  unfold finish at h
  repeat' split at h
  all_goals cases h <;> rfl

theorem eq_of_enter {later : System P I} (h : s.enter later = some t) : t = later := by
  unfold enter at h
  split at h <;> cases h
  rfl

/-! ### The daemon's step -/

/-- What the daemon's proxy does to its status or to `enabled` is not seen here. -/
theorem Inv.daemon (inv : s.Inv site) (daemon : Daemon P I) : Inv site { s with daemon } :=
  ⟨inv.generations, inv.stage, inv.quiet⟩

theorem Inv.snapshot (inv : s.Inv site) {proxyConfig : P}
    (stage : s.stage = .read purpose proxyConfig) (request : Request P I)
    (same : request.proxyConfig = proxyConfig)
    (instances : request.instances = s.app.instances) :
    Inv site
      { s with
        stage := .calling purpose
          { request, phase := .sending, firstError := none, retried := false } } := by
  have facts := inv.stage
  rw [StageInv, stage] at facts
  refine ⟨inv.generations, ⟨facts.1, same.trans facts.2, .inl instances⟩, fun _ => inv.quiet ?_⟩
  rw [stage]
  trivial

/-- `start_proxy_for_app` and `stop_proxy` change the configuration first. -/
theorem Inv.switch (inv : s.Inv site) (proxyConfig previous : P) :
    Inv site { s with app := { s.app with proxyConfig }, stage := .switching previous } :=
  ⟨inv.generations, trivial, False.elim⟩

theorem inv_boot (instances : I) (proxyConfig : P) (daemon : Daemon P I) :
    Inv site (boot instances proxyConfig daemon) :=
  ⟨Nat.zero_le _, trivial, fun _ => .of_behind Nat.zero_lt_one⟩

/-- Before a delivery the stage says nothing of the daemon or the requests. -/
theorem StageInv.carry (before : s.StageInv site) (stage : t.stage = s.stage) (app : t.app = s.app)
    (undelivered : ∀ purpose, s.stage ≠ .synced purpose) : t.StageInv site := by
  unfold StageInv at before ⊢
  rw [stage, app]
  split at before
  case h_10 purpose delivered => exact absurd delivered (undelivered purpose)
  all_goals exact before

variable [DecidableEq P] [DecidableEq I] {persistError : Option String} {r : Request P I}

theorem serve_ok (ok : (s.serve site persistError r).1.isOk) :
    (s.serve site persistError r).2.Accepts site r.proxyConfig r.instances := by
  obtain ⟨normal, same⟩ := Daemon.syncConfig_ok ok
  refine ⟨_, ?_, normal⟩
  show (if (s.serve site persistError r).1.isOk then _ else _) = _
  rw [if_pos ok]
  exact congrArg some (Prod.ext rfl same)

theorem serve_accepted (refused : ¬ (s.serve site persistError r).1.isOk) :
    (s.serve site persistError r).2.accepted = s.accepted := by
  show (if (s.serve site persistError r).1.isOk then _ else _) = _
  rw [if_neg refused]

/-- In a quiet system the daemon only handles what it has accepted before. -/
theorem Quiet.serve (quiet : s.Quiet site)
    (current : s.app.configSyncPending = false → s.app.unmarked = 0 → s.Current r) :
    (s.serve site persistError r).2.Quiet site := by
  intro settled none
  obtain ⟨accepts, waiting⟩ := quiet settled none
  refine ⟨?_, waiting⟩
  by_cases ok : (s.serve site persistError r).1.isOk
  · have now := serve_ok ok
    obtain ⟨proxyConfig, instances⟩ := current settled none
    rw [proxyConfig, instances] at now
    exact now
  · obtain ⟨config, accepted, normal⟩ := accepts
    exact ⟨config, (serve_accepted ok).trans accepted, normal⟩

/-- The daemon handles a request whose sender has given up. -/
theorem Inv.handleAbandoned (inv : s.Inv site) {index : Nat}
    (h : s.handleAbandoned site index persistError = some t) : Inv site t := by
  obtain ⟨r, found, rfl⟩ := Option.map_eq_some_iff.mp h
  have mem : r ∈ s.abandoned := List.mem_of_getElem? found
  refine ⟨inv.generations, inv.stage.carry rfl rfl ?_, ?_⟩
  · intro purpose stage
    have facts := inv.stage
    rw [StageInv, stage] at facts
    rw [facts.2.1] at mem
    exact absurd mem List.not_mem_nil
  · intro steady
    have quiet := inv.quiet steady
    refine Quiet.serve ?_ ?_
    · intro settled none
      obtain ⟨accepts, current⟩ := quiet settled none
      exact ⟨accepts, fun q hq => current q (List.mem_of_mem_eraseIdx hq)⟩
    · intro settled none
      obtain ⟨_, current⟩ := quiet settled none
      exact current r mem

/-- The daemon handles the request the app waits for, the last one that is left. -/
theorem Inv.handleWaiting (inv : s.Inv site) (last : s.abandoned = []) {lost : Bool}
    (h : s.handleWaiting site persistError lost = some t) : Inv site t := by
  unfold System.handleWaiting at h
  split at h
  · next purpose call stage =>
      obtain ⟨_, h⟩ := Option.ite_none_right_eq_some.mp h
      have facts := inv.calling stage
      have quiet : (s.serve site persistError call.request).2.Quiet site :=
        (inv.quiet_calling stage).serve (inv.current stage)
      dsimp only at h
      split at h
      · cases h
        exact ⟨inv.generations, facts, fun _ => quiet⟩
      · split at h
        · next replied =>
            cases h
            have ok : (s.serve site persistError call.request).1.isOk := by
              rw [replied]
              rfl
            have accepts := serve_ok ok
            rw [facts.2.1] at accepts
            exact ⟨inv.generations,
              ⟨facts.1, last, call.request.instances, accepts, facts.2.2⟩, fun _ => quiet⟩
        · cases h
          exact ⟨inv.generations, facts, fun _ => quiet⟩
  · cases h

theorem Inv.handle (inv : s.Inv site) {handled : Handled} {lost : Bool}
    (ordered : s.InOrder (.handle handled persistError lost) t)
    (h : s.handle site persistError lost handled = some t) : Inv site t := by
  cases handled with
  | abandoned index => exact inv.handleAbandoned h
  | waiting => exact inv.handleWaiting (ordered rfl) h

/-! ### Runs -/

theorem Inv.next (inv : s.Inv site) {step : Step P I} (ordered : s.InOrder step t)
    (h : s.next site step = some t) : Inv site t := by
  unfold System.next at h
  split at h
  · cases h
    exact inv.setInstances _
  · split at h
    · cases h
    · cases h
      exact inv.markPending _
  · refine Inv.of_enter (fun free => ?_) h
    refine ⟨inv.generations, ⟨inv.generations, le_rfl⟩, fun _ => inv.quiet ?_⟩
    rw [free]
    trivial
  · refine Inv.of_enter (fun _ => ?_) h
    have marked : s.app.syncedGeneration < s.app.changeGeneration + 1 :=
      Nat.lt_succ_of_le inv.generations
    exact ⟨marked.le, ⟨marked, le_rfl⟩, fun _ => .of_behind marked⟩
  · split at h
    · cases h
    · exact Inv.of_enter (fun _ => inv.switch _ _) h
  · exact Inv.of_enter (fun _ => inv.switch _ _) h
  · exact inv.persisted h
  · exact inv.advance h
  · next wall =>
      split at h
      · next purpose proxyConfig stage =>
          cases h
          have drawn := inv.draw (nextConfigRevision wall s.app.configRevision)
          exact drawn.snapshot stage _ rfl rfl
      · cases h
  · exact inv.handle ordered h
  · exact inv.finish h
  · cases h
    exact inv.daemon _
  · cases h
    exact inv.daemon _
  · cases h
    exact inv.daemon _
  · split at h
    · next purpose call stage => exact inv.callStep stage h
    · cases h

theorem inv_of_run {instances : I} {proxyConfig : P} {daemon : Daemon P I}
    {steps : List (Step P I)}
    (ordered : (machine site instances proxyConfig daemon).Along InOrder
      (.boot instances proxyConfig daemon) steps)
    (ran : (machine site instances proxyConfig daemon).run (.boot instances proxyConfig daemon)
      steps = some s) : Inv site s :=
  Machine.run_preserves_along (fun _ _ _ h ordered inv => inv.next ordered h) ordered ran
    (inv_boot instances proxyConfig daemon)

/-! ### Revisions -/

theorem handle_daemon {handled : Handled} {lost : Bool}
    (h : s.handle site persistError lost handled = some t) :
    ∃ r : Request P I, t.daemon =
      (s.daemon.syncConfig site persistError r.revision r.proxyConfig r.instances).2 := by
  cases handled with
  | abandoned index =>
    obtain ⟨r, _, rfl⟩ := Option.map_eq_some_iff.mp h
    exact ⟨r, rfl⟩
  | waiting =>
    change s.handleWaiting site persistError lost = some t at h
    unfold handleWaiting at h
    split at h
    · next purpose call stage =>
        obtain ⟨_, h⟩ := Option.ite_none_right_eq_some.mp h
        refine ⟨call.request, ?_⟩
        dsimp only at h
        repeat' split at h
        all_goals
          cases h
          rfl
    · cases h

/-- No step takes the daemon's revision back. -/
theorem configRevision_le_next {step : Step P I} (h : s.next site step = some t) :
    s.daemon.configRevision ≤ t.daemon.configRevision := by
  suffices same : t.daemon.configRevision = s.daemon.configRevision ∨
      ∃ persistError, ∃ r : Request P I, t.daemon =
        (s.daemon.syncConfig site persistError r.revision r.proxyConfig r.instances).2 by
    obtain same | ⟨persistError, r, handled⟩ := same
    · exact same.ge
    · rw [handled]
      exact Daemon.syncConfig_revision_le
  unfold System.next at h
  split at h
  · cases h
    exact .inl rfl
  · split at h <;> cases h
    exact .inl rfl
  · rw [eq_of_enter h]
    exact .inl rfl
  · rw [eq_of_enter h]
    exact .inl rfl
  · split at h
    · cases h
    · rw [eq_of_enter h]
      exact .inl rfl
  · rw [eq_of_enter h]
    exact .inl rfl
  · exact .inl (congrArg _ (persisted_daemon h))
  · exact .inl (congrArg _ (advance_daemon h))
  · split at h <;> cases h
    exact .inl rfl
  · exact .inr ⟨_, handle_daemon h⟩
  · exact .inl (congrArg _ (finish_daemon h))
  · cases h
    exact .inl (Daemon.startProxy_configRevision _ _)
  · cases h
    exact .inl rfl
  · cases h
    exact .inl rfl
  · split at h
    · exact .inl (congrArg _ (callStep_daemon h))
    · cases h

end System

/-- **The daemon converges to the app's configuration.** In every run whose transport
keeps the order of the requests (`InOrder`): once nothing is pending, no change of the
instances is half done and no critical section runs, the configuration the daemon last
accepted is the app's. In every run, a `sync_config` that replaces anything carries and
leaves a greater revision, one that fails leaves the daemon as it was, and no step takes
the revision back. -/
theorem config_converges [DecidableEq P] [DecidableEq I] (site : Site P I) (instances : I)
    (proxyConfig : P) (daemon : Daemon P I) (steps : List (Step P I)) (s : System P I)
    (ran : (machine site instances proxyConfig daemon).run (.boot instances proxyConfig daemon)
      steps = some s) :
    ((machine site instances proxyConfig daemon).Along System.InOrder
        (.boot instances proxyConfig daemon) steps →
      s.app.configSyncPending = false → s.app.unmarked = 0 → s.stage = .free →
        s.Accepts site s.app.proxyConfig s.app.instances) ∧
    (∀ persistError revision proxyConfig instances,
      let (reply, after) := s.daemon.syncConfig site persistError revision proxyConfig instances
      (after ≠ s.daemon → s.daemon.configRevision < revision ∧ after.configRevision = revision) ∧
      (∀ error, reply = .error error → after = s.daemon)) ∧
    ∀ step t, s.next site step = some t → s.daemon.configRevision ≤ t.daemon.configRevision := by
  refine ⟨?_, ?_, fun _ _ h => System.configRevision_le_next h⟩
  · intro ordered settled none free
    have inv := System.inv_of_run ordered ran
    have steady : s.stage.Steady := by
      rw [free]
      trivial
    exact (inv.quiet steady settled none).1
  · intro persistError revision proxyConfig instances
    exact ⟨Daemon.syncConfig_replaces, fun _ => Daemon.syncConfig_error⟩

/-- A port and whether the proxy is enabled, over named instances. -/
def portSite : Site (Nat × Bool) (List String) where
  normalize config _ := if config.1 = 0 then .error "端口不能为 0" else .ok config
  boundAddr config := "127.0.0.1:" ++ toString config.1
  activeRoutes _ := 0
  enabled config := config.2
  setEnabled config enabled := (config.1, enabled)

def freshDaemon : Daemon (Nat × Bool) (List String) where
  configRevision := 0
  proxyConfig := (8080, false)
  instances := []
  proxyStatus := { running := false, boundAddr := "127.0.0.1:8080", activeRoutes := 0 }

/-- An instance is added, the reply to the first delivery is lost, and the
bridge delivers again. -/
def redelivery : List (Step (Nat × Bool) (List String)) :=
  [.setInstances ["coder"], .markPending,
    .synchronizeFromApp, .advance, .snapshot 5, .send, .handle .waiting none true,
    .lose "timeout", .settle, .synchronizeFromApp, .advance, .snapshot 6, .send,
    .handle .waiting none false, .finish true]

/-- Nothing is overtaken: no request is given up on before the daemon has handled it. -/
theorem redelivery_inOrder :
    (machine portSite [] (8080, false) freshDaemon).Along System.InOrder
      (.boot [] (8080, false) freshDaemon) redelivery := by
  decide

theorem config_converges_after_lost_reply :
    ∃ s : System (Nat × Bool) (List String),
      (machine portSite [] (8080, false) freshDaemon).run (.boot [] (8080, false) freshDaemon)
        redelivery = some s ∧
      s.app.instances = ["coder"] ∧ s.daemon.configRevision = 5 ∧
      s.Accepts portSite (8080, false) ["coder"] := by
  refine ⟨_, rfl, rfl, rfl, ?_⟩
  refine (config_converges portSite [] (8080, false) freshDaemon redelivery _ rfl).1 ?_ rfl rfl rfl
  exact redelivery_inOrder

end LlamaServerManager.Runtime
