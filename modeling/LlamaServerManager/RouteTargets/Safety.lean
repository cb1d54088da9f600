import LlamaServerManager.Lib.Outcomes
import LlamaServerManager.RouteTargets.Steps

/-!
Which runs keep a target for every route.

* `Sound` — the routes on disk have their instances, and so have those that a save under way may
  still write.
* `Careful` — an event takes no instance from such a save, and lets none begin with a target that is
  gone from disk.
* `referenced_not_deleted` — no step deletes an instance that the persisted routes name, and so no
  run does while they go on naming it; `targets_exist` — no careful run persists a route to nowhere;
  `targetDeleted` is one that does.
-/

namespace LlamaServerManager.RouteTargets

open Lib Router.Configuration

variable {C : Type}

/-- The target of an enabled route is an instance. -/
def RoutesExist (instances : List (Str × C)) (config : Router.Configuration.ProxyConfig) : Prop :=
  ∀ route ∈ config.routes, route.enabled = true → route.targetInstanceId ∈ ids instances

instance (instances : List (Str × C)) (config : Router.Configuration.ProxyConfig) :
    Decidable (RoutesExist instances config) :=
  inferInstanceAs (Decidable (∀ route ∈ config.routes, _))

/-- What a save may still write. -/
def Save.tables : Save → List Router.Configuration.ProxyConfig
  | .validated config _ => [config]
  | .admitted config current => [config, current]
  | .persisted _ current | .applying current | .failed current | .restored current => [current]
  | .finished => []

def State.pending (state : State C) : List Router.Configuration.ProxyConfig :=
  state.saves.flatMap Save.tables

/-- A write takes no target from a save that is under way. -/
def Spares (state : State C) (after : GlobalConfig C) : Prop :=
  ∀ table ∈ state.pending, ∀ route ∈ table.routes, route.enabled = true →
    route.targetInstanceId ∈ ids state.disk.instances → route.targetInstanceId ∈ ids after.instances

instance (state : State C) : DecidablePred (Spares state) :=
  fun _ => inferInstanceAs (Decidable (∀ table ∈ state.pending, _))

/-- What is asked of an event, in the state before it. -/
def Careful (setup : Setup C) (state : State C) : Event C → Prop
  | .validate config _ => Meets (fun _ => True) (RoutesExist state.disk.instances)
      (normalizeAndValidateProxyConfig setup.packages config (state.instances.lookup ·))
  | .lock index refused => ∀ save ∈ state.saves[index]?,
      refused = false → save.expects (setup.configRevision state.proxyConfig) = true →
        RoutesExist state.disk.instances state.proxyConfig
  | .delete id active expectedRevision expectedManagementRevision written => written ≠ .failed →
      Meets (fun _ => True) (Spares state) (deleteInstanceConfiguration setup state.disk
        state.managementRevision active id expectedRevision expectedManagementRevision)
  | .saveConfig instances instanceOrder active expectedManagementRevision written =>
    written ≠ .failed → Meets (fun _ => True) (Spares state) (saveConfig state.disk
      state.managementRevision active instances instanceOrder expectedManagementRevision)
  | _ => True

instance (setup : Setup C) (state : State C) : DecidablePred (Careful setup state)
  | .validate .. => inferInstanceAs (Decidable (Meets _ _ _))
  | .lock index _ => inferInstanceAs (Decidable (∀ save ∈ state.saves[index]?, _))
  | .delete _ _ _ _ written => inferInstanceAs (Decidable (written ≠ .failed → Meets _ _ _))
  | .saveConfig _ _ _ _ written => inferInstanceAs (Decidable (written ≠ .failed → Meets _ _ _))
  | .persist .. | .publish .. | .apply .. | .restore .. | .rollback .. | .publishInstances =>
    .isTrue trivial

/-- An instance that routes do not name, nor the default. -/
def Unreferenced (global : GlobalConfig C) (id : Str) : Prop :=
  global.proxyConfig.defaultInstanceId ≠ id ∧
    ∀ route ∈ global.proxyConfig.routes, route.targetInstanceId ≠ id

instance (global : GlobalConfig C) : DecidablePred (Unreferenced global) :=
  fun _ => inferInstanceAs (Decidable (_ ∧ ∀ route ∈ global.proxyConfig.routes, _))

/-- Only instances that are not referenced are deleted. -/
def KeepsReferenced (before after : GlobalConfig C) : Prop :=
  ∀ id ∈ ids before.instances, id ∉ ids after.instances → Unreferenced before id

/-! ### What is written -/

variable {setup : Setup C} {global after : GlobalConfig C} {id : Str} {active : List Str}
  {managementRevision : Nat} {expectedRevision : Option Str}
  {expectedManagementRevision : Option Nat} {instances : List (Str × C)} {instanceOrder : List Str}

theorem unreferenced_of_validate (ok : validateInstanceRemoval global id = .ok ()) :
    Unreferenced global id := by
  unfold validateInstanceRemoval at ok
  split at ok
  · cases ok
  · rename_i free
    rw [not_or] at free
    exact ⟨free.1, fun route mem same => free.2 ⟨route, mem, same⟩⟩

theorem KeepsReferenced.refl (global : GlobalConfig C) : KeepsReferenced global global :=
  fun _ mem gone => absurd mem gone

/-- A write of instances: the routes stay, and so does what they name. -/
structure Writes (global after : GlobalConfig C) : Prop where
  routes : after.proxyConfig = global.proxyConfig
  keeps : KeepsReferenced global after

theorem writes_of_delete (ok : deleteInstanceConfiguration setup global managementRevision active id
    expectedRevision expectedManagementRevision = .ok after) : Writes global after := by
  unfold deleteInstanceConfiguration at ok
  obtain ⟨⟨⟩, -, ok⟩ := bind_eq_ok.mp ok
  split at ok
  · cases ok
  · obtain ⟨⟨⟩, valid, ok⟩ := bind_eq_ok.mp ok
    split at ok
    · cases ok
    · split at ok
      · cases ok
      · obtain rfl := Except.ok.inj ok
        refine ⟨rfl, fun other mem gone => ?_⟩
        obtain rfl | ne := eq_or_ne other id
        · exact unreferenced_of_validate valid
        · refine absurd ?_ gone
          obtain ⟨entry, here, rfl⟩ := List.mem_map.mp mem
          exact List.mem_map_of_mem (List.mem_filter.mpr ⟨here, by simpa using ne⟩)

theorem checked_of_forM {ids : List Str} (ok : forM ids (checkRemoved global active) = .ok ()) :
    ∀ id ∈ ids, Unreferenced global id := by
  induction ids with
  | nil => simp
  | cons id ids ih =>
    rw [List.forM_cons] at ok
    obtain ⟨⟨⟩, one, more⟩ := bind_eq_ok.mp ok
    obtain ⟨⟨⟩, valid, -⟩ := bind_eq_ok.mp one
    exact List.forall_mem_cons.mpr ⟨unreferenced_of_validate valid, ih more⟩

theorem writes_of_saveConfig (ok : saveConfig global managementRevision active instances
    instanceOrder expectedManagementRevision = .ok after) : Writes global after := by
  unfold saveConfig at ok
  split at ok
  · cases ok
  · obtain ⟨⟨⟩, checked, ok⟩ := bind_eq_ok.mp ok
    obtain rfl := Except.ok.inj ok
    refine ⟨rfl, fun id mem gone => checked_of_forM checked id ?_⟩
    exact List.mem_filter.mpr ⟨mem, by simpa using gone⟩

/-! ### Events -/

/-- The routes on disk have their instances, and those that a save may still write. -/
structure Sound (state : State C) : Prop where
  disk : RoutesExist state.disk.instances state.disk.proxyConfig
  pending : ∀ table ∈ state.pending, RoutesExist state.disk.instances table

variable {state before : State C} {index : Nat} {save : Save}
  {table : Router.Configuration.ProxyConfig}
  {event : Event C}

theorem mem_pending_of_get (at_ : state.saves[index]? = some save) (mem : table ∈ save.tables) :
    table ∈ state.pending :=
  List.mem_flatMap.mpr ⟨save, List.mem_of_getElem? at_, mem⟩

theorem mem_pending_becomes (mem : table ∈ (state.becomes index save).pending) :
    table ∈ state.pending ∨ table ∈ save.tables := by
  obtain ⟨other, here, inside⟩ := List.mem_flatMap.mp mem
  obtain old | rfl := List.mem_or_eq_of_mem_set here
  · exact .inl (List.mem_flatMap.mpr ⟨other, old, inside⟩)
  · exact .inr inside

/-- A save goes on, with tables that were pending or have their instances. -/
theorem Sound.becomes (sound : Sound state)
    (tables : ∀ table ∈ save.tables, RoutesExist state.disk.instances table) :
    Sound (state.becomes index save) where
  disk := sound.disk
  pending table mem := (mem_pending_becomes mem).elim (sound.pending table) (tables table)

theorem Sound.finish (sound : Sound state) : Sound (state.finish index) :=
  let ended : Sound (state.becomes index .finished) :=
    sound.becomes fun _ mem => absurd mem List.not_mem_nil
  ⟨ended.disk, ended.pending⟩

theorem Sound.writeRoutes (sound : Sound state) {written : Written}
    (exist : RoutesExist state.disk.instances table) : Sound (state.writeRoutes table written) := by
  unfold State.writeRoutes
  split
  · exact sound
  · exact ⟨exist, sound.pending⟩

theorem instances_writeRoutes {written : Written} :
    (state.writeRoutes table written).disk.instances = state.disk.instances := by
  unfold State.writeRoutes
  split <;> rfl

theorem Sound.wrote (sound : Sound state) (writes : Writes state.disk after)
    (spares : Spares state after) :
    RoutesExist after.instances after.proxyConfig ∧
      ∀ table ∈ state.pending, RoutesExist after.instances table := by
  constructor
  · rw [writes.routes]
    intro route at_ enabled
    by_contra gone
    exact (writes.keeps _ (sound.disk route at_ enabled) gone).2 route at_ rfl
  · exact fun table mem route at_ enabled =>
      spares table mem route at_ enabled (sound.pending table mem route at_ enabled)

theorem Sound.writeInstances (sound : Sound state) {result : Except String (GlobalConfig C)}
    {counts : Bool} {written : Written}
    (writes : ∀ after, result = .ok after → Writes state.disk after)
    (spares : written ≠ .failed → Meets (fun _ => True) (Spares state) result) :
    Sound (state.writeInstances result counts written) := by
  cases result with
  | error error => cases written <;> exact sound
  | ok after =>
    cases written with
    | failed => exact sound
    | done =>
      obtain ⟨disk, pending⟩ := sound.wrote (writes after rfl) (spares nofun)
      exact ⟨disk, pending⟩
    | failedLate =>
      obtain ⟨disk, pending⟩ := sound.wrote (writes after rfl) (spares nofun)
      exact ⟨disk, pending⟩

/-- A careful event keeps the routes sound. -/
theorem Sound.next (sound : Sound before) (careful : Careful setup before event)
    (step : next setup before event = some state) : Sound state := by
  cases event with
  | validate config expectedRevision =>
    simp only [RouteTargets.next] at step
    split at step
    · cases step
      exact sound
    · rename_i normalized valid
      have exist : RoutesExist before.disk.instances normalized := Meets.ok careful valid
      cases step
      refine ⟨sound.disk, fun table mem => ?_⟩
      obtain ⟨save, here, mem⟩ := List.mem_flatMap.mp mem
      obtain old | new := List.mem_append.mp here
      · exact sound.pending table (List.mem_flatMap.mpr ⟨save, old, mem⟩)
      · rw [List.mem_singleton.mp new] at mem
        rw [List.mem_singleton.mp mem]
        exact exist
  | lock index refused =>
    simp only [RouteTargets.next] at step
    split at step
    · rename_i config expectedRevision at_ _
      split at step
      · cases step
        exact sound.becomes fun _ mem => absurd mem List.not_mem_nil
      · rename_i admitted
        cases step
        have exist : RoutesExist before.disk.instances before.proxyConfig := by
          simp only [Bool.or_eq_true, not_or, Bool.not_eq_true] at admitted
          refine careful _ at_ admitted.1 ?_
          simpa [Save.expects, Option.any_eq_false, Option.all_eq_true] using admitted.2
        have next : Sound (before.becomes index (.admitted config before.proxyConfig)) := by
          refine sound.becomes fun table mem => ?_
          obtain rfl | mem := List.mem_cons.mp mem
          · exact sound.pending table (mem_pending_of_get at_ (List.mem_singleton_self _))
          · rw [List.mem_singleton.mp mem]
            exact exist
        exact ⟨next.disk, next.pending⟩
    · cases step
  | persist index written =>
    simp only [RouteTargets.next] at step
    split at step
    · rename_i config current at_ _
      cases step
      have tables := fun table mem => sound.pending table (mem_pending_of_get at_ mem)
      refine (sound.writeRoutes (tables config List.mem_cons_self)).becomes fun table mem => ?_
      rw [instances_writeRoutes]
      refine tables table (List.mem_cons_of_mem _ ?_)
      split at mem <;> exact mem
    · cases step
  | publish index =>
    simp only [RouteTargets.next] at step
    split at step
    · rename_i config current at_
      cases step
      have next : Sound (before.becomes index (.applying current)) :=
        sound.becomes fun table mem => sound.pending table (mem_pending_of_get at_ mem)
      exact ⟨next.disk, next.pending⟩
    · cases step
  | apply index taken =>
    simp only [RouteTargets.next] at step
    split at step
    · rename_i current at_
      cases step
      split
      · exact sound.finish
      · exact sound.becomes fun table mem => sound.pending table (mem_pending_of_get at_ mem)
    · cases step
  | restore index =>
    simp only [RouteTargets.next] at step
    split at step
    · rename_i current at_
      cases step
      have next : Sound (before.becomes index (.restored current)) :=
        sound.becomes fun table mem => sound.pending table (mem_pending_of_get at_ mem)
      exact ⟨next.disk, next.pending⟩
    · cases step
  | rollback index written =>
    simp only [RouteTargets.next] at step
    split at step
    · rename_i current at_ _
      cases step
      exact (sound.writeRoutes
        (sound.pending current (mem_pending_of_get at_ (List.mem_singleton_self _)))).finish
    · cases step
  | delete id active expectedRevision expectedManagementRevision written =>
    simp only [RouteTargets.next] at step
    split at step
    · cases step
    · cases step
      exact sound.writeInstances (fun after ok => writes_of_delete ok) careful
  | saveConfig instances instanceOrder active expectedManagementRevision written =>
    simp only [RouteTargets.next] at step
    split at step
    · cases step
    · cases step
      exact sound.writeInstances (fun after ok => writes_of_saveConfig ok) careful
  | publishInstances =>
    simp only [RouteTargets.next] at step
    split at step
    · cases step
    · cases step
      exact ⟨sound.disk, sound.pending⟩

theorem keeps_writeInstances {result : Except String (GlobalConfig C)} {counts : Bool}
    {written : Written} (writes : ∀ after, result = .ok after → Writes state.disk after) :
    KeepsReferenced state.disk (state.writeInstances result counts written).disk := by
  cases result with
  | error error => cases written <;> exact .refl _
  | ok after => cases written <;> first | exact .refl _ | exact (writes after rfl).keeps

theorem keepsReferenced_of_instances (same : state.disk.instances = before.disk.instances) :
    KeepsReferenced before.disk state.disk :=
  fun _ mem gone => absurd (same ▸ mem) gone

/-- No event deletes an instance that the routes on disk name. -/
theorem next_keepsReferenced (step : next setup before event = some state) :
    KeepsReferenced before.disk state.disk := by
  cases event with
  | delete id active expectedRevision expectedManagementRevision written =>
    simp only [next] at step
    split at step
    · cases step
    · cases step
      exact keeps_writeInstances fun after ok => writes_of_delete ok
  | saveConfig instances instanceOrder active expectedManagementRevision written =>
    simp only [next] at step
    split at step
    · cases step
    · cases step
      exact keeps_writeInstances fun after ok => writes_of_saveConfig ok
  | persist index written =>
    simp only [next] at step
    split at step
    · cases step
      exact keepsReferenced_of_instances instances_writeRoutes
    · cases step
  | rollback index written =>
    simp only [next] at step
    split at step
    · cases step
      exact keepsReferenced_of_instances instances_writeRoutes
    · cases step
  | lock index refused =>
    simp only [next] at step
    split at step
    · split at step <;> cases step <;> exact .refl _
    · cases step
  | apply index taken =>
    simp only [next] at step
    split at step
    · cases step
      split <;> exact .refl _
    · cases step
  | _ =>
    simp only [next] at step
    split at step <;> cases step <;> exact .refl _

/-! ### Runs -/

/-- **No instance is deleted that the persisted routes name**, or that is the default target, in
whatever order the saves and deletions take their locks. No step deletes one, from whatever state;
so a persisted instance stays through every run in which the persisted routes go on naming it. -/
theorem referenced_not_deleted (setup : Setup C) (global : GlobalConfig C) :
    (∀ before event state, next setup before event = some state →
      KeepsReferenced before.disk state.disk) ∧
    ∀ (events : List (Event C)) (before state : State C) (id : Str),
      (machine setup global).run before events = some state →
      (machine setup global).Along (fun state _ _ => ¬ Unreferenced state.disk id) before events →
      id ∈ ids before.disk.instances → id ∈ ids state.disk.instances := by
  refine ⟨fun _ _ _ step => next_keepsReferenced step, fun events before state id ran named => ?_⟩
  refine Machine.run_preserves_along (P := fun state => id ∈ ids state.disk.instances)
    (fun before event state step named present => ?_) named ran
  by_contra gone
  exact named (next_keepsReferenced step id present gone)

/-- **Every route that is persisted has its instance**, in a run in which saves begin
with targets that are on disk and no instance is deleted from a save that is under way.
The condition is on each step (`Careful`): a save validates its routes against the
instances it read, and writes them later. -/
theorem targets_exist (setup : Setup C) (global : GlobalConfig C)
    (exist : RoutesExist global.instances global.proxyConfig) (events : List (Event C))
    (careful : (machine setup global).Along (fun state event _ => Careful setup state event)
      (.start global) events) :
    (machine setup global).Along (fun _ _ state =>
      RoutesExist state.disk.instances state.disk.proxyConfig) (.start global) events := by
  refine careful.of_preserves (fun before event state step careful sound => ?_)
    (⟨exist, fun table mem => absurd mem List.not_mem_nil⟩ : Sound (.start global))
  have after := sound.next careful step
  exact ⟨after, after.disk⟩

/-! ### Two runs -/

def routesTo (target : Str) : Router.Configuration.ProxyConfig :=
  { legacyConfig "https://a.com/".toList with
    routes := [⟨"r".toList, true, "m".toList, target, 0, 1, 0⟩] }

def twoInstances : GlobalConfig Unit where
  instances := [("a".toList, ()), ("b".toList, ())]
  instanceOrder := ["a".toList, "b".toList]
  proxyConfig := legacyConfig "https://a.com/".toList

/-- The digests are not asked for below. -/
def sampleSetup : Setup Unit where
  packages := shown
  configRevision _ := []
  managementConfigRevision _ := []

def routedInstance : GlobalConfig Unit :=
  { twoInstances with proxyConfig := routesTo "a".toList }

/-- Its route keeps the instance when its deletion is asked for. -/
theorem referenced_not_deleted_sample :
    ∃ state, (machine sampleSetup routedInstance).run (.start routedInstance)
        [.delete "a".toList [] none (some 0) .done] = some state ∧
      "a".toList ∈ ids state.disk.instances := by
  refine ⟨_, rfl, ?_⟩
  exact (referenced_not_deleted sampleSetup routedInstance).2
    [.delete "a".toList [] none (some 0) .done] (.start routedInstance) _ "a".toList rfl
    (by decide) (by decide)

/-- The other instance is deleted while the save is under way. -/
def saveAndDelete : List (Event Unit) :=
  [.validate (routesTo "a".toList) none, .delete "b".toList [] none (some 0) .done,
    .publishInstances, .lock 0 false, .persist 0 .done, .publish 0, .apply 0 true]

theorem saveAndDelete_targets_exist :
    (machine sampleSetup twoInstances).Along (fun _ _ state =>
      RoutesExist state.disk.instances state.disk.proxyConfig) (.start twoInstances)
      saveAndDelete :=
  targets_exist sampleSetup twoInstances (by decide) saveAndDelete (by decide +kernel)

/-- The target is deleted between the check of the routes and the lifecycle lock. -/
def targetDeleted : List (Event Unit) :=
  [.validate (routesTo "a".toList) none, .delete "a".toList [] none (some 0) .done,
    .publishInstances, .lock 0 false, .persist 0 .done]

theorem targetDeleted_persisted :
    RoutesExist twoInstances.instances twoInstances.proxyConfig ∧
    ¬(machine sampleSetup twoInstances).Along (fun _ _ state =>
      RoutesExist state.disk.instances state.disk.proxyConfig) (.start twoInstances)
      targetDeleted := by
  constructor
  · decide
  · intro along
    have persisted := ((((along _ rfl).2 _ rfl).2 _ rfl).2 _ rfl).2 _ rfl
    have gone : "a".toList ∈ ids [("b".toList, ())] := persisted.1 _ List.mem_cons_self rfl
    simp [ids] at gone

end LlamaServerManager.RouteTargets
