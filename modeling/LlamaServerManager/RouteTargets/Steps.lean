import LlamaServerManager.Router.Normalization
import LlamaServerManager.Lib.Machine

/-!
Saving the routes of the router next to deleting instances: `save_proxy_config` of
`commands/proxy.rs`, `save_config` and `delete_instance_configuration` of `commands/config.rs`.

An event is what a call does in one critical section: of `state.instances` (`validate`), of the
lifecycle lock (`lock`), of `CONFIG_WRITE_LOCK` (`persist`, `rollback`, `delete`, `saveConfig`), or
of the field that it sets. A deletion publishes what it wrote before it releases `CONFIG_WRITE_LOCK`
(`publishInstances`), but who validates routes does not wait for that.

* `State` — `instances.json`, what is in memory, and the saves of routes that are under way.
* `next` — one event.
-/

namespace LlamaServerManager.RouteTargets

open Lib Lib.Text Router.Configuration

/-! ### Configurations -/

/-- The fields of `GlobalConfig` that these calls check or change. -/
structure GlobalConfig (C : Type) where
  instances : List (Str × C)
  instanceOrder : List Str
  proxyConfig : Router.Configuration.ProxyConfig

variable {C : Type}

def ids (instances : List (Str × C)) : List Str := instances.map (·.1)

/-- The packages and the digests. -/
structure Setup (C : Type) where
  packages : Packages
  configRevision : Router.Configuration.ProxyConfig → Str
  managementConfigRevision : GlobalConfig C → Str

def validateInstanceId (instanceId : Str) : Except String Unit :=
  let instanceId := trimChars instanceId
  if instanceId = [] || byteLength instanceId > 128 ||
      !instanceId.all (fun c => c.isAlphanum || c = '-' || c = '_') then
    .error "实例 ID 只能包含字母、数字、连字符和下划线，且长度不能超过 128 个字符。"
  else .ok ()

def validateInstanceRemoval (global : GlobalConfig C) (id : Str) : Except String Unit :=
  if global.proxyConfig.defaultInstanceId = id ∨
      ∃ route ∈ global.proxyConfig.routes, route.targetInstanceId = id then
    .error "INSTANCE_REFERENCED: remove the instance's routes/default target before deleting it"
  else .ok ()

/-- What a deletion writes; `active` are the instances that run or start. -/
def deleteInstanceConfiguration (setup : Setup C) (global : GlobalConfig C)
    (managementRevision : Nat) (active : List Str) (id : Str) (expectedRevision : Option Str)
    (expectedManagementRevision : Option Nat) : Except String (GlobalConfig C) := do
  validateInstanceId id
  if expectedRevision.any (· ≠ setup.managementConfigRevision global) ||
      expectedManagementRevision.any (· ≠ managementRevision) ||
      (expectedRevision.isNone && expectedManagementRevision.isNone) then
    .error "CONFIG_CONFLICT: configuration changed; reload before deleting"
  else
    validateInstanceRemoval global id
    if id ∈ active then
      .error "CONFLICT: stop the instance before deleting its configuration"
    else if id ∉ ids global.instances then
      .error "NOT_FOUND: instance not found"
    else
      return { global with
        instances := global.instances.filter (·.1 ≠ id)
        instanceOrder := global.instanceOrder.filter (· ≠ id) }

/-- The check of one instance that a saved map leaves out. -/
def checkRemoved (global : GlobalConfig C) (active : List Str) (id : Str) : Except String Unit := do
  validateInstanceRemoval global id
  if id ∈ active then
    .error "Stop the instance before deleting its configuration."
  else return ()

/-- What the frontend's save writes, of the fields above; the instances are normalized. -/
def saveConfig (global : GlobalConfig C) (managementRevision : Nat) (active : List Str)
    (instances : List (Str × C)) (instanceOrder : List Str)
    (expectedManagementRevision : Option Nat) : Except String (GlobalConfig C) := do
  if expectedManagementRevision.getD 0 ≠ managementRevision then
    .error "配置已被外部管理客户端修改，请重新加载后再保存。"
  else
    forM ((ids global.instances).filter (· ∉ ids instances)) (checkRemoved global active)
    return { global with instances, instanceOrder }

/-! ### Events -/

/-- A save of routes; `current` is the table that it may restore. -/
inductive Save where
  | validated (config : Router.Configuration.ProxyConfig) (expectedRevision : Option Str)
  | admitted (config current : Router.Configuration.ProxyConfig)
  | persisted (config current : Router.Configuration.ProxyConfig)
  | applying (current : Router.Configuration.ProxyConfig)
  | failed (current : Router.Configuration.ProxyConfig)
  | restored (current : Router.Configuration.ProxyConfig)
  | finished

/-- A save that takes the lifecycle lock goes on if the table in memory is the one it expects. -/
def Save.expects (revision : Str) : Save → Bool
  | .validated _ expectedRevision => expectedRevision.all (· = revision)
  | _ => false

/-- Instances to be published, and whether `MANAGEMENT_REVISION` counts that. -/
structure Publication (C : Type) where
  instances : List (Str × C)
  counts : Bool

/-- The configuration on disk and in memory, with the saves and publications that are
between two of their sections. -/
structure State (C : Type) where
  disk : GlobalConfig C
  instances : List (Str × C)
  proxyConfig : Router.Configuration.ProxyConfig
  managementRevision : Nat
  /-- Of who wrote under `CONFIG_WRITE_LOCK` and still holds it. -/
  publishing : Option (Publication C)
  /-- The save that holds `proxy_lifecycle_lock`. -/
  transition : Option Nat
  saves : List Save

/-- A write fails before it replaces the file, or after that. -/
inductive Written where
  | done
  | failed
  | failedLate
deriving DecidableEq, Repr

inductive Event (C : Type) where
  | validate (config : Router.Configuration.ProxyConfig) (expectedRevision : Option Str)
  /-- `refused`: by the state of the proxy or of the runtime. -/
  | lock (save : Nat) (refused : Bool)
  | persist (save : Nat) (written : Written)
  | publish (save : Nat)
  /-- The runtime takes the table, or not. -/
  | apply (save : Nat) (taken : Bool)
  | restore (save : Nat)
  | rollback (save : Nat) (written : Written)
  | delete (id : Str) (active : List Str) (expectedRevision : Option Str)
    (expectedManagementRevision : Option Nat) (written : Written)
  | saveConfig (instances : List (Str × C)) (instanceOrder : List Str) (active : List Str)
    (expectedManagementRevision : Option Nat) (written : Written)
  | publishInstances

namespace State

def start (global : GlobalConfig C) : State C where
  disk := global
  instances := global.instances
  proxyConfig := global.proxyConfig
  managementRevision := 0
  publishing := none
  transition := none
  saves := []

def becomes (state : State C) (index : Nat) (save : Save) : State C :=
  { state with saves := state.saves.set index save }

/-- A save ends and releases the lifecycle lock. -/
def finish (state : State C) (index : Nat) : State C :=
  { state.becomes index .finished with transition := none }

/-- `update_and_persist` of a table. -/
def writeRoutes (state : State C) (config : Router.Configuration.ProxyConfig) (written : Written) :
    State C :=
  if written = .failed then state
  else { state with disk := { state.disk with proxyConfig := config } }

/-- Instances that were checked are written, and then to be published. -/
def writeInstances (state : State C) (global : Except String (GlobalConfig C)) (counts : Bool)
    (written : Written) : State C :=
  match global, written with
  | .ok global, .done =>
    { state with disk := global, publishing := some ⟨global.instances, counts⟩ }
  | .ok global, .failedLate => { state with disk := global }
  | _, _ => state

end State

section Next

variable (setup : Setup C)

def next (state : State C) : Event C → Option (State C)
  | .validate config expectedRevision =>
    match normalizeAndValidateProxyConfig setup.packages config (state.instances.lookup ·) with
    | .error _ => some state
    | .ok config => some { state with saves := state.saves ++ [.validated config expectedRevision] }
  | .lock index refused =>
    match state.saves[index]?, state.transition with
    | some (.validated config expectedRevision), none =>
      if refused || expectedRevision.any (· ≠ setup.configRevision state.proxyConfig) then
        some (state.becomes index .finished)
      else some { state.becomes index (.admitted config state.proxyConfig) with
        transition := some index }
    | _, _ => none
  | .persist index written =>
    match state.saves[index]?, state.publishing with
    | some (.admitted config current), none =>
      some ((state.writeRoutes config written).becomes index
        (if written = .done then .persisted config current else .failed current))
    | _, _ => none
  | .publish index =>
    match state.saves[index]? with
    | some (.persisted config current) =>
      some { state.becomes index (.applying current) with proxyConfig := config }
    | _ => none
  | .apply index taken =>
    match state.saves[index]? with
    | some (.applying current) =>
      some (if taken then state.finish index else state.becomes index (.failed current))
    | _ => none
  | .restore index =>
    match state.saves[index]? with
    | some (.failed current) =>
      some { state.becomes index (.restored current) with proxyConfig := current }
    | _ => none
  | .rollback index written =>
    match state.saves[index]?, state.publishing with
    | some (.restored current), none => some ((state.writeRoutes current written).finish index)
    | _, _ => none
  | .delete id active expectedRevision expectedManagementRevision written =>
    match state.publishing with
    | some _ => none
    | none => some (state.writeInstances (deleteInstanceConfiguration setup state.disk
        state.managementRevision active id expectedRevision expectedManagementRevision) true
        written)
  | .saveConfig instances instanceOrder active expectedManagementRevision written =>
    match state.publishing with
    | some _ => none
    | none => some (state.writeInstances (saveConfig state.disk state.managementRevision active
        instances instanceOrder expectedManagementRevision) false written)
  | .publishInstances =>
    match state.publishing with
    | none => none
    | some publication => some { state with
        instances := publication.instances
        managementRevision := state.managementRevision + if publication.counts then 1 else 0
        publishing := none }

def machine (global : GlobalConfig C) : Machine (State C) (Event C) where
  init := .start global
  next := next setup

end Next

end LlamaServerManager.RouteTargets
