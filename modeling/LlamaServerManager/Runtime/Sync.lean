import LlamaServerManager.Lib.Machine
import Mathlib.Algebra.Group.Nat.Defs
import Mathlib.Data.List.Infix

/-!
Delivery of the app's configuration to the runtime daemon
(`runtime_service/mod.rs`, `runtime_service/supervisor.rs`).

The app keeps its instances and its proxy configuration in memory, counts the
changes it has to deliver (`CONFIG_CHANGE_GENERATION`) and the changes it knows
delivered (`CONFIG_SYNCED_GENERATION`). One critical section at a time runs
under the proxy lifecycle lock: the bridge's `synchronize_from_app`,
`save_proxy_config`, `start_proxy_for_app` or `stop_proxy`; each delivers a
snapshot through `sync_app_config`. Changes of the instances do not take that
lock, so they fall between any two of its steps.

The configurations and what the code computes from them are parameters
(`Site`): nothing below depends on what a route or an instance is.
-/

namespace LlamaServerManager.Runtime

open Lib

/-- What the daemon and the app compute from a proxy configuration `P` and the
instances `I`. -/
structure Site (P I : Type) where
  /-- `normalize_and_validate_proxy_config` -/
  normalize : P → I → Except String P
  /-- `format_host_port(config.host.trim(), config.port)` -/
  boundAddr : P → String
  /-- how many of the routes are enabled -/
  activeRoutes : P → Nat
  enabled : P → Bool
  setEnabled : P → Bool → P

/-! ### The daemon -/

structure ProxyStatus where
  running : Bool
  boundAddr : String
  activeRoutes : Nat
  deriving DecidableEq, Repr

/-- The part of `PersistedRuntimeState` a configuration is kept in, and the
status of the daemon's proxy. -/
structure Daemon (P I : Type) where
  configRevision : Nat
  proxyConfig : P
  instances : I
  proxyStatus : ProxyStatus
  deriving DecidableEq

variable {P I : Type} [DecidableEq P] [DecidableEq I] (site : Site P I)

def listeningMessage (boundAddr : String) : String :=
  "代理正在监听 " ++ boundAddr ++ "；修改监听地址或端口前请先停止路由服务"

def staleMessage : String := "stale runtime configuration revision"

def staleRevision (current received : Nat) : String :=
  staleMessage ++ ": current " ++ toString current ++ ", received " ++ toString received

namespace Daemon

variable (d : Daemon P I)

/-- `runtime_config_matches` -/
def runtimeConfigMatches (proxyConfig : P) (instances : I) : Bool :=
  decide (d.proxyConfig = proxyConfig) && decide (d.instances = instances)

/-- What `sync_config` has in memory before it persists. -/
def store (revision : Nat) (proxyConfig : P) (instances : I) : Daemon P I where
  configRevision := revision
  proxyConfig := proxyConfig
  instances := instances
  proxyStatus :=
    { d.proxyStatus with
      activeRoutes := site.activeRoutes proxyConfig
      boundAddr :=
        if d.proxyStatus.running then d.proxyStatus.boundAddr else site.boundAddr proxyConfig }

/-- `sync_config` of the daemon. `persistError` is what `persist` fails with. -/
def syncConfig (persistError : Option String) (revision : Nat) (proxyConfig : P)
    (instances : I) : Except String Unit × Daemon P I :=
  match site.normalize proxyConfig instances with
  | .error error => (.error error, d)
  | .ok proxyConfig =>
    if d.runtimeConfigMatches proxyConfig instances then (.ok (), d)
    else if d.proxyStatus.running && d.proxyStatus.boundAddr != site.boundAddr proxyConfig then
      (.error (listeningMessage d.proxyStatus.boundAddr), d)
    else if revision ≤ d.configRevision then
      (.error (staleRevision d.configRevision revision), d)
    else
      let stored := d.store site revision proxyConfig instances
      match persistError with
      | none => (.ok (), stored)
      | some error =>
        (.error error,
          { stored with
            configRevision := d.configRevision
            proxyConfig := d.proxyConfig
            instances := d.instances
            proxyStatus := d.proxyStatus })

/-- Where `start_proxy` of the daemon fails. -/
inductive StartFault where
  | persistNormalized
  | bind
  | persistEnabled
  deriving DecidableEq, Repr

/-- `start_proxy` of the daemon. `serving` says that the task of an earlier
start has not finished. -/
def startProxy (serving : Bool) (fault : Option StartFault) : Daemon P I :=
  if serving then d
  else
    match site.normalize d.proxyConfig d.instances with
    | .error _ => d
    | .ok config =>
      match fault with
      | some .persistNormalized => d
      | some .bind => { d with proxyConfig := config }
      | some .persistEnabled =>
        { d with
          proxyConfig := site.setEnabled (site.setEnabled config true) (site.enabled config) }
      | none =>
        { d with
          proxyConfig := site.setEnabled config true
          proxyStatus :=
            { d.proxyStatus with running := true, boundAddr := site.boundAddr config } }

/-- `stop_proxy` of the daemon: the task is down whether or not the cleared
`enabled` is persisted. -/
def stopProxy (persisted : Bool) : Daemon P I :=
  let stopped := site.setEnabled d.proxyConfig false
  { d with
    proxyConfig :=
      if persisted then stopped else site.setEnabled stopped (site.enabled d.proxyConfig)
    proxyStatus := { d.proxyStatus with running := false } }

end Daemon

/-! ### The app -/

def u64Max : Nat := 2 ^ 64 - 1

/-- `next_config_revision` at the wall clock `wall`. -/
def nextConfigRevision (wall current : Nat) : Nat := max wall (min (current + 1) u64Max)

/-- What the app holds for the synchronization: the two configurations, the two
generations and the revision. -/
structure App (P I : Type) where
  instances : I
  proxyConfig : P
  /-- changes of the instances that are in memory and not marked pending yet -/
  unmarked : Nat
  changeGeneration : Nat
  syncedGeneration : Nat
  configRevision : Nat

namespace App

variable (a : App P I)

/-- `mark_config_sync_pending`; the generation is the new count. -/
def markConfigSyncPending : App P I := { a with changeGeneration := a.changeGeneration + 1 }

/-- `mark_config_sync_complete` -/
def markConfigSyncComplete (generation : Nat) : App P I :=
  { a with syncedGeneration := max a.syncedGeneration generation }

def configSyncPending : Bool := decide (a.syncedGeneration < a.changeGeneration)

end App

/-- A `SyncConfig` command. -/
structure Request (P I : Type) where
  revision : Nat
  proxyConfig : P
  instances : I

/-- What a `sync_app_config` is part of, with what that critical section still
needs afterwards. -/
inductive Purpose (P : Type) where
  /-- `synchronize_from_app` and the generation it loaded -/
  | bridge (generation : Nat)
  /-- the change of the proxy configuration, to be undone to `previous` -/
  | apply (generation : Nat) (previous : P)
  /-- the undoing; `clean` while `rollback_errors` is empty -/
  | rollback (generation : Nat) (clean : Bool)

def Purpose.generation : Purpose P → Nat
  | .bridge generation | .apply generation _ | .rollback generation _ => generation

/-- How far `call_recovering` has come. -/
inductive Phase where
  | sending
  /-- the request is on its way or with the daemon -/
  | waiting
  /-- the daemon has handled the request and its reply is lost -/
  | unanswered
  | failed (error : String)
  /-- `sync_config` of the app asks for the daemon's revision -/
  | refreshing
  deriving DecidableEq, Repr

/-- A `sync_config` command under way; of its recovery it holds the first error, and of
the revision check whether it has tried again. -/
structure Call (P I : Type) where
  request : Request P I
  phase : Phase
  /-- the error before the recovery, once the command is sent a second time -/
  firstError : Option String
  /-- `sync_config` has seen a stale revision and tries again -/
  retried : Bool

/-- The critical section under the proxy lifecycle lock. -/
inductive Stage (P I : Type) where
  | free
  /-- `save_proxy_config` has marked `generation` and writes `config` -/
  | applying (generation : Nat) (previous config : P)
  /-- `start_proxy_for_app` or `stop_proxy` has set the configuration -/
  | switching (previous : P)
  | failed (previous : P)
  /-- the previous configuration is back in memory -/
  | restored (previous : P)
  | rollingBack (generation : Nat)
  /-- `sync_app_config` is called -/
  | syncing (purpose : Purpose P)
  /-- and has read the proxy configuration -/
  | read (purpose : Purpose P) (proxyConfig : P)
  | calling (purpose : Purpose P) (call : Call P I)
  /-- `sync_app_config` has returned `Ok` -/
  | synced (purpose : Purpose P)

/-- The app, the daemon and the one critical section between them, with the requests
that are still on their way when nobody waits for them. -/
structure System (P I : Type) where
  app : App P I
  daemon : Daemon P I
  stage : Stage P I
  /-- Requests whose sender no longer waits and the daemon has not handled. -/
  abandoned : List (Request P I)
  /-- History: the configuration of the last `sync_config` that returned `Ok`. -/
  accepted : Option (P × I)

/-- The request that the daemon handles: one whose sender has given up, by its place
among these, or the one the app waits for. -/
inductive Handled where
  | abandoned (index : Nat)
  | waiting
  deriving DecidableEq, Repr

/-- The steps. The ones of the critical section are enabled by its stage. -/
inductive Step (P I : Type) where
  /-- `save_config`, `management_update` and the deletion set the instances -/
  | setInstances (instances : I)
  /-- and then mark the change pending -/
  | markPending
  | synchronizeFromApp
  /-- `config` is normalized before the lock is taken, against the instances of
  that moment -/
  | saveProxyConfig (config : P)
  | startProxyForApp
  | stopProxy
  /-- `update_and_persist` of the critical section returns -/
  | persist (succeeds : Bool)
  /-- the next step of the critical section in the app's memory -/
  | advance
  /-- `sync_app_config` reads the instances and draws a revision -/
  | snapshot (wall : Nat)
  | send
  /-- no permit, or no service to send to -/
  | refuse (error : String)
  /-- no reply arrives, or none that can be read -/
  | lose (error : String)
  /-- the service does not answer a ping and is started again -/
  | recover
  /-- the call returns its error -/
  | settle
  /-- `GetStatus` returns `seen`, which the daemon may have left behind since -/
  | refresh (wall seen : Nat)
  /-- the daemon handles a request -/
  | handle (handled : Handled) (persistError : Option String) (lost : Bool)
  /-- what follows the delivery (autostart, the daemon's proxy) returns -/
  | finish (succeeds : Bool)
  | daemonStartProxy (serving : Bool) (fault : Option Daemon.StartFault)
  | daemonStopProxy (persisted : Bool)
  /-- the daemon's proxy task ends by itself -/
  | proxyExit

/-- The daemon handles the request the app waits for. -/
def Step.handlesWaiting : Step P I → Bool
  | .handle .waiting _ _ => true
  | _ => false

namespace System

variable (s : System P I)

/-- The daemon handles `r`. -/
def serve (persistError : Option String) (r : Request P I) : Except String Unit × System P I :=
  let (reply, daemon) := s.daemon.syncConfig site persistError r.revision r.proxyConfig r.instances
  (reply,
    { s with
      daemon
      accepted := if reply.isOk then some (daemon.proxyConfig, daemon.instances) else s.accepted })

/-- `sync_config` of the app returns an error to its critical section. -/
def unsynced : Purpose P → System P I
  | .bridge _ => { s with stage := .free }
  | .apply _ previous => { s with stage := .failed previous }
  -- the error is pushed to `rollback_errors`, so the generation stays pending
  | .rollback _ _ => { s with stage := .free }

/-- What `call_recovering` returns once the recovery has failed too. -/
def recoveryError (first retry : String) : String :=
  "runtime request failed (" ++ first ++ "); recovery retry failed: " ++ retry

/-- `error.contains("stale runtime configuration revision")` -/
def isStale (error : String) : Bool := decide (staleMessage.toList <:+: error.toList)

/-- `call_recovering` returns `error`: `sync_config` of the app tries once more
after a stale revision and otherwise passes the error on. -/
def callFailed (purpose : Purpose P) (call : Call P I) (error : String) : System P I :=
  if isStale error && !call.retried then
    { s with
      stage := .calling purpose
        { call with phase := .refreshing, firstError := none, retried := true } }
  else s.unsynced purpose

/-- The daemon handles a request whose sender has given up: nobody gets the reply. -/
def handleAbandoned (index : Nat) (persistError : Option String) : Option (System P I) :=
  s.abandoned[index]?.map fun r =>
    (({ s with abandoned := s.abandoned.eraseIdx index }).serve site persistError r).2

/-- The daemon handles the request the app waits for, and its reply arrives or is lost. -/
def handleWaiting (persistError : Option String) (lost : Bool) : Option (System P I) :=
  match s.stage with
  | .calling purpose call =>
    if call.phase = .waiting then
      let (reply, t) := s.serve site persistError call.request
      if lost then
        some { t with stage := .calling purpose { call with phase := .unanswered } }
      else
        match reply with
        | .ok _ => some { t with stage := .synced purpose }
        | .error error =>
          some { t with stage := .calling purpose { call with phase := .failed error } }
    else none
  | _ => none

def handle (persistError : Option String) (lost : Bool) : Handled → Option (System P I)
  | .abandoned index => s.handleAbandoned site index persistError
  | .waiting => s.handleWaiting site persistError lost

/-- The steps of `call_recovering` and of `sync_config` of the app. -/
def callStep (purpose : Purpose P) (call : Call P I) : Step P I → Option (System P I)
  | .send =>
    if call.phase = .sending then
      some { s with stage := .calling purpose { call with phase := .waiting } }
    else none
  | .refuse error =>
    if call.phase = .sending ∨ call.phase = .refreshing then
      some (s.callFailed purpose call error)
    else none
  | .lose error =>
    match call.phase with
    | .sending | .unanswered =>
      some { s with stage := .calling purpose { call with phase := .failed error } }
    | .waiting =>
      some
        { s with
          stage := .calling purpose { call with phase := .failed error }
          abandoned := s.abandoned ++ [call.request] }
    | _ => none
  | .recover =>
    match call.phase, call.firstError with
    | .failed error, none =>
      some
        { s with
          stage := .calling purpose { call with phase := .sending, firstError := some error } }
    | _, _ => none
  | .settle =>
    match call.phase with
    | .failed error =>
      some (s.callFailed purpose call (call.firstError.elim error (recoveryError · error)))
    | _ => none
  | .refresh wall seen =>
    if call.phase = .refreshing ∧ seen ≤ s.daemon.configRevision then
      let next := nextConfigRevision wall s.app.configRevision
      some
        { s with
          app := { s.app with configRevision := next }
          stage := .calling purpose
            { call with
              request := { call.request with revision := max next (min (seen + 1) u64Max) }
              phase := .sending } }
    else none
  | _ => none

/-- `update_and_persist` returns. -/
def persisted (succeeds : Bool) : Option (System P I) :=
  match s.stage with
  | .applying generation previous config =>
    if succeeds then
      some
        { s with
          app := { s.app with proxyConfig := config }
          stage := .syncing (.apply generation previous) }
    else some { s with stage := .failed previous }
  | .rollingBack generation => some { s with stage := .syncing (.rollback generation succeeds) }
  | _ => none

def advance : Option (System P I) :=
  match s.stage with
  | .switching previous =>
    some
      { s with
        app := s.app.markConfigSyncPending
        stage := .syncing (.apply (s.app.changeGeneration + 1) previous) }
  | .failed previous =>
    some { s with app := { s.app with proxyConfig := previous }, stage := .restored previous }
  | .restored _ =>
    some
      { s with
        app := s.app.markConfigSyncPending
        stage := .rollingBack (s.app.changeGeneration + 1) }
  | .syncing purpose => some { s with stage := .read purpose s.app.proxyConfig }
  | _ => none

/-- What follows a delivery: the end of the critical section, or its undoing. -/
def finish (succeeds : Bool) : Option (System P I) :=
  match s.stage with
  | .synced (.bridge generation) =>
    some
      { s with
        app := if succeeds then s.app.markConfigSyncComplete generation else s.app
        stage := .free }
  | .synced (.apply generation previous) =>
    if succeeds then
      some { s with app := s.app.markConfigSyncComplete generation, stage := .free }
    else some { s with stage := .failed previous }
  | .synced (.rollback generation clean) =>
    some
      { s with
        app := if clean && succeeds then s.app.markConfigSyncComplete generation else s.app
        stage := .free }
  | _ => none

/-- A critical section begins. -/
def enter (t : System P I) : Option (System P I) :=
  match s.stage with
  | .free => some t
  | _ => none

def next : Step P I → Option (System P I)
  | .setInstances instances =>
    some { s with app := { s.app with instances, unmarked := s.app.unmarked + 1 } }
  | .markPending =>
    if s.app.unmarked = 0 then none
    else
      some
        { s with app := { s.app.markConfigSyncPending with unmarked := s.app.unmarked - 1 } }
  | .synchronizeFromApp =>
    s.enter { s with stage := .syncing (.bridge s.app.changeGeneration) }
  | .saveProxyConfig config =>
    s.enter
      { s with
        app := s.app.markConfigSyncPending
        stage := .applying (s.app.changeGeneration + 1) s.app.proxyConfig config }
  | .startProxyForApp =>
    match site.normalize s.app.proxyConfig s.app.instances with
    | .error _ => none
    | .ok config =>
      s.enter
        { s with
          app := { s.app with proxyConfig := site.setEnabled config true }
          stage := .switching s.app.proxyConfig }
  | .stopProxy =>
    s.enter
      { s with
        app := { s.app with proxyConfig := site.setEnabled s.app.proxyConfig false }
        stage := .switching s.app.proxyConfig }
  | .persist succeeds => s.persisted succeeds
  | .advance => s.advance
  | .snapshot wall =>
    match s.stage with
    | .read purpose proxyConfig =>
      let revision := nextConfigRevision wall s.app.configRevision
      some
        { s with
          app := { s.app with configRevision := revision }
          stage := .calling purpose
            { request := { revision, proxyConfig, instances := s.app.instances }
              phase := .sending
              firstError := none
              retried := false } }
    | _ => none
  | .handle handled persistError lost => s.handle site persistError lost handled
  | .finish succeeds => s.finish succeeds
  | .daemonStartProxy serving fault =>
    some { s with daemon := s.daemon.startProxy site serving fault }
  | .daemonStopProxy persisted => some { s with daemon := s.daemon.stopProxy site persisted }
  | .proxyExit =>
    some
      { s with
        daemon :=
          { s.daemon with proxyStatus := { s.daemon.proxyStatus with running := false } } }
  | step =>
    match s.stage with
    | .calling purpose call => s.callStep purpose call step
    | _ => none

/-- The app as it starts, before any delivery, with whatever the daemon holds. -/
def boot (instances : I) (proxyConfig : P) (daemon : Daemon P I) : System P I where
  app :=
    { instances
      proxyConfig
      unmarked := 0
      changeGeneration := 1
      syncedGeneration := 0
      configRevision := 0 }
  daemon := daemon
  stage := .free
  abandoned := []
  accepted := none

end System

/-- The transport keeps the order of the requests: the daemon handles the one the app
waits for only when none is left of those given up on. This is not enforced by the
code. The app sends a request when it has stopped waiting for the one before (after
300 s), the daemon reads a frame within 10 s, and `sync_config` runs under a fair lock.
A request that was overtaken could replace the configuration, since a delivery that
finds its configuration in place leaves the revision as it is. -/
def System.InOrder (s : System P I) (step : Step P I) (_ : System P I) : Prop :=
  step.handlesWaiting → s.abandoned = []

instance System.InOrder.decidable (s : System P I) (step : Step P I) (t : System P I) :
    Decidable (s.InOrder step t) :=
  inferInstanceAs (Decidable (step.handlesWaiting → s.abandoned = []))

/-- All interleavings of the changes, the critical sections, the calls and the
daemon, which handles the requests in any order. -/
def machine (instances : I) (proxyConfig : P) (daemon : Daemon P I) :
    Machine (System P I) (Step P I) where
  init := .boot instances proxyConfig daemon
  next s step := s.next site step

end LlamaServerManager.Runtime
