import LlamaServerManager.Lib.Dict
import LlamaServerManager.Lib.Text
import Mathlib.Data.String.Basic

/-!
The names of the router, `proxy.rs`: which instances answer for a model name
(`resolveProxyCandidatesFrom`) and which names are advertised
(`listedProxyModelIds`), over the routes, the configured instances and the
running ones. A lookup of a `HashMap` is a lookup of a `Dict`.
-/

namespace LlamaServerManager.Router

open Lib

/-! ### Records -/

inductive ModelWorkload where
  | inference
  | embedding
  | reranker
deriving DecidableEq, Repr

inductive EngineKind where
  | llamaCpp
  | gufo
deriving DecidableEq, Repr

structure InstanceConfig where
  name : String := ""
  «alias» : String := ""
  modelPath : String := ""
  host : String := "127.0.0.1"
  port : Nat := 8080
  engineKind : EngineKind := .llamaCpp
  apiKey : String := ""
  apiKeyFile : String := ""
  apiPrefix : String := ""
  sslKeyFile : String := ""
  sslCertFile : String := ""
  ctxSize : Nat := 0
  ctxSizeAuto : Bool := true
  embedding : Bool := false
  reranking : Bool := false
deriving DecidableEq, Repr

structure RunningInstance where
  host : String := "127.0.0.1"
  port : Nat := 8080
  telemetrySessionId : Option String := none
  workload : String := ""
  launchConfig : Option InstanceConfig := none
deriving DecidableEq, Repr

structure ProxyRoute where
  enabled : Bool := true
  modelAlias : String := ""
  targetInstanceId : String := ""
  priority : Int := 0
  weight : Nat := 1
  maxConcurrentRequests : Nat := 0
deriving DecidableEq, Repr

structure ProxyConfig where
  routes : List ProxyRoute := []
  strictModelRouting : Bool := true
  defaultInstanceId : String := ""
deriving DecidableEq, Repr

structure ProxyTarget where
  instanceId : String
  name : String
  «alias» : String
  host : String
  port : Nat
  running : Bool
deriving DecidableEq, Repr

structure ResolvedProxyTarget where
  «public» : ProxyTarget
  engineKind : EngineKind
  upstreamModelId : String
  apiKey : String
  apiPrefix : String
  scheme : String
  configuredContextLength : Option Nat
  telemetrySessionId : Option String
  workload : ModelWorkload
  routePriority : Int
  routeWeight : Nat
  routeMaxConcurrentRequests : Nat
deriving DecidableEq, Repr

/-! ### Public names -/

def isSeparator (c : Char) : Bool := c == '/' || c == '\\'

def blank (s : String) : Bool := (Text.trim s).isEmpty

/-- `model_file_stem`, over characters. -/
def modelFileStem (value : String) : Option String := do
  let components := (Text.trimChars value.toList).splitOnP isSeparator
  let component ← components.reverse.find? fun component => !(Text.trimChars component).isEmpty
  let fileName := Text.trimChars component
  let ending := fileName.drop (fileName.length - 5)
  let stem := Text.trimChars <|
    if ending.map Char.toLower == ['.', 'g', 'g', 'u', 'f'] then
      fileName.take (fileName.length - 5)
    else fileName
  if stem.isEmpty then none else some (String.ofList stem)

/-- The name of an instance that clients see. -/
def publicModelId (config : InstanceConfig) : String :=
  if !blank config.«alias» then Text.trim config.«alias»
  else
    let fromName :=
      if blank config.name then none
      else if !(Text.trim config.name).toList.any isSeparator then some (Text.trim config.name)
      else modelFileStem (Text.trim config.name)
    (fromName.orElse fun _ => modelFileStem config.modelPath).getD "model"

/-! ### Targets -/

def normalizeHost (host : String) : String := if host = "0.0.0.0" then "127.0.0.1" else host

def proxyTargetFromInstance (id : String) (config : InstanceConfig) (running : Bool) :
    ProxyTarget :=
  ⟨id, config.name, publicModelId config, normalizeHost config.host, config.port, running⟩

/-- The configuration an instance was launched with, or else the stored one. -/
def launched (stored : InstanceConfig) (runningInfo : Option RunningInstance) : InstanceConfig :=
  (runningInfo.bind RunningInstance.launchConfig).getD stored

def listProxyTargetsFrom (instances : Dict String InstanceConfig)
    (running : Dict String RunningInstance) : List ProxyTarget :=
  instances.entries.map fun ⟨id, stored⟩ =>
    let runningInfo := running.lookup id
    proxyTargetFromInstance id (launched stored runningInfo) runningInfo.isSome

def ModelWorkload.fromStorage (value : String) : ModelWorkload :=
  if value = "embedding" then .embedding
  else if value = "reranker" then .reranker
  else .inference

def instanceWorkload (config : InstanceConfig) : ModelWorkload :=
  if config.reranking then .reranker else if config.embedding then .embedding else .inference

def storedInstanceWorkload (config : InstanceConfig) (storedWorkload : String) : ModelWorkload :=
  if blank storedWorkload then instanceWorkload config else .fromStorage storedWorkload

def vectorEndpointMatchesTarget (endpoint : Option ModelWorkload) (target : ModelWorkload) : Bool :=
  match endpoint with
  | some workload => workload == target
  | none => true

def storedTargetMatchesEndpoint (config : InstanceConfig) (storedWorkload : String)
    (endpoint : Option ModelWorkload) : Bool :=
  vectorEndpointMatchesTarget endpoint (storedInstanceWorkload config storedWorkload)

/-- The first key of a key file: neither blank nor a comment. -/
def firstFileKey (content : String) : Option String :=
  (content.toList.splitOnP (· == '\n')).findSome? fun line =>
    let key := (Text.trimChars line).dropWhile (· == '\ufeff')
    if key.isEmpty || key.head? == some '#' then none else some (String.ofList key)

def effectiveServerScheme (config : InstanceConfig) : String :=
  if !blank config.sslKeyFile && !blank config.sslCertFile then "https" else "http"

def routeIsConfigured (route : ProxyRoute) : Bool :=
  route.enabled && !blank route.modelAlias && !blank route.targetInstanceId

section

-- `fs::read_to_string`.
variable (readToString : String → Option String)

def effectiveApiKey (config : InstanceConfig) : String :=
  if !blank config.apiKey then
    let keys := (Text.trimChars config.apiKey.toList).splitOnP (· == ',')
    let key := (keys.map Text.trimChars).find? fun key => !key.isEmpty
    String.ofList (key.getD [])
  else if blank config.apiKeyFile then ""
  else ((readToString (Text.trim config.apiKeyFile)).bind firstFileKey).getD ""

def resolvedTargetForId (instances : Dict String InstanceConfig)
    (running : Dict String RunningInstance) (id : String) (endpoint : Option ModelWorkload)
    (routePriority : Int) (routeWeight routeMaxConcurrentRequests : Nat) :
    Option ResolvedProxyTarget := do
  let stored ← instances.lookup id
  let runningInfo ← running.lookup id
  let config := launched stored (some runningInfo)
  if storedTargetMatchesEndpoint config runningInfo.workload endpoint then
    some
      { «public» :=
          ⟨id, config.name, publicModelId config, normalizeHost runningInfo.host,
            runningInfo.port, true⟩
        engineKind := config.engineKind
        upstreamModelId :=
          if blank config.«alias» then Text.trim config.modelPath else Text.trim config.«alias»
        apiKey := effectiveApiKey readToString config
        apiPrefix := config.apiPrefix
        scheme := effectiveServerScheme config
        configuredContextLength :=
          if !config.ctxSizeAuto && 0 < config.ctxSize then some config.ctxSize else none
        telemetrySessionId := runningInfo.telemetrySessionId
        workload := storedInstanceWorkload config runningInfo.workload
        routePriority
        routeWeight := max routeWeight 1
        routeMaxConcurrentRequests }
  else none

/-! ### Resolution -/

def routedIds (config : ProxyConfig) : List String :=
  (config.routes.filter routeIsConfigured).map fun route => Text.trim route.targetInstanceId

/-- `(priority, index)`, as `sort_by_key` compares them. -/
def routeOrder (a b : Int × Nat × ResolvedProxyTarget) : Bool :=
  a.1 < b.1 || (a.1 == b.1 && a.2.1 ≤ b.2.1)

/-- The targets of the routes with the alias. -/
def routeCandidates (instances : Dict String InstanceConfig)
    (running : Dict String RunningInstance) (endpoint : Option ModelWorkload)
    (matching : List (ProxyRoute × Nat)) : List ResolvedProxyTarget :=
  let candidates := matching.filterMap fun (route, index) =>
    (resolvedTargetForId readToString instances running (Text.trim route.targetInstanceId)
      endpoint route.priority route.weight route.maxConcurrentRequests).map
      fun target => (route.priority, index, target)
  (candidates.mergeSort routeOrder).map fun candidate => candidate.2.2

def sortedKeys {β : Type} (m : Dict String β) : List String :=
  m.keys.mergeSort fun a b => decide (a ≤ b)

/-- The instances without a route that go by the name. -/
def unroutedCandidates (config : ProxyConfig) (instances : Dict String InstanceConfig)
    (running : Dict String RunningInstance) (endpoint : Option ModelWorkload) (model : String) :
    List ResolvedProxyTarget :=
  (sortedKeys instances).filterMap fun id => do
    let stored ← instances.lookup id
    let instance_ := launched stored (running.lookup id)
    let publicMatch := publicModelId instance_ == model
    let legacyMatch := !config.strictModelRouting &&
      (Text.trim instance_.name == model || id == model)
    if (publicMatch || legacyMatch) && !(routedIds config).contains id then
      resolvedTargetForId readToString instances running id endpoint 0 1 0
    else none

def defaultCandidate (config : ProxyConfig) (instances : Dict String InstanceConfig)
    (running : Dict String RunningInstance) (endpoint : Option ModelWorkload) :
    Option ResolvedProxyTarget :=
  if blank config.defaultInstanceId then none
  else
    resolvedTargetForId readToString instances running (Text.trim config.defaultInstanceId)
      endpoint 0 1 0

def resolveProxyCandidatesUnbounded (config : ProxyConfig)
    (instances : Dict String InstanceConfig) (running : Dict String RunningInstance)
    (requestedModel : Option String) (endpoint : Option ModelWorkload) :
    List ResolvedProxyTarget :=
  match (requestedModel.map Text.trim).filter fun model => !model.isEmpty with
  | some model =>
    let matching := config.routes.zipIdx.filter fun (route, _) =>
      routeIsConfigured route && Text.trim route.modelAlias == model
    if !matching.isEmpty then
      routeCandidates readToString instances running endpoint matching
    else if config.strictModelRouting && config.routes.any routeIsConfigured then []
    else
      let candidates := unroutedCandidates readToString config instances running endpoint model
      if candidates.isEmpty && !config.strictModelRouting then
        (defaultCandidate readToString config instances running endpoint).toList
      else candidates
  | none =>
    match defaultCandidate readToString config instances running endpoint with
    | some target => [target]
    | none =>
      let ids := (sortedKeys running).filter fun id => !(routedIds config).contains id
      let candidates := ids.filterMap fun id =>
        resolvedTargetForId readToString instances running id endpoint 0 1 0
      if config.strictModelRouting && candidates.length != 1 then [] else candidates

def resolveProxyCandidatesFrom (config : ProxyConfig) (instances : Dict String InstanceConfig)
    (running : Dict String RunningInstance) (requestedModel : Option String)
    (endpoint : Option ModelWorkload) : List ResolvedProxyTarget :=
  let targets :=
    resolveProxyCandidatesUnbounded readToString config instances running requestedModel endpoint
  targets.map fun target =>
    let bounds := config.routes.filter fun route =>
      routeIsConfigured route &&
        Text.trim route.targetInstanceId == target.«public».instanceId &&
        decide (0 < route.maxConcurrentRequests)
    { target with
      routeMaxConcurrentRequests := ((bounds.map ProxyRoute.maxConcurrentRequests).min?).getD 0 }

end

/-! ### Discovery -/

/-- `Vec::dedup`. -/
def dedup : List String → List String
  | [] => []
  | [x] => [x]
  | x :: y :: rest => if x = y then dedup (y :: rest) else x :: dedup (y :: rest)

def listedProxyModelIds (config : ProxyConfig) (targets : List ProxyTarget) : List String :=
  let runningIds := (targets.filter ProxyTarget.running).map ProxyTarget.instanceId
  let routed := config.routes.filter fun route =>
    route.enabled && !blank route.modelAlias &&
      runningIds.contains (Text.trim route.targetInstanceId)
  let unrouted := targets.filter fun target =>
    target.running && !blank target.«alias» && !(routedIds config).contains target.instanceId
  let ids := routed.map (fun route => Text.trim route.modelAlias) ++
    unrouted.map fun target => Text.trim target.«alias»
  dedup (ids.mergeSort fun a b => decide (a ≤ b))

end LlamaServerManager.Router
