import LlamaServerManager.Launch.Address
import LlamaServerManager.Lib.Except
import LlamaServerManager.Lib.SortedSet
import Mathlib.Algebra.GroupWithZero.Nat

/-!
What `normalize_and_validate_proxy_config` makes of a router configuration, and what the router
makes of that: who is let in (`authenticate_proxy_request`) and which origins are
(`cors_origin`); all of `commands/proxy.rs`.

* `normalizeAndValidateProxyConfig` — the rewrites and checks, in the order of the source.
* `authenticateProxyRequest`, `corsOrigin` — the readers.
-/

namespace LlamaServerManager.Router.Configuration

open Lib Lib.Text

abbrev Str := List Char

/-! ### Records -/

structure ProxyRoute where
  id : Str
  enabled : Bool
  modelAlias : Str
  targetInstanceId : Str
  priority : Int
  weight : Nat
  maxConcurrentRequests : Nat
deriving DecidableEq, Repr

structure ProxyApiKey where
  id : Str
  name : Str
  key : Str
  enabled : Bool
  scopes : List Str
  requestsPerMinute : Nat
  maxConcurrentRequests : Nat
  dailyTokenBudget : Nat
  monthlyTokenBudget : Nat
  dailyTokenLimit : Nat
  monthlyTokenLimit : Nat
  quotaDefaultOutputTokens : Nat
deriving DecidableEq, Repr

structure ProxyConfig where
  enabled : Bool
  host : Str
  port : Nat
  publicApiKey : Str
  defaultInstanceId : Str
  routes : List ProxyRoute
  routingStrategy : Str
  strictModelRouting : Bool
  timeoutMs : Nat
  connectTimeoutMs : Nat
  streamingIdleTimeoutMs : Nat
  healthCheckIntervalMs : Nat
  healthCheckTimeoutMs : Nat
  unhealthyThreshold : Nat
  recoveryCooldownMs : Nat
  maxConcurrentRequests : Nat
  queueTimeoutMs : Nat
  fairQueueEnabled : Bool
  requestsPerMinute : Nat
  corsAllowedOrigins : List Str
  apiKeys : List ProxyApiKey
  backgroundServiceMode : Bool
  runtimeServiceEnabled : Bool
deriving DecidableEq, Repr

/-- `reqwest::Url`, as far as an origin is checked. -/
structure Url where
  scheme : Str
  host : Option Str
  username : Str
  password : Option Str
  path : Str
  query : Option Str
  fragment : Option Str

/-- The packages: SHA-256 in unpadded URL-safe Base64, which has 43 characters; `Url::parse`; and
the random id that a loop ends with, which is not among those used. -/
structure Packages where
  digest : Str → Str
  digest_length : ∀ key, (digest key).length = 43
  digest_alphabet : ∀ key, ∀ c ∈ digest key, c.isAlphanum ∨ c = '-' ∨ c = '_'
  parseUrl : Str → Option Url
  uuid : List Str → Str
  uuid_fresh : ∀ used, uuid used ∉ used
  uuid_text : ∀ used, uuid used ≠ [] ∧ trimChars (uuid used) = uuid used

/-! ### Keys -/

def proxyApiKeyHashPrefix : Str := "sha256:".toList

def isHashedProxyApiKey (value : Str) : Bool :=
  proxyApiKeyHashPrefix.isPrefixOf value &&
    (let digest := value.drop proxyApiKeyHashPrefix.length
    digest.length = 43 && digest.all fun c => c.isAlphanum || c = '-' || c = '_')

/-- `str::len`: bytes of UTF-8. -/
def byteLength (text : Str) : Nat := (text.map Char.utf8Size).sum

/-- `is_local_bind_host`: the test that a server's host is put to. -/
def isLocalBindHost (host : Str) : Bool := Launch.isLoopbackBindHost host

def clamp (low high value : Nat) : Nat := max low (min value high)

def asciiLower (text : Str) : Str := text.map Char.toLower

section Normalize

variable (lib : Packages)

def hashProxyApiKey (key : Str) : Str := proxyApiKeyHashPrefix ++ lib.digest key

/-- The value that is compared with the legacy key's. -/
def storedValue (key : Str) : Str :=
  if isHashedProxyApiKey key then key else hashProxyApiKey lib key

def bothScopes : List Str := ["inference".toList, "discovery".toList]

def migratedLegacyKey (hash : Str) : ProxyApiKey where
  id := "migrated-legacy-key".toList
  name := "Migrated legacy key".toList
  key := hash
  enabled := true
  scopes := bothScopes
  requestsPerMinute := 0
  maxConcurrentRequests := 0
  dailyTokenBudget := 0
  monthlyTokenBudget := 0
  dailyTokenLimit := 0
  monthlyTokenLimit := 0
  quotaDefaultOutputTokens := 32768

/-- The first key with the legacy key's value is it; or it becomes the last key. -/
def migrateInto (hash : Str) : List ProxyApiKey → List ProxyApiKey
  | [] => [migratedLegacyKey hash]
  | key :: keys =>
    if storedValue lib (trimChars key.key) = hash then
      { key with enabled := true, scopes := bothScopes } :: keys
    else key :: migrateInto hash keys

def migrateLegacyKey (publicApiKey : Str) (keys : List ProxyApiKey) : List ProxyApiKey :=
  let legacyKey := trimChars publicApiKey
  if legacyKey = [] then keys else migrateInto lib (storedValue lib legacyKey) keys

/-! ### Origins -/

/-- `trim().trim_end_matches('/')`. -/
def cleanOrigin (origin : Str) : Str := (trimChars origin).rdropWhile (· = '/')

def checkOrigin (origin : Str) : Except String Str :=
  match lib.parseUrl origin with
  | none => .error ("无效的 CORS Origin：" ++ String.ofList origin)
  | some parsed =>
    if (parsed.scheme ≠ "http".toList ∧ parsed.scheme ≠ "https".toList) ∨ parsed.host = none ∨
        parsed.username ≠ [] ∨ parsed.password ≠ none ∨ parsed.path ≠ ['/'] ∨
        parsed.query ≠ none ∨ parsed.fragment ≠ none then
      .error ("CORS Origin 必须是纯 HTTP(S) 源地址：" ++ String.ofList origin)
    else .ok origin

/-- Each origin for the first time, whatever its case. -/
def distinctOrigins (seen : List Str) : List Str → List Str
  | [] => []
  | origin :: origins =>
    if asciiLower origin ∈ seen then distinctOrigins seen origins
    else origin :: distinctOrigins (asciiLower origin :: seen) origins

def normalizeOrigins (origins : List Str) : Except String (List Str) := do
  let checked ← ((origins.map cleanOrigin).filter (· ≠ [])).mapM (checkOrigin lib)
  return distinctOrigins [] checked

/-! ### Ids, keys and routes -/

/-- An id that is missing or used already is replaced. -/
def claimId (used : List Str) (id : Str) : Str := if id = [] ∨ id ∈ used then lib.uuid used else id

/-- A `HashSet`, sorted. -/
def normalizeScopes (scopes : List Str) : List Str :=
  SortedSet.insertAll
    ((scopes.map fun scope => asciiLower (trimChars scope)).filter (· ≠ [])) []

def maxSafeInteger : Nat := 9007199254740991

/-- The tokens a client's request is taken to ask for when it names no bound. -/
def normalizeQuotaDefault (tokens : Nat) : Nat :=
  if tokens = 0 then 32768 else min tokens 2147483647

/-- A key, before its value is checked. -/
def normalizeKeyFields (used : List Str) (key : ProxyApiKey) : ProxyApiKey where
  id := claimId lib used (trimChars key.id)
  name := trimChars key.name
  key := trimChars key.key
  enabled := key.enabled
  scopes := normalizeScopes key.scopes
  requestsPerMinute := min key.requestsPerMinute 10000000
  maxConcurrentRequests := min key.maxConcurrentRequests 100000
  dailyTokenBudget := min key.dailyTokenBudget maxSafeInteger
  monthlyTokenBudget := min key.monthlyTokenBudget maxSafeInteger
  dailyTokenLimit := min key.dailyTokenLimit maxSafeInteger
  monthlyTokenLimit := min key.monthlyTokenLimit maxSafeInteger
  quotaDefaultOutputTokens := normalizeQuotaDefault key.quotaDefaultOutputTokens

/-- A long enough key is stored as its hash. -/
def hiddenValue (key : Str) : Str :=
  if 16 ≤ byteLength key && !isHashedProxyApiKey key then hashProxyApiKey lib key else key

/-- One turn of the loop over the keys; `values` are those of the enabled keys so far. -/
def normalizeApiKey (used values : List Str) (key : ProxyApiKey) : Except String ProxyApiKey :=
  let key := normalizeKeyFields lib used key
  if key.scopes.any (· ∉ bothScopes) then
    .error ("API Key " ++ String.ofList key.name ++ " 包含不支持的权限范围")
  else if key.enabled && !isHashedProxyApiKey key.key && byteLength key.key < 16 then
    .error ("API Key " ++ String.ofList key.name ++ " 至少需要 16 个字符")
  else
    let key := { key with key := hiddenValue lib key.key }
    if key.enabled && key.key ∈ values then .error "启用的代理 API Key 不能重复"
    else .ok key

def normalizeApiKeys (used values : List Str) : List ProxyApiKey → Except String (List ProxyApiKey)
  | [] => return []
  | key :: keys => do
    let key ← normalizeApiKey lib used values key
    let values := if key.enabled then key.key :: values else values
    let keys ← normalizeApiKeys (key.id :: used) values keys
    return key :: keys

def normalizeRoutes (used : List Str) : List ProxyRoute → List ProxyRoute
  | [] => []
  | route :: routes =>
    let id := claimId lib used (trimChars route.id)
    { route with
      id
      modelAlias := trimChars route.modelAlias
      targetInstanceId := trimChars route.targetInstanceId
      weight := clamp 1 1000 route.weight
      maxConcurrentRequests := min route.maxConcurrentRequests 100000 } ::
    normalizeRoutes (id :: used) routes

def checkRoute {C : Type} (instances : Str → Option C) (index : Nat) (route : ProxyRoute) :
    Except String Unit :=
  let nth := "第 " ++ toString (index + 1) ++ " 条已启用路由"
  if !route.enabled then .ok ()
  else if trimChars route.modelAlias = [] then .error (nth ++ "缺少对外模型名")
  else if trimChars route.targetInstanceId = [] then .error (nth ++ "缺少目标实例")
  else if (instances (trimChars route.targetInstanceId)).isNone then
    .error (nth ++ "的目标实例不存在")
  else .ok ()

def checkRoutes {C : Type} (instances : Str → Option C) : Nat → List ProxyRoute → Except String Unit
  | _, [] => return ()
  | index, route :: routes => do
    checkRoute instances index route
    checkRoutes instances (index + 1) routes

def normalizeStrategy (strategy : Str) : Except String Str :=
  let strategy := trimChars strategy
  if strategy = [] ∨ strategy = "firstHealthy".toList ∨ strategy = "priorityFailover".toList then
    .ok "priorityFailover".toList
  else if strategy = "roundRobin".toList ∨ strategy = "leastBusy".toList ∨
      strategy = "weighted".toList then .ok strategy
  else .error ("不支持的路由策略：" ++ String.ofList strategy)

def normalizeHost (host : Str) : Except String Str :=
  let host := if trimChars host = [] then "127.0.0.1".toList else trimChars host
  if isLocalBindHost host then .ok host
  else .error "内置代理仅允许监听本机回环地址；远程访问请使用提供 TLS 的反向代理或 SSH 隧道。"

def normalizeAndValidateProxyConfig {C : Type} (config : ProxyConfig) (instances : Str → Option C) :
    Except String ProxyConfig := do
  let host ← normalizeHost config.host
  let routingStrategy ← normalizeStrategy config.routingStrategy
  let healthCheckIntervalMs := clamp 1000 300000 config.healthCheckIntervalMs
  let corsAllowedOrigins ← normalizeOrigins lib config.corsAllowedOrigins
  let apiKeys ← normalizeApiKeys lib [] [] (migrateLegacyKey lib config.publicApiKey config.apiKeys)
  let routes := normalizeRoutes lib [] config.routes
  checkRoutes instances 0 routes
  return { config with
    host
    defaultInstanceId := trimChars config.defaultInstanceId
    routingStrategy
    timeoutMs := clamp 1000 86400000 config.timeoutMs
    connectTimeoutMs := clamp 100 60000 config.connectTimeoutMs
    streamingIdleTimeoutMs := clamp 1000 86400000 config.streamingIdleTimeoutMs
    healthCheckIntervalMs
    healthCheckTimeoutMs :=
      clamp 250 (max healthCheckIntervalMs 250) config.healthCheckTimeoutMs
    unhealthyThreshold := clamp 1 100 config.unhealthyThreshold
    recoveryCooldownMs := clamp 1000 3600000 config.recoveryCooldownMs
    maxConcurrentRequests := clamp 1 100000 config.maxConcurrentRequests
    queueTimeoutMs := clamp 10 300000 config.queueTimeoutMs
    requestsPerMinute := min config.requestsPerMinute 10000000
    publicApiKey := []
    corsAllowedOrigins
    apiKeys
    routes }

/-! ### Requests -/

/-- The credentials of a request, as far as the headers are text. -/
structure Headers where
  authorization : Option Str
  xApiKey : Option Str

/-- What follows `Bearer`, or the whole value. -/
def bearerValue (value : Str) : Str :=
  let value := trimChars value
  let scheme := value.takeWhile fun c => !isWhitespace c
  let rest := value.drop scheme.length
  if rest ≠ [] ∧ asciiLower scheme = "bearer".toList then rest.dropWhile isWhitespace else value

def Headers.presented (headers : Headers) : List Str :=
  (headers.authorization.map bearerValue).toList ++ headers.xApiKey.toList

def proxyApiKeyMatches (stored presented : Str) : Bool :=
  stored = if isHashedProxyApiKey stored then hashProxyApiKey lib presented else presented

def isProxyAuthorized (apiKey : Str) (headers : Headers) : Bool :=
  if trimChars apiKey = [] then true
  else headers.presented.any (proxyApiKeyMatches lib (trimChars apiKey))

structure ProxyAuthContext where
  clientId : Str
  requestsPerMinute : Nat
  scopes : List Str
  policy : Option ProxyApiKey
deriving DecidableEq, Repr

def authenticateProxyRequest (config : ProxyConfig) (headers : Headers) : Option ProxyAuthContext :=
  if config.apiKeys = [] then
    some {
      clientId := "anonymous".toList
      requestsPerMinute := config.requestsPerMinute
      scopes := bothScopes
      policy := none }
  else
    let enabledKeys := config.apiKeys.filter fun key => key.enabled && trimChars key.key ≠ []
    (enabledKeys.find? fun key => isProxyAuthorized lib key.key headers).map fun key =>
      { clientId := key.id
        requestsPerMinute :=
          if key.requestsPerMinute = 0 then config.requestsPerMinute else key.requestsPerMinute
        scopes := key.scopes
        policy := some key }

def corsOrigin (config : ProxyConfig) (origin : Option Str) : Except String (Option Str) :=
  match origin with
  | none => .ok none
  | some origin =>
    let normalized := cleanOrigin origin
    if config.corsAllowedOrigins.any fun allowed => asciiLower allowed = asciiLower normalized then
      .ok (some normalized)
    else .error "origin is not allowed by the router CORS policy"

end Normalize

end LlamaServerManager.Router.Configuration
