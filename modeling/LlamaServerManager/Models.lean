import Mathlib.Data.List.Basic

/-!
The configuration records of `models.rs`, with the fields the modelled
functions read.
-/

namespace LlamaServerManager

/-- A router API key. Zero means: inherit the router-wide value (concurrency),
or no limit (token quotas). -/
structure ProxyApiKey where
  id : String
  maxConcurrentRequests : Nat := 0
  dailyTokenLimit : Nat := 0
  monthlyTokenLimit : Nat := 0
deriving DecidableEq, Repr

structure ProxyConfig where
  maxConcurrentRequests : Nat := 64
  fairQueueEnabled : Bool := false
  apiKeys : List ProxyApiKey := []
deriving DecidableEq, Repr

end LlamaServerManager
