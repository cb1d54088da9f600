import Mathlib.Data.List.Basic

/-!
The diagnostic categories of `usage_diagnostics.rs`. Only reviewed texts are
recorded: what an upstream or a client wrote selects a category and is dropped.
-/

namespace LlamaServerManager.Usage

structure UsageFailure where
  stage : String
  code : String
  reason : String
deriving DecidableEq, Repr

/-- The reviewed reason of every code. -/
def reasons : List (String × String) :=
  [("token_quota_exceeded",
      "The API key token quota cannot cover this request and existing reservations."),
    ("token_quota_unavailable",
      "The quota ledger is unavailable; the request was not forwarded."),
    ("token_quota_unmetered",
      "A reliable token reservation is unavailable; the request was not forwarded."),
    ("token_quota_invalid_limit",
      "An output limit has an invalid type or value; missing or unbounded limits are filled " ++
        "automatically."),
    ("token_quota_multiple_generations",
      "Hard quotas require one generation per request; split multiple generations into separate " ++
        "requests."),
    ("token_quota_unsupported_batch",
      "Hard quotas require one completion prompt per request; split the prompt batch."),
    ("context_length_exceeded",
      "Input and requested output exceed the route context window."),
    ("authentication_failed", "The router could not authenticate this request."),
    ("permission_denied", "The request is not permitted by the router access policy."),
    ("rate_limited", "The API key request rate limit was reached."),
    ("queue_timeout",
      "No router concurrency slot became available before the queue deadline."),
    ("route_unavailable", "No matching route is ready to accept this request."),
    ("route_capacity", "All ready matching routes are at capacity; use bounded retries."),
    ("model_required", "Supply a model or configure an unambiguous default target."),
    ("model_not_found", "No public route matches the requested model."),
    ("model_endpoint_mismatch",
      "The selected model does not support this endpoint workload."),
    ("endpoint_not_found", "The router does not expose this endpoint."),
    ("method_not_allowed", "The HTTP method is not supported by this endpoint."),
    ("body_capacity", "The router request body memory budget was reached."),
    ("upstream_timeout", "The upstream response deadline was exceeded."),
    ("upstream_connection_failed", "The router could not complete the upstream connection."),
    ("upstream_error",
      "The upstream returned an error; inspect the instance using the correlated request ID."),
    ("stream_timeout", "The upstream stream exceeded the idle deadline."),
    ("stream_interrupted", "The stream ended without a complete protocol response."),
    ("client_cancelled", "The request was dropped before response delivery completed."),
    ("response_error",
      "The upstream response could not be read within the router limits."),
    ("invalid_request", "The request did not satisfy the endpoint contract."),
    ("invalid_tool_history",
      "Chat tool calls and results are missing, duplicated or incorrectly paired; generation was " ++
        "not forwarded.")]

def defaultReason : String := "The router could not complete this request."

def UsageFailure.new (stage code : String) : UsageFailure :=
  { stage, code, reason := (reasons.lookup code).getD defaultReason }

/-- The category of a status the router answered itself. -/
def localStatus : Nat → String × String
  | 401 => ("authentication", "authentication_failed")
  | 403 => ("authentication", "permission_denied")
  | 429 => ("admission", "rate_limited")
  | 400 | 404 | 405 | 413 | 422 => ("validation", "invalid_request")
  | _ => ("routing", "internal_error")

/-- The category of a local message, or of its status. -/
def localCategory (status : Nat) (message : String) : String × String :=
  if message = "router concurrency limit exceeded" then ("queue", "queue_timeout")
  else if message = "router in-flight request body budget exceeded" then
    ("admission", "body_capacity")
  else if message = "all matching routes are unavailable or at capacity" ∨
      message = "all matching targets are at capacity" then ("routing", "route_capacity")
  else if message = "no public route matches the requested model" then
    ("routing", "route_unavailable")
  else localStatus status

/-- `UsageFailure::local`. -/
def UsageFailure.ofLocal (status : Nat) (message : String) : UsageFailure :=
  let (stage, code) := localCategory status message
  UsageFailure.new stage code

end LlamaServerManager.Usage
