import LlamaServerManager.Lib.Text

/-!
The tokens of a launch command: how a row of custom arguments is split (`utils.rs`), which
tokens name a flag and how many tokens after it are its values
(`commands/engine_capabilities.rs`).
-/

namespace LlamaServerManager.Launch

open Lib.Text

abbrev Str := List Char

/-- The fields of an instance configuration that the launch checks read. -/
structure InstanceConfig where
  host : Str
  port : Nat
  apiKey : Str
  apiKeyFile : Str
  sslKeyFile : Str
  sslCertFile : Str
  lazyMode : Str
  customArgs : List Str
deriving DecidableEq, Repr

/-! ### Rows of custom arguments -/

/-- The characters that end a token outside quotes. -/
def separator (c : Char) : Bool := c == ' ' || c == '\t' || c == '\r' || c == '\n'

theorem length_dropWhile_le (p : Char → Bool) (cs : Str) :
    (cs.dropWhile p).length ≤ cs.length :=
  (List.dropWhile_suffix p).length_le

/-- The loop of `split_command_line_checked`. A run of backslashes before a quote stands
for half as many, and an odd one for the quote itself. -/
def splitLoop (args : List Str) (current : Str) (inQuotes tokenStarted : Bool) :
    Str → Except String (List Str)
  | [] =>
    if inQuotes then .error "命令参数包含未闭合的双引号。"
    else .ok (if tokenStarted then args ++ [current] else args)
  | ch :: chars =>
    if ch = '"' then splitLoop args current (!inQuotes) true chars
    else if ch = '\\' then
      let count := 1 + (chars.takeWhile (· == '\\')).length
      if (chars.dropWhile (· == '\\')).head? = some '"' then
        let current := current ++ List.replicate (count / 2) '\\'
        if count % 2 = 0 then
          splitLoop args current (!inQuotes) true (chars.dropWhile (· == '\\')).tail
        else
          splitLoop args (current ++ ['"']) inQuotes true (chars.dropWhile (· == '\\')).tail
      else
        splitLoop args (current ++ List.replicate count '\\') inQuotes true
          (chars.dropWhile (· == '\\'))
    else if separator ch && !inQuotes then
      if tokenStarted then splitLoop (args ++ [current]) [] inQuotes false chars
      else splitLoop args current inQuotes tokenStarted chars
    else splitLoop args (current ++ [ch]) inQuotes true chars
termination_by chars => chars.length
decreasing_by
  all_goals
    have shorter := length_dropWhile_le (· == '\\') chars
    simp only [List.length_cons, List.length_tail]
    omega

/-- `split_command_line_checked`. -/
def splitCommandLineChecked (input : Str) : Except String (List Str) :=
  splitLoop [] [] false false input

/-! ### Flags -/

/-- What stands before the first `=`. -/
def beforeEquals (token : Str) : Str :=
  match splitOnce ['='] token with
  | some (name, _) => name
  | none => token

/-- `command_flag`: the name of the flag that a token is. -/
def commandFlag (token : Str) : Option Str :=
  if token.head? ≠ some '-' then none
  else
    let flag := beforeEquals token
    let body := flag.dropWhile (· == '-')
    if body.isEmpty || !body.any Char.isAlpha then none else some flag

/-- The flags of `known_flag_value_count` that take one value. -/
def valueFlags : List Str :=
  [
    "-m", "--model", "-a", "--lora", "--lora-scaled", "--mmproj", "--mmproj-url",
    "--chat-template", "--chat-template-file", "--reasoning-format", "--reasoning",
    "--reasoning-budget", "--reasoning-budget-message", "--chat-template-kwargs",
    "--grammar-file", "--grammar", "-c", "-ngl", "-t", "-b", "-ub", "-np", "--threads-batch",
    "--threads-http", "--keep", "--cache-reuse", "-cram", "-ctxcp", "-cms", "--rope-scaling",
    "--rope-scale", "--rope-freq-base", "--rope-freq-scale", "--yarn-ext-factor",
    "--yarn-attn-factor", "--yarn-beta-slow", "--yarn-beta-fast", "--yarn-orig-ctx", "-fa",
    "--n-cpu-moe", "--numa", "--fit", "-fitt", "-fitc", "--load-mode", "-lm", "-ctk", "-ctv",
    "-ctkd", "-ctvd", "-dev", "-sm", "-ts", "-mg", "--override-kv", "-md", "-ngld",
    "--spec-draft-n-max", "--spec-draft-n-min", "--spec-draft-p-min", "--spec-draft-p-split",
    "--spec-draft-device", "--spec-type", "-lcs", "-lcd", "-td", "-tbd", "--api-key",
    "--api-key-file", "--ssl-key-file", "--ssl-cert-file", "--path", "--api-prefix",
    "--cors-origins", "--cors-methods", "--cors-headers", "--ui-config-file", "--ui-config",
    "--pooling", "--embd-normalize", "-n", "--json-schema", "-jf", "--temp", "--top-k",
    "--top-p", "--repeat-penalty", "--seed", "--min-p", "--xtc-probability", "--xtc-threshold",
    "--typical-p", "--repeat-last-n", "-r", "--frequency-penalty", "--presence-penalty",
    "--mirostat", "--mirostat-lr", "--mirostat-ent", "--dynatemp-range", "--dynatemp-exp",
    "--dry-multiplier", "--dry-base", "--dry-allowed-length", "--dry-penalty-last-n",
    "--dry-sequence-breaker", "--adaptive-target", "--adaptive-decay", "--top-n-sigma", "-l",
    "--samplers", "--sampler-seq", "-to", "--sleep-idle-seconds", "--slot-save-path",
    "--log-prompts-dir", "-sps", "--rpc", "--host", "--port", "--models-dir", "--models-preset",
    "--models-max", "--models-memory-margin", "--connect-code", "--sse-ping-interval", "--tags",
    "--media-path", "--tools", "--tools-runtime", "--mcp-servers-config", "--mcp-servers-json",
    "--image-min-tokens", "--image-max-tokens", "--mtmd-batch-max-tokens"]
  |>.map String.toList

/-- The flags of `known_flag_value_count` that take none. -/
def switchFlags : List Str :=
  [
    "--lora-init-without-apply", "--mmproj-auto", "--no-mmproj", "--no-mmproj-offload",
    "--mmproj-offload", "--skip-chat-parsing", "--reasoning-preserve", "--connect",
    "--no-reasoning-preserve", "--jinja", "--no-jinja", "-cb", "--no-cont-batching",
    "--cache-prompt", "--no-cache-prompt", "--warmup", "--no-warmup", "--swa-full", "--cpu-moe",
    "--mlock", "--no-mmap", "--mmap", "--no-repack", "--repack", "--direct-io",
    "--check-tensors", "--perf", "--no-perf", "--kv-unified", "--no-kv-unified",
    "--no-kv-offload", "--kv-offload", "--cache-idle-slots", "--no-cache-idle-slots",
    "--spec-default", "--no-spec-draft-backend-sampling", "--spec-draft-backend-sampling",
    "--no-ui", "--ui", "--offline", "--cors-credentials", "--no-cors-credentials",
    "--ui-mcp-proxy", "--agent", "--embedding", "--reranking", "--ignore-eos", "-sp",
    "--spm-infill", "-bs", "--context-shift", "--no-context-shift", "-v", "--metrics", "--props",
    "--slots", "--no-slots", "--prefill-assistant", "--no-prefill-assistant", "--reuse-port",
    "--models-autoload", "--no-models-autoload"]
  |>.map String.toList

def knownFlagValueCount (flag : Str) : Option Nat :=
  if flag ∈ valueFlags then some 1 else if flag ∈ switchFlags then some 0 else none

/-! ### Groups -/

structure CommandArgumentGroup where
  flag : Str
  tokens : List Str
deriving DecidableEq, Repr

/-- How many tokens after a flag are its values. An unknown flag takes the next token
where that is no flag. -/
def valueCount (token flag : Str) (rest : List Str) : Nat :=
  if '=' ∈ token then 0
  else
    match knownFlagValueCount flag with
    | some count => count
    | none => if rest.head?.any fun next => (commandFlag next).isNone then 1 else 0

/-- The loop of `command_argument_groups` over the tokens left. -/
def argumentGroups : List Str → List CommandArgumentGroup
  | [] => []
  | token :: rest =>
    match commandFlag token with
    | none => argumentGroups rest
    | some flag =>
      { flag, tokens := token :: rest.take (valueCount token flag rest) } ::
        argumentGroups (rest.drop (valueCount token flag rest))
termination_by tokens => tokens.length
decreasing_by
  · exact Nat.lt_succ_self _
  · rw [List.length_drop, List.length_cons]
    exact Nat.lt_succ_of_le (Nat.sub_le _ _)

/-- A flag of one value and its value. -/
theorem argumentGroups_value {token flag : Str} (value : Str) (rest : List Str)
    (named : commandFlag token = some flag) (one : valueCount token flag (value :: rest) = 1) :
    argumentGroups (token :: value :: rest) =
      { flag, tokens := [token, value] } :: argumentGroups rest := by
  rw [argumentGroups]
  simp [named, one]

/-- `command_argument_groups`: the first token is the program. -/
def commandArgumentGroups (command : List Str) : List CommandArgumentGroup :=
  argumentGroups command.tail

end LlamaServerManager.Launch
