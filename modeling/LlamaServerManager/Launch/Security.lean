import LlamaServerManager.Launch.Address
import LlamaServerManager.Lib.Except

/-!
The gate that a launch command passes before it listens (`commands/server.rs`): a server
on a public address needs an API key. The gate reads the options from the raw tokens
(`manualOptionValue`); the program's own grammar reads them from the groups of flags and
values (`groupOption`).

* `manualOptionValue_eq` — the two readings agree where no other flag's value, nor the
  program's name, reads as the option.
* `gate_sound` — then a command that passes is safe.
-/

namespace LlamaServerManager.Launch

open Lib.Text

structure AppError where
  code : String
  message : String
  retryable : Bool
deriving DecidableEq, Repr

def valueMissing (argument : Str) : AppError where
  code := "MANUAL_COMMAND_VALUE_MISSING"
  message := "手动命令中的参数 " ++ String.ofList argument ++ " 缺少取值。"
  retryable := false

def invalidPort : AppError where
  code := "INVALID_EFFECTIVE_SERVER_PORT"
  message := "最终启动命令中的端口必须为 1 到 65535。"
  retryable := false

def keyCertPairRequired : AppError where
  code := "TLS_KEY_CERT_PAIR_REQUIRED"
  message := "TLS 私钥和证书必须同时配置，不能只填写其中一个。"
  retryable := false

def publicServerRequiresApiKey : AppError where
  code := "PUBLIC_SERVER_REQUIRES_API_KEY"
  message := "llama-server 监听非本机地址时必须配置 --api-key 或 --api-key-file。"
  retryable := false

def hostFlag : Str := "--host".toList
def portFlag : Str := "--port".toList
def apiKeyFlag : Str := "--api-key".toList
def apiKeyFileFlag : Str := "--api-key-file".toList
def sslKeyFileFlag : Str := "--ssl-key-file".toList
def sslCertFileFlag : Str := "--ssl-cert-file".toList

/-- What follows `name=` in an argument. -/
def inlineValue (name argument : Str) : Option Str :=
  if (name ++ ['=']).isPrefixOf argument then some (argument.drop (name.length + 1)) else none

/-- The loop of `manual_option_value` over the arguments left. -/
def manualLoop (names : List Str) (value : Option Str) :
    List Str → Except AppError (Option Str)
  | [] => .ok value
  | argument :: rest =>
    if argument ∈ names then
      match rest with
      | [] => .error (valueMissing argument)
      | next :: rest => manualLoop names (some next) rest
    else
      manualLoop names
        (names.foldl (fun value name => (inlineValue name argument).or value) value) rest

def manualOptionValue (arguments names : List Str) : Except AppError (Option Str) :=
  manualLoop names none arguments

/-! ### The gate -/

section Gate

-- `read_to_string`, `none` where it fails
variable (readToString : Str → Option Str)

/-- `str::split` at commas. -/
def splitCommas (text : Str) : List Str := text.splitOn ','

/-- `str::lines`, without the carriage returns that `trim` takes anyway. -/
def keyLine (line : Str) : Option Str :=
  let key := (trimChars line).dropWhile (· == Char.ofNat 0xFEFF)
  if key.isEmpty || key.head? == some '#' then none else some key

/-- `effective_api_key`: the first key of the list, or of the file. -/
def effectiveApiKey (config : InstanceConfig) : Str :=
  let inline_ := trimChars config.apiKey
  if !inline_.isEmpty then
    (((splitCommas inline_).map trimChars).find? fun key => !key.isEmpty).getD []
  else if (trimChars config.apiKeyFile).isEmpty then []
  else
    ((readToString (trimChars config.apiKeyFile)).bind fun content =>
      (content.splitOn '\n').findSome? keyLine).getD []

def validateTlsConfiguration (config : InstanceConfig) : Except AppError Unit :=
  let hasKey := !(trimChars config.sslKeyFile).isEmpty
  let hasCert := !(trimChars config.sslCertFile).isEmpty
  if hasKey != hasCert then .error keyCertPairRequired else .ok ()

def validatePublicBindAuth (config : InstanceConfig) : Except AppError Unit :=
  if !isLoopbackBindHost config.host && (effectiveApiKey readToString config).isEmpty then
    .error publicServerRequiresApiKey
  else .ok ()

/-- The port of the command, checked. -/
def effectivePort (config : InstanceConfig) : Option Str → Except AppError Nat
  | none => .ok config.port
  | some text =>
    match parseU16 text with
    | none => .error invalidPort
    | some port => if port = 0 then .error invalidPort else .ok port

/-- `validate_effective_launch_security`. -/
def validateEffectiveLaunchSecurity (config : InstanceConfig) (command : List Str) :
    Except AppError Unit := do
  let host ← manualOptionValue command [hostFlag]
  let port ← effectivePort config (← manualOptionValue command [portFlag])
  let apiKey ← manualOptionValue command [apiKeyFlag]
  let apiKeyFile ← manualOptionValue command [apiKeyFileFlag]
  let sslKeyFile ← manualOptionValue command [sslKeyFileFlag]
  let sslCertFile ← manualOptionValue command [sslCertFileFlag]
  let effective := { config with
    host := host.getD config.host
    port
    apiKey := apiKey.getD []
    apiKeyFile := apiKeyFile.getD []
    sslKeyFile := sslKeyFile.getD []
    sslCertFile := sslCertFile.getD [] }
  validateTlsConfiguration effective
  validatePublicBindAuth readToString effective

end Gate

/-! ### The grammar's reading -/

/-- The value of a group: what follows `=`, or the token after the flag. -/
def CommandArgumentGroup.value (group : CommandArgumentGroup) : Option Str :=
  match group.tokens with
  | [] => none
  | token :: values =>
    match splitOnce ['='] token with
    | some (_, value) => some value
    | none => values.head?

/-- The value of the last group with this flag. -/
def groupOption (groups : List CommandArgumentGroup) (flag : Str) : Option Str :=
  ((groups.filter fun group => group.flag == flag).getLast?).bind CommandArgumentGroup.value

/-- What the command says by its grammar is safe to launch: a loopback host or a key, and
a port that exists. -/
def Safe (readToString : Str → Option Str) (config : InstanceConfig) (command : List Str) :
    Prop :=
  let groups := commandArgumentGroups command
  let effective := { config with
    host := (groupOption groups hostFlag).getD config.host
    apiKey := (groupOption groups apiKeyFlag).getD []
    apiKeyFile := (groupOption groups apiKeyFileFlag).getD [] }
  (isLoopbackBindHost effective.host = true ∨ effectiveApiKey readToString effective ≠ []) ∧
    ∀ text, groupOption groups portFlag = some text →
      ∃ port, parseU16 text = some port ∧ 1 ≤ port ∧ port ≤ 65535

/-- The token reads as the option: its name, or its name and `=`. -/
def ReadsAs (name token : Str) : Prop := token = name ∨ name ++ ['='] <+: token

instance (name token : Str) : Decidable (ReadsAs name token) :=
  inferInstanceAs (Decidable (token = name ∨ name ++ ['='] <+: token))

/-- Neither the program's name nor a value of another flag reads as the option. -/
def Plain (command : List Str) (name : Str) : Prop :=
  (∀ token ∈ command.head?, ¬ReadsAs name token) ∧
    ∀ group ∈ commandArgumentGroups command, group.flag ≠ name →
      ∀ token ∈ group.tokens.tail, ¬ReadsAs name token

/-! ### One option -/

/-- A flag of one value, written without `=`. -/
structure IsOption (name : Str) : Prop where
  free : '=' ∉ name
  flag : commandFlag name = some name
  one : knownFlagValueCount name = some 1

theorem isOption_of_mem {name : Str}
    (at_ : name ∈ [hostFlag, portFlag, apiKeyFlag, apiKeyFileFlag]) : IsOption name := by
  have all : ∀ name ∈ [hostFlag, portFlag, apiKeyFlag, apiKeyFileFlag],
      '=' ∉ name ∧ commandFlag name = some name ∧ knownFlagValueCount name = some 1 := by
    decide +kernel
  obtain ⟨free, flag, one⟩ := all name at_
  exact ⟨free, flag, one⟩

section Option_

variable {name token : Str} {value result : Option Str} {rest : List Str}

theorem commandFlag_eq_some {flag : Str} (named : commandFlag token = some flag) :
    token.head? = some '-' ∧ flag = beforeEquals token ∧
      (flag.dropWhile (· == '-')).any Char.isAlpha = true := by
  unfold commandFlag at named
  split at named
  · cases named
  · rename_i dash
    simp only [Option.ite_none_left_eq_some, Bool.or_eq_true, not_or, Option.some.injEq] at named
    obtain ⟨⟨-, letter⟩, rfl⟩ := named
    exact ⟨not_not.mp dash, rfl, by simpa using letter⟩

theorem commandFlag_inline (option : IsOption name) (text : Str) :
    commandFlag (name ++ '=' :: text) = some name := by
  obtain ⟨dash, -, letter⟩ := commandFlag_eq_some option.flag
  have before : beforeEquals (name ++ '=' :: text) = name := by
    rw [beforeEquals, splitOnce_singleton text option.free]
  have head : (name ++ '=' :: text).head? = some '-' := by
    rw [List.head?_append, dash]
    rfl
  have body : (name.dropWhile (· == '-')).isEmpty = false := by
    cases some : name.dropWhile (· == '-') with
    | nil => simp [some] at letter
    | cons c cs => rfl
  simp [commandFlag, head, before, body, letter]

theorem inlineValue_eq_none (other : ¬ReadsAs name token) : inlineValue name token = none := by
  unfold inlineValue
  split
  · rename_i begins
    exact absurd (.inr (List.isPrefixOf_iff_prefix.mp begins)) other
  · rfl

/-- The gate passes a token that does not read as the option. -/
theorem manualLoop_cons (other : ¬ReadsAs name token) :
    manualLoop [name] value (token :: rest) = manualLoop [name] value rest := by
  have different : token ≠ name := fun same => other (.inl same)
  cases rest <;> simp [manualLoop, different, inlineValue_eq_none other]

theorem manualLoop_append {others : List Str} (plain : ∀ token ∈ others, ¬ReadsAs name token) :
    manualLoop [name] value (others ++ rest) = manualLoop [name] value rest := by
  induction others with
  | nil => rfl
  | cons token others ih =>
    rw [List.cons_append, manualLoop_cons (plain token List.mem_cons_self)]
    exact ih fun other at_ => plain other (List.mem_cons_of_mem _ at_)

theorem groupOption_cons_of_ne {group : CommandArgumentGroup}
    {groups : List CommandArgumentGroup} (other : group.flag ≠ name) :
    groupOption (group :: groups) name = groupOption groups name := by
  simp [groupOption, other]

theorem groupOption_cons_of_eq {group : CommandArgumentGroup}
    {groups : List CommandArgumentGroup} (same : group.flag = name)
    (given : ∀ other ∈ groups, other.flag = name → other.value ≠ none) :
    groupOption (group :: groups) name = (groupOption groups name).or group.value := by
  unfold groupOption
  rw [List.filter_cons_of_pos (by simp [same])]
  cases last : (groups.filter fun other => other.flag == name).getLast? with
  | none =>
    have none_ := List.getLast?_eq_none_iff.mp last
    simp [none_]
  | some other =>
    have at_ := List.mem_of_getLast? last
    simp only [List.mem_filter, beq_iff_eq] at at_
    have found := given other at_.1 at_.2
    obtain ⟨value, found⟩ := Option.ne_none_iff_exists'.mp found
    rw [List.getLast?_cons, last]
    simp [found]

/-- A token with `=` is its flag and the value after it. -/
theorem commandFlag_split {flag : Str} (named : commandFlag token = some flag)
    (inline_ : '=' ∈ token) :
    ∃ text, token = flag ++ '=' :: text ∧ '=' ∉ flag ∧ splitOnce ['='] token = some (flag, text) := by
  obtain ⟨left, text, whole, free⟩ := List.eq_append_cons_of_mem inline_
  have cut : splitOnce ['='] token = some (left, text) := by
    rw [whole, splitOnce_singleton text free]
  obtain ⟨-, before, -⟩ := commandFlag_eq_some named
  obtain rfl : flag = left := by rw [before, beforeEquals, cut]
  exact ⟨text, whole, free, cut⟩

theorem commandFlag_bare {flag : Str} (named : commandFlag token = some flag)
    (bare : '=' ∉ token) : flag = token := by
  obtain ⟨-, before, -⟩ := commandFlag_eq_some named
  rw [before, beforeEquals, splitOnce_eq_none bare]

/-- **One option.** Where no value of another flag reads as the option, the gate reads
what the grammar does: the value of the last group that has it. -/
theorem manualLoop_eq (option : IsOption name) {tokens : List Str}
    (plain : ∀ group ∈ argumentGroups tokens, group.flag ≠ name →
      ∀ token ∈ group.tokens.tail, ¬ReadsAs name token)
    (read : manualLoop [name] value tokens = .ok result) :
    result = (groupOption (argumentGroups tokens) name).or value ∧
      ∀ group ∈ argumentGroups tokens, group.flag = name → group.value ≠ none := by
  fun_induction argumentGroups tokens generalizing value with
  | case1 =>
    obtain rfl := Except.ok.inj read
    exact ⟨rfl, by simp⟩
  | case2 token rest noFlag ih =>
    have other : ¬ReadsAs name token := by
      rintro (rfl | ⟨text, rfl⟩)
      · rw [option.flag] at noFlag
        cases noFlag
      · rw [List.append_assoc, List.singleton_append, commandFlag_inline option] at noFlag
        cases noFlag
    rw [manualLoop_cons other] at read
    exact ih plain read
  | case3 token rest flag named ih =>
    obtain ⟨first, later⟩ := List.forall_mem_cons.mp plain
    by_cases inline_ : '=' ∈ token
    · -- `flag=value`: a group of one token
      have none_ : valueCount token flag rest = 0 := if_pos inline_
      obtain ⟨text, whole, free, cut⟩ := commandFlag_split named inline_
      simp only [none_, List.take_zero, List.drop_zero] at ih later ⊢
      by_cases same : flag = name
      · have different : token ≠ name := fun equal => option.free (equal ▸ inline_)
        have given : inlineValue name token = some text := by
          rw [inlineValue, if_pos (by simp [whole, same]), whole, same]
          simp
        have step : manualLoop [name] (some text) rest = .ok result := by
          rw [← read]
          cases rest <;> simp [manualLoop, different, given]
        obtain ⟨value_eq, values⟩ := ih later step
        have own : CommandArgumentGroup.value { flag, tokens := [token] } = some text := by
          simp [CommandArgumentGroup.value, cut]
        refine ⟨?_, List.forall_mem_cons.mpr ⟨fun _ => by simp [own], values⟩⟩
        rw [groupOption_cons_of_eq same values, own, value_eq]
        cases groupOption (argumentGroups rest) name <;> rfl
      · have other : ¬ReadsAs name token := by
          rintro (equal | ⟨more, equal⟩)
          · exact option.free (equal ▸ inline_)
          · rw [← equal, List.append_assoc, List.singleton_append,
              commandFlag_inline option] at named
            exact same (Option.some.inj named).symm
        rw [manualLoop_cons other] at read
        obtain ⟨value_eq, values⟩ := ih later read
        rw [groupOption_cons_of_ne same]
        exact ⟨value_eq, List.forall_mem_cons.mpr ⟨fun equal => absurd equal same, values⟩⟩
    · obtain rfl := commandFlag_bare named inline_
      by_cases same : flag = name
      · -- the option and its value
        subst same
        have one : valueCount flag flag rest = 1 := by
          rw [valueCount, if_neg inline_, option.one]
        cases rest with
        | nil => simp [manualLoop] at read
        | cons next rest =>
          simp only [one, List.take_succ_cons, List.take_zero, List.drop_succ_cons,
            List.drop_zero] at ih later ⊢
          have step : manualLoop [flag] (some next) rest = .ok result := by
            simpa [manualLoop] using read
          obtain ⟨value_eq, values⟩ := ih later step
          have own : CommandArgumentGroup.value { flag, tokens := [flag, next] } = some next := by
            simp [CommandArgumentGroup.value, splitOnce_eq_none inline_]
          refine ⟨?_, List.forall_mem_cons.mpr ⟨fun _ => by simp [own], values⟩⟩
          rw [groupOption_cons_of_eq rfl values, own, value_eq]
          cases groupOption (argumentGroups rest) flag <;> rfl
      · -- another flag: the gate passes it and its values
        have other : ¬ReadsAs name flag := by
          rintro (equal | ⟨more, equal⟩)
          · exact same equal
          · exact inline_ (by simp [← equal])
        have values_ : ∀ token ∈ rest.take (valueCount flag flag rest), ¬ReadsAs name token :=
          first same
        rw [manualLoop_cons other, ← List.take_append_drop (valueCount flag flag rest) rest,
          manualLoop_append values_] at read
        obtain ⟨value_eq, values⟩ := ih later read
        rw [groupOption_cons_of_ne same]
        exact ⟨value_eq, List.forall_mem_cons.mpr ⟨fun equal => absurd equal same, values⟩⟩

theorem manualOptionValue_eq (option : IsOption name) {command : List Str}
    (plain : Plain command name) (read : manualOptionValue command [name] = .ok result) :
    result = groupOption (commandArgumentGroups command) name := by
  cases command with
  | nil =>
    obtain rfl := Except.ok.inj read
    simp [commandArgumentGroups, argumentGroups, groupOption]
  | cons program tokens =>
    rw [manualOptionValue, manualLoop_cons (plain.1 program rfl)] at read
    rw [(manualLoop_eq option plain.2 read).1, Option.or_none]
    rfl

end Option_

/-! ### The gate -/

/-- For the host, the port and the keys, the raw tokens read as the grammar does. -/
def Aligned (command : List Str) : Prop :=
  ∀ name ∈ [hostFlag, portFlag, apiKeyFlag, apiKeyFileFlag], Plain command name

theorem effectivePort_eq_ok {config : InstanceConfig} {given : Option Str} {port : Nat}
    (ok : effectivePort config given = .ok port) {text : Str} (at_ : given = some text) :
    ∃ port, parseU16 text = some port ∧ 1 ≤ port ∧ port ≤ 65535 := by
  subst at_
  unfold effectivePort at ok
  cases parsed : parseU16 text with
  | none => simp [parsed] at ok
  | some number =>
    have positive : number ≠ 0 := by
      rintro rfl
      simp [parsed] at ok
    have small : number ≤ 65535 := by
      unfold parseU16 at parsed
      simp only [Option.ite_none_left_eq_some, not_or, Nat.not_lt, Option.some.injEq] at parsed
      obtain ⟨⟨-, -, fits⟩, rfl⟩ := parsed
      exact fits
    exact ⟨number, rfl, Nat.pos_of_ne_zero positive, small⟩

/-- **A command that passes the gate is safe**, where its raw tokens read as the grammar
reads them (`Aligned`). The gate looks for options in the tokens one by one; a value
that looks like an option is taken for one, which the grammar of the groups does not do. -/
theorem gate_sound (readToString : Str → Option Str) (config : InstanceConfig)
    (command : List Str) (aligned : Aligned command)
    (passes : validateEffectiveLaunchSecurity readToString config command = .ok ()) :
    Safe readToString config command := by
  unfold validateEffectiveLaunchSecurity at passes
  simp only [Lib.bind_eq_ok] at passes
  obtain ⟨host, host_eq, portText, port_eq, port, port_ok, apiKey, apiKey_eq, apiKeyFile,
    apiKeyFile_eq, sslKeyFile, -, sslCertFile, -, -, -, auth⟩ := passes
  have reads {name : Str} {result : Option Str}
      (at_ : name ∈ [hostFlag, portFlag, apiKeyFlag, apiKeyFileFlag])
      (read : manualOptionValue command [name] = .ok result) :
      result = groupOption (commandArgumentGroups command) name :=
    manualOptionValue_eq (isOption_of_mem at_) (aligned name at_) read
  obtain rfl := reads (by simp) host_eq
  obtain rfl := reads (by simp) port_eq
  obtain rfl := reads (by simp) apiKey_eq
  obtain rfl := reads (by simp) apiKeyFile_eq
  refine ⟨?_, fun text at_ => effectivePort_eq_ok port_ok at_⟩
  unfold validatePublicBindAuth at auth
  simp only [ite_eq_right_iff, reduceCtorEq, imp_false, Bool.and_eq_true, Bool.not_eq_true',
    not_and, List.isEmpty_iff] at auth
  by_cases loopback : isLoopbackBindHost
      ((groupOption (commandArgumentGroups command) hostFlag).getD config.host) = true
  · exact .inl loopback
  · exact .inr (auth (by simpa using loopback))

/-- A configuration with no key, for the local machine. -/
def localConfig : InstanceConfig where
  host := "127.0.0.1".toList
  port := 8080
  apiKey := []
  apiKeyFile := []
  sslKeyFile := []
  sslCertFile := []
  lazyMode := []
  customArgs := []

/-- A public server with a key. -/
def keyedCommand : List Str :=
  ["llama-server", "--host", "0.0.0.0", "--api-key", "x"].map String.toList

theorem keyedCommand_groups :
    commandArgumentGroups keyedCommand =
      [⟨hostFlag, [hostFlag, "0.0.0.0".toList]⟩, ⟨apiKeyFlag, [apiKeyFlag, "x".toList]⟩] := by
  show argumentGroups [hostFlag, "0.0.0.0".toList, apiKeyFlag, "x".toList] = _
  rw [argumentGroups_value _ _ (isOption_of_mem (by simp)).flag (by decide +kernel),
    argumentGroups_value _ _ (isOption_of_mem (by simp)).flag (by decide +kernel), argumentGroups]

theorem gate_sound_keyed : Safe (fun _ => none) localConfig keyedCommand := by
  refine gate_sound _ _ _ ?_ (by decide +kernel)
  unfold Aligned Plain
  rw [keyedCommand_groups]
  decide +kernel

/-- A public server whose chat template reads as a key. -/
def templateCommand : List Str :=
  ["llama-server", "--host", "0.0.0.0", "--chat-template", "--api-key=x"].map String.toList

theorem templateCommand_groups :
    commandArgumentGroups templateCommand =
      [⟨hostFlag, [hostFlag, "0.0.0.0".toList]⟩,
        ⟨"--chat-template".toList, ["--chat-template".toList, "--api-key=x".toList]⟩] := by
  show argumentGroups [hostFlag, "0.0.0.0".toList, "--chat-template".toList,
    "--api-key=x".toList] = _
  rw [argumentGroups_value _ _ (isOption_of_mem (by simp)).flag (by decide +kernel),
    @argumentGroups_value _ "--chat-template".toList _ _ (by decide +kernel) (by decide +kernel),
    argumentGroups]

/-- It passes the gate and has no key. -/
theorem gate_bypassed :
    validateEffectiveLaunchSecurity (fun _ => none) localConfig templateCommand = .ok () ∧
      ¬Safe (fun _ => none) localConfig templateCommand := by
  refine ⟨by decide +kernel, ?_⟩
  unfold Safe
  rw [templateCommand_groups]
  decide +kernel

end LlamaServerManager.Launch
