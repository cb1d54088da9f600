import LlamaServerManager.Lib.Json
import LlamaServerManager.Lib.Text
import Mathlib.Algebra.Group.Nat.Defs
import Mathlib.Data.Option.Basic

/-!
Token accounting of `usage_protocol.rs`: what one upstream response, as JSON
bodies or as server-sent events, says about its usage. A missing value is never
a measured zero.

The counters are folded from the usage objects in the order they arrive.
`inputReported` and `outputReported` say, of the list of these objects, what the
upstream reported last; `Reports` connects the two.
-/

namespace LlamaServerManager.Usage

open Lib Lib.Json Lib.Text

inductive UsageProtocol where
  | chat
  | completion
  | responses
  | anthropic
  | embedding
  | rerank
  | count
deriving DecidableEq, Repr

structure TokenUsage where
  input : Option Nat := none
  output : Option Nat := none
  cached : Option Nat := none
  cacheWrite : Option Nat := none
  reasoning : Option Nat := none
deriving DecidableEq, Repr

/-- `i64::MAX / 4`. -/
def countLimit : Nat := (2 ^ 63 - 1) / 4

/-- A counter SQLite can hold: not negative, not fractional, not too large. -/
def count (value : Value) (name : String) : Option Nat :=
  ((value.get name).bind Value.asU64).filter fun n => n ≤ countLimit

inductive Source where
  | none
  | upstreamUsage
deriving DecidableEq, Repr

inductive Quality where
  | notApplicable
  | complete
  | partly
  | unknown
deriving DecidableEq, Repr

structure UsageAccumulator where
  protocol : UsageProtocol
  tokens : TokenUsage := {}
  terminal : Bool := false
  failed : Bool := false
  malformed : Bool := false
  finishReason : Option String := none
  source : Source := .none
  event : String := ""
  data : String := ""
  anthropicInput : Option Nat := none
  anthropicRead : Option Nat := none
  anthropicWrite : Option Nat := none

namespace UsageAccumulator

def quality (a : UsageAccumulator) (eligible : Bool) : Quality :=
  if !eligible ∨ a.protocol = .count then .notApplicable
  else if !a.malformed ∧ a.tokens.input.isSome ∧ a.tokens.output.isSome then .complete
  else if a.tokens.input.isSome ∨ a.tokens.output.isSome then .partly
  else .unknown

end UsageAccumulator

/-! ### Usage objects -/

def UsageProtocol.inputKey : UsageProtocol → String
  | .responses | .anthropic => "input_tokens"
  | _ => "prompt_tokens"

def UsageProtocol.outputKey : UsageProtocol → String
  | .responses | .anthropic => "output_tokens"
  | _ => "completion_tokens"

def UsageProtocol.inputDetails (p : UsageProtocol) : String :=
  if p = .responses then "input_tokens_details" else "prompt_tokens_details"

def UsageProtocol.outputDetails (p : UsageProtocol) : String :=
  if p = .responses then "output_tokens_details" else "completion_tokens_details"

/-- These protocols produce no output tokens. -/
def UsageProtocol.inputOnly (p : UsageProtocol) : Bool := p = .embedding || p = .rerank

/-- A counter that is present but is not one. -/
def malformedCount (usage : Value) (name : String) : Bool :=
  (usage.get name).any (!·.isNull) && (count usage name).isNone

namespace UsageAccumulator

/-- Anthropic counts fresh, read and written input separately. The two cache
counters default to zero, an absent input count does not. -/
def observeAnthropicInput (a : UsageAccumulator) (usage : Value) : UsageAccumulator :=
  let input := (count usage "input_tokens").or a.anthropicInput
  let read := (count usage "cache_read_input_tokens").or a.anthropicRead
  let write := (count usage "cache_creation_input_tokens").or a.anthropicWrite
  { a with
    anthropicInput := input
    anthropicRead := read
    anthropicWrite := write
    tokens := { a.tokens with
      input := input.map fun n => n + read.getD 0 + write.getD 0
      cached := input.map fun _ => read.getD 0
      cacheWrite := write } }

def observeInput (a : UsageAccumulator) (usage : Value) : UsageAccumulator :=
  let input := (count usage a.protocol.inputKey).or a.tokens.input
  match usage.get a.protocol.inputDetails with
  | none => { a with tokens := { a.tokens with input } }
  | some details =>
    { a with
      tokens := { a.tokens with
        input
        cached := count details "cached_tokens"
        cacheWrite := count details "cache_write_tokens" } }

def observeOutput (a : UsageAccumulator) (usage : Value) : UsageAccumulator :=
  let output := (count usage a.protocol.outputKey).or a.tokens.output
  { a with
    tokens := { a.tokens with
      output := if a.protocol.inputOnly ∧ a.tokens.input.isSome then some 0 else output
      reasoning :=
        match usage.get a.protocol.outputDetails with
        | none => a.tokens.reasoning
        | some details => count details "reasoning_tokens" } }

/-- A part that exceeds its whole is dropped. -/
def checkParts (a : UsageAccumulator) : UsageAccumulator :=
  let exceeds (part whole : Option Nat) : Bool := part.any fun p => whole.any (· < p)
  let cached := exceeds a.tokens.cached a.tokens.input
  let reasoning := exceeds a.tokens.reasoning a.tokens.output
  { a with
    malformed := a.malformed || cached || reasoning
    tokens := { a.tokens with
      cached := if cached then none else a.tokens.cached
      reasoning := if reasoning then none else a.tokens.reasoning } }

def observeUsage (a : UsageAccumulator) (usage : Value) : UsageAccumulator :=
  if a.protocol = .count then a
  else
    let names := [a.protocol.inputKey, a.protocol.outputKey, "cache_read_input_tokens",
      "cache_creation_input_tokens"]
    let a := { a with
      source := .upstreamUsage
      malformed := a.malformed || names.any (malformedCount usage) }
    let a :=
      if a.protocol = .anthropic then a.observeAnthropicInput usage else a.observeInput usage
    (a.observeOutput usage).checkParts

end UsageAccumulator

/-! ### Response objects -/

/-- The text of a field. -/
def textField (value : Value) (name : String) : Option String :=
  (value.get name).bind Value.asStr

/-- The field is a text and is not empty. -/
def hasText (value : Value) (name : String) : Bool :=
  (textField value name).any (!·.isEmpty)

def eventType (value : Value) : String := (textField value "type").getD ""

def choicesOf (value : Value) : List Value :=
  ((value.get "choices").bind Value.asArray).getD []

/-- Heartbeats, roles, empty deltas and usage-only frames are not first output. -/
def isFirstOutput (value : Value) : Bool :=
  let ty := eventType value
  ((ty == "response.output_text.delta" || ty == "response.function_call_arguments.delta" ||
      ty == "response.reasoning_text.delta") && hasText value "delta") ||
    ((choicesOf value).any fun c =>
      hasText c "text" ||
      (c.get "delta").any fun d =>
        ["content", "reasoning_content"].any (hasText d) ||
        ((d.get "tool_calls").bind Value.asArray).any (!·.isEmpty)) ||
    (ty == "content_block_delta" &&
      (value.get "delta").any fun d => ["text", "thinking", "partial_json"].any (hasText d))

/-- The usage object a response object carries. -/
def usageOf (p : UsageProtocol) (value : Value) : Option Value :=
  let usage :=
    match p with
    | .anthropic =>
      if eventType value = "message_start" then value.pointer ["message", "usage"]
      else value.get "usage"
    | .responses => ((value.get "response").getD value).get "usage"
    | _ => value.get "usage"
  usage.filter Value.isObject

namespace UsageAccumulator

/-- What a response object says apart from its usage. -/
def observeStatus (a : UsageAccumulator) (value : Value) : UsageAccumulator :=
  let ty := eventType value
  let response := (value.get "response").getD value
  let status := textField response "status"
  let incomplete :=
    if ty = "response.incomplete" ∨ status = some "incomplete" then some "incomplete"
    else a.finishReason
  let stopReason := ((value.pointer ["delta", "stop_reason"]).or (value.get "stop_reason")).bind
    Value.asStr
  let stopped := (stopReason.map (takeChars 64)).or incomplete
  { a with
    failed := a.failed || (value.get "error").any (!·.isNull) || ty == "error" ||
      ty == "response.failed" || status == some "failed"
    terminal := a.terminal || ["response.completed", "response.failed", "response.incomplete",
      "message_stop"].contains ty
    finishReason := (choicesOf value).foldl
      (fun reason choice => ((textField choice "finish_reason").map (takeChars 64)).or reason)
      stopped }

/-- The counters after a response object, and whether it holds output. -/
def observeJson (a : UsageAccumulator) (value : Value) : UsageAccumulator × Bool :=
  let a := a.observeStatus value
  match usageOf a.protocol value with
  | none => (a, isFirstOutput value)
  | some usage => (a.observeUsage usage, isFirstOutput value)

/-! ### Server-sent events -/

/-- 16 MiB. -/
def maxEventBytes : Nat := 16 * 1024 * 1024

/-- What the data lines of an event amount to. -/
inductive Event where
  | done
  | empty
  | value (v : Value)
  | malformed

def pendingEvent (serde : Serde) (a : UsageAccumulator) : Event :=
  if trim a.data = "[DONE]" then .done
  else if a.data.isEmpty then .empty
  else
    match serde.fromStr a.data with
    | none => .malformed
    | some value =>
      .value (if a.event.isEmpty then value else value.orInsert "type" (.string a.event))

def flushEvent (serde : Serde) (a : UsageAccumulator) : UsageAccumulator × Bool :=
  let flushed := { a with data := "", event := "" }
  match a.pendingEvent serde with
  | .done => ({ flushed with terminal := true }, false)
  | .empty => (flushed, false)
  | .value v => flushed.observeJson v
  | .malformed => ({ flushed with malformed := true }, false)

/-- A line that is neither an event name nor data is ignored. -/
def sseLine (serde : Serde) (a : UsageAccumulator) (line : String) : UsageAccumulator × Bool :=
  if line.isEmpty then a.flushEvent serde
  else
    let a :=
      match stripPrefix "event:" line with
      | none => a
      | some event => { a with event := takeChars 80 (trim event) }
    match stripPrefix "data:" line with
    | none => (a, false)
    | some data =>
      if maxEventBytes < a.data.utf8ByteSize + data.utf8ByteSize then
        ({ a with malformed := true, data := "" }, false)
      else
        let before := if a.data.isEmpty then a.data else a.data.push '\n'
        ({ a with data := before ++ (stripPrefix " " data).getD data }, false)

end UsageAccumulator

/-! ### What the upstream reported

The usage objects, the latest first. -/

/-- The last well-formed value of a counter. -/
def lastCount (name : String) (usages : List Value) : Option Nat :=
  usages.findSome? fun usage => count usage name

/-- The input tokens last reported. -/
def inputReported (p : UsageProtocol) (usages : List Value) : Option Nat :=
  match p with
  | .count => none
  | .anthropic =>
    (lastCount "input_tokens" usages).map fun n =>
      n + (lastCount "cache_read_input_tokens" usages).getD 0 +
        (lastCount "cache_creation_input_tokens" usages).getD 0
  | p => lastCount p.inputKey usages

/-- The output tokens last reported. -/
def outputReported (p : UsageProtocol) (usages : List Value) : Option Nat :=
  if p = .count then none
  else if p.inputOnly ∧ (inputReported p usages).isSome then some 0
  else lastCount p.outputKey usages

@[simp] theorem lastCount_nil (name : String) : lastCount name [] = none := rfl

@[simp] theorem lastCount_cons (name : String) (usage : Value) (usages : List Value) :
    lastCount name (usage :: usages) = (count usage name).or (lastCount name usages) := by
  unfold lastCount
  rw [List.findSome?_cons]
  cases count usage name <;> rfl

theorem inputReported_of_plain {p : UsageProtocol} (counted : p ≠ .count) (plain : p ≠ .anthropic)
    (usages : List Value) : inputReported p usages = lastCount p.inputKey usages := by
  cases p with
  | count => exact absurd rfl counted
  | anthropic => exact absurd rfl plain
  | chat | completion | responses | embedding | rerank => rfl

theorem count_le {usage : Value} {name : String} {n : Nat} (h : count usage name = some n) :
    n ≤ countLimit :=
  of_decide_eq_true (Option.filter_eq_some_iff.mp h).2

theorem lastCount_le {name : String} {usages : List Value} {n : Nat}
    (h : lastCount name usages = some n) : n ≤ countLimit := by
  obtain ⟨usage, -, found⟩ := List.exists_of_findSome?_eq_some h
  exact count_le found

theorem lastCount_getD_le (name : String) (usages : List Value) :
    (lastCount name usages).getD 0 ≤ countLimit := by
  cases h : lastCount name usages with
  | none => exact Nat.zero_le _
  | some n => exact lastCount_le h

/-- At most three counters are added up. -/
theorem inputReported_le {p : UsageProtocol} {usages : List Value} {n : Nat}
    (h : inputReported p usages = some n) : n ≤ 3 * countLimit := by
  cases p with
  | count => cases h
  | anthropic =>
    obtain ⟨fresh, hf, rfl⟩ := Option.map_eq_some_iff.mp h
    have hf := lastCount_le hf
    have hr := lastCount_getD_le "cache_read_input_tokens" usages
    have hw := lastCount_getD_le "cache_creation_input_tokens" usages
    omega
  | chat | completion | responses | embedding | rerank =>
    have := lastCount_le h
    omega

theorem outputReported_le {p : UsageProtocol} {usages : List Value} {n : Nat}
    (h : outputReported p usages = some n) : n ≤ countLimit := by
  unfold outputReported at h
  split_ifs at h
  · cases h
    exact Nat.zero_le _
  · exact lastCount_le h

/-- The sum of what was reported is a `u64` on its own. -/
theorem reported_add_lt {p : UsageProtocol} {usages : List Value} {input output : Nat}
    (hi : inputReported p usages = some input) (ho : outputReported p usages = some output) :
    input + output < 2 ^ 63 := by
  have hi := inputReported_le hi
  have ho := outputReported_le ho
  have limit : 4 * countLimit < 2 ^ 63 := by decide
  omega

namespace UsageAccumulator

/-- The accumulator of protocol `p` holds the last reports of these usage objects. -/
structure Reports (a : UsageAccumulator) (p : UsageProtocol) (usages : List Value) : Prop where
  protocol : a.protocol = p
  input : a.tokens.input = inputReported p usages
  output : a.tokens.output = outputReported p usages
  fresh : p = .anthropic → a.anthropicInput = lastCount "input_tokens" usages
  read : p = .anthropic → a.anthropicRead = lastCount "cache_read_input_tokens" usages
  written : p = .anthropic → a.anthropicWrite = lastCount "cache_creation_input_tokens" usages

theorem Reports.empty (p : UsageProtocol) : Reports { protocol := p } p [] := by
  constructor
  case input | output => cases p <;> rfl
  all_goals intros; rfl

variable {a : UsageAccumulator} {p : UsageProtocol} {usages : List Value}

/-- Only the counters matter. -/
theorem Reports.congr {b : UsageAccumulator} (reports : a.Reports p usages)
    (protocol : b.protocol = a.protocol) (tokens : b.tokens = a.tokens)
    (fresh : b.anthropicInput = a.anthropicInput) (read : b.anthropicRead = a.anthropicRead)
    (written : b.anthropicWrite = a.anthropicWrite) : b.Reports p usages where
  protocol := protocol.trans reports.protocol
  input := by rw [tokens, reports.input]
  output := by rw [tokens, reports.output]
  fresh h := fresh.trans (reports.fresh h)
  read h := read.trans (reports.read h)
  written h := written.trans (reports.written h)

/-- The output counter after a usage object, from the input counter after it. -/
theorem outputReported_cons (usage : Value) {output : Option Nat} (counted : p ≠ .count)
    (before : output = outputReported p usages) :
    outputReported p (usage :: usages) =
      if p.inputOnly ∧ (inputReported p (usage :: usages)).isSome then some 0
      else (count usage p.outputKey).or output := by
  unfold outputReported at *
  rw [if_neg counted] at *
  split_ifs with known
  · rfl
  · rw [lastCount_cons, before, if_neg]
    rintro ⟨only, earlier⟩
    -- Once an input count is known it stays known.
    apply known ⟨only, _⟩
    cases p with
    | embedding | rerank =>
      simp only [inputReported, lastCount_cons] at earlier ⊢
      rw [Option.isSome_or, earlier, Bool.or_true]
    | chat | completion | responses | anthropic | count => cases only

/-- After the input counters the output counters follow. -/
theorem Reports.observeOutput {usage : Value} (counted : p ≠ .count) (protocol : a.protocol = p)
    (input : a.tokens.input = inputReported p (usage :: usages))
    (output : a.tokens.output = outputReported p usages)
    (fresh : p = .anthropic → a.anthropicInput = lastCount "input_tokens" (usage :: usages))
    (read : p = .anthropic →
      a.anthropicRead = lastCount "cache_read_input_tokens" (usage :: usages))
    (written : p = .anthropic →
      a.anthropicWrite = lastCount "cache_creation_input_tokens" (usage :: usages)) :
    (a.observeOutput usage).checkParts.Reports p (usage :: usages) where
  protocol := protocol
  input := input
  output := by
    have after := outputReported_cons usage counted output
    rw [← input, ← protocol] at after
    exact after.symm.trans (by rw [protocol])
  fresh := fresh
  read := read
  written := written

theorem observeInput_eq (a : UsageAccumulator) (usage : Value) :
    (a.observeInput usage).protocol = a.protocol ∧
      (a.observeInput usage).tokens.input =
        (count usage a.protocol.inputKey).or a.tokens.input ∧
      (a.observeInput usage).tokens.output = a.tokens.output := by
  unfold observeInput
  cases usage.get a.protocol.inputDetails <;> exact ⟨rfl, rfl, rfl⟩

theorem Reports.observeUsage (usage : Value) (reports : a.Reports p usages) :
    (a.observeUsage usage).Reports p (usage :: usages) := by
  obtain ⟨rfl, input, output, fresh, read, written⟩ := reports
  unfold UsageAccumulator.observeUsage
  by_cases counted : a.protocol = .count
  · rw [if_pos counted]
    rw [counted] at input output
    constructor
    case protocol => rfl
    case input => rw [input, counted]; rfl
    case output => rw [output, counted]; rfl
    all_goals exact fun h => absurd (counted.symm.trans h) (by decide)
  · rw [if_neg counted]
    dsimp only
    by_cases anthropic : a.protocol = .anthropic
    · rw [if_pos anthropic]
      refine Reports.observeOutput counted rfl ?_ output ?_ ?_ ?_
      · change Option.map _ _ = _
        rw [fresh anthropic, read anthropic, written anthropic, anthropic]
        simp only [inputReported, lastCount_cons]
      · rw [lastCount_cons, ← fresh anthropic]
        exact fun _ => rfl
      · rw [lastCount_cons, ← read anthropic]
        exact fun _ => rfl
      · rw [lastCount_cons, ← written anthropic]
        exact fun _ => rfl
    · rw [if_neg anthropic]
      obtain ⟨protocol, newInput, newOutput⟩ := observeInput_eq
        { a with source := .upstreamUsage, malformed := a.malformed || _ } usage
      refine Reports.observeOutput counted protocol (newInput.trans ?_) (newOutput.trans output)
        (fun h => absurd h anthropic) (fun h => absurd h anthropic) fun h => absurd h anthropic
      rw [inputReported_of_plain counted anthropic] at input ⊢
      rw [lastCount_cons, ← input]

/-- The usage object of a response object is the latest report. -/
theorem Reports.observeJson (value : Value) (reports : a.Reports p usages) :
    (a.observeJson value).1.Reports p ((usageOf p value).toList ++ usages) := by
  have status : (a.observeStatus value).Reports p usages := reports.congr rfl rfl rfl rfl rfl
  unfold UsageAccumulator.observeJson
  dsimp only
  rw [status.protocol]
  cases usageOf p value with
  | none => exact status
  | some usage => exact status.observeUsage usage

/-- The usage object flushing the pending event observes. -/
def flushedUsage (serde : Serde) (a : UsageAccumulator) : Option Value :=
  match a.pendingEvent serde with
  | .value v => usageOf a.protocol v
  | _ => none

theorem Reports.flushEvent (serde : Serde) (reports : a.Reports p usages) :
    (a.flushEvent serde).1.Reports p ((a.flushedUsage serde).toList ++ usages) := by
  have flushed : { a with data := "", event := "" }.Reports p usages :=
    reports.congr rfl rfl rfl rfl rfl
  obtain rfl := reports.protocol
  unfold UsageAccumulator.flushEvent flushedUsage
  cases a.pendingEvent serde with
  | done | empty | malformed => exact reports.congr rfl rfl rfl rfl rfl
  | value v => exact flushed.observeJson v

/-- A line reports usage only when it ends an event. -/
theorem Reports.sseLine (serde : Serde) (line : String) (reports : a.Reports p usages) :
    (a.sseLine serde line).1.Reports p
      ((if line.isEmpty then a.flushedUsage serde else none).toList ++ usages) := by
  unfold UsageAccumulator.sseLine
  split_ifs with blank
  · exact reports.flushEvent serde
  · cases stripPrefix "event:" line <;> cases stripPrefix "data:" line <;> dsimp only
    case neg.none.some | neg.some.some => split_ifs <;> exact reports.congr rfl rfl rfl rfl rfl
    all_goals exact reports.congr rfl rfl rfl rfl rfl

/-- A response is complete only when both counters are known. -/
theorem Reports.of_complete (reports : a.Reports p usages) {eligible : Bool}
    (complete : a.quality eligible = .complete) :
    ∃ input output, a.tokens.input = some input ∧ a.tokens.output = some output ∧
      inputReported p usages = some input ∧ outputReported p usages = some output := by
  unfold quality at complete
  split_ifs at complete with _ known
  obtain ⟨-, hi, ho⟩ := known
  obtain ⟨input, hi⟩ := Option.isSome_iff_exists.mp hi
  obtain ⟨output, ho⟩ := Option.isSome_iff_exists.mp ho
  exact ⟨input, output, hi, ho, reports.input ▸ hi, reports.output ▸ ho⟩

end UsageAccumulator

end LlamaServerManager.Usage
