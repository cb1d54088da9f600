import LlamaServerManager.Lib.Machine
import LlamaServerManager.Usage.Protocol

/-!
Runs of the usage accumulator: lines, flushes and response objects in any order.

Parts stay within their wholes (`Bounded`), a malformed report is never forgotten,
and a usage object that is repeated changes nothing; what the upstream reported
last is kept by `Reports`.
-/

namespace LlamaServerManager.Usage

open Lib Lib.Json Lib.Text

attribute [ext] TokenUsage

namespace UsageAccumulator

/-! ### Parts and wholes -/

/-- A part is dropped when it exceeds its whole. -/
def within (part whole : Option Nat) : Option Nat :=
  if part.any fun p => whole.any (· < p) then none else part

theorem within_le {part whole : Option Nat} {p w : Nat} (hp : within part whole = some p)
    (hw : whole = some w) : p ≤ w := by
  subst hw
  unfold within at hp
  split at hp
  · cases hp
  · rename_i fits
    subst hp
    simpa using fits

theorem within_within (part whole : Option Nat) :
    within (within part whole) whole = within part whole := by
  unfold within
  split_ifs with big again
  · rfl
  · rfl
  · rfl

/-- No part exceeds its whole. -/
structure Bounded (a : UsageAccumulator) : Prop where
  cached : ∀ c i, a.tokens.cached = some c → a.tokens.input = some i → c ≤ i
  reasoning : ∀ r o, a.tokens.reasoning = some r → a.tokens.output = some o → r ≤ o

variable {a b : UsageAccumulator} {usage value : Value}

theorem Bounded.new (protocol : UsageProtocol) : Bounded { protocol } where
  cached _ _ known := by cases known
  reasoning _ _ known := by cases known

theorem Bounded.congr (bounded : a.Bounded) (tokens : b.tokens = a.tokens) : b.Bounded where
  cached := tokens ▸ bounded.cached
  reasoning := tokens ▸ bounded.reasoning

theorem checkParts_bounded (a : UsageAccumulator) : a.checkParts.Bounded where
  cached _ _ part whole := within_le part whole
  reasoning _ _ part whole := within_le part whole

theorem Bounded.observeUsage (bounded : a.Bounded) (usage : Value) :
    (a.observeUsage usage).Bounded := by
  unfold UsageAccumulator.observeUsage
  split
  · exact bounded
  · exact checkParts_bounded _

theorem Bounded.observeJson (bounded : a.Bounded) (value : Value) :
    (a.observeJson value).1.Bounded := by
  have status : (a.observeStatus value).Bounded := bounded.congr rfl
  unfold UsageAccumulator.observeJson
  dsimp only
  split
  · exact status
  · exact status.observeUsage _

/-! ### A malformed report -/

theorem checkParts_malformed (h : a.malformed) : a.checkParts.malformed := by
  simp [checkParts, h]

theorem observeUsage_malformed (h : a.malformed) : (a.observeUsage usage).malformed := by
  unfold observeUsage
  split
  · exact h
  · dsimp only
    refine checkParts_malformed ?_
    split
    · simp [observeOutput, observeAnthropicInput, h]
    · unfold observeOutput observeInput
      split <;> simp [h]

theorem observeJson_malformed (h : a.malformed) : (a.observeJson value).1.malformed := by
  have status : (a.observeStatus value).malformed := h
  unfold observeJson
  dsimp only
  split
  · exact status
  · exact observeUsage_malformed status

theorem quality_of_malformed (h : a.malformed) (eligible : Bool) :
    a.quality eligible ≠ .complete := by
  unfold quality
  simp only [h]
  split_ifs <;> simp_all

/-! ### A repeated usage object -/

/-- A counter of a details object; without the object the counter stays. -/
def detailed (usage : Value) (details name : String) (before : Option Nat) : Option Nat :=
  match usage.get details with
  | none => before
  | some details => count details name

theorem within_detailed_within (usage : Value) (details name : String)
    (before whole : Option Nat) :
    within (detailed usage details name (within (detailed usage details name before) whole)) whole =
      within (detailed usage details name before) whole := by
  unfold detailed
  cases usage.get details with
  | none => exact within_within before whole
  | some details => rfl

theorem or_or_self (x y : Option Nat) : x.or (x.or y) = x.or y := by
  cases x <;> rfl

section Fields

variable (a : UsageAccumulator) (usage : Value)

theorem observeUsage_protocol : (a.observeUsage usage).protocol = a.protocol := by
  unfold observeUsage
  split
  · rfl
  · dsimp only
    split
    · rfl
    · unfold observeInput
      dsimp only
      cases usage.get a.protocol.inputDetails <;> rfl

theorem observeUsage_output (counted : a.protocol ≠ .count) :
    (a.observeUsage usage).tokens.output =
      (if a.protocol.inputOnly ∧ (a.observeUsage usage).tokens.input.isSome then some 0
        else (count usage a.protocol.outputKey).or a.tokens.output) ∧
    (a.observeUsage usage).tokens.reasoning =
      within (detailed usage a.protocol.outputDetails "reasoning_tokens" a.tokens.reasoning)
        (a.observeUsage usage).tokens.output := by
  unfold observeUsage
  rw [if_neg counted]
  dsimp only
  split
  · exact ⟨rfl, rfl⟩
  · unfold observeInput
    dsimp only
    cases usage.get a.protocol.inputDetails <;> exact ⟨rfl, rfl⟩

theorem observeUsage_input (counted : a.protocol ≠ .count) (plain : a.protocol ≠ .anthropic) :
    (a.observeUsage usage).tokens.input =
      (count usage a.protocol.inputKey).or a.tokens.input ∧
    (a.observeUsage usage).tokens.cached =
      within (detailed usage a.protocol.inputDetails "cached_tokens" a.tokens.cached)
        (a.observeUsage usage).tokens.input ∧
    (a.observeUsage usage).tokens.cacheWrite =
      detailed usage a.protocol.inputDetails "cache_write_tokens" a.tokens.cacheWrite := by
  unfold observeUsage
  rw [if_neg counted]
  dsimp only
  rw [if_neg plain]
  unfold observeInput detailed
  dsimp only
  cases usage.get a.protocol.inputDetails with
  | none => exact ⟨rfl, rfl, rfl⟩
  | some details => exact ⟨rfl, rfl, rfl⟩

theorem observeUsage_anthropic (anthropic : a.protocol = .anthropic) :
    (a.observeUsage usage).anthropicInput = (count usage "input_tokens").or a.anthropicInput ∧
    (a.observeUsage usage).anthropicRead =
      (count usage "cache_read_input_tokens").or a.anthropicRead ∧
    (a.observeUsage usage).anthropicWrite =
      (count usage "cache_creation_input_tokens").or a.anthropicWrite ∧
    (a.observeUsage usage).tokens.input = (a.observeUsage usage).anthropicInput.map (fun n =>
      n + (a.observeUsage usage).anthropicRead.getD 0 +
        (a.observeUsage usage).anthropicWrite.getD 0) ∧
    (a.observeUsage usage).tokens.cached =
      within ((a.observeUsage usage).anthropicInput.map fun _ =>
        (a.observeUsage usage).anthropicRead.getD 0) (a.observeUsage usage).tokens.input ∧
    (a.observeUsage usage).tokens.cacheWrite = (a.observeUsage usage).anthropicWrite := by
  have counted : a.protocol ≠ .count := by simp [anthropic]
  unfold observeUsage
  rw [if_neg counted]
  dsimp only
  rw [if_pos anthropic]
  exact ⟨rfl, rfl, rfl, rfl, rfl, rfl⟩

/-- **A usage object that is repeated changes no counter.** -/
theorem observeUsage_repeated :
    ((a.observeUsage usage).observeUsage usage).tokens = (a.observeUsage usage).tokens := by
  by_cases counted : a.protocol = .count
  · have same : a.observeUsage usage = a := if_pos counted
    rw [same, same]
  · have protocol := observeUsage_protocol a usage
    obtain ⟨output, reasoning⟩ := observeUsage_output a usage counted
    obtain ⟨output', reasoning'⟩ :=
      observeUsage_output (a.observeUsage usage) usage (protocol ▸ counted)
    rw [protocol] at output' reasoning'
    have parts : ((a.observeUsage usage).observeUsage usage).tokens.input =
          (a.observeUsage usage).tokens.input ∧
        ((a.observeUsage usage).observeUsage usage).tokens.cached =
          (a.observeUsage usage).tokens.cached ∧
        ((a.observeUsage usage).observeUsage usage).tokens.cacheWrite =
          (a.observeUsage usage).tokens.cacheWrite := by
      by_cases anthropic : a.protocol = .anthropic
      · obtain ⟨fresh, read, written, input, cached, cacheWrite⟩ :=
          observeUsage_anthropic a usage anthropic
        obtain ⟨fresh', read', written', input', cached', cacheWrite'⟩ :=
          observeUsage_anthropic (a.observeUsage usage) usage (protocol.trans anthropic)
        rw [fresh, or_or_self, ← fresh] at fresh'
        rw [read, or_or_self, ← read] at read'
        rw [written, or_or_self, ← written] at written'
        rw [fresh', read', written', ← input] at input'
        rw [fresh', read', input', ← cached] at cached'
        rw [written', ← cacheWrite] at cacheWrite'
        exact ⟨input', cached', cacheWrite'⟩
      · obtain ⟨input, cached, cacheWrite⟩ := observeUsage_input a usage counted anthropic
        obtain ⟨input', cached', cacheWrite'⟩ := observeUsage_input (a.observeUsage usage) usage
          (protocol ▸ counted) (protocol ▸ anthropic)
        rw [protocol] at input' cached' cacheWrite'
        rw [input, or_or_self, ← input] at input'
        rw [cached, input', within_detailed_within, ← cached] at cached'
        refine ⟨input', cached', cacheWrite'.trans ?_⟩
        rw [cacheWrite]
        unfold detailed
        cases usage.get a.protocol.inputDetails <;> rfl
    obtain ⟨input, cached, cacheWrite⟩ := parts
    have sameOutput : ((a.observeUsage usage).observeUsage usage).tokens.output =
        (a.observeUsage usage).tokens.output := by
      rw [output', input, output]
      split
      · rfl
      · exact or_or_self _ _
    rw [reasoning, sameOutput, within_detailed_within, ← reasoning] at reasoning'
    exact TokenUsage.ext input sameOutput cached cacheWrite reasoning'

end Fields

/-- The status of a response object does not reach the counters. -/
theorem observeUsage_observeStatus (a : UsageAccumulator) (value usage : Value) :
    ((a.observeStatus value).observeUsage usage).tokens = (a.observeUsage usage).tokens := by
  have same : (a.observeStatus value).protocol = a.protocol := rfl
  unfold observeUsage
  dsimp only
  rw [same]
  split
  · rfl
  · split
    · rfl
    · unfold observeInput
      dsimp only
      cases usage.get a.protocol.inputDetails <;> rfl

theorem observeJson_tokens (a : UsageAccumulator) (value : Value) :
    (a.observeJson value).1.tokens =
      match usageOf a.protocol value with
      | none => a.tokens
      | some usage => ((a.observeStatus value).observeUsage usage).tokens := by
  have same : (a.observeStatus value).protocol = a.protocol := rfl
  cases found : usageOf a.protocol value with
  | none => simp [observeJson, found, observeStatus]
  | some usage => simp [observeJson, same, found]

/-- **Nor does a response object that is repeated.** -/
theorem observeJson_repeated (a : UsageAccumulator) (value : Value) :
    ((a.observeJson value).1.observeJson value).1.tokens = (a.observeJson value).1.tokens := by
  have same : (a.observeStatus value).protocol = a.protocol := rfl
  cases found : usageOf a.protocol value with
  | none =>
    have after : (a.observeJson value).1 = a.observeStatus value := by
      simp [observeJson, same, found]
    rw [observeJson_tokens (a.observeJson value).1, after, same, found]
  | some usage =>
    have after : (a.observeJson value).1 = (a.observeStatus value).observeUsage usage := by
      simp [observeJson, same, found]
    have protocol : (a.observeJson value).1.protocol = a.protocol := by
      rw [after, observeUsage_protocol, same]
    rw [observeJson_tokens (a.observeJson value).1, protocol, found]
    dsimp only
    rw [observeUsage_observeStatus, after, observeUsage_repeated]

/-! ### Runs -/

/-- What the proxy does with an accumulator. -/
inductive Observe where
  | sseLine (line : String)
  | flushEvent
  | observeJson (value : Value)

/-- An accumulator and the usage objects it has seen, the latest first. -/
structure Accumulation where
  accumulator : UsageAccumulator
  usages : List Value := []

def Accumulation.observe (serde : Serde) (s : Accumulation) : Observe → Accumulation
  | .sseLine line =>
    ⟨(s.accumulator.sseLine serde line).1,
      (if line.isEmpty then s.accumulator.flushedUsage serde else none).toList ++ s.usages⟩
  | .flushEvent =>
    ⟨(s.accumulator.flushEvent serde).1, (s.accumulator.flushedUsage serde).toList ++ s.usages⟩
  | .observeJson value =>
    ⟨(s.accumulator.observeJson value).1,
      (usageOf s.accumulator.protocol value).toList ++ s.usages⟩

/-- `UsageAccumulator::new` and any calls on it. -/
def accumulation (serde : Serde) (protocol : UsageProtocol) : Machine Accumulation Observe where
  init := { accumulator := { protocol } }
  next s call := some (s.observe serde call)

/-- The reports are kept and parts stay within their wholes. -/
structure Accounted (protocol : UsageProtocol) (s : Accumulation) : Prop where
  reports : s.accumulator.Reports protocol s.usages
  bounded : s.accumulator.Bounded

variable {serde : Serde} {protocol : UsageProtocol} {s t : Accumulation}

theorem Bounded.flushEvent (bounded : a.Bounded) (serde : Serde) :
    (a.flushEvent serde).1.Bounded := by
  have flushed : { a with data := "", event := "" }.Bounded := bounded.congr rfl
  unfold UsageAccumulator.flushEvent
  dsimp only
  split
  · exact bounded.congr rfl
  · exact flushed
  · exact flushed.observeJson _
  · exact bounded.congr rfl

theorem flushEvent_malformed (serde : Serde) (h : a.malformed) :
    (a.flushEvent serde).1.malformed := by
  have flushed : { a with data := "", event := "" }.malformed := h
  unfold flushEvent
  dsimp only
  split
  · exact h
  · exact h
  · exact observeJson_malformed flushed
  · rfl

theorem sseLine_blank (a : UsageAccumulator) (serde : Serde) {line : String}
    (blank : line.isEmpty) : a.sseLine serde line = a.flushEvent serde :=
  if_pos blank

/-- A line that does not flush keeps the counters and the doubt. -/
theorem sseLine_keeps (serde : Serde) {line : String} (text : ¬ line.isEmpty) :
    (a.sseLine serde line).1.tokens = a.tokens ∧
      (a.malformed → (a.sseLine serde line).1.malformed) := by
  unfold sseLine
  rw [if_neg text]
  cases stripPrefix "event:" line <;> cases stripPrefix "data:" line <;> dsimp only
  case none.some | some.some => split_ifs <;> exact ⟨rfl, fun h => by first | rfl | exact h⟩
  all_goals exact ⟨rfl, id⟩

theorem Accounted.observe (accounted : Accounted protocol s) (call : Observe) :
    Accounted protocol (s.observe serde call) := by
  obtain ⟨reports, bounded⟩ := accounted
  cases call with
  | sseLine line =>
    refine ⟨reports.sseLine serde line, ?_⟩
    by_cases blank : line.isEmpty
    · dsimp only [Accumulation.observe]
      rw [sseLine_blank _ serde blank]
      exact bounded.flushEvent serde
    · exact bounded.congr (sseLine_keeps serde blank).1
  | flushEvent =>
    dsimp only [Accumulation.observe]
    exact ⟨reports.flushEvent serde, bounded.flushEvent serde⟩
  | observeJson value =>
    obtain rfl := reports.protocol
    exact ⟨reports.observeJson value, bounded.observeJson value⟩

theorem Accumulation.observe_malformed (call : Observe) (h : s.accumulator.malformed) :
    (s.observe serde call).accumulator.malformed := by
  cases call with
  | sseLine line =>
    by_cases blank : line.isEmpty
    · dsimp only [Accumulation.observe]
      rw [sseLine_blank _ serde blank]
      exact flushEvent_malformed serde h
    · exact (sseLine_keeps serde blank).2 h
  | flushEvent =>
    dsimp only [Accumulation.observe]
    exact flushEvent_malformed serde h
  | observeJson value => exact observeJson_malformed h

theorem accounted_of_reachable (reachable : (accumulation serde protocol).Reachable s) :
    Accounted protocol s := by
  refine reachable.invariant ⟨Reports.empty protocol, Bounded.new protocol⟩ ?_
  intro s call t next accounted
  obtain rfl := Option.some.inj next
  exact accounted.observe call

theorem run_malformed {calls : List Observe} (h : s.accumulator.malformed)
    (run : (accumulation serde protocol).run s calls = some t) : t.accumulator.malformed := by
  refine Machine.run_preserves (P := fun s => s.accumulator.malformed) ?_ run h
  intro s call t next h
  obtain rfl := Option.some.inj next
  exact Accumulation.observe_malformed call h

/-- **After any calls the counters are bounded and consistent, doubt is final, and what
is reported again is not counted again.** A body that was malformed once is never of
complete quality after it, and the input of an Anthropic body is the sum of what was
last reported of its three parts. -/
theorem accumulation_accounted (serde : Serde) (protocol : UsageProtocol) {s : Accumulation}
    (reachable : (accumulation serde protocol).Reachable s) :
    s.accumulator.Bounded ∧
    (∀ input, s.accumulator.tokens.input = some input → input ≤ 3 * (2 ^ 63 - 1) / 4) ∧
    (s.accumulator.malformed → ∀ calls t, (accumulation serde protocol).run s calls = some t →
      t.accumulator.malformed ∧ ∀ eligible, t.accumulator.quality eligible ≠ .complete) ∧
    (∀ usage, ((s.accumulator.observeUsage usage).observeUsage usage).tokens =
      (s.accumulator.observeUsage usage).tokens) ∧
    (∀ value, ((s.accumulator.observeJson value).1.observeJson value).1.tokens =
      (s.accumulator.observeJson value).1.tokens) ∧
    (protocol = .anthropic → s.accumulator.tokens.input =
      (lastCount "input_tokens" s.usages).map fun n =>
        n + (lastCount "cache_read_input_tokens" s.usages).getD 0 +
          (lastCount "cache_creation_input_tokens" s.usages).getD 0) := by
  obtain ⟨reports, bounded⟩ := accounted_of_reachable reachable
  refine ⟨bounded, ?_, ?_, fun usage => observeUsage_repeated _ usage,
    fun value => observeJson_repeated _ value, ?_⟩
  · intro input known
    have most := inputReported_le (reports.input.symm.trans known)
    have limit : 3 * countLimit ≤ 3 * (2 ^ 63 - 1) / 4 := by decide
    exact most.trans limit
  · intro malformed calls t run
    have doubt := run_malformed malformed run
    exact ⟨doubt, quality_of_malformed doubt⟩
  · rintro rfl
    exact reports.input

/-- The first frame of a message: 5 tokens, and 7 from the cache. -/
def messageStart : Value :=
  .object [("type", .string "message_start"), ("message", .object [("usage", .object [
    ("input_tokens", .number (.posInt 5)), ("cache_read_input_tokens", .number (.posInt 7))])])]

theorem accumulation_accounted_messageStart :
    ∃ s, (accumulation ⟨fun _ => none, fun _ => none⟩ .anthropic).Reachable s ∧
      s.accumulator.Bounded ∧ s.accumulator.tokens.input = some 12 := by
  have run : (accumulation ⟨fun _ => none, fun _ => none⟩ .anthropic).Reachable _ :=
    ⟨[.observeJson messageStart, .observeJson messageStart], rfl⟩
  obtain ⟨bounded, -, -, -, -, input⟩ := accumulation_accounted _ .anthropic run
  exact ⟨_, run, bounded, input rfl⟩

end UsageAccumulator

end LlamaServerManager.Usage
