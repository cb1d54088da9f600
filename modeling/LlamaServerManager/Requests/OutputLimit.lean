import LlamaServerManager.Lib.JsonObject
import LlamaServerManager.Lib.Text
import LlamaServerManager.Quota.Ledger

/-!
The output limit of a request under a hard quota: `normalize` and `fit_default`
of `proxy_quota_request.rs`, and what `prepare` of `proxy_quota.rs` reserves for
it. Clients send a limit under five names, as an integer, a float or a text;
what is forwarded has one of them.
-/

namespace LlamaServerManager.Requests

open Lib Lib.Json
open Quota (QuotaError)

def outputFields : List String :=
  ["max_tokens", "max_completion_tokens", "max_output_tokens", "n_predict", "max_new_tokens"]

def countFields : List String := ["n", "best_of", "num_return_sequences"]

/-- `i32::MAX`. -/
def maxLimit : Nat := 2147483647

def defaultQuotaOutputTokens : Nat := 32768

/-- The first value an `i64` does not hold. -/
def i64End : Nat := 9223372036854775808

/-- The first value a `u64` does not hold. -/
def u64End : Nat := 18446744073709551616

/-! ### Numbers -/

def digitsValue (digits : List Char) : Option Nat :=
  if digits.isEmpty || !digits.all Char.isDigit then none
  else some (digits.foldl (fun n c => 10 * n + (c.toNat - '0'.toNat)) 0)

/-- `str::parse::<i64>`. -/
def parseI64 : List Char → Option Int
  | '-' :: digits => ((digitsValue digits).filter (· ≤ i64End)).map fun n => -(n : Int)
  | '+' :: digits => ((digitsValue digits).filter (· < i64End)).map Int.ofNat
  | digits => ((digitsValue digits).filter (· < i64End)).map Int.ofNat

/-- `as_i64`: a float is none, whatever its value. -/
def asI64 : Value → Option Int
  | .number (.posInt n) => if n < i64End then some n else none
  | .number (.negInt n) => some n
  | _ => none

/-- The float of a number that `as_i64` refuses; an integer from 2^63 on is too large in any
case. -/
def asF64 : Value → Option Rat
  | .number (.posInt n) => some n
  | .number (.float x) => some x
  | _ => none

def integer (value : Value) : Option Int :=
  match asI64 value with
  | some n => some n
  | none =>
    match value.asStr with
    | some s => parseI64 (Text.trim s).toList
    | none =>
      ((asF64 value).filter fun x : Rat =>
        x.den == 1 && decide (-2 ≤ x) && decide (x ≤ (maxLimit : Rat))).map Rat.num

/-! ### Normalization -/

structure OutputLimit where
  tokens : Nat
  defaulted : Bool
  field : String
deriving DecidableEq, Repr

/-- A field that is there and not null. -/
def present (fields : Fields) (name : String) : Option Value :=
  (fields.lookup name).filter fun v => !v.isNull

/-- The loop over the generation counts. -/
def checkCounts (fields : Fields) : List String → Except QuotaError Unit
  | [] => .ok ()
  | name :: names =>
    match present fields name with
    | none => checkCounts fields names
    | some v =>
      if integer v ≠ some 1 then .error (.multipleGenerations name) else checkCounts fields names

/-- A limit a client may send: none, or one that an `i32` holds. -/
def limitOf (v : Value) : Option Int :=
  (integer v).filter fun n => -2 ≤ n ∧ n ≤ (maxLimit : Int)

/-- The loop over the aliases: every finite bound is honoured. -/
def finiteLimit (fields : Fields) : List String → Option Nat → Except QuotaError (Option Nat)
  | [], finite => .ok finite
  | name :: names, finite =>
    match present fields name with
    | none => finiteLimit fields names finite
    | some v =>
      match limitOf v with
      | none => .error (.invalidLimit name)
      | some n =>
        finiteLimit fields names <|
          if 0 ≤ n then some (finite.elim n.toNat fun current => min current n.toNat) else finite

def isText : Value → Bool
  | .string _ => true
  | _ => false

def isList : Value → Bool
  | .array _ => true
  | _ => false

/-- The only prompt of a batch. -/
def unwrapPrompt : Value → Value
  | .array [item] => if isText item || isList item then item else .array [item]
  | prompt => prompt

/-- A text, or tokens. -/
def singlePrompt (prompt : Value) : Bool :=
  isText prompt ||
    prompt.asArray.any fun items => !items.isEmpty && items.all fun n => n.asU64.isSome

def normalizePrompt (path : String) (fields : Fields) : Except QuotaError Fields :=
  if path = "/v1/completions" then
    match fields.lookup "prompt" with
    | none => .error .unmetered
    | some prompt =>
      if singlePrompt (unwrapPrompt prompt) then .ok (modifyField "prompt" unwrapPrompt fields)
      else .error .unsupportedBatch
  else .ok fields

def canonicalField (path : String) : Option String :=
  if path ∈ ["/v1/chat/completions", "/v1/messages", "/v1/completions"] then some "max_tokens"
  else if path = "/v1/responses" then some "max_output_tokens"
  else none

def removeFields (names : List String) (fields : Fields) : Fields :=
  names.foldl (fun fields name => removeField name fields) fields

/-- The default of a key. -/
def clampedDefault (default : Nat) : Nat :=
  if default = 0 then defaultQuotaOutputTokens else min default maxLimit

def fieldsOf : Value → Except QuotaError Fields
  | .object fields => .ok fields
  | _ => .error .unmetered

def normalize (path : String) (value : Value) (default : Nat) :
    Except QuotaError (Value × OutputLimit) := do
  let field ← (canonicalField path).elim (.error QuotaError.unmetered) .ok
  let fields ← fieldsOf value
  checkCounts fields countFields
  let finite ← finiteLimit fields outputFields none
  let fields ← normalizePrompt path fields
  let fields := removeFields (outputFields ++ countFields) fields
  let tokens := finite.getD (clampedDefault default)
  .ok (.object (insertField field (.number (.posInt tokens)) fields),
    { tokens, defaulted := finite.isNone, field })

/-- Only a default shrinks to what the context leaves; a limit of the client keeps its intent. -/
def OutputLimit.fitDefault (limit : OutputLimit) (input : Nat) (context : Option Nat)
    (value : Value) : OutputLimit × Value :=
  match limit.defaulted, context.filter (0 < ·), value with
  | true, some context, .object fields =>
    let tokens := min limit.tokens (max (context - input) 1)
    ({ limit with tokens }, .object (insertField limit.field (.number (.posInt tokens)) fields))
  | _, _, _ => (limit, value)

/-! ### Reservation -/

structure ContextLimitViolation where
  errorParam : String
  inputTokens : Option Nat
  requestedOutputTokens : Nat
  contextWindow : Nat
  inputSource : String
deriving DecidableEq, Repr

structure Prepared where
  /-- The body, when it is not the one the client sent. -/
  body : Option Value := none
  contextCheck : Option ContextLimitViolation := none
  reservation : Option Nat := none

/-- The parameter `context_preflight_spec` blames. -/
def errorParam (path : String) : Option String :=
  if path = "/v1/chat/completions" ∨ path = "/v1/messages" then some "messages"
  else if path = "/v1/responses" then some "input"
  else if path = "/v1/completions" then some "prompt"
  else none

def vectorItems (path : String) (value : Value) : Except QuotaError Nat := do
  let rerank := path ∈ ["/rerank", "/reranking", "/v1/rerank", "/v1/reranking"]
  let input :=
    if rerank then (value.get "documents").or (value.get "texts")
    else (value.get "input").or (value.get "content")
  let count : Option Nat :=
    match input with
    | some (.array (.number _ :: rest)) => if rerank then some (rest.length + 1) else some 1
    | some (.array items) => some items.length
    | some (.string _) => if rerank then none else some 1
    | _ => none
  match count with
  | none => .error .unmetered
  | some count => if count = 0 ∨ 4096 < count then .error .unmetered else .ok count

section

variable (serde : Serde)
  -- `fetch_input_token_count` for the counted body, and the context of `/props`.
  (countTokens : Value → Option Nat) (contextProps : Option Nat)

/-- `prepare`, for the default limit of the key whose quota is enabled, if there is one. -/
def prepare (key : Option Nat) (path : String) (body : List UInt8) (contextWindow : Option Nat) :
    Except QuotaError Prepared :=
  if path ∈ ["/v1/messages/count_tokens", "/v1/chat/completions/input_tokens",
      "/v1/responses/input_tokens"] then .ok {}
  else
    match key with
    | none => .ok {}
    | some default => do
      let value ← (serde.fromSlice body).elim (.error QuotaError.unmetered) .ok
      match errorParam path with
      | some errorParam => do
        let (value, output) ← normalize path value default
        let input ← (countTokens value).elim (.error QuotaError.unmetered) .ok
        let (output, value) := output.fitDefault input contextWindow value
        -- The first sampled token is reserved even where none is asked for.
        let reservedOutput := max output.tokens 1
        let contextCheck := contextWindow.map fun contextWindow =>
          { errorParam, inputTokens := some input, requestedOutputTokens := reservedOutput,
            contextWindow, inputSource := "exact" }
        if input + reservedOutput < u64End then
          .ok { body := some value, contextCheck, reservation := some (input + reservedOutput) }
        else .error .unmetered
      | none => do
        let items ← vectorItems path value
        let context ← (contextProps.filter (0 < ·)).elim (.error QuotaError.unmetered) .ok
        if context * items < u64End then .ok { reservation := some (context * items) }
        else .error .unmetered

end

/-! ### The checks -/

section

variable {fields : Fields} {names : List String} {finite : Option Nat}

/-- The finite limit of a name. -/
def sentLimit (fields : Fields) (name : String) : Option Nat :=
  ((present fields name).bind limitOf).bind fun n => if 0 ≤ n then some n.toNat else none

/-- The finite limits sent under these names. -/
def sentLimits (fields : Fields) (names : List String) : List Nat :=
  names.filterMap (sentLimit fields)

/-- The counts are accepted when each is one. -/
theorem checkCounts_eq_ok : checkCounts fields names = .ok () ↔
    ∀ name ∈ names, ∀ v, present fields name = some v → integer v = some 1 := by
  induction names with
  | nil => simp [checkCounts]
  | cons name names ih =>
    unfold checkCounts
    cases there : present fields name with
    | none => simp [there, ih]
    | some v =>
      by_cases one : integer v = some 1
      · simp [there, one, ih]
      · simp [there, one]

theorem min?_cons_cons (a b : Nat) (rest : List Nat) :
    (a :: b :: rest).min? = (min a b :: rest).min? := by
  rw [List.min?_cons', List.min?_cons']
  rfl

theorem sentLimits_cons (name : String) : sentLimits fields (name :: names) =
    (sentLimit fields name).toList ++ sentLimits fields names := by
  unfold sentLimits
  rw [List.filterMap_cons]
  cases sentLimit fields name <;> rfl

/-- The limits are accepted when each is one an `i32` holds, and the least finite one counts. -/
theorem finiteLimit_eq_ok {result : Option Nat} : finiteLimit fields names finite = .ok result ↔
    (∀ name ∈ names, ∀ v, present fields name = some v → (limitOf v).isSome) ∧
      result = (finite.toList ++ sentLimits fields names).min? := by
  induction names generalizing finite with
  | nil =>
    have least : (finite.toList ++ sentLimits fields []).min? = finite := by
      cases finite <;> rfl
    rw [least]
    exact ⟨fun ok => ⟨by simp, (Except.ok.inj ok).symm⟩, fun h => congrArg Except.ok h.2.symm⟩
  | cons name names ih =>
    rw [sentLimits_cons]
    unfold finiteLimit
    cases there : present fields name with
    | none => simp [there, ih, sentLimit]
    | some v =>
      cases known : limitOf v with
      | none => simp [there, known]
      | some n =>
        by_cases bounded : 0 ≤ n
        · have sent : sentLimit fields name = some n.toNat := by
            simp [sentLimit, there, known, bounded]
          cases finite with
          | none => simp [there, known, ih, sent, bounded]
          | some current =>
            have joined : (Option.toList (some current) ++ ((some n.toNat).toList ++
                sentLimits fields names)).min? =
                (Option.toList (some (min current n.toNat)) ++ sentLimits fields names).min? :=
              min?_cons_cons current n.toNat _
            rw [sent, joined]
            simp only [known, bounded, if_true, ih, Option.elim_some]
            simp [there, known]
        · have sent : sentLimit fields name = none := by
            simp [sentLimit, there, known, bounded]
          simp [there, known, ih, sent, bounded]

/-- Every limit sent is one an `i32` holds. -/
theorem sentLimits_le {n : Nat} (mem : n ∈ sentLimits fields names) : n ≤ maxLimit := by
  obtain ⟨name, -, sent⟩ := List.mem_filterMap.mp mem
  obtain ⟨limit, known, sent⟩ := Option.bind_eq_some_iff.mp sent
  obtain ⟨v, -, known⟩ := Option.bind_eq_some_iff.mp known
  have range := (Option.filter_eq_some_iff.mp known).2
  split at sent
  · obtain rfl := Option.some.inj sent
    have := (of_decide_eq_true range).2
    omega
  · cases sent

theorem clampedDefault_le (default : Nat) : clampedDefault default ≤ maxLimit := by
  unfold clampedDefault
  split
  · decide
  · exact Nat.min_le_right ..

/-! ### Prompts -/

/-- A single prompt is not unwrapped again. -/
theorem unwrapPrompt_of_single {prompt : Value} (single : singlePrompt prompt) :
    unwrapPrompt prompt = prompt := by
  cases prompt with
  | array items =>
    cases items with
    | nil => rfl
    | cons item rest =>
      cases rest with
      | nil => cases item <;> simp_all [singlePrompt, isText, isList, unwrapPrompt, Value.asArray,
          Value.asU64]
      | cons next rest => rfl
  | null | bool _ | number _ | string _ | object _ => rfl

theorem removeFields_eq : removeFields names fields =
    fields.filter fun field => !names.contains field.1 := by
  induction names generalizing fields with
  | nil => simp [removeFields]
  | cons name names ih =>
    have unfolded : removeFields (name :: names) fields =
        removeFields names (removeField name fields) := rfl
    rw [unfolded, ih, removeField, List.filter_filter]
    refine List.filter_congr fun field _ => ?_
    by_cases same : field.1 = name <;> simp [same]

theorem lookup_removeFields (names : List String) (fields : Fields) (name : String) :
    (removeFields names fields).lookup name =
      if names.contains name then none else fields.lookup name := by
  rw [removeFields_eq, @lookup_filter name fields fun name => !names.contains name]
  by_cases mem : name ∈ names <;> simp [mem]

/-- What is inserted after a removal is all that another removal finds. -/
theorem removeFields_insertField {name : String} (value : Value) (fields : Fields)
    (mem : name ∈ names) :
    removeFields names (insertField name value (removeFields names fields)) =
      removeFields names fields := by
  have drops : (!names.contains name) = false := by simp [mem]
  rw [removeFields_eq, @filter_insertField name value _ (fun name => !names.contains name) drops,
    removeFields_eq, List.filter_eq_self]
  intro field listed
  exact (List.mem_filter.mp listed).2

theorem normalizePrompt_eq_ok {path : String} {prompted : Fields} :
    normalizePrompt path fields = .ok prompted ↔
      (path ≠ "/v1/completions" ∧ prompted = fields) ∨
      (path = "/v1/completions" ∧ ∃ prompt, fields.lookup "prompt" = some prompt ∧
        singlePrompt (unwrapPrompt prompt) ∧
          prompted = modifyField "prompt" unwrapPrompt fields) := by
  unfold normalizePrompt
  by_cases batch : path = "/v1/completions"
  · cases there : fields.lookup "prompt" with
    | none => simp [batch]
    | some prompt =>
      by_cases single : singlePrompt (unwrapPrompt prompt)
      · simp [batch, single, @eq_comm _ prompted]
      · simp [batch, single]
  · simp [batch, @eq_comm _ prompted]

end

/-! ### What is forwarded -/

/-- What normalization reads off the request and leaves of it. -/
theorem normalize_eq_ok {path : String} {value body : Value} {default : Nat} {limit : OutputLimit} :
    normalize path value default = .ok (body, limit) ↔
      ∃ fields finite prompted, value = .object fields ∧
        canonicalField path = some limit.field ∧
        checkCounts fields countFields = .ok () ∧
        finiteLimit fields outputFields none = .ok finite ∧
        normalizePrompt path fields = .ok prompted ∧
        limit.tokens = finite.getD (clampedDefault default) ∧
        limit.defaulted = finite.isNone ∧
        body = .object (insertField limit.field (.number (.posInt limit.tokens))
          (removeFields (outputFields ++ countFields) prompted)) := by
  unfold normalize
  simp only [bind_eq_ok, elim_eq_ok]
  constructor
  · rintro ⟨field, canonical, fields, isObject, done, counts, finite, limits, prompted, prompt,
      same⟩
    obtain ⟨rfl, rfl⟩ := Prod.mk.inj (Except.ok.inj same)
    cases value with
    | object listed =>
      obtain rfl := Except.ok.inj isObject
      exact ⟨listed, finite, prompted, rfl, canonical, counts, limits, prompt, rfl, rfl, rfl⟩
    | null | bool _ | number _ | string _ | array _ => cases isObject
  · rintro ⟨fields, finite, prompted, rfl, canonical, counts, limits, prompt, tokens, defaulted,
      rfl⟩
    refine ⟨limit.field, canonical, fields, rfl, (), counts, finite, limits, prompted, prompt, ?_⟩
    obtain ⟨_, _, _⟩ := limit
    cases tokens
    cases defaulted
    rfl

theorem countFields_notMem : ∀ name ∈ countFields, name ∉ outputFields := by decide

theorem canonicalField_mem {path field : String} (canonical : canonicalField path = some field) :
    field ∈ outputFields := by
  unfold canonicalField at canonical
  split at canonical
  · obtain rfl := Option.some.inj canonical
    decide
  · split at canonical
    · obtain rfl := Option.some.inj canonical
      decide
    · cases canonical

/-- The fields of an object; no other document has any. -/
def sentBy : Value → Fields
  | .object fields => fields
  | _ => []

/-- What is forwarded for a request: one limit, one generation, all else as it was sent. -/
structure Normalized (path : String) (value : Value) (default : Nat) (body : Value)
    (limit : OutputLimit) : Prop where
  canonical : canonicalField path = some limit.field
  only : ∀ name ∈ outputFields, body.get name =
    if name = limit.field then some (.number (.posInt limit.tokens)) else none
  single : ∀ name ∈ countFields, body.get name = none
  tokens : limit.tokens =
    (sentLimits (sentBy value) outputFields).min?.getD (clampedDefault default)
  bounded : limit.tokens ≤ maxLimit
  kept : ∀ name, name ∉ outputFields → name ∉ countFields →
    (path = "/v1/completions" → name ≠ "prompt") → body.get name = value.get name
  prompt : path = "/v1/completions" →
    body.get "prompt" = (value.get "prompt").map unwrapPrompt
  again : ∀ later, normalize path body later = .ok (body, { limit with defaulted := false })

section

variable {path : String} {value body : Value} {default : Nat} {limit : OutputLimit}

theorem limitOf_tokens {n : Nat} (bounded : n ≤ maxLimit) :
    limitOf (.number (.posInt n)) = some (n : Int) := by
  have below : n ≤ 2147483647 := bounded
  have signed : asI64 (.number (.posInt n)) = some (n : Int) :=
    if_pos (by unfold i64End; omega)
  simp [limitOf, integer, signed, Option.filter, maxLimit]
  omega

/-- The limits sent by what is forwarded. -/
theorem finiteLimit_forwarded {fields : Fields} {field : String} {tokens : Nat}
    (mem : field ∈ outputFields) (bounded : tokens ≤ maxLimit)
    (lookups : ∀ name ∈ outputFields, fields.lookup name =
      if name = field then some (.number (.posInt tokens)) else none) :
    finiteLimit fields outputFields none = .ok (some tokens) := by
  have limits : ∀ name ∈ outputFields, present fields name =
      if name = field then some (.number (.posInt tokens)) else none := by
    intro name listed
    unfold present
    rw [lookups name listed]
    split <;> rfl
  refine finiteLimit_eq_ok.mpr ⟨?_, ?_⟩
  · intro name listed v there
    rw [limits name listed] at there
    split at there
    · obtain rfl := Option.some.inj there
      rw [limitOf_tokens bounded]
      rfl
    · cases there
  · have sent : ∀ name ∈ outputFields, sentLimit fields name =
        if name = field then some tokens else none := by
      intro name listed
      unfold sentLimit
      rw [limits name listed]
      split
      · simp [limitOf_tokens bounded]
      · rfl
    rw [sentLimits, List.filterMap_congr sent]
    simp only [outputFields, List.mem_cons, List.not_mem_nil, or_false] at mem
    rcases mem with rfl | rfl | rfl | rfl | rfl <;> simp [outputFields]

theorem normalized_of_ok (ok : normalize path value default = .ok (body, limit)) :
    Normalized path value default body limit := by
  obtain ⟨fields, finite, prompted, rfl, canonical, counts, limits, prompt, tokens, defaulted,
    rfl⟩ := normalize_eq_ok.mp ok
  have mem := canonicalField_mem canonical
  have least := (finiteLimit_eq_ok.mp limits).2
  have bounded : limit.tokens ≤ maxLimit := by
    rw [tokens]
    cases known : finite with
    | none => exact clampedDefault_le default
    | some n => exact sentLimits_le (List.min?_mem (least.symm.trans known))
  have lookup : ∀ name, (insertField limit.field (.number (.posInt limit.tokens))
      (removeFields (outputFields ++ countFields) prompted)).lookup name =
        if name = limit.field then some (.number (.posInt limit.tokens))
        else if (outputFields ++ countFields).contains name then none
        else prompted.lookup name := by
    intro name
    by_cases is : name = limit.field
    · subst is
      simp
    · rw [lookup_insertField_ne is, lookup_removeFields, if_neg is]
  have only : ∀ name ∈ outputFields, (insertField limit.field (.number (.posInt limit.tokens))
      (removeFields (outputFields ++ countFields) prompted)).lookup name =
        if name = limit.field then some (.number (.posInt limit.tokens)) else none := by
    intro name listed
    rw [lookup]
    simp [listed]
  have single : ∀ name ∈ countFields, (insertField limit.field (.number (.posInt limit.tokens))
      (removeFields (outputFields ++ countFields) prompted)).lookup name = none := by
    intro name listed
    have differs : name ≠ limit.field := by
      rintro rfl
      exact countFields_notMem _ listed mem
    rw [lookup, if_neg differs]
    simp [listed]
  have kept : ∀ name, name ∉ outputFields → name ∉ countFields →
      (insertField limit.field (.number (.posInt limit.tokens))
        (removeFields (outputFields ++ countFields) prompted)).lookup name =
          prompted.lookup name := by
    intro name notLimit notCount
    have differs : name ≠ limit.field := by
      rintro rfl
      exact notLimit mem
    rw [lookup, if_neg differs]
    simp [notLimit, notCount]
  have promptKept := kept "prompt" (by decide) (by decide)
  have prompts := normalizePrompt_eq_ok.mp prompt
  have promptAgain : normalizePrompt path (insertField limit.field (.number (.posInt limit.tokens))
      (removeFields (outputFields ++ countFields) prompted)) =
        .ok (insertField limit.field (.number (.posInt limit.tokens))
          (removeFields (outputFields ++ countFields) prompted)) := by
    refine normalizePrompt_eq_ok.mpr ?_
    rcases prompts with ⟨other, rfl⟩ | ⟨batch, sent, there, alone, rfl⟩
    · exact .inl ⟨other, rfl⟩
    · right
      rw [lookup_modifyField_self, there] at promptKept
      have fixed := unwrapPrompt_of_single alone
      refine ⟨batch, unwrapPrompt sent, promptKept, by rwa [fixed], ?_⟩
      refine (modifyField_eq_self fun v found => ?_).symm
      obtain rfl := Option.some.inj (promptKept.symm.trans found)
      exact fixed
  refine ⟨canonical, only, single, ?_, bounded, ?_, ?_, ?_⟩
  · rw [tokens, least]
    rfl
  · intro name notLimit notCount notPrompt
    refine (kept name notLimit notCount).trans ?_
    rcases prompts with ⟨other, rfl⟩ | ⟨batch, sent, there, alone, rfl⟩
    · rfl
    · exact lookup_modifyField_ne (notPrompt batch)
  · intro batch
    refine promptKept.trans ?_
    rcases prompts with ⟨other, rfl⟩ | ⟨_, sent, there, alone, rfl⟩
    · exact absurd batch other
    · exact lookup_modifyField_self
  · intro later
    refine normalize_eq_ok.mpr ⟨_, some limit.tokens, _, rfl, canonical, ?_,
      finiteLimit_forwarded mem bounded only, promptAgain, rfl, rfl, ?_⟩
    · refine checkCounts_eq_ok.mpr fun name listed v there => ?_
      unfold present at there
      rw [single name listed] at there
      cases there
    · have again := removeFields_insertField (.number (.posInt limit.tokens)) prompted
        (List.mem_append_left countFields mem)
      exact congrArg (fun rest => Value.object (insertField limit.field _ rest)) again.symm

/-- A value that is no limit is refused, whatever else was sent. -/
theorem normalize_error_of_limit {name : String} {v : Value} (mem : name ∈ outputFields)
    (there : present (sentBy value) name = some v) (outside : limitOf v = none) :
    ∃ e, normalize path value default = .error e := by
  cases result : normalize path value default with
  | error e => exact ⟨e, rfl⟩
  | ok accepted =>
    obtain ⟨body, limit⟩ := accepted
    obtain ⟨fields, finite, prompted, rfl, -, -, limits, -⟩ := normalize_eq_ok.mp result
    have known := (finiteLimit_eq_ok.mp limits).1 name mem v there
    rw [outside] at known
    cases known

theorem normalize_error_of_count {name : String} {v : Value} (mem : name ∈ countFields)
    (there : present (sentBy value) name = some v) (several : integer v ≠ some 1) :
    ∃ e, normalize path value default = .error e := by
  cases result : normalize path value default with
  | error e => exact ⟨e, rfl⟩
  | ok accepted =>
    obtain ⟨body, limit⟩ := accepted
    obtain ⟨fields, finite, prompted, rfl, -, counts, -⟩ := normalize_eq_ok.mp result
    exact absurd (checkCounts_eq_ok.mp counts name mem v there) several

/-- **A fitted default is the limit that is forwarded.** -/
theorem fitDefault_get (normalized : Normalized path value default body limit) (input : Nat)
    (context : Option Nat) :
    (limit.fitDefault input context body).1.field = limit.field ∧
    (limit.fitDefault input context body).2.get limit.field =
      some (.number (.posInt (limit.fitDefault input context body).1.tokens)) ∧
    ∀ name, name ≠ limit.field →
      (limit.fitDefault input context body).2.get name = body.get name := by
  have own := normalized.only limit.field (canonicalField_mem normalized.canonical)
  rw [if_pos rfl] at own
  unfold OutputLimit.fitDefault
  split
  · exact ⟨rfl, lookup_insertField_self, fun name ne => lookup_insertField_ne ne⟩
  · exact ⟨rfl, own, fun _ _ => rfl⟩

theorem generation_paths (generation : (canonicalField path).isSome) :
    path = "/v1/chat/completions" ∨ path = "/v1/messages" ∨ path = "/v1/completions" ∨
      path = "/v1/responses" := by
  unfold canonicalField at generation
  split at generation
  · rename_i listed
    simp only [List.mem_cons, List.not_mem_nil, or_false] at listed
    tauto
  · split at generation
    · tauto
    · cases generation

/-- What `prepare` reserves for a generation: the tokens counted for the normalized body, and
the limit that is left after `fit_default`, at least one token. -/
theorem prepare_generation {serde : Serde} {countTokens : Value → Option Nat}
    {contextProps contextWindow : Option Nat} {bytes : List UInt8} {prepared : Prepared}
    (parsed : serde.fromSlice bytes = some value) (generation : (canonicalField path).isSome)
    (ok : prepare serde countTokens contextProps (some default) path bytes contextWindow =
      .ok prepared) :
    ∃ body limit input, normalize path value default = .ok (body, limit) ∧
      countTokens body = some input ∧
      prepared.body = some (limit.fitDefault input contextWindow body).2 ∧
      prepared.reservation =
        some (input + max (limit.fitDefault input contextWindow body).1.tokens 1) ∧
      ∀ check, prepared.contextCheck = some check → check.inputTokens = some input ∧
        check.requestedOutputTokens =
          max (limit.fitDefault input contextWindow body).1.tokens 1 := by
  have other : path ∉ ["/v1/messages/count_tokens", "/v1/chat/completions/input_tokens",
      "/v1/responses/input_tokens"] := by
    rcases generation_paths generation with rfl | rfl | rfl | rfl <;> decide
  have blamed : (errorParam path).isSome := by
    rcases generation_paths generation with rfl | rfl | rfl | rfl <;> decide
  obtain ⟨param, blamed⟩ := Option.isSome_iff_exists.mp blamed
  unfold prepare at ok
  rw [if_neg other] at ok
  dsimp only at ok
  obtain ⟨sent, read, ok⟩ := bind_eq_ok.mp ok
  obtain rfl : value = sent := Option.some.inj (parsed.symm.trans (elim_eq_ok.mp read))
  rw [blamed] at ok
  obtain ⟨⟨body, limit⟩, normalized, ok⟩ := bind_eq_ok.mp ok
  obtain ⟨input, counted, ok⟩ := bind_eq_ok.mp ok
  dsimp only at ok
  split at ok
  · obtain rfl := Except.ok.inj ok
    refine ⟨body, limit, input, normalized, elim_eq_ok.mp counted, rfl, rfl, fun check is => ?_⟩
    obtain ⟨window, -, rfl⟩ := Option.map_eq_some_iff.mp is
    exact ⟨rfl, rfl⟩
  · cases ok

end

/-- **What is forwarded under a hard quota has one limit: the least the client sent, or the
default of the key; anything else it sent as a limit or a count is refused.** What is reserved
is what the token counter reports for the normalized body and the limit that is forwarded, or
one token when that limit is zero; a context check reads the same two numbers. -/
theorem normalize_sound (path : String) (value : Value) (default : Nat) :
    (∀ body limit, normalize path value default = .ok (body, limit) →
      Normalized path value default body limit ∧
      ∀ input context,
        (limit.fitDefault input context body).2.get limit.field =
          some (.number (.posInt (limit.fitDefault input context body).1.tokens)) ∧
        ∀ name, name ≠ limit.field →
          (limit.fitDefault input context body).2.get name = body.get name) ∧
    (∀ name ∈ outputFields, ∀ v, present (sentBy value) name = some v → limitOf v = none →
      ∃ e, normalize path value default = .error e) ∧
    (∀ name ∈ countFields, ∀ v, present (sentBy value) name = some v → integer v ≠ some 1 →
      ∃ e, normalize path value default = .error e) ∧
    ∀ (serde : Serde) countTokens contextProps bytes contextWindow prepared field,
      serde.fromSlice bytes = some value → canonicalField path = some field →
      prepare serde countTokens contextProps (some default) path bytes contextWindow =
        .ok prepared →
      ∃ counted limit input body tokens, normalize path value default = .ok (counted, limit) ∧
        countTokens counted = some input ∧
        prepared.body = some body ∧
        body.get field = some (.number (.posInt tokens)) ∧
        prepared.reservation = some (input + max tokens 1) ∧
        ∀ check, prepared.contextCheck = some check → check.inputTokens = some input ∧
          check.requestedOutputTokens = max tokens 1 := by
  refine ⟨?_, ?_, ?_, ?_⟩
  · intro body limit ok
    have normalized := normalized_of_ok ok
    exact ⟨normalized, fun input context => (fitDefault_get normalized input context).2⟩
  · intro name mem v there outside
    exact normalize_error_of_limit mem there outside
  · intro name mem v there several
    exact normalize_error_of_count mem there several
  · intro serde countTokens contextProps bytes contextWindow prepared field parsed canonical ok
    obtain ⟨counted, limit, input, normal, count, forwarded, reserved, check⟩ :=
      prepare_generation parsed (by rw [canonical]; rfl) ok
    have normalized := normalized_of_ok normal
    have fitted := fitDefault_get normalized input contextWindow
    obtain rfl : field = limit.field := Option.some.inj (canonical.symm.trans normalized.canonical)
    exact ⟨counted, limit, input, _, _, normal, count, forwarded, fitted.2.1, reserved, check⟩

/-- A request for no output, with `n_predict` left open. -/
def prefill : Value :=
  .object [("max_tokens", .number (.posInt 0)), ("messages", .array []),
    ("n_predict", .number (.negInt (-1)))]

def prefillBytes : List UInt8 :=
  [123, 34, 109, 97, 120, 95, 116, 111, 107, 101, 110, 115, 34, 58, 48, 44, 34, 109, 101, 115, 115,
    97, 103, 101, 115, 34, 58, 91, 93, 44, 34, 110, 95, 112, 114, 101, 100, 105, 99, 116, 34, 58,
    45, 49, 125]

def prefillSerde : Serde where
  fromStr _ := none
  fromSlice bytes := if bytes = prefillBytes then some prefill else none

/-- A request for no output is normalized, and reserves what its prompt counts and one token. -/
theorem normalize_sound_prefill :
    (∃ body limit, normalize "/v1/chat/completions" prefill 32 = .ok (body, limit) ∧
      Normalized "/v1/chat/completions" prefill 32 body limit) ∧
    ∃ prepared, prepare prefillSerde (fun _ => some 5) none (some 32) "/v1/chat/completions"
        prefillBytes none = .ok prepared ∧
      ∃ tokens, prepared.reservation = some (5 + max tokens 1) := by
  have ok : normalize "/v1/chat/completions" prefill 32 = .ok
      (.object [("max_tokens", .number (.posInt 0)), ("messages", .array [])],
        ⟨0, false, "max_tokens"⟩) := rfl
  have sound := normalize_sound "/v1/chat/completions" prefill 32
  refine ⟨⟨_, _, ok, (sound.1 _ _ ok).1⟩, _, rfl, ?_⟩
  obtain ⟨_, _, input, _, tokens, _, counted, _, _, reserved, _⟩ :=
    sound.2.2.2 prefillSerde (fun _ => some 5) none prefillBytes none _ "max_tokens" rfl rfl rfl
  obtain rfl : 5 = input := Option.some.inj counted
  exact ⟨tokens, reserved⟩

/-- An explicit limit of zero is forwarded, and one token is reserved for it. -/
theorem prepare_prefill :
    ∃ prepared, prepare prefillSerde (fun _ => some 5) none (some 32) "/v1/chat/completions"
        prefillBytes none = .ok prepared ∧
      prepared.body.bind (Value.get "max_tokens") = some (.number (.posInt 0)) ∧
      prepared.reservation = some (5 + 1) :=
  ⟨{ body := some (.object [("max_tokens", .number (.posInt 0)), ("messages", .array [])]),
     reservation := some 6 }, rfl, rfl, rfl⟩

end LlamaServerManager.Requests
