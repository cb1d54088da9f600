import LlamaServerManager.Lib.JsonObject
import LlamaServerManager.Lib.Sse

/-!
Relaying the event stream of an upstream: the step `proxy_upstream` takes on each
line, with `rewrite_sse_line` and `rewrite_known_model_fields` of
`proxy_protocol.rs` and `is_usage_only_line` of `proxy_usage.rs`. The step sees one
line; what it does to the stream is told by what a reader makes of it.
-/

namespace LlamaServerManager.Responses

open Lib Lib.Json Lib.Sse

inductive ProxyApiFormat where
  | openAi
  | anthropic
deriving DecidableEq, Repr

/-- `serde_json`, with `to_string`. -/
structure Codec extends Serde where
  toText : Value → Option Line

/-- Written JSON is one line without a margin, and no text at all is none. -/
structure Codec.Lawful (codec : Codec) : Prop where
  rejects : codec.fromStr "" = none
  isLine : ∀ value text, codec.toText value = some text → IsLine text
  margin : ∀ value text, codec.toText value = some text →
    ∀ c ∈ text.head?, Text.isWhitespace c = false

/-! ### Model fields -/

/-- `insert` of a field that is there: its place is kept. -/
def nameModel (publicModelId : String) (fields : Fields) : Fields :=
  if (fields.lookup "model").isSome then
    modifyField "model" (fun _ => .string publicModelId) fields
  else fields

/-- The field that holds the answer in an event of the protocol. -/
def ProxyApiFormat.nested : ProxyApiFormat → String
  | .anthropic => "message"
  | .openAi => "response"

def nameNested (publicModelId : String) : Value → Value
  | .object fields => .object (nameModel publicModelId fields)
  | value => value

def rewriteKnownModelFields (publicModelId : String) (format : ProxyApiFormat) : Value → Value
  | .object fields =>
    .object (modifyField format.nested (nameNested publicModelId) (nameModel publicModelId fields))
  | value => value

/-! ### Lines -/

def asBytes (text : List Char) : List UInt8 := text.flatMap String.utf8EncodeChar

def dataPrefix : Line := dataName ++ [':']

def done : Line := "[DONE]".toList

def rewriteSseLine (codec : Codec) (publicModelId : String) (format : ProxyApiFormat)
    (line : Line) : Line :=
  match line.dropPrefix? dataPrefix with
  | none => line
  | some payload =>
    let payload := payload.dropWhile Text.isWhitespace
    if payload = [] ∨ payload = done then line
    else
      match codec.fromSlice (asBytes payload) with
      | none => line
      | some value =>
        match codec.toText (rewriteKnownModelFields publicModelId format value) with
        | none => line
        | some rewritten => dataPrefix ++ ' ' :: rewritten

def usageOnly (value : Value) : Bool :=
  (value.get "usage").any Value.isObject &&
    ((value.get "choices").bind Value.asArray).any List.isEmpty

def isUsageOnlyLine (codec : Codec) (line : Line) : Bool :=
  match line.dropPrefix? dataPrefix with
  | none => false
  | some data => (codec.fromStr (String.ofList (Text.trimChars data))).any usageOnly

/-- What is sent on for a line of the upstream, before its end. -/
def relayLine (codec : Codec) (publicModelId : String) (format : ProxyApiFormat)
    (hideUsage : Bool) (line : Line) : Line :=
  rewriteSseLine codec publicModelId format <|
    if hideUsage && isUsageOnlyLine codec line then [] else line

/-! ### What becomes of an event -/

variable {codec : Codec} {publicModelId : String} {format : ProxyApiFormat} {hideUsage : Bool}

/-- The JSON payload of an event's data, where there is one. -/
def jsonData (codec : Codec) (data : Line) : Option Value :=
  let payload := data.dropWhile Text.isWhitespace
  if payload = [] ∨ payload = done then none else codec.fromSlice (asBytes payload)

/-- The data that is written in place of a JSON payload. -/
def rewritten (codec : Codec) (publicModelId : String) (format : ProxyApiFormat) (data : Line) :
    Option Line :=
  (jsonData codec data).bind fun value =>
    codec.toText (rewriteKnownModelFields publicModelId format value)

def publicData (codec : Codec) (publicModelId : String) (format : ProxyApiFormat) (data : Line) :
    Line :=
  (rewritten codec publicModelId format data).getD data

def usageOnlyData (codec : Codec) (data : Line) : Bool :=
  (codec.fromStr (String.ofList (Text.trimChars data))).any usageOnly

/-- A fields list with its model renamed, if it has one. -/
structure Renamed (publicModelId : String) (fields fields' : Fields) : Prop where
  names : fields'.map Prod.fst = fields.map Prod.fst
  model : fields'.lookup "model" = (fields.lookup "model").map fun _ => .string publicModelId
  others : ∀ name, name ≠ "model" → fields'.lookup name = fields.lookup name

/-- What may become of the field `nested`. -/
inductive NestedRenamed (publicModelId : String) : Option Value → Option Value → Prop where
  | object {fields fields' : Fields} : Renamed publicModelId fields fields' →
      NestedRenamed publicModelId (some (.object fields)) (some (.object fields'))
  | other {value : Option Value} : (∀ fields, value ≠ some (.object fields)) →
      NestedRenamed publicModelId value value

/-- The same document but for its model fields. -/
inductive ModelsRenamed (publicModelId nested : String) : Value → Value → Prop where
  | object {fields fields' : Fields} :
      fields'.map Prod.fst = fields.map Prod.fst →
      fields'.lookup "model" = ((fields.lookup "model").map fun _ => .string publicModelId) →
      NestedRenamed publicModelId (fields.lookup nested) (fields'.lookup nested) →
      (∀ name, name ≠ "model" → name ≠ nested → fields'.lookup name = fields.lookup name) →
      ModelsRenamed publicModelId nested (.object fields) (.object fields')
  | other {value : Value} : value.isObject = false →
      ModelsRenamed publicModelId nested value value

theorem nameModel_renamed (fields : Fields) :
    Renamed publicModelId fields (nameModel publicModelId fields) := by
  unfold nameModel
  split
  · exact ⟨names_modifyField, lookup_modifyField_self, fun _ ne => lookup_modifyField_ne ne⟩
  · rename_i absent
    have none : fields.lookup "model" = none := Option.not_isSome_iff_eq_none.mp absent
    exact ⟨rfl, by simp [none], fun _ _ => rfl⟩

theorem nameNested_renamed (value : Option Value) :
    NestedRenamed publicModelId value (value.map (nameNested publicModelId)) := by
  rcases value with _ | value
  · exact .other (by simp)
  · cases value with
    | object fields => exact .object (nameModel_renamed fields)
    | null => exact .other (by simp)
    | bool => exact .other (by simp)
    | number => exact .other (by simp)
    | string => exact .other (by simp)
    | array => exact .other (by simp)

theorem ProxyApiFormat.nested_ne_model (format : ProxyApiFormat) : format.nested ≠ "model" := by
  cases format <;> decide

theorem rewriteKnownModelFields_renamed (value : Value) :
    ModelsRenamed publicModelId format.nested value
      (rewriteKnownModelFields publicModelId format value) := by
  cases value with
  | object fields =>
    have top := @nameModel_renamed publicModelId fields
    have ne := format.nested_ne_model
    refine .object ?_ ?_ ?_ fun name notModel notNested => ?_
    · rw [names_modifyField, top.names]
    · rw [lookup_modifyField_ne ne.symm, top.model]
    · rw [lookup_modifyField_self, top.others _ ne]
      exact nameNested_renamed _
    · rw [lookup_modifyField_ne notNested, top.others _ notModel]
  | null => exact .other rfl
  | bool => exact .other rfl
  | number => exact .other rfl
  | string => exact .other rfl
  | array => exact .other rfl

/-! ### Renaming twice -/

/-- A model that has the public name is left alone. -/
theorem nameModel_eq_self {fields : Fields} {model : Option Value}
    (named : fields.lookup "model" = model.map fun _ => .string publicModelId) :
    nameModel publicModelId fields = fields := by
  unfold nameModel
  split
  · refine modifyField_eq_self fun value found => ?_
    rw [named, Option.map_eq_some_iff] at found
    obtain ⟨_, _, same⟩ := found
    exact same
  · rfl

theorem nameModel_nameModel (fields : Fields) :
    nameModel publicModelId (nameModel publicModelId fields) = nameModel publicModelId fields :=
  nameModel_eq_self (nameModel_renamed fields).model

theorem nameNested_nameNested (value : Value) :
    nameNested publicModelId (nameNested publicModelId value) = nameNested publicModelId value := by
  cases value <;> simp [nameNested, nameModel_nameModel]

theorem rewriteKnownModelFields_twice (value : Value) :
    rewriteKnownModelFields publicModelId format
        (rewriteKnownModelFields publicModelId format value) =
      rewriteKnownModelFields publicModelId format value := by
  cases value with
  | object fields =>
    have ne := format.nested_ne_model
    have top := @nameModel_renamed publicModelId fields
    simp only [rewriteKnownModelFields, Value.object.injEq]
    rw [nameModel_eq_self ((lookup_modifyField_ne ne.symm).trans top.model)]
    refine modifyField_eq_self fun value found => ?_
    rw [lookup_modifyField_self, Option.map_eq_some_iff] at found
    obtain ⟨inner, _, rfl⟩ := found
    exact nameNested_nameNested inner
  | null => rfl
  | bool => rfl
  | number => rfl
  | string => rfl
  | array => rfl

/-! ### Lines and their data -/

theorem dropPrefix_data (rest : Line) :
    (dataName ++ ':' :: rest).dropPrefix? dataPrefix = some rest := by
  rw [List.dropPrefix?_eq_some_iff]
  exact ⟨dataPrefix, by simp [dataPrefix], by simp⟩

theorem eq_of_dropPrefix {line rest : Line} (cut : line.dropPrefix? dataPrefix = some rest) :
    line = dataName ++ ':' :: rest := by
  obtain ⟨found, whole, same⟩ := List.dropPrefix?_eq_some_iff.mp cut
  rw [whole, eq_of_beq same]
  simp [dataPrefix]

/-- The space that may follow the colon is white. -/
theorem dropWhile_dropSpace (rest : Line) :
    (dropSpace rest).dropWhile Text.isWhitespace = rest.dropWhile Text.isWhitespace := by
  unfold dropSpace
  split
  · rw [List.dropWhile_cons_of_pos (by decide)]
  · rfl

theorem trimChars_dropSpace (rest : Line) :
    Text.trimChars (dropSpace rest) = Text.trimChars rest := by
  unfold Text.trimChars
  rw [dropWhile_dropSpace]

theorem isUsageOnlyLine_data (rest : Line) :
    isUsageOnlyLine codec (dataName ++ ':' :: rest) = usageOnlyData codec (dropSpace rest) := by
  simp only [isUsageOnlyLine, dropPrefix_data, usageOnlyData, trimChars_dropSpace]

theorem rewriteSseLine_data (rest : Line) :
    rewriteSseLine codec publicModelId format (dataName ++ ':' :: rest) =
      ((rewritten codec publicModelId format (dropSpace rest)).map (dataPrefix ++ ' ' :: ·)).getD
        (dataName ++ ':' :: rest) := by
  simp only [rewriteSseLine, dropPrefix_data, rewritten, jsonData, dropWhile_dropSpace]
  split
  · rfl
  · cases parsed : codec.fromSlice (asBytes (rest.dropWhile Text.isWhitespace)) with
    | none => rfl
    | some value =>
      simp only [Option.bind_some]
      cases codec.toText (rewriteKnownModelFields publicModelId format value) <;> rfl

theorem rewriteSseLine_other {line : Line} (other : line.dropPrefix? dataPrefix = none) :
    rewriteSseLine codec publicModelId format line = line := by
  simp [rewriteSseLine, other]

/-- What `rewrite_sse_line` makes of a line is the line, or a data line of what was written. -/
theorem rewriteSseLine_cases (line : Line) :
    rewriteSseLine codec publicModelId format line = line ∨
      ∃ value text, codec.toText value = some text ∧
        rewriteSseLine codec publicModelId format line = dataPrefix ++ ' ' :: text := by
  cases cut : line.dropPrefix? dataPrefix with
  | none => exact .inl (rewriteSseLine_other cut)
  | some rest =>
    obtain rfl := eq_of_dropPrefix cut
    rw [rewriteSseLine_data]
    cases made : rewritten codec publicModelId format (dropSpace rest) with
    | none => exact .inl rfl
    | some text =>
      obtain ⟨value, _, written⟩ := Option.bind_eq_some_iff.mp made
      exact .inr ⟨_, text, written, rfl⟩

/-! ### The relay -/

theorem usageOnlyData_nil (lawful : codec.Lawful) : usageOnlyData codec [] = false := by
  have rejects : codec.fromStr (String.ofList []) = none := lawful.rejects
  simp [usageOnlyData, Text.trimChars, rejects]

theorem relays (lawful : codec.Lawful) : Relays (fun data => hideUsage && usageOnlyData codec data)
    (publicData codec publicModelId format) (relayLine codec publicModelId format hideUsage) where
  other := by
    intro line notData
    have other : line.dropPrefix? dataPrefix = none := by
      cases cut : line.dropPrefix? dataPrefix with
      | none => rfl
      | some rest =>
        obtain rfl := eq_of_dropPrefix cut
        exact absurd (field_data rest) (notData _)
    have notUsage : isUsageOnlyLine codec line = false := by simp [isUsageOnlyLine, other]
    simp [relayLine, notUsage, rewriteSseLine_other other]
  hides := by
    intro line value isData hidden
    rcases data_of_field isData with ⟨rfl, rfl⟩ | ⟨rest, rfl, rfl⟩
    · simp [usageOnlyData_nil lawful] at hidden
    · rw [relayLine, isUsageOnlyLine_data, hidden]
      rfl
  changes := by
    intro line value isData shown
    rcases data_of_field isData with ⟨rfl, rfl⟩ | ⟨rest, rfl, rfl⟩
    · have other : dataName.dropPrefix? dataPrefix = none := by decide
      have notUsage : isUsageOnlyLine codec dataName = false := by simp [isUsageOnlyLine, other]
      simp only [relayLine, notUsage, Bool.and_false, Bool.false_eq_true, if_false,
        rewriteSseLine_other other]
      exact isData
    · rw [relayLine, isUsageOnlyLine_data, if_neg shown, rewriteSseLine_data, publicData]
      cases made : rewritten codec publicModelId format (dropSpace rest) with
      | none => exact isData
      | some text => exact field_data (' ' :: text)

theorem relayLine_isLine (lawful : codec.Lawful) {line : Line} (isLine : IsLine line) :
    IsLine (relayLine codec publicModelId format hideUsage line) := by
  have given : IsLine (if hideUsage && isUsageOnlyLine codec line then [] else line) := by
    split
    · simp [IsLine]
    · exact isLine
  unfold relayLine
  rcases @rewriteSseLine_cases codec publicModelId format
    (if hideUsage && isUsageOnlyLine codec line then [] else line) with
    same | ⟨value, text, written, changed⟩
  · rw [same]
    exact given
  · rw [changed]
    have textIsLine := lawful.isLine value text written
    intro c mem
    rcases List.mem_append.mp mem with mem | mem
    · have all : IsLine dataPrefix := by decide
      exact all c mem
    · rcases List.mem_cons.mp mem with rfl | mem
      · decide
      · exact textIsLine c mem

theorem relayLine_unmarked {lines : List Line} (unmarked : Unmarked lines) :
    Unmarked (lines.map (relayLine codec publicModelId format hideUsage)) := by
  cases lines with
  | nil => exact unmarked
  | cons line lines =>
    intro first isFirst c isHead
    obtain rfl : relayLine codec publicModelId format hideUsage line = first := by
      simpa using isFirst
    rcases @rewriteSseLine_cases codec publicModelId format
      (if hideUsage && isUsageOnlyLine codec line then [] else line) with
      same | ⟨value, text, _, changed⟩
    · rw [relayLine, same] at isHead
      split at isHead
      · cases isHead
      · exact unmarked line rfl c isHead
    · rw [relayLine, changed] at isHead
      obtain rfl : 'd' = c := by simpa [dataPrefix, dataName] using isHead
      decide

/-- What is read back as it was written. -/
def ReadsBack (codec : Codec) (value : Value) : Prop :=
  ∀ text, codec.toText value = some text → codec.fromSlice (asBytes text) = some value

theorem rewriteSseLine_twice (lawful : codec.Lawful) {line : Line}
    (readsBack : ∀ data value, field line = .data data → jsonData codec data = some value →
      ReadsBack codec (rewriteKnownModelFields publicModelId format value)) :
    rewriteSseLine codec publicModelId format (rewriteSseLine codec publicModelId format line) =
      rewriteSseLine codec publicModelId format line := by
  cases cut : line.dropPrefix? dataPrefix with
  | none =>
    have same := @rewriteSseLine_other codec publicModelId format _ cut
    rw [same, same]
  | some rest =>
    obtain rfl := eq_of_dropPrefix cut
    cases made : rewritten codec publicModelId format (dropSpace rest) with
    | none =>
      have same : rewriteSseLine codec publicModelId format (dataName ++ ':' :: rest) =
          dataName ++ ':' :: rest := by simp [rewriteSseLine_data, made]
      rw [same, same]
    | some text =>
      have changed : rewriteSseLine codec publicModelId format (dataName ++ ':' :: rest) =
          dataName ++ ':' :: ' ' :: text := by simp [rewriteSseLine_data, made, dataPrefix]
      obtain ⟨value, parsed, written⟩ := Option.bind_eq_some_iff.mp made
      have back := readsBack _ value (field_data rest) parsed text written
      have begins : text.dropWhile Text.isWhitespace = text := by
        cases text with
        | nil => rfl
        | cons c text =>
          have margin := lawful.margin _ _ written c rfl
          rw [List.dropWhile_cons_of_neg (by simp [margin])]
      have again : (rewritten codec publicModelId format text).getD text = text := by
        simp only [rewritten, jsonData, begins]
        split
        · rfl
        · simp [back, rewriteKnownModelFields_twice, written]
      rw [changed, rewriteSseLine_data]
      simp only [dropSpace]
      cases second : rewritten codec publicModelId format text with
      | none => rfl
      | some text' =>
        obtain rfl : text' = text := by simpa [second] using again
        simp [dataPrefix]

/-- **The relay is one of events**: a reader behind it sees what one before it sees, less the
usage-only events where they are hidden, with the JSON data of an event naming the public model.
Only model fields change in such data, and a second relay changes nothing where `serde_json` reads
back what it wrote. -/
theorem relay_refines (lawful : codec.Lawful) :
    (∀ lines : List Line, (∀ line ∈ lines, IsLine line) → Unmarked lines →
      singleData false lines →
      parse (emit (lines.map (relayLine codec publicModelId format hideUsage))) =
        (parse (emit lines)).filterMap
          (relayOutput (fun data => hideUsage && usageOnlyData codec data)
            (publicData codec publicModelId format))) ∧
    (∀ value, ModelsRenamed publicModelId format.nested value
      (rewriteKnownModelFields publicModelId format value)) ∧
    (∀ line, (∀ data value, field line = .data data → jsonData codec data = some value →
        ReadsBack codec (rewriteKnownModelFields publicModelId format value)) →
      rewriteSseLine codec publicModelId format (rewriteSseLine codec publicModelId format line) =
        rewriteSseLine codec publicModelId format line) := by
  refine ⟨fun lines areLines unmarked single => ?_, rewriteKnownModelFields_renamed,
    fun line readsBack => rewriteSseLine_twice lawful readsBack⟩
  exact parse_relay (relays lawful) areLines
    (fun line mem => relayLine_isLine lawful (areLines line mem)) unmarked
    (relayLine_unmarked unmarked) single

/-! ### An upstream -/

def chunk : Line := "\x7b\"model\":\"m\"\x7d".toList

def publicChunk : Line := "\x7b\"model\":\"public\"\x7d".toList

def usageChunk : Line := "\x7b\"choices\":[],\"usage\":\x7b\x7d\x7d".toList

/-- The same number twice for a reader of decimals. Without `float_roundtrip` the second text is
what `serde_json` writes for the first, and reads as another number. -/
def firstScore : Line := "\x7b\"p\":0.9059350077392902\x7d".toList

def secondScore : Line := "\x7b\"p\":0.9059350077392903\x7d".toList

def thirdScore : Line := "\x7b\"p\":0.9059350077392904\x7d".toList

def lowScore : Rat := mkRat 4079968563276555 4503599627370496

def highScore : Rat := mkRat 8159937126553111 9007199254740992

def scored (score : Rat) : Value := .object [("p", .number (.float score))]

def modelled (model : String) : Value := .object [("model", .string model)]

def readText (text : Line) : Option Value :=
  if text = chunk then some (modelled "m")
  else if text = publicChunk then some (modelled "public")
  else if text = usageChunk then some (.object [("choices", .array []), ("usage", .object [])])
  else if text = firstScore then some (scored lowScore)
  else if text = secondScore ∨ text = thirdScore then some (scored highScore)
  else none

/-- What `serde_json` makes of these texts. -/
def sampleCodec : Codec where
  fromStr text := readText text.toList
  fromSlice bytes :=
    ([chunk, publicChunk, usageChunk, firstScore, secondScore, thirdScore].find? fun text =>
      asBytes text = bytes).bind readText
  toText
    | .object [("model", .string model)] => if model = "public" then some publicChunk else none
    | .object [("p", .number (.float score))] =>
      if score = lowScore then some secondScore
      else if score = highScore then some thirdScore
      else none
    | _ => none

theorem sampleCodec_lawful : sampleCodec.Lawful := by
  have texts : ∀ value text, sampleCodec.toText value = some text →
      text ∈ [publicChunk, secondScore, thirdScore] := by
    intro value text written
    simp only [sampleCodec] at written
    repeat' split at written
    all_goals cases written
    all_goals simp
  refine ⟨by decide, fun value text written => ?_, fun value text written => ?_⟩
  · have all : ∀ text ∈ [publicChunk, secondScore, thirdScore], IsLine text := by decide
    exact all text (texts value text written)
  · have all : ∀ text ∈ [publicChunk, secondScore, thirdScore],
        text.head?.all (fun c => !Text.isWhitespace c) = true := by decide
    intro c first
    have plain := all text (texts value text written)
    rw [Option.mem_def.mp first] at plain
    simpa using plain

/-- A usage-only event is hidden with its name, the next event is renamed. -/
theorem relay_refines_chunk :
    parse (emit (["event: usage".toList, dataPrefix ++ usageChunk, [], ": ping".toList,
      dataPrefix ++ chunk, []].map (relayLine sampleCodec "public" .openAi true))) =
        [.comment " ping".toList, .event ⟨"message".toList, publicChunk, []⟩] ∧
    rewriteSseLine sampleCodec "public" .openAi
      (rewriteSseLine sampleCodec "public" .openAi (dataPrefix ++ chunk)) =
        rewriteSseLine sampleCodec "public" .openAi (dataPrefix ++ chunk) := by
  obtain ⟨stream, _, twice⟩ := @relay_refines sampleCodec "public" .openAi true sampleCodec_lawful
  constructor
  · rw [stream _ (by decide) (by simp [Unmarked, bom]) (by decide)]
    decide
  · refine twice _ fun data value isData parsed text written => ?_
    have isChunk : field (dataPrefix ++ chunk) = .data chunk := by decide
    obtain rfl : chunk = data := by simpa [isChunk] using isData
    have isNamed : jsonData sampleCodec chunk = some (modelled "m") := rfl
    obtain rfl : modelled "m" = value := by simpa [isNamed] using parsed
    obtain rfl : publicChunk = text := Option.some.inj written
    rfl

/-- What the relay does not do: data with a margin of no-break space is no JSON and is rewritten
all the same, a first line behind a byte order mark is data and is not rewritten, and a number
may change each time a line is rewritten. -/
theorem relayLine_margins :
    let relay := relayLine sampleCodec "public" .openAi false
    let space := Char.ofNat 0xA0
    (sampleCodec.fromStr (String.ofList (space :: chunk))).isNone ∧
    parse (emit [dataPrefix ++ space :: chunk, []]) =
      [.event ⟨defaultType, space :: chunk, []⟩] ∧
    parse (emit ([dataPrefix ++ space :: chunk, []].map relay)) =
      [.event ⟨defaultType, publicChunk, []⟩] ∧
    parse (emit [bom :: dataPrefix ++ chunk, []]) = [.event ⟨defaultType, chunk, []⟩] ∧
    parse (emit ([bom :: dataPrefix ++ chunk, []].map relay)) =
      [.event ⟨defaultType, chunk, []⟩] ∧
    rewriteSseLine sampleCodec "public" .openAi
      (rewriteSseLine sampleCodec "public" .openAi (dataPrefix ++ firstScore)) ≠
        rewriteSseLine sampleCodec "public" .openAi (dataPrefix ++ firstScore) := by
  decide

end LlamaServerManager.Responses
