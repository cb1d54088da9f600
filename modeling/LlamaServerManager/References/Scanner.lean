import LlamaServerManager.References.Paths
import LlamaServerManager.Lib.SortedSet

/-!
Which configurations refer to a model (`commands/scanner.rs`): what is read from
fields, argument rows, manual commands and preset files, and what of it makes
`instances_referencing_models` name an instance.
-/

namespace LlamaServerManager.References

open Lib Lib.Text

def maxModelPresetFiles : Nat := 64

/-- 16 MiB. -/
def maxModelPresetBytes : Nat := 16 * 1024 * 1024

/-- `u64::MAX`. -/
def u64Max : Nat := 18446744073709551615

/-- The fields of a configuration the scanner reads. -/
structure InstanceConfig where
  name : Str
  modelPath : Str
  draftModelPath : Str
  mmprojPath : Str
  loraPath : Str
  loraScaled : Str
  modelsDir : Str
  modelsPreset : Str
  customArgs : List Str
  manualCommand : Str

structure RunningInstance where
  launchConfig : Option InstanceConfig

/-- What a configuration refers to, as texts; each field is a `BTreeSet`. -/
structure ModelArtifactReferences where
  exactPaths : List Str
  modelDirectories : List Str
  presetFiles : List Str
  deriving DecidableEq, Repr

inductive ModelArgumentKind where
  | exactPath
  | modelDirectory
  | presetFile
  deriving DecidableEq, Repr

def exactPathFlags : List Str :=
  ["-m", "--model", "-md", "--model-draft", "--spec-draft-model", "-mm", "--mmproj", "--lora",
    "--lora-scaled", "--control-vector", "--control-vector-scaled"].map String.toList

def modelArgumentKind (flag : Str) : Option ModelArgumentKind :=
  if flag ∈ exactPathFlags then some .exactPath
  else if flag = "--models-dir".toList then some .modelDirectory
  else if flag = "--models-preset".toList then some .presetFile
  else none

def exactPathKeys : List Str :=
  ["m", "model", "LLAMA_ARG_MODEL", "md", "model-draft", "spec-draft-model",
    "LLAMA_ARG_SPEC_DRAFT_MODEL", "mm", "mmproj", "LLAMA_ARG_MMPROJ", "lora", "lora-scaled",
    "control-vector", "control-vector-scaled"].map String.toList

def presetArgumentKind (key : Str) : Option ModelArgumentKind :=
  if key ∈ exactPathKeys then some .exactPath
  else if key ∈ ["models-dir", "LLAMA_ARG_MODELS_DIR"].map String.toList then some .modelDirectory
  else if key ∈ ["models-preset", "LLAMA_ARG_MODELS_PRESET"].map String.toList then
    some .presetFile
  else none

/-! ### Paths in a value -/

def isQuote (c : Char) : Bool := c = '"' || c = '\''

/-- `trim_matches(['"', '\''])`. -/
def trimQuotes (text : Str) : Str := trimMatches isQuote text

/-- `value.trim().trim_matches(['"', '\'']).trim()`. -/
def unquote (value : Str) : Str := trimChars (trimQuotes (trimChars value))

/-- The loop over `value[..end]`: the active quote, and the text from `start` on. -/
structure SegmentScan where
  quote : Option Char
  segment : Str
  deriving DecidableEq, Repr

def isSeparator (c : Char) : Bool := c = ',' || c = ';' || c = '='

def SegmentScan.next (scan : SegmentScan) (c : Char) : SegmentScan :=
  match scan.quote with
  | some active =>
    { quote := if c = active then none else some active, segment := scan.segment ++ [c] }
  | none =>
    if isQuote c then { quote := some c, segment := [] }
    else if isSeparator c then { quote := none, segment := [] }
    else { quote := none, segment := scan.segment ++ [c] }

def scanSegment (text : Str) : SegmentScan := text.foldl SegmentScan.next ⟨none, []⟩

/-- The texts `insert_possible_gguf_path` inserts: the value as a whole, and of
each beginning of it that ends in `.gguf` the last segment. (`.gguf` does not
overlap itself, so the search that goes on behind a hit finds every one.) -/
def ggufReadings (value : Str) : List Str :=
  let value := trimChars value
  if value = [] then []
  else
    trimQuotes value ::
      ((value.inits.filter endsWithGguf).map fun beginning =>
        unquote (scanSegment beginning).segment).filter (· ≠ [])

def insertPossibleGgufPath (references : List Str) (value : Str) : List Str :=
  SortedSet.insertAll (ggufReadings value) references

def insertPathWithWorkingDirectory (host : Host) (references : List Str) (value : Str) :
    List Str :=
  let value := unquote value
  if value = [] then references
  else
    let references := SortedSet.insert value references
    if host.isAbsolute value then references
    else SortedSet.insert (host.join host.workingDirectory value) references

def insertGgufPathsWithWorkingDirectory (host : Host) (references : List Str) (value : Str) :
    List Str :=
  (insertPossibleGgufPath [] value).foldl (insertPathWithWorkingDirectory host) references

/-! ### Preset files -/

def validPresetKey : Str → Bool
  | [] => false
  | first :: rest =>
    (first.isAlpha || first = '_') &&
      rest.all fun c => c.isAlphanum || c = '_' || c = '.' || c = '-'

/-- The part before the first comment sign at the start or behind white space. -/
def beforeComment : Option Char → Str → Str
  | _, [] => []
  | last, c :: cs =>
    if (c = ';' || c = '#') && last.all isWhitespace then []
    else c :: beforeComment (some c) cs

def stripPresetInlineComment (value : Str) : Str :=
  (beforeComment none value).rdropWhile isWhitespace

/-- `replace("\r\n", "\n").replace('\r', "\n")`. -/
def normalizeNewlines : Str → Str
  | '\r' :: '\n' :: cs => '\n' :: normalizeNewlines cs
  | '\r' :: cs => '\n' :: normalizeNewlines cs
  | c :: cs => c :: normalizeNewlines cs
  | [] => []

/-- `str::lines` of a text without `\r`. -/
def linesOf (text : Str) : List Str :=
  let pieces := text.splitOn '\n'
  if pieces.getLast? = some [] then pieces.dropLast else pieces

def display (path : Str) : String := String.ofList path

/-- One line of a preset: nothing, or a key with its value. -/
def presetLine (presetPath : Str) (lineNumber : Nat) (rawLine : Str) :
    Except String (Option (Str × Str)) :=
  let shown := display presetPath
  match trimChars rawLine with
  | [] => .ok none
  | first :: rest =>
    if first = ';' || first = '#' then .ok none
    else if first = '[' then
      match splitOnce [']'] rest with
      | none => .error s!"模型路由预设 {shown} 第 {lineNumber} 行的节标题未闭合，已拒绝删除模型"
      | some (title, behind) =>
        if trimChars title = [] then
          .error s!"模型路由预设 {shown} 第 {lineNumber} 行的节标题为空，已拒绝删除模型"
        else
          let trailing := behind.dropWhile isWhitespace
          if trailing ≠ [] ∧ trailing.head? ≠ some ';' ∧ trailing.head? ≠ some '#' then
            .error
              s!"模型路由预设 {shown} 第 {lineNumber} 行的节标题后存在无法解析的内容，已拒绝删除模型"
          else .ok none
    else
      match splitOnce ['='] (first :: rest) with
      | none =>
        .error s!"模型路由预设 {shown} 第 {lineNumber} 行不是有效的 key=value，已拒绝删除模型"
      | some (key, rawValue) =>
        let key := trimChars key
        if !validPresetKey key then
          .error s!"模型路由预设 {shown} 第 {lineNumber} 行包含无效参数名，已拒绝删除模型"
        else
          .ok (some (key,
            trimChars (stripPresetInlineComment (rawValue.dropWhile isWhitespace))))

/-- What the value of a key adds to the references. -/
def insertPresetEntry (host : Host) (presetPath : Str) (lineNumber : Nat)
    (references : ModelArtifactReferences) (key value : Str) :
    Except String ModelArtifactReferences :=
  let references :=
    if containsText gguf (value.map Char.toLower) then
      { references with
        exactPaths := insertGgufPathsWithWorkingDirectory host references.exactPaths value }
    else references
  match presetArgumentKind key with
  | none => .ok references
  | some kind =>
    if value = [] then
      let shown := display presetPath
      let key := display key
      .error s!"模型路由预设 {shown} 第 {lineNumber} 行的参数 {key} 缺少路径值，已拒绝删除模型"
    else
      match kind with
      | .exactPath =>
        .ok { references with
          exactPaths := insertGgufPathsWithWorkingDirectory host references.exactPaths value }
      | .modelDirectory =>
        .ok { references with
          modelDirectories :=
            insertPathWithWorkingDirectory host references.modelDirectories value }
      | .presetFile =>
        .ok { references with
          presetFiles := insertPathWithWorkingDirectory host references.presetFiles value }

/-- The lines of a preset from a line number on. -/
def readPresetLines (host : Host) (presetPath : Str) :
    ModelArtifactReferences → Nat → List Str → Except String ModelArtifactReferences
  | references, _, [] => .ok references
  | references, lineNumber, line :: lines => do
    match ← presetLine presetPath lineNumber line with
    | none => readPresetLines host presetPath references (lineNumber + 1) lines
    | some (key, value) =>
      let references ← insertPresetEntry host presetPath lineNumber references key value
      readPresetLines host presetPath references (lineNumber + 1) lines

def collectReferencesFromModelPreset (host : Host) (references : ModelArtifactReferences)
    (presetPath : Str) : Except String (ModelArtifactReferences × Nat) :=
  let shown := display presetPath
  match host.metadata presetPath with
  | .error fault =>
    .error s!"无法读取模型路由预设 {shown}，已拒绝在引用状态不明时删除模型: {fault}"
  | .ok metadata =>
    if !metadata.isFile then
      .error s!"模型路由预设 {shown} 不是普通文件，已拒绝在引用状态不明时删除模型"
    else if metadata.len > maxModelPresetBytes then
      .error s!"模型路由预设 {shown} 超过 16 MiB 安全读取上限，已拒绝删除模型"
    else
      match host.readToString presetPath with
      | .error fault =>
        .error s!"无法按 UTF-8 读取模型路由预设 {shown}，已拒绝在引用状态不明时删除模型: {fault}"
      | .ok contents => do
        let references ←
          readPresetLines host presetPath references 1 (linesOf (normalizeNewlines contents))
        .ok (references, metadata.len)

/-- The loop of `collect_model_preset_references`: `pending` has its top first. -/
structure Collecting where
  references : ModelArtifactReferences
  pending : List Str
  queued : List Str
  visited : List Str
  totalBytes : Nat

/-- The file that a reference to a preset means. -/
def presetFile (host : Host) (configuredPath : Str) : Str := host.fullPath (unquote configuredPath)

/-- The references to presets that are new go on the stack, in their order. -/
def Collecting.queue (collecting : Collecting) (nested : Str) : Collecting :=
  if nested ∈ collecting.queued then collecting
  else
    { collecting with
      queued := SortedSet.insert nested collecting.queued
      pending := nested :: collecting.pending }

/-- The stack, without what was visited before. -/
def Collecting.unvisited (host : Host) (collecting : Collecting) : List Str :=
  collecting.pending.dropWhile fun path =>
    decide (host.enginePathIdentity (presetFile host path) ∈ collecting.visited)

/-- The state after a file is read: the references to presets that are new are queued. -/
def Collecting.visit (host : Host) (collecting : Collecting) (resolved : Str)
    (pending : List Str) (references : ModelArtifactReferences) (totalBytes : Nat) : Collecting :=
  references.presetFiles.foldl Collecting.queue
    { references, pending, queued := collecting.queued
      visited := SortedSet.insert (host.enginePathIdentity resolved) collecting.visited
      totalBytes }

/-- The loop, with how many files may still be visited. -/
def collectPending (host : Host) : (left : Nat) → Collecting → Except String ModelArtifactReferences
  | 0, collecting =>
    match collecting.unvisited host with
    | [] => .ok collecting.references
    | _ :: _ => .error "模型路由预设链超过 64 个文件，已拒绝删除模型"
  | left + 1, collecting =>
    match collecting.unvisited host with
    | [] => .ok collecting.references
    | path :: pending => do
      let resolved := presetFile host path
      let (references, len) ←
        collectReferencesFromModelPreset host collecting.references resolved
      let totalBytes := collecting.totalBytes + len
      if totalBytes > u64Max then .error "模型路由预设总大小溢出，已拒绝删除模型"
      else if totalBytes > maxModelPresetBytes then
        .error "模型路由预设链总大小超过 16 MiB，已拒绝删除模型"
      else collectPending host left (collecting.visit host resolved pending references totalBytes)

def collectModelPresetReferences (host : Host) (references : ModelArtifactReferences) :
    Except String ModelArtifactReferences :=
  if references.presetFiles = [] then .ok references
  else
    match host.currentDir with
    | .error fault =>
      .error s!"无法确定 llama-server 工作目录，已拒绝在引用状态不明时删除模型: {fault}"
    | .ok _ =>
      collectPending host maxModelPresetFiles
        { references
          pending := references.presetFiles.reverse
          queued := references.presetFiles
          visited := []
          totalBytes := 0 }

/-! ### Arguments -/

/-- The state of `split_command_line_checked`; `backslashes` are the ones read
and not yet written. -/
structure Tokenizer where
  args : List Str
  current : Str
  inQuotes : Bool
  tokenStarted : Bool
  backslashes : Nat

def Tokenizer.next (t : Tokenizer) (c : Char) : Tokenizer :=
  if c = '\\' then { t with tokenStarted := true, backslashes := t.backslashes + 1 }
  else if c = '"' then
    -- half of the backslashes before a quote are text; an odd one escapes it
    let current := t.current ++ List.replicate (t.backslashes / 2) '\\'
    if t.backslashes % 2 = 0 then
      { t with current, inQuotes := !t.inQuotes, tokenStarted := true, backslashes := 0 }
    else { t with current := current ++ ['"'], tokenStarted := true, backslashes := 0 }
  else
    let current := t.current ++ List.replicate t.backslashes '\\'
    if (c = ' ' || c = '\t' || c = '\r' || c = '\n') && !t.inQuotes then
      if t.tokenStarted then
        { t with args := t.args ++ [current], current := [], tokenStarted := false,
                 backslashes := 0 }
      else { t with current, backslashes := 0 }
    else { t with current := current ++ [c], tokenStarted := true, backslashes := 0 }

/-- `split_args_checked`, which is `split_command_line_checked`. -/
def splitCommandLineChecked (input : Str) : Except String (List Str) :=
  let t := input.foldl Tokenizer.next ⟨[], [], false, false, 0⟩
  if t.inQuotes then .error "命令参数包含未闭合的双引号。"
  else if t.tokenStarted then
    .ok (t.args ++ [t.current ++ List.replicate t.backslashes '\\'])
  else .ok t.args

/-- What the value of a model argument adds to the references. -/
def insertArgument (references : ModelArtifactReferences) (kind : ModelArgumentKind)
    (value : Str) : ModelArtifactReferences :=
  match kind with
  | .exactPath =>
    { references with exactPaths := insertPossibleGgufPath references.exactPaths value }
  | .modelDirectory =>
    { references with
      modelDirectories := SortedSet.insert (trimChars value) references.modelDirectories }
  | .presetFile =>
    { references with presetFiles := SortedSet.insert (trimChars value) references.presetFiles }

/-- A token that has `.gguf` in it is read as it stands, whatever it is for. -/
def insertToken (references : ModelArtifactReferences) (token : Str) :
    ModelArtifactReferences :=
  if containsText gguf (token.map Char.toLower) then
    { references with exactPaths := insertPossibleGgufPath references.exactPaths token }
  else references

/-- `--flag=value`, or a flag whose value is the next token. -/
def flagAndValue (token : Str) : Str × Option Str :=
  match splitOnce ['='] token with
  | some (flag, value) => (flag, some value)
  | none => (token, none)

def missingValue (source : String) (flag : Str) : String :=
  let flag := display flag
  s!"{source} 中的模型参数 {flag} 缺少路径值"

def collectModelArgumentReferences (source : String) :
    ModelArtifactReferences → List Str → Except String ModelArtifactReferences
  | references, [] => .ok references
  | references, token :: tokens =>
    let references := insertToken references token
    let (flag, inlineValue) := flagAndValue token
    match modelArgumentKind flag, inlineValue, tokens with
    | none, _, tokens => collectModelArgumentReferences source references tokens
    | some kind, some value, tokens =>
      if trimChars value = [] then .error (missingValue source flag)
      else
        collectModelArgumentReferences source (insertArgument references kind value) tokens
    | some _, none, [] => .error (missingValue source flag)
    | some kind, none, value :: tokens =>
      if value.head? = some '-' then .error (missingValue source flag)
      else
        collectModelArgumentReferences source (insertArgument references kind value) tokens

/-- The rows of `custom_args` make one list of tokens. -/
def customTokens (instance_ : InstanceConfig) : Except String (List Str) :=
  let name := display instance_.name
  instance_.customArgs.foldlM (fun tokens row =>
    match splitCommandLineChecked (trimChars row) with
    | .ok parsed => .ok (tokens ++ parsed)
    | .error fault =>
      .error s!"实例 {name} 的自定义参数无法解析，已拒绝在引用状态不明时删除模型: {fault}") []

def manualTokens (instance_ : InstanceConfig) : Except String (List Str) :=
  let name := display instance_.name
  match splitCommandLineChecked (trimChars instance_.manualCommand) with
  | .ok parsed => .ok parsed
  | .error fault =>
    .error s!"实例 {name} 的手动命令无法解析，已拒绝在引用状态不明时删除模型: {fault}"

/-! ### Configurations -/

/-- The references in the fields of a configuration. -/
def fieldReferences (instance_ : InstanceConfig) : ModelArtifactReferences where
  exactPaths :=
    [instance_.modelPath, instance_.draftModelPath, instance_.mmprojPath, instance_.loraPath,
      instance_.loraScaled].foldl insertPossibleGgufPath []
  modelDirectories :=
    if trimChars instance_.modelsDir = [] then [] else [trimChars instance_.modelsDir]
  presetFiles :=
    if trimChars instance_.modelsPreset = [] then [] else [trimChars instance_.modelsPreset]

def collectCustomArgs (references : ModelArtifactReferences) (instance_ : InstanceConfig) :
    Except String ModelArtifactReferences := do
  let name := display instance_.name
  let custom ← customTokens instance_
  collectModelArgumentReferences s!"实例 {name} 的自定义参数" references custom

def collectManualCommand (references : ModelArtifactReferences) (instance_ : InstanceConfig) :
    Except String ModelArtifactReferences :=
  if trimChars instance_.manualCommand = [] then .ok references
  else do
    let name := display instance_.name
    let manual ← manualTokens instance_
    collectModelArgumentReferences s!"实例 {name} 的手动命令" references manual

def modelArtifactReferences (host : Host) (instance_ : InstanceConfig) :
    Except String ModelArtifactReferences := do
  let references ← collectCustomArgs (fieldReferences instance_) instance_
  let references ← collectManualCommand references instance_
  collectModelPresetReferences host references

def shardOf (host : Host) (path : Str) : Option ModelShardDescriptor :=
  (host.fileName path).bind parseModelShardName

/-- A candidate of the same shard set, in the same directory. -/
def sameShardSet (host : Host) (candidate target : Str) : Bool :=
  match shardOf host candidate, shardOf host target, host.parent candidate, host.parent target with
  | some left, some right, some leftDir, some rightDir =>
    left.base = right.base && left.total = right.total &&
      host.enginePathIdentity leftDir = host.enginePathIdentity rightDir
  | _, _, _, _ => false

def modelReferenceMatchesTarget (host : Host) (references : ModelArtifactReferences)
    (target : Str) : Bool :=
  let target := host.resolved target
  let targetIdentity := host.enginePathIdentity target
  references.exactPaths.any (fun candidate =>
    host.enginePathIdentity candidate = targetIdentity || sameShardSet host candidate target) ||
  references.modelDirectories.any fun directory =>
    pathIsWithin host target (host.resolved directory)

def referencesAnyTarget (host : Host) (targets : List Str) (instance_ : InstanceConfig) :
    Except String Bool := do
  let references ← modelArtifactReferences host instance_
  .ok (targets.any (modelReferenceMatchesTarget host references))

/-- A running instance is named by its launch configuration. -/
def runningName (instanceId : Str) (launchConfig : InstanceConfig) : Str :=
  if trimChars launchConfig.name = [] then instanceId else launchConfig.name

def collectInstances (host : Host) (targets : List Str) :
    List Str → List (Str × InstanceConfig) → Except String (List Str)
  | names, [] => .ok names
  | names, (_, instance_) :: rest => do
    let referenced ← referencesAnyTarget host targets instance_
    collectInstances host targets
      (if referenced then SortedSet.insert instance_.name names else names) rest

def collectRunning (host : Host) (targets : List Str) :
    List Str → List (Str × RunningInstance) → Except String (List Str)
  | names, [] => .ok names
  | names, (instanceId, running) :: rest =>
    match running.launchConfig with
    | none =>
      let shown := display instanceId
      .error s!"运行中实例 {shown} 缺少启动配置快照，已拒绝在模型引用状态不明时删除模型"
    | some launchConfig => do
      let referenced ← referencesAnyTarget host targets launchConfig
      collectRunning host targets
        (if referenced then SortedSet.insert (runningName instanceId launchConfig) names
          else names) rest

/-- `instances_referencing_models`; the maps are their entries, in any order. -/
def instancesReferencingModels (host : Host) (instances : List (Str × InstanceConfig))
    (running : List (Str × RunningInstance)) (targets : List Str) : Except String (List Str) := do
  let names ← collectInstances host targets [] instances
  collectRunning host targets names running

end LlamaServerManager.References
