import LlamaServerManager.Gguf.Reader
import LlamaServerManager.Router.Resolution

/-!
The metadata of a GGUF file: `parse_gguf_metadata` of `utils.rs`.

* `Metadata` — what the loop over the entries keeps.
* `readEntry` — one entry.
* `parseGgufMetadata` — a file.
-/

namespace LlamaServerManager.Gguf

open Lib.Buffered Lib.Decoding Lib.LittleEndian Lib.Words
open Router (ModelWorkload)

/-! ### Names -/

/-- What the parser takes from elsewhere: `str::to_lowercase` over Unicode, the name of the file,
and what is told from that (`vector_policy.rs`, `quant_type_from_file_type`). -/
structure Names where
  toLowercase : Str → Str
  fileName : Option Str
  workload : Option Str → ModelWorkload
  quantType : Option Nat → Option Str

/-- `str::contains`. -/
def contains (text : Str) (needle : String) : Bool := decide (needle.toList <:+: text)

/-- `str::ends_with`. -/
def endsWith (text : Str) (tail : String) : Bool := decide (tail.toList <:+ text)

/-- `_`, `-` and `.` are left out. -/
def normalizedName (names : Names) (text : Str) : Str :=
  (names.toLowercase text).filter fun c => !(c == '_' || c == '-' || c == '.')

def firstFamily (normalized : Str) (families : List (String × String)) : Option Str :=
  (families.find? fun family => contains normalized family.1).map (·.2.toList)

def detectModelFamily (names : Names) (text : Str) : Option Str :=
  firstFamily (normalizedName names text)
    [("qwen25vl", "qwen-vl"), ("qwen2vl", "qwen-vl"), ("qwen3vl", "qwen-vl"), ("llava", "llava"),
      ("minicpmv", "minicpm-v"), ("internvl", "intern-vl"), ("gemma3", "gemma-vision"),
      ("glm4v", "glm-v"), ("phi3v", "phi-v"), ("phi4v", "phi-v"), ("smolvlm", "smolvlm"),
      ("idefics", "idefics"), ("moondream", "moondream"), ("clip", "clip"), ("vit", "vit")]

def inferVisualFamily (names : Names) (text : Str) : Option Str :=
  (detectModelFamily names text).or <| firstFamily (normalizedName names text)
    [("qwen35", "qwen-vl"), ("qwen36", "qwen-vl"), ("gemma4", "gemma-vision"),
      ("mistral3", "pixtral"), ("ministral3", "pixtral"), ("pixtral", "pixtral")]

def isVisionFamily (family : Option Str) : Bool :=
  family.any fun family => ["qwen-vl", "llava", "minicpm-v", "intern-vl", "gemma-vision", "glm-v",
    "phi-v", "smolvlm", "idefics", "moondream"].any fun known => known.toList == family

def tagIndicatesVision (names : Names) (tag : Str) : Bool :=
  ["multimodal", "image-text-to-text", "any-to-any", "vision"].any fun known =>
    known.toList == names.toLowercase (Lib.Text.trimChars tag)

def chatTemplateHasVisionMarkers (names : Names) (template : Str) : Bool :=
  ["image_url", "<|vision_start|>", "<|image_pad|>", "<image>", "image_token", "video_url"].any
    fun marker => contains (names.toLowercase template) marker

def classifyGgufFile (names : Names) : String :=
  let name := names.toLowercase (names.fileName.getD [])
  if contains name "mmproj" || contains name "clip" then "mmproj"
  else if contains name "imatrix" then "imatrix"
  else "model"

/-! ### What is kept -/

structure Metadata where
  architecture : Option Str
  contextLength : Option Nat
  fileType : Option Nat
  mtpLayers : Option Nat
  hasSwa : Option Bool
  generalType : Option Str
  modelName : Option Str
  modelBasename : Option Str
  modelRepo : Option Str
  baseModelName : Option Str
  baseModelRepo : Option Str
  tags : List Str
  projectorType : Option Str
  projectorHasVision : Bool
  templateHasVision : Bool
  hasVisionKey : Bool
  hasProjectorKey : Bool
  familyHint : Option Str

def Metadata.start (names : Names) : Metadata where
  architecture := none
  contextLength := none
  fileType := none
  mtpLayers := none
  hasSwa := none
  generalType := none
  modelName := none
  modelBasename := none
  modelRepo := none
  baseModelName := none
  baseModelRepo := none
  tags := []
  projectorType := none
  projectorHasVision := false
  templateHasVision := false
  hasVisionKey := false
  hasProjectorKey := false
  familyHint := names.fileName.bind (detectModelFamily names)

namespace Metadata

/-- What a key tells, whatever its value. -/
def sawKey (names : Names) (metadata : Metadata) (keyLower : Str) : Metadata :=
  { metadata with
    hasVisionKey := metadata.hasVisionKey || contains keyLower "vision" ||
      contains keyLower "image" || contains keyLower "mmproj" || contains keyLower "clip" ||
      contains keyLower "patch"
    hasProjectorKey := metadata.hasProjectorKey || contains keyLower "mmproj" ||
      contains keyLower "projector" || contains keyLower "clip"
    familyHint := metadata.familyHint.or (detectModelFamily names keyLower) }

def setBool (metadata : Metadata) (keyLower : Str) (value : Bool) : Metadata :=
  if keyLower = "clip.has_vision_encoder".toList ∧ value then
    { metadata with projectorHasVision := true }
  else metadata

/-- `match key_lower.as_str()`. -/
def setText (names : Names) (metadata : Metadata) (keyLower value : Str) : Metadata :=
  if keyLower = "general.type".toList then { metadata with generalType := some value }
  else if keyLower = "general.name".toList then { metadata with modelName := some value }
  else if keyLower = "general.basename".toList then { metadata with modelBasename := some value }
  else if keyLower = "general.repo_url".toList then { metadata with modelRepo := some value }
  else if keyLower = "general.base_model.0.name".toList then
    { metadata with baseModelName := some value }
  else if keyLower = "general.base_model.0.repo_url".toList then
    { metadata with baseModelRepo := some value }
  else if keyLower = "clip.projector_type".toList ∨
      keyLower = "clip.vision.projector_type".toList then
    { metadata with projectorType := some value }
  else if keyLower = "tokenizer.chat_template".toList then
    { metadata with templateHasVision := chatTemplateHasVisionMarkers names value }
  else metadata

def setString (names : Names) (metadata : Metadata) (keyLower value : Str) : Metadata :=
  let metadata :=
    if keyLower = "general.architecture".toList then
      { metadata with architecture := some value }
    else metadata
  let metadata := metadata.setText names keyLower value
  { metadata with familyHint := metadata.familyHint.or (detectModelFamily names value) }

def isSwaKey (keyLower : Str) : Bool := endsWith keyLower "attention.sliding_window"

def setU32 (metadata : Metadata) (key keyLower : Str) (value : Nat) : Metadata :=
  { metadata with
    fileType := if key = "general.file_type".toList then some value else metadata.fileType
    contextLength :=
      if contains keyLower "context_length" then some value else metadata.contextLength
    mtpLayers :=
      if contains keyLower "nextn_predict_layers" ∧ 0 < value then some value
      else metadata.mtpLayers
    hasSwa := if isSwaKey keyLower then some (0 < value) else metadata.hasSwa }

/-- `as u32`. -/
def asU32 (value : Int) : Nat := (value % 2 ^ 32).toNat

def setI32 (metadata : Metadata) (keyLower : Str) (value : Int) : Metadata :=
  { metadata with
    contextLength :=
      if contains keyLower "context_length" ∧ 0 < value then some (asU32 value)
      else metadata.contextLength
    mtpLayers :=
      if contains keyLower "nextn_predict_layers" ∧ 0 < value then some (asU32 value)
      else metadata.mtpLayers
    hasSwa := if isSwaKey keyLower then some (0 < value) else metadata.hasSwa }

def setU64 (metadata : Metadata) (keyLower : Str) (value : Nat) : Metadata :=
  { metadata with
    contextLength :=
      if contains keyLower "context_length" then some (asU32 value) else metadata.contextLength
    mtpLayers :=
      if contains keyLower "nextn_predict_layers" ∧ 0 < value then some (asU32 value)
      else metadata.mtpLayers
    hasSwa := if isSwaKey keyLower then some (0 < value) else metadata.hasSwa }

def setI64 (metadata : Metadata) (keyLower : Str) (value : Int) : Metadata :=
  { metadata with
    contextLength :=
      if contains keyLower "context_length" ∧ 0 < value then some (asU32 value)
      else metadata.contextLength
    mtpLayers :=
      if contains keyLower "nextn_predict_layers" ∧ 0 < value then some (asU32 value)
      else metadata.mtpLayers
    hasSwa := if isSwaKey keyLower then some (0 < value) else metadata.hasSwa }

end Metadata

/-! ### The summary -/

structure ModelCapabilities where
  metadataComplete : Bool
  isEmbeddingModel : Option Bool
  isRerankerModel : Option Bool
  hasBuiltinMtp : Bool
  mtpLayers : Option Nat
  hasSwa : Option Bool
  isVisionModel : Bool
  visionStatus : Option String
  visionEvidence : List String
  visionFamily : Option Str
  isMmproj : Bool
  projectorFamily : Option Str
  projectorType : Option Str
  modelName : Option Str
  modelBasename : Option Str
  modelRepo : Option Str
  baseModelName : Option Str
  baseModelRepo : Option Str
  tags : List Str
deriving DecidableEq

structure GgufMetadataSummary where
  architecture : Option Str
  contextLength : Option Nat
  quantType : Option Str
  capabilities : ModelCapabilities
deriving DecidableEq

/-- `str::eq_ignore_ascii_case`. -/
def eqIgnoreAsciiCase (a b : Str) : Bool := a.map Char.toLower == b.map Char.toLower

def Metadata.summary (names : Names) (metadata : Metadata) : GgufMetadataSummary :=
  let fileKind := classifyGgufFile names
  let family := (metadata.architecture.bind (detectModelFamily names)).or metadata.familyHint
  let isMmproj := fileKind == "mmproj" ||
    metadata.generalType.any (eqIgnoreAsciiCase · "mmproj".toList) ||
    metadata.hasProjectorKey && metadata.architecture.isNone
  let tagsHaveVision := metadata.tags.any (tagIndicatesVision names)
  let familyHasVision := isVisionFamily family
  let isVisionModel := !isMmproj && (metadata.hasVisionKey || tagsHaveVision ||
    metadata.templateHasVision || familyHasVision)
  let visionEvidence :=
    (if metadata.hasVisionKey && !isMmproj then ["metadata-key"] else []) ++
    (if tagsHaveVision then ["general.tags"] else []) ++
    (if metadata.templateHasVision then ["chat-template"] else []) ++
    (if familyHasVision then ["architecture-family"] else []) ++
    (if metadata.projectorHasVision then ["projector-vision-encoder"] else [])
  let inferredFamily := (metadata.architecture.bind (inferVisualFamily names)).or
    ((metadata.modelName.bind (inferVisualFamily names)).or
      (metadata.baseModelName.bind (inferVisualFamily names)))
  let workload := names.workload metadata.architecture
  { architecture := metadata.architecture
    contextLength := metadata.contextLength
    quantType := names.quantType metadata.fileType
    capabilities := {
      metadataComplete := true
      isEmbeddingModel := some (workload == .embedding)
      isRerankerModel := some (workload == .reranker)
      hasBuiltinMtp := 0 < metadata.mtpLayers.getD 0
      mtpLayers := metadata.mtpLayers
      hasSwa := metadata.hasSwa
      isVisionModel
      visionStatus := some (if isVisionModel then "confirmed" else "unknown")
      visionEvidence
      visionFamily := if isVisionModel then family.or inferredFamily else none
      isMmproj
      projectorFamily :=
        if isMmproj then (metadata.projectorType.bind (inferVisualFamily names)).or family
        else none
      projectorType := metadata.projectorType
      modelName := metadata.modelName
      modelBasename := metadata.modelBasename
      modelRepo := metadata.modelRepo
      baseModelName := metadata.baseModelName
      baseModelRepo := metadata.baseModelRepo
      tags := metadata.tags } }

/-! ### The parser -/

def readEntry (names : Names) (metadata : Metadata) : Parse Metadata := do
  let key ← readGgufString
  let keyLower := names.toLowercase key
  let valueType ← readU32
  let metadata := metadata.sawKey names keyLower
  match valueType with
  | 7 => return metadata.setBool keyLower (← readBool)
  | 8 => return metadata.setString names keyLower (← readGgufString)
  | 4 => return metadata.setU32 key keyLower (← readU32)
  | 5 => return metadata.setI32 keyLower (← readI32)
  | 10 => return metadata.setU64 keyLower (← readU64)
  | 11 => return metadata.setI64 keyLower (← readI64)
  | valueType =>
    if valueType = 9 ∧ keyLower = "general.tags".toList then
      return { metadata with tags := ← readGgufStringArray }
    else
      skipGgufValue valueType
      return metadata

def magic : Bytes := "GGUF".toList.map fun c => UInt8.ofNat c.toNat

def parseGgufMetadataReader (names : Names) : Parse GgufMetadataSummary := do
  let fileSize := (← get).file.length
  if fileSize < 24 then throw .fileTooSmall
  else
    let header ← readExact 24
    let metadataKvCount := number (header.drop 16)
    if header.take 4 ≠ magic then throw .notGguf
    else if maxGgufMetadataItems < metadataKvCount then throw .tooManyEntries
    else if (fileSize - 24) / 12 < metadataKvCount then throw .entriesExceedFile
    else return (← loop (readEntry names) metadataKvCount (.start names)).summary names

/-- The file does not change while it is read. -/
def parseGgufMetadata (names : Names) (source : Source UInt8) :
    Except Failure GgufMetadataSummary :=
  match parseGgufMetadataReader names ⟨.new source source.items.length, {}⟩ with
  | .error e => .error e
  | .ok (summary, s) =>
    if source.items.length < s.file.position then .error .beyondFile else .ok summary

end LlamaServerManager.Gguf
