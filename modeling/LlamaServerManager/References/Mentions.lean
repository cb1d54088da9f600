import LlamaServerManager.References.Scanner

/-!
What it means that a configuration uses a model, without the scanner: the paths
it names, the directories it gives and the preset files it leads to.

A path is named alone in a field, or in a list `path:scale, path:scale`. A
preset is reached from a field, an argument or another preset. `LegibleUse` is
the part of `Uses` that survives the scanner's quote handling and its reading of
relative paths.
-/

namespace LlamaServerManager.References

open Lib Lib.Text

/-! ### Named paths -/

/-- A path to a model file, free of the characters that delimit paths. -/
structure IsModelPath (path : Str) : Prop where
  ends : gguf <:+ path
  plain : ∀ c ∈ path, c ≠ ',' ∧ c ≠ ';' ∧ c ≠ '=' ∧ c ≠ '"'

/-- An element of a list of paths: white space, the path, and its scale. -/
structure ListedPath where
  lead : Str
  path : Str
  scale : Option Str

namespace ListedPath

def text (listed : ListedPath) : Str :=
  listed.lead ++ listed.path ++ listed.scale.elim [] (':' :: ·)

structure WellFormed (listed : ListedPath) : Prop where
  lead : ∀ c ∈ listed.lead, isWhitespace c
  path : IsModelPath listed.path
  scale : ∀ scale ∈ listed.scale, ∀ c ∈ scale, c ≠ ',' ∧ ¬ isQuote c

end ListedPath

/-- The paths of a list, separated by commas. -/
def listText (listed : List ListedPath) : Str := [','].intercalate (listed.map ListedPath.text)

/-- Where a path is named: the value it is in, the elements before it, and
whether a preset file says so. -/
structure Mention where
  value : Str
  before : List ListedPath
  path : Str
  preset : Bool

/-! ### Where values come from -/

/-- The token lists of a configuration. -/
def IsArguments (instance_ : InstanceConfig) (tokens : List Str) : Prop :=
  customTokens instance_ = .ok tokens ∨
    trimChars instance_.manualCommand ≠ [] ∧ manualTokens instance_ = .ok tokens

/-- An option of that kind has the value: in the next token or behind `=`. -/
def OptionValue (tokens : List Str) (kind : ModelArgumentKind) (value : Str) : Prop :=
  ∃ before flag after, modelArgumentKind flag = some kind ∧
    (tokens = before ++ flag :: value :: after ∨ tokens = before ++ (flag ++ '=' :: value) :: after)

/-- A line of a preset sets the key. -/
def PresetEntry (presetPath contents key value : Str) : Prop :=
  ∃ line ∈ linesOf (normalizeNewlines contents), ∃ lineNumber,
    presetLine presetPath lineNumber line = .ok (some (key, value))

variable (host : Host)

/-- The preset files reachable from a configuration. -/
inductive PresetReached (instance_ : InstanceConfig) : Str → Prop where
  | field : trimChars instance_.modelsPreset ≠ [] →
      PresetReached instance_ (presetFile host (trimChars instance_.modelsPreset))
  | option {tokens value} : IsArguments instance_ tokens → OptionValue tokens .presetFile value →
      PresetReached instance_ (presetFile host (trimChars value))
  | nested {path contents key value} : PresetReached instance_ path →
      host.readToString path = .ok contents → PresetEntry path contents key value →
      presetArgumentKind key = some .presetFile → unquote value ≠ [] →
      PresetReached instance_ (presetFile host (unquote value))

/-- The names under which the scanner can look for presets. It takes a name in a preset both as it
stands and joined with the working directory. -/
inductive PresetNamed (instance_ : InstanceConfig) : Str → Prop where
  | field : trimChars instance_.modelsPreset ≠ [] →
      PresetNamed instance_ (trimChars instance_.modelsPreset)
  | option {tokens value} : IsArguments instance_ tokens → OptionValue tokens .presetFile value →
      PresetNamed instance_ (trimChars value)
  | nested {name contents key value text} : PresetNamed instance_ name →
      host.readToString (presetFile host name) = .ok contents →
      PresetEntry (presetFile host name) contents key value →
      presetArgumentKind key = some .presetFile → unquote value ≠ [] →
      text ∈ [unquote value, host.fullPath (unquote value)] → PresetNamed instance_ text

/-- The values that may be lists of paths; `true` for those of presets. -/
inductive ModelValue (instance_ : InstanceConfig) : Bool → Str → Prop where
  | loraScaled : ModelValue instance_ false instance_.loraScaled
  | option {tokens value} : IsArguments instance_ tokens → OptionValue tokens .exactPath value →
      ModelValue instance_ false value
  | preset {path contents key value} : PresetReached host instance_ path →
      host.readToString path = .ok contents → PresetEntry path contents key value →
      presetArgumentKind key = some .exactPath → ModelValue instance_ true value

/-- The models directories, likewise. -/
inductive ModelsDirectory (instance_ : InstanceConfig) : Bool → Str → Prop where
  | field : trimChars instance_.modelsDir ≠ [] →
      ModelsDirectory instance_ false (trimChars instance_.modelsDir)
  | option {tokens value} : IsArguments instance_ tokens →
      OptionValue tokens .modelDirectory value →
      ModelsDirectory instance_ false (trimChars value)
  | preset {path contents key value} : PresetReached host instance_ path →
      host.readToString path = .ok contents → PresetEntry path contents key value →
      presetArgumentKind key = some .modelDirectory → unquote value ≠ [] →
      ModelsDirectory instance_ true (unquote value)

/-- The configuration names the path there. -/
inductive Mentions (instance_ : InstanceConfig) : Mention → Prop where
  | field {path} : IsModelPath path →
      path ∈ [instance_.modelPath, instance_.draftModelPath, instance_.mmprojPath,
        instance_.loraPath] →
      Mentions instance_ { value := path, before := [], path, preset := false }
  | listed {preset value before listed after} : ModelValue host instance_ preset value →
      (∀ other ∈ before ++ listed :: after, other.WellFormed) →
      value = listText (before ++ listed :: after) →
      Mentions instance_ { value, before, path := listed.path, preset }

/-! ### Uses of a target -/

/-- A path with the name of a shard of the target's set, in the target's directory. -/
def InShardSet (target path : Str) : Prop :=
  ∃ left right leftDir rightDir,
    shardOf host path = some left ∧ shardOf host (host.resolved target) = some right ∧
      host.parent path = some leftDir ∧ host.parent (host.resolved target) = some rightDir ∧
      left.base = right.base ∧ left.total = right.total ∧
      host.enginePathIdentity leftDir = host.enginePathIdentity rightDir

/-- The path is canonically the target or another shard of its set. -/
def Means (target path : Str) : Prop :=
  host.enginePathIdentity path = host.enginePathIdentity target ∨
    ∃ shard, InShardSet host target shard ∧
      host.enginePathIdentity path = host.enginePathIdentity shard

/-- The configuration uses the target. -/
inductive Uses (instance_ : InstanceConfig) (target : Str) : Prop where
  | model {mention} : Mentions host instance_ mention →
      Means host target (host.fullPath mention.path) → Uses instance_ target
  | directory {preset directory} : ModelsDirectory host instance_ preset directory →
      pathIsWithin host (host.resolved target) (host.resolved (host.fullPath directory)) →
      Uses instance_ target

/-- The scanner's quote handling leaves the path alone: the path begins with
neither white space nor an apostrophe, and unless it is the whole value, it has
no apostrophe and the paths before it have an even number of them. -/
structure Legible (mention : Mention) : Prop where
  begins : ∀ c ∈ mention.path.head?, ¬ isWhitespace c ∧ c ≠ '\''
  apart : mention.value = mention.path ∨
    '\'' ∉ mention.path ∧
      ((mention.before.map ListedPath.path).flatten.count '\'') % 2 = 0

/-- As it is looked at in the file system: only paths of presets are taken from
the working directory. -/
def lookedAt (preset : Bool) (path : Str) : Str := if preset then host.fullPath path else path

/-- A use of the target that the scanner can tell: the path is legible, and as
it is looked at it is canonically the target, or has itself the name and the
directory of a shard. -/
inductive LegibleUse (instance_ : InstanceConfig) (target : Str) : Prop where
  | model {mention} : Mentions host instance_ mention → Legible mention →
      host.enginePathIdentity (lookedAt host mention.preset mention.path) =
          host.enginePathIdentity target ∨
        InShardSet host target (lookedAt host mention.preset mention.path) →
      LegibleUse instance_ target
  | directory {preset directory} : ModelsDirectory host instance_ preset directory →
      pathIsWithin host (host.resolved target)
        (host.resolved (lookedAt host preset directory)) →
      LegibleUse instance_ target

/-- What is read through two paths of one identity is the same, for a preset that the
configuration reaches and one that the scanner can look at: it visits a file once for each
identity. -/
def OneFilePerIdentity (instance_ : InstanceConfig) : Prop :=
  ∀ path, PresetReached host instance_ path → ∀ name, PresetNamed host instance_ name →
    ∀ contents contents',
      host.enginePathIdentity (presetFile host name) = host.enginePathIdentity path →
        host.readToString path = .ok contents →
        host.readToString (presetFile host name) = .ok contents' → contents = contents'

/-- Whoever uses one of the targets uses one legibly. -/
def Recognizable (targets : List Str) (instance_ : InstanceConfig) : Prop :=
  (∃ target ∈ targets, Uses host instance_ target) →
    ∃ target ∈ targets, LegibleUse host instance_ target

/-- The arguments are split and the preset files read. -/
structure ReadInFull (instance_ : InstanceConfig) : Prop where
  custom : ∃ tokens, customTokens instance_ = .ok tokens
  manual : trimChars instance_.manualCommand ≠ [] → ∃ tokens, manualTokens instance_ = .ok tokens
  presets : ∀ path, PresetReached host instance_ path → ∃ file metadata contents,
    host.enginePathIdentity file = host.enginePathIdentity path ∧
      host.metadata file = .ok metadata ∧ metadata.isFile ∧ metadata.len ≤ maxModelPresetBytes ∧
      host.readToString file = .ok contents

/-- The configurations that are asked: the saved ones, and those that run. -/
def Asked (instances : List (Str × InstanceConfig)) (running : List (Str × RunningInstance))
    (instance_ : InstanceConfig) : Prop :=
  (∃ entry ∈ instances, entry.2 = instance_) ∨
    ∃ entry ∈ running, entry.2.launchConfig = some instance_

/-- Every configuration that uses a target is named, running ones by their launch
configuration. -/
structure NamesEveryUser (instances : List (Str × InstanceConfig))
    (running : List (Str × RunningInstance)) (targets names : List Str) : Prop where
  saved : ∀ entry ∈ instances, (∃ target ∈ targets, Uses host entry.2 target) →
    entry.2.name ∈ names
  running : ∀ entry ∈ running, ∃ launchConfig, entry.2.launchConfig = some launchConfig ∧
    ((∃ target ∈ targets, Uses host launchConfig target) →
      runningName entry.1 launchConfig ∈ names)

end LlamaServerManager.References
