import LlamaServerManager.Lib.Crash
import LlamaServerManager.References.Paths
import Mathlib

/-!
The global configuration on disk: `persist_global_config_unlocked` and the two loaders of
`commands/config.rs`, and `atomic_write` of `persistence.rs`.

* `GlobalConfig`, `normalizeLoaded` — a configuration, and what every loader makes of it.
* `Disk` — the configuration file and its backup; each file step can fail or be the last.
* `persistGlobalConfigUnlocked`, `loadGlobalConfigFile`, `loadGlobalConfigForUpdateUnlocked`.
-/

namespace LlamaServerManager.Config

open Lib Lib.Text
open References (Str Host pathIdentityKey)
open Lib.Prog (view lift raise attempt onError)

/-! ### Configurations -/

/-- `InstanceConfig`: what the migration of load modes reads, and the rest of it. -/
structure InstanceConfig (R : Type) where
  loadMode : Str
  mlock : Bool
  noMmap : Bool
  directIo : Bool
  explicitOverrides : Option (List Str)
  rest : R

structure RunningInstance (R S : Type) where
  launchConfig : Option (InstanceConfig R)
  rest : S

/-- `GlobalConfig`; a `HashMap` is what it has at each key. -/
structure GlobalConfig (R S O : Type) where
  configLoadWarning : Option String
  instances : Str → Option (InstanceConfig R)
  modelDirs : List Str
  engineDirs : List Str
  running : Str → Option (RunningInstance R S)
  rest : O

/-- The system and the packages: path identities, and `serde_json` for this type (`encode` writes
a configuration without its warning). -/
structure Setup (R S O : Type) where
  host : Host
  /-- The rest of the default configuration. -/
  defaults : O
  encode : GlobalConfig R S O → Except String String
  decode : String → Except String (GlobalConfig R S O)
  decode_encode : ∀ {config json}, encode config = .ok json →
    decode json = .ok { config with configLoadWarning := none }

section Normalize

variable {R S O : Type} (setup : Setup R S O)

/-- Each directory for the first time. -/
def distinctDirs (host : Host) (seen : List Str) : List Str → List Str
  | [] => []
  | directory :: directories =>
    let key := pathIdentityKey host directory
    if key ∈ seen then distinctDirs host seen directories
    else directory :: distinctDirs host (key :: seen) directories

def dedupePathDirs (host : Host) (directories : List Str) : List Str :=
  distinctDirs host [] (directories.filter fun directory => trimChars directory ≠ [])

def normalizeModelDirs (host : Host) (modelDirs : List Str) : List Str :=
  let modelDirs := dedupePathDirs host modelDirs
  if modelDirs = [] then ["models".toList] else modelDirs

def legacyFields : List Str := ["mlock".toList, "no_mmap".toList, "direct_io".toList]

/-- Whether an old flag was chosen; without a list of choices, where it is set. -/
def legacyIsExplicit (config : InstanceConfig R) (field : Str) (fallback : Bool) : Bool :=
  match config.explicitOverrides with
  | none => fallback
  | some overrides => field ∈ overrides

/-- `migrate_legacy_load_mode`, without telling whether anything changed. -/
def migrateLegacyLoadMode (config : InstanceConfig R) : InstanceConfig R :=
  let mode := (trimChars config.loadMode).map Char.toLower
  let mode :=
    if mode ≠ [] then mode
    else if config.directIo && legacyIsExplicit config "direct_io".toList config.directIo then
      "dio".toList
    else if legacyIsExplicit config "no_mmap".toList config.noMmap then
      if config.noMmap then "none".toList else "mmap".toList
    else if config.mlock && legacyIsExplicit config "mlock".toList config.mlock then
      "mlock".toList
    else mode
  if mode = [] then { config with loadMode := mode }
  else { config with
    loadMode := mode
    mlock := false
    noMmap := false
    directIo := false
    explicitOverrides := config.explicitOverrides.map fun overrides =>
      let overrides := overrides.filter (· ∉ legacyFields)
      if "load_mode".toList ∈ overrides then overrides else overrides ++ ["load_mode".toList] }

def migrateGlobalLoadModes (config : GlobalConfig R S O) : GlobalConfig R S O :=
  { config with
    instances := fun id => (config.instances id).map migrateLegacyLoadMode
    running := fun id => (config.running id).map fun running =>
      { running with launchConfig := running.launchConfig.map migrateLegacyLoadMode } }

/-- What both loaders make of a configuration. -/
def normalizeLoaded (config : GlobalConfig R S O) : GlobalConfig R S O :=
  migrateGlobalLoadModes { config with
    modelDirs := normalizeModelDirs setup.host config.modelDirs
    engineDirs := dedupePathDirs setup.host config.engineDirs }

def defaultGlobalConfig : GlobalConfig R S O where
  configLoadWarning := none
  instances _ := none
  modelDirs := normalizeModelDirs setup.host []
  engineDirs := []
  running _ := none
  rest := setup.defaults

end Normalize

/-! ### Files -/

/-- `instances.json` and `instances.json.bak`. Temporary files have new names, and nothing reads
one. -/
structure Disk where
  primary : Option ByteArray
  backup : Option ByteArray
deriving DecidableEq

inductive Slot where
  | json
  | bak
deriving DecidableEq, Repr

namespace Disk

def get (disk : Disk) : Slot → Option ByteArray
  | .json => disk.primary
  | .bak => disk.backup

def put (disk : Disk) (slot : Slot) (contents : ByteArray) : Disk :=
  match slot with
  | .json => { disk with primary := some contents }
  | .bak => { disk with backup := some contents }

end Disk

abbrev Persist := Prog Disk String

/-- A step that leaves both files as they are. -/
def pass (fault : String) : Persist Unit := .call .ok fault id

/-- A rename over a file. -/
def replacePathRaw (slot : Slot) (contents : ByteArray) : Persist Unit :=
  .call (fun disk => .ok (disk.put slot contents)) "failed to replace" id

/-- The copy of a file takes the place of its backup. -/
def rotate (backup : Slot) (contents : ByteArray) : Persist Unit := do
  pass "failed to prepare backup"
  pass "failed to protect file"
  pass "failed to sync"
  replacePathRaw backup contents
  pass "failed to protect file"
  pass "failed to sync parent directory"

/-- The backup of a file that is to be replaced. -/
def backUp (disk : Disk) (destination : Slot) : Option Slot → Persist Unit
  | none => pure ()
  | some slot =>
    match disk.get destination with
    | none => pure ()
    | some current => do
      pass "failed to create backup directory"
      pass "failed to protect directory"
      onError (rotate slot current) (pass "failed to remove")

/-- `replace_file`, from a temporary file with `contents`. -/
def replaceFile (destination : Slot) (contents : ByteArray) (backup : Option Slot) :
    Persist Unit := do
  pass "replacement source is not a file"
  pass "failed to create directory"
  pass "failed to protect directory"
  pass "failed to protect file"
  pass "failed to sync"
  let disk ← view id
  backUp disk destination backup
  replacePathRaw destination contents
  pass "failed to protect file"
  pass "failed to sync parent directory"

def atomicWrite (path : Slot) (contents : ByteArray) (backup : Option Slot) : Persist Unit := do
  pass "failed to create directory"
  pass "failed to protect directory"
  onError (do
    pass "failed to create temporary file"
    pass "failed to write temporary file"
    pass "failed to flush temporary file"
    pass "failed to sync temporary file"
    pass "failed to protect file"
    replaceFile path contents backup) (pass "failed to remove")

inductive ReadError where
  | notFound
  | invalidData
deriving DecidableEq, Repr

def ReadError.text : ReadError → String
  | .notFound => "No such file or directory (os error 2)"
  | .invalidData => "stream did not contain valid UTF-8"

/-- `fs::read_to_string`. -/
def readToString : Option ByteArray → Except ReadError String
  | none => .error .notFound
  | some contents =>
    match String.fromUTF8? contents with
    | some text => .ok text
    | none => .error .invalidData

/-! ### Persisting and loading -/

section Operations

variable {R S O : Type} (setup : Setup R S O)

/-- The configuration that a file holds. -/
def configOf (contents : Option ByteArray) : Option (GlobalConfig R S O) :=
  (readToString contents).toOption.bind fun json => (setup.decode json).toOption

/-- Content that is on disk already gets a backup, where there is none. -/
def backUpUnchanged (disk : Disk) : Persist Unit :=
  match disk.backup, disk.primary with
  | none, some contents => atomicWrite .bak contents none
  | _, _ => pure ()

def persistGlobalConfigUnlocked (global : GlobalConfig R S O) : Persist Bool := do
  let json ← lift ((setup.encode global).mapError ("序列化失败: " ++ ·))
  let disk ← view id
  if (readToString disk.primary).toOption = some json then
    backUpUnchanged disk
    return false
  else
    let primaryIsValid := (configOf setup disk.primary).isSome
    let written ← attempt
      (atomicWrite .json json.toUTF8 (if primaryIsValid then some .bak else none))
    match written with
    | .ok _ => return true
    | .error error => raise ("保存失败: " ++ error)

def loadGlobalConfigFile (disk : Disk) : GlobalConfig R S O :=
  normalizeLoaded setup <|
    match readToString disk.primary with
    | .ok json =>
      match setup.decode json with
      | .ok config => config
      | .error primaryError =>
        match configOf setup disk.backup with
        | some config =>
          { config with configLoadWarning := some ("主配置损坏，已从备份恢复：" ++ primaryError) }
        | none =>
          { defaultGlobalConfig setup with
            configLoadWarning := some ("主配置与备份均损坏，已进入只读恢复状态：" ++ primaryError) }
    | .error .notFound =>
      match configOf setup disk.backup with
      | some config => { config with configLoadWarning := some "主配置缺失，已从备份恢复" }
      | none => defaultGlobalConfig setup
    | .error error =>
      { defaultGlobalConfig setup with
        configLoadWarning := some ("读取主配置失败：" ++ error.text) }

def loadGlobalConfigForUpdateUnlocked : Persist (GlobalConfig R S O) := do
  let disk ← view id
  match configOf setup disk.primary with
  | some config => return normalizeLoaded setup config
  | none =>
    match readToString disk.backup with
    | .ok contents => do
      let config ← lift ((setup.decode contents).mapError ("解析配置备份失败: " ++ ·))
      let repaired ← attempt (atomicWrite .json contents.toUTF8 none)
      match repaired with
      | .ok _ => return normalizeLoaded setup config
      | .error error => raise ("修复主配置失败: " ++ error)
    | .error _ =>
      match readToString disk.primary with
      | .error .notFound => return defaultGlobalConfig setup
      | .error error => raise ("读取配置失败: " ++ error.text)
      | .ok _ => raise "主配置损坏且没有有效备份"

end Operations

end LlamaServerManager.Config
