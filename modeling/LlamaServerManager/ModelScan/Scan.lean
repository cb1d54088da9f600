import LlamaServerManager.ModelScan.Shards
import LlamaServerManager.Lib.Distinct
import LlamaServerManager.Lib.Tables

/-!
The model scan: `scan_models` of `commands/scanner.rs`, and how its outcome is committed
(`apply_model_scan` of `commands/model_inventory.rs`).

* `Inventory` — the rows of `model_inventory`, and of `inventory_directories` for models.
* `scanModelDirectoryIncremental` — one root: a tree is taken from the inventory, or a file of it
  is, or the file is left to the parser.
* `scanModels` — a whole scan with its commit. Scans run one after another (`MODEL_SCAN_LOCK`).
-/

namespace LlamaServerManager.ModelScan

open References

/-! ### The inventory -/

/-- A row of `model_inventory`; all are of the current cache version. The path is the path that is
displayed too. -/
structure InventoryModelRecord where
  path : FilePath
  scanRoot : Dir
  size : Nat
  mtime : Nat
  details : Details
  isShard : Bool
deriving DecidableEq

structure InventoryDirectoryRecord where
  path : Dir
  scanRoot : Dir
  signature : Str
deriving DecidableEq

structure Inventory where
  models : Lib.Table InventoryModelRecord.path
  directories : Lib.Table InventoryDirectoryRecord.path

def Inventory.empty : Inventory := ⟨.empty, .empty⟩

/-- `utils::parse_gguf_metadata` and the part of it that reads the name of the file. -/
structure Parser (Content : Type) where
  parse : Str → Content → Except String Gguf.GgufMetadataSummary
  quantTypeFromName : Str → Option Str
  /-- `quant_type_from_file_type` asks for the name first. -/
  quantType_of_name : ∀ {name content summary quantType}, parse name content = .ok summary →
    quantTypeFromName name = some quantType → summary.quantType = some quantType
  complete : ∀ {name content summary}, parse name content = .ok summary →
    summary.capabilities.metadataComplete = true

def Details.ofSummary (summary : Gguf.GgufMetadataSummary) : Details where
  architecture := summary.architecture
  contextLength := summary.contextLength
  quantType := summary.quantType
  capabilities := some summary.capabilities

section Parsing

variable {Content : Type} (parser : Parser Content)

/-- `normalize_quant_type_for_path`. -/
def Parser.named (path : FilePath) (details : Details) : Details :=
  { details with quantType := (parser.quantTypeFromName path.name).or details.quantType }

def InventoryModelRecord.toModelInfo (record : InventoryModelRecord) : ModelInfo where
  path := record.path
  size := record.size
  details := parser.named record.path record.details
  isShard := record.isShard

/-! ### One root -/

/-- A model with what `inventory_meta` has for its index, and whether `fresh_files` has that. -/
structure ScannedModel where
  model : ModelInfo
  scanRoot : Dir
  mtime : Nat
  fresh : Bool

abbrev ScannedModel.path (item : ScannedModel) : FilePath := item.model.path

/-- The work of a scan so far. A path was seen if one of the models has it, a directory if it has a
record. -/
structure Traversal where
  models : List ScannedModel
  directoryRecords : List InventoryDirectoryRecord

def Traversal.empty : Traversal := ⟨[], []⟩

/-- A model is noted unless its path was seen. -/
def Traversal.push (work : Traversal) (item : ScannedModel) : Traversal :=
  { work with models := Lib.keepNew ScannedModel.path work.models item }

def Traversal.note (work : Traversal) (key scanRootKey : Dir) (signature : Str) : Traversal :=
  { work with directoryRecords := work.directoryRecords ++ [⟨key, scanRootKey, signature⟩] }

/-- What `load_model_scan_indexes` has for a scan, in the order of its `HashMap`. -/
structure Indexes where
  inventory : List InventoryModelRecord
  directories : List InventoryDirectoryRecord

namespace Indexes

variable (indexes : Indexes)

/-- `index_cached_models_by_parent`. -/
def cachedByParent (dir : Dir) : List InventoryModelRecord :=
  indexes.inventory.filter fun record => record.path.dir = dir

/-- The inventory has a directory with this signature. -/
def unchanged (key : Dir) (signature : Str) : Bool :=
  (indexes.directories.find? fun record => record.path = key).any fun record =>
    record.signature = signature

end Indexes

/-- A regular file whose extension is `gguf` in any case, and that is not hidden; there is no letter
but the ASCII ones that has one of these in lower case. -/
def isModelFile (entry : DirectoryEntryFingerprint) : Bool :=
  entry.fileType = .file && (extension entry.name).map Char.toLower = "gguf".toList &&
    entry.name.head? ≠ some '.'

variable (indexes : Indexes) (scanRootKey : Dir)

def reusedModel (record : InventoryModelRecord) : ScannedModel where
  model := { record.toModelInfo parser with isShard := false }
  scanRoot := scanRootKey
  mtime := record.mtime
  fresh := false

/-- A file of a directory that is read: as its row, if that is of the same size and time. -/
def visitedModel (dir : Dir) (entry : DirectoryEntryFingerprint) : ScannedModel :=
  let path : FilePath := ⟨dir, entry.name⟩
  let unread : ScannedModel := ⟨⟨path, entry.size, .unknown, false⟩, scanRootKey, entry.mtime, true⟩
  match indexes.inventory.find? fun record => record.path = path with
  | some record =>
    if record.mtime = entry.mtime ∧ record.size = entry.size then
      { model := { record.toModelInfo parser with path, size := entry.size, isShard := false }
        scanRoot := scanRootKey
        mtime := entry.mtime
        fresh := false }
    else unread
  | none => unread

mutual

def reuseCachedModelsForTree (work : Traversal) : ModelDirectoryInspection → Traversal
  | .mk key signature _ children =>
    let work := work.note key scanRootKey signature
    let work := ((indexes.cachedByParent key).map (reusedModel parser scanRootKey)).foldl
      Traversal.push work
    reuseCachedModelsForTrees work children

def reuseCachedModelsForTrees (work : Traversal) : List ModelDirectoryInspection → Traversal
  | [] => work
  | tree :: trees => reuseCachedModelsForTrees (reuseCachedModelsForTree work tree) trees

end

mutual

def scanModelDirectoryIncremental (work : Traversal) : ModelDirectoryInspection → Traversal
  | .mk key signature entries children =>
    if indexes.unchanged key signature then
      reuseCachedModelsForTree parser indexes scanRootKey work (.mk key signature entries children)
    else
      let found := (entries.filter isModelFile).map (visitedModel parser indexes scanRootKey key)
      let work := found.foldl Traversal.push work
      (scanModelDirectoriesIncremental work children).note key scanRootKey signature

def scanModelDirectoriesIncremental (work : Traversal) :
    List ModelDirectoryInspection → Traversal
  | [] => work
  | tree :: trees =>
    scanModelDirectoriesIncremental (scanModelDirectoryIncremental work tree) trees

end

end Parsing

/-! ### A scan -/

/-- A call of `scan_models`, with the files it meets. -/
structure Call (Content : Type) where
  files : Files Content
  paths : List Str
  /-- A path that is relative is one of the application's directory. -/
  resolve : Str → Dir
  /-- `utils::get_default_models_dir`. -/
  defaultPath : Dir
  /-- The path that it gives is canonical. -/
  requireAuthorizedModelRoot : Dir → Except String Dir
  /-- The order in which a `HashMap` gives its values. -/
  order : List InventoryModelRecord → List InventoryModelRecord
  order_perm : ∀ records, (order records).Perm records

inductive FatalError where
  | missing (root : Dir)
  | notDirectory (root : Dir)
  | unread (root : Dir) (error : String)
deriving DecidableEq, Repr

inductive ScanFailure where
  | unauthorized (error : String)
  | fatal (errors : List FatalError)
  | noModels (warnings : List ScanWarning)
deriving DecidableEq, Repr

/-- What the roots so far gave. -/
structure Progress where
  work : Traversal
  scanRootKeys : List Dir
  fatalErrors : List FatalError
  warnings : List ScanWarning

def Progress.empty : Progress := ⟨.empty, [], [], []⟩

structure ModelScanWork where
  models : List ScannedModel
  directoryRecords : List InventoryDirectoryRecord
  scanRootKeys : List Dir
  warnings : List ScanWarning

namespace Call

variable {Content : Type} (parser : Parser Content) (call : Call Content)

/-- The default directory need not be there. -/
def authorize (path : Dir) : Except String Dir :=
  if path = call.defaultPath ∧ call.files.pathExists path = false then .ok path
  else call.requireAuthorizedModelRoot path

def roots : Except String (List Dir) := do
  let scanPaths := if call.paths = [] then [call.defaultPath] else call.paths.map call.resolve
  let scanPaths ← scanPaths.mapM call.authorize
  return Lib.distinct id scanPaths

/-- The rows whose files and directories are there. -/
def loadModelScanIndexes (inventory : Inventory) : Indexes where
  inventory := call.order (inventory.models.rows.filter fun record => call.files.isFile record.path)
  directories := inventory.directories.rows.filter fun record => call.files.isDir record.path

/-- One root. Each model that it adds counts as one of its files. -/
def scanRoot (indexes : Indexes) (progress : Progress) (root : Dir) : Progress :=
  if call.files.pathExists root = false then
    if root = call.defaultPath then progress
    else { progress with fatalErrors := progress.fatalErrors ++ [.missing root] }
  else if call.files.isDir root = false then
    { progress with fatalErrors := progress.fatalErrors ++ [.notDirectory root] }
  else
    let progress := { progress with scanRootKeys := root :: progress.scanRootKeys }
    match inspectModelTree call.files root with
    | .error error =>
      { progress with fatalErrors := progress.fatalErrors ++ [.unread root error] }
    | .ok (tree, warnings) =>
      let work := scanModelDirectoryIncremental parser indexes root progress.work tree
      let fileCount := work.models.length - progress.work.models.length
      { progress with
        work
        warnings := progress.warnings ++ warnings ++
          if fileCount = 0 then [.noModels root] else [] }

/-- What the parser says of a file. -/
def parse (path : FilePath) : Except String Gguf.GgufMetadataSummary :=
  parser.parse path.name (call.files.content path)

/-- What a file tells by itself. -/
def own (path : FilePath) : Details :=
  match call.parse parser path with
  | .ok summary => .ofSummary summary
  | .error _ => .unknown

def parseFresh (item : ScannedModel) : ScannedModel :=
  if item.fresh then { item with model := { item.model with details := call.own parser item.path } }
  else item

def parseWarning (item : ScannedModel) : Option ScanWarning :=
  if item.fresh then
    match call.parse parser item.path with
    | .ok _ => none
    | .error error => some (.notParsed item.path error)
  else none

/-- The models are marked before their rows are made of them. -/
def finish (progress : Progress) : Except ScanFailure ModelScanWork := do
  if progress.fatalErrors ≠ [] then
    throw (.fatal progress.fatalErrors)
  let parsed := progress.work.models.map (call.parseFresh parser)
  let warnings := progress.warnings ++ progress.work.models.filterMap (call.parseWarning parser)
  let models := parsed.map fun item =>
    { item with model := markModel (parsed.map (·.model)) item.model }
  if models = [] ∧ warnings ≠ [] then
    throw (.noModels warnings)
  return {
    models
    directoryRecords := progress.work.directoryRecords
    scanRootKeys := progress.scanRootKeys
    warnings }

def scanWork (inventory : Inventory) : Except ScanFailure ModelScanWork :=
  match call.roots with
  | .error error => .error (.unauthorized error)
  | .ok roots =>
    call.finish parser
      (roots.foldl (call.scanRoot parser (call.loadModelScanIndexes inventory)) .empty)

end Call

/-! ### The commit -/

def InventoryModelRecord.fromModel (item : ScannedModel) : InventoryModelRecord where
  path := item.model.path
  scanRoot := item.scanRoot
  size := item.model.size
  mtime := item.mtime
  details := item.model.details
  isShard := item.model.isShard

def ModelScanWork.records (work : ModelScanWork) : List InventoryModelRecord :=
  work.models.map .fromModel

/-- Not pruned: not of a root that was scanned, or seen there. -/
def keeps {α : Type} [DecidableEq α] (scanRoots : List Dir) (seen : List α) (scanRoot : Dir)
    (path : α) : Bool :=
  !(scanRoot ∈ scanRoots && path ∉ seen)

/-- `apply_model_scan`: the rows of this scan, and of those before it what no scanned root had. -/
def applyModelScan (inventory : Inventory) (work : ModelScanWork) : Inventory where
  models := (inventory.models.upsertAll work.records).filter fun row =>
    keeps work.scanRootKeys (work.models.map (·.path)) row.scanRoot row.path
  directories := (inventory.directories.upsertAll work.directoryRecords).filter fun row =>
    keeps work.scanRootKeys (work.directoryRecords.map (·.path)) row.scanRoot row.path

section Scans

variable {Content : Type} (parser : Parser Content)

def scanModels (call : Call Content) (inventory : Inventory) :
    Except ScanFailure (List ModelInfo × Inventory) := do
  let work ← call.scanWork parser inventory
  return (work.models.map (·.model), applyModelScan inventory work)

/-- The inventory after a call: as it was, where the call fails. -/
def Call.after (inventory : Inventory) (call : Call Content) : Inventory :=
  match scanModels parser call inventory with
  | .ok (_, inventory) => inventory
  | .error _ => inventory

/-- The inventory after calls on an empty one. -/
def inventoryAfter (calls : List (Call Content)) : Inventory :=
  calls.foldl (Call.after parser) .empty

end Scans

end LlamaServerManager.ModelScan
