import LlamaServerManager.Engines.Tree

/-!
The engine scan: `scan_engines` and the cached path of `commands/scanner.rs`, and how its outcome
is committed (`apply_engine_scan` of `commands/model_inventory.rs`).

* `Inventory` — the rows of `engine_inventory`, and of `inventory_directories` for engines.
* `visitRoot` — one root: its engines are taken from the inventory, or found.
* `scanEngines` — a whole scan with its commit.
-/

namespace LlamaServerManager.Engines

open References

/-! ### The inventory -/

/-- A row of `engine_inventory`; all are of the current cache version. -/
structure InventoryEngineRecord where
  id : Str
  name : Str
  dir : Str
  exe : Str
  version : Str
  backend : Str
  exeMtime : Nat
  scanRoot : Str
deriving DecidableEq, Repr

structure InventoryDirectoryRecord where
  path : Str
  scanRoot : Str
  signature : Str
deriving DecidableEq, Repr

structure Inventory where
  engines : List InventoryEngineRecord
  directories : List InventoryDirectoryRecord
deriving DecidableEq, Repr

def Inventory.empty : Inventory := ⟨[], []⟩

def InventoryEngineRecord.fromEngine (engine : EngineInfo) (exeMtime : Nat) (scanRoot : Str) :
    InventoryEngineRecord where
  id := engine.id
  name := engine.name
  dir := engine.dir
  exe := engine.exe
  version := engine.version
  backend := engine.backend
  exeMtime := exeMtime
  scanRoot := scanRoot

def InventoryEngineRecord.toEngineInfo (files : Files) (record : InventoryEngineRecord) :
    EngineInfo where
  kind := engineKind files record.exe
  id := record.id
  name := record.name
  dir := record.dir
  exe := record.exe
  version := record.version
  backend := record.backend

/-- `INSERT … ON CONFLICT DO UPDATE`, where `key` conflicts. -/
def upsert {α : Type} (key : α → Str) (rows : List α) (row : α) : List α :=
  rows.filter (fun old => key old ≠ key row) ++ [row]

/-! ### One root -/

/-- The work of a scan so far; the sets are lists. -/
structure EngineScanWork where
  engines : List EngineInfo
  records : List InventoryEngineRecord
  directoryRecords : List InventoryDirectoryRecord
  scanRootKeys : List Str
  /-- Executables, by their identity. -/
  seen : List Str
  seenInventoryIds : List Str
  seenDirectoryKeys : List Str

def EngineScanWork.empty : EngineScanWork := ⟨[], [], [], [], [], [], []⟩

section Root

variable (files : Files)

/-- The rows that `load_engine_index_from_connection` accepts. -/
def loadEngineIndex (inventory : Inventory) : List InventoryEngineRecord :=
  inventory.engines.filter fun record => files.isFile record.exe

/-- The id of an engine is noted, and its row. -/
def EngineScanWork.push (work : EngineScanWork) (engine : EngineInfo) (exeMtime : Nat)
    (scanRoot : Str) : EngineScanWork :=
  { work with
    engines := work.engines ++ [engine]
    records := work.records ++ [.fromEngine engine exeMtime scanRoot]
    seenInventoryIds := engine.id :: work.seenInventoryIds }

def reuseCachedEnginesForRoot (scanRootKey : Str) (inventory : List InventoryEngineRecord)
    (work : EngineScanWork) : EngineScanWork :=
  (inventory.filter fun record => record.scanRoot = scanRootKey).foldl (fun work record =>
    if record.id ∈ work.seenInventoryIds then work
    else work.push (record.toEngineInfo files) record.exeMtime scanRootKey) work

/-- What is recorded for an executable: the row of its engine where that is of the same time. -/
def indexedEngine (inventory : List InventoryEngineRecord) (dir exe : Str) : EngineInfo :=
  match inventory.find? fun record => record.id = engineId files dir exe with
  | some record =>
    if record.exeMtime = files.fileMtime exe then record.toEngineInfo files
    else buildEngineInfo files dir exe
  | none => buildEngineInfo files dir exe

def pushIndexedEngine (dir exe scanRootKey : Str) (inventory : List InventoryEngineRecord)
    (work : EngineScanWork) : EngineScanWork :=
  if engineId files dir exe ∈ work.seenInventoryIds then work
  else work.push (indexedEngine files inventory dir exe) (files.fileMtime exe) scanRootKey

/-- An executable that was found, unless it was before. -/
def visitExecutable (scanRootKey : Str) (inventory : List InventoryEngineRecord)
    (work : EngineScanWork) (found : Str × Str) : EngineScanWork :=
  let norm := files.enginePathIdentity found.2
  if norm ∈ work.seen then work
  else pushIndexedEngine files found.1 found.2 scanRootKey inventory
    { work with seen := norm :: work.seen }

def reusable (directories : List InventoryDirectoryRecord) (scanRootKey signature : Str) : Bool :=
  (directories.find? fun record => record.path = scanRootKey).any fun record =>
    record.signature = signature

/-- A root that was read. -/
def visitRoot (inventory : List InventoryEngineRecord) (directories : List InventoryDirectoryRecord)
    (work : EngineScanWork) (scanRootKey : Str) (inspection : EngineTreeInspection) :
    EngineScanWork :=
  let work := { work with
    scanRootKeys := scanRootKey :: work.scanRootKeys
    seenDirectoryKeys := scanRootKey :: work.seenDirectoryKeys
    directoryRecords :=
      work.directoryRecords ++ [⟨scanRootKey, scanRootKey, inspection.signature⟩] }
  if reusable directories scanRootKey inspection.signature then
    reuseCachedEnginesForRoot files scanRootKey inventory work
  else inspection.executables.foldl (visitExecutable files scanRootKey inventory) work

def scanRoot (inventory : List InventoryEngineRecord) (directories : List InventoryDirectoryRecord)
    (work : EngineScanWork) (root : Str) : Except String EngineScanWork := do
  let inspection ← inspectEngineTree files root maxEngineScanDepth
  return visitRoot files inventory directories work (files.canonicalKey root) inspection

end Root

/-! ### A scan -/

/-- A call of `scan_engines`, with the files it meets. -/
structure Call where
  files : Files
  paths : List Str
  /-- `require_authorized_engine_root`. -/
  authorize : Str → Except String Str
  /-- The order in which a `HashMap` gives its values. -/
  order : List InventoryEngineRecord → List InventoryEngineRecord
  order_perm : ∀ records, (order records).Perm records

/-- Each path for the first time. -/
def distinctRoots (files : Files) : List Str → List Str → List Str
  | _, [] => []
  | seen, path :: paths =>
    let key := pathIdentityKey files.toHost path
    if key ∈ seen then distinctRoots files seen paths
    else path :: distinctRoots files (key :: seen) paths

/-- The roots that a call reads: the application's own first. -/
def Call.roots (call : Call) : Except String (List Str) := do
  let paths ← call.paths.mapM call.authorize
  let enginesDir := call.files.join call.files.dataDir "engines".toList
  let own := if call.files.pathExists enginesDir then [enginesDir] else []
  return own ++ (distinctRoots call.files [] paths).filter fun root =>
    call.files.pathExists root && call.files.isDir root

def pruneAbsent (scanRoots seen : List Str) (scanRoot key : Str) : Bool :=
  !(scanRoot ∈ scanRoots && key ∉ seen)

/-- `apply_engine_scan`: the rows of this scan, and of those before it what no scanned root had. -/
def applyEngineScan (inventory : Inventory) (work : EngineScanWork) : Inventory where
  engines := (work.records.foldl (upsert (·.id)) inventory.engines).filter fun row =>
    pruneAbsent work.scanRootKeys work.seenInventoryIds row.scanRoot row.id
  directories := (work.directoryRecords.foldl (upsert (·.path)) inventory.directories).filter
    fun row => pruneAbsent work.scanRootKeys work.seenDirectoryKeys row.scanRoot row.path

def scanEngines (call : Call) (inventory : Inventory) :
    Except String (List EngineInfo × Inventory) := do
  let roots ← call.roots
  let work ← roots.foldlM (scanRoot call.files
    (call.order (loadEngineIndex call.files inventory)) inventory.directories) .empty
  return (work.engines, applyEngineScan inventory work)

/-- The inventory after a call: as it was, where the call fails. -/
def Call.after (inventory : Inventory) (call : Call) : Inventory :=
  match scanEngines call inventory with
  | .ok (_, inventory) => inventory
  | .error _ => inventory

end LlamaServerManager.Engines
