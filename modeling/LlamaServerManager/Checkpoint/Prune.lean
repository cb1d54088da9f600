import LlamaServerManager.Checkpoint.Store
import Mathlib.Algebra.GroupWithZero.Nat

/-!
`prune_instance`: generations that do not load are removed, then the ones that were
not used for the longest time, until the rest fits; last, the pointer of every
fingerprint is set to its newest generation.

Three reads whose I/O errors the source swallows are taken as not failing: `exists`,
`read_usage`, and the loads from which the newest generation is chosen, which pass
over what does not load. The size of a manifest, which counts as 0 where it cannot
be asked for, is one of the tree likewise.
-/

namespace LlamaServerManager.Checkpoint

open Lib

/-- What pruning depends on besides its arguments: the clock, how directories are
listed, and what a removal that is cut short leaves. -/
structure PruneSetting where
  codec : Codec
  listing : Listing
  ready : Bool
  now : String
  kept : Path → Bool

def listDir (listing : Listing) (p : Path) (message : String) : Store (List String) :=
  Prog.read (fun fs => .ok (fs.readDir listing p)) (.io message)

/-! ### Scanning -/

/-- A generation that loads. -/
structure Prunable where
  lastUsed : Nat
  key : String
  bytes : Nat
  createdAt : Option Int
  dir : Path
deriving DecidableEq, Repr

/-- What a scan has found so far. -/
structure PruneScan where
  fingerprints : List String := []
  generations : List Prunable := []
  removed : Nat := 0
  usage : UsageFile := {}

def usageKey (fingerprint generationId : String) : String := fingerprint ++ "/" ++ generationId

/-- `timestamp_millis().max(0)` of an instant in nanoseconds. -/
def unixMillis (t : Int) : Nat := (t / 1000000).toNat

/-- A loaded generation, with its size and its last use. -/
def prunable (c : Codec) (usage : UsageFile) (key : String) (loaded : LoadedGeneration)
    (fs : Files) : Prunable :=
  let manifestSize :=
    match fs (loaded.generationDir ++ ["manifest.json"]) with
    | some (.file bytes) => bytes.length
    | _ => 0
  let createdAt := c.parseTime loaded.manifest.createdAt
  { key
    createdAt
    lastUsed := (usage.entries.lookup key).getD ((createdAt.map unixMillis).getD 0)
    bytes := min (loaded.manifest.payloadBytes + manifestSize) (2 ^ 64 - 1)
    dir := loaded.generationDir }

def removePendings (env : PruneSetting) (generations : Path) : List String → Store Unit
  | [] => pure ()
  | name :: names => do
    if (Text.stripPrefix ".pending-" name).any validateUuid then do
      let _ ← Prog.attempt (safeRemoveDirectory (generations ++ [name]) generations env.kept)
    removePendings env generations names

def cleanupPending (env : PruneSetting) (instanceId fingerprint : String) : Store Unit := do
  let (_, generations) ← ensureGenerationRoots env.ready instanceId fingerprint
  let names ← listDir env.listing generations "pending generation scan failed"
  removePendings env generations names

/-- What becomes of one generation. -/
def scanGeneration (env : PruneSetting) (usage : UsageFile) (instanceId fingerprint : String)
    (generations : Path) (name : String) (scan : PruneScan) : Store PruneScan := do
  let key := usageKey fingerprint name
  let loaded ← Prog.attempt
    (inspect (loadGeneration env.codec instanceId fingerprint generations name none))
  match loaded with
  | .ok loaded => do
    let found ← Prog.look (prunable env.codec usage key loaded)
    return { scan with generations := scan.generations ++ [found] }
  | .error _ => do
    let removed ← Prog.attempt
      (safeRemoveDirectory (generations ++ [name]) generations env.kept)
    return { scan with
      removed := if removed.toOption.isSome then scan.removed + 1 else scan.removed
      usage := { scan.usage with entries := scan.usage.entries.erase key } }

def scanGenerations (env : PruneSetting) (usage : UsageFile) (instanceId fingerprint : String)
    (generations : Path) : List String → PruneScan → Store PruneScan
  | [], scan => pure scan
  | name :: names, scan => do
    if validateUuid name then do
      let scan ← scanGeneration env usage instanceId fingerprint generations name scan
      scanGenerations env usage instanceId fingerprint generations names scan
    else scanGenerations env usage instanceId fingerprint generations names scan

/-- The generations of a fingerprint whose directories are in order. -/
def scanListed (env : PruneSetting) (usage : UsageFile) (instanceId fingerprint : String)
    (generations : Path) (scan : PruneScan) : Store PruneScan := do
  let _ ← Prog.attempt (cleanupPending env instanceId fingerprint)
  let names ← Prog.attempt (listDir env.listing generations "generation scan failed")
  match names with
  | .error _ => pure scan
  | .ok names => scanGenerations env usage instanceId fingerprint generations names scan

def scanFingerprint (env : PruneSetting) (usage : UsageFile) (instanceId : String) (root : Path)
    (fingerprint : String) (scan : PruneScan) : Store PruneScan := do
  let there ← Prog.attempt (inspect (validateDirectory (root ++ [fingerprint])))
  match there with
  | .error _ => pure scan
  | .ok _ => do
    let scan := { scan with fingerprints := scan.fingerprints ++ [fingerprint] }
    let generations := root ++ [fingerprint, "generations"]
    let listed ← Prog.attempt (inspect (validateDirectory generations))
    match listed with
    | .error _ => pure scan
    | .ok _ => scanListed env usage instanceId fingerprint generations scan

def scanFingerprints (env : PruneSetting) (usage : UsageFile) (instanceId : String) (root : Path) :
    List String → PruneScan → Store PruneScan
  | [], scan => pure scan
  | name :: names, scan => do
    if isLowerHexDigest name then do
      let scan ← scanFingerprint env usage instanceId root name scan
      scanFingerprints env usage instanceId root names scan
    else scanFingerprints env usage instanceId root names scan

/-! ### Removing -/

/-- The first of the newest generations. -/
def newestPrunable : List Prunable → Option (Int × Prunable)
  | [] => none
  | g :: gs =>
    match g.createdAt, newestPrunable gs with
    | some t, some (t', g') => if t < t' then some (t', g') else some (t, g)
    | some t, none => some (t, g)
    | none, rest => rest

/-- Without a generation to keep, the newest one is kept if it fits. -/
def protectedKeys (explicit : List String) (generations : List Prunable) (limit : Nat) :
    List String :=
  if explicit.isEmpty then
    match newestPrunable generations with
    | some (_, g) => if g.bytes ≤ limit then [g.key] else []
    | none => []
  else explicit

/-- What is left: the bytes, the number of generations removed, and the keys still used. -/
structure PruneRest where
  remaining : Nat
  removed : Nat
  usage : UsageFile
  keys : List String

/-- The generations in the order of their last use, until the rest fits. -/
def removeUnused (env : PruneSetting) (kept : List String) (limit : Nat) :
    List Prunable → PruneRest → Store PruneRest
  | [], rest => pure rest
  | g :: gs, rest =>
    if rest.remaining ≤ limit then pure rest
    else if g.key ∈ kept then removeUnused env kept limit gs rest
    else do
      safeRemoveDirectory g.dir g.dir.dropLast env.kept
      removeUnused env kept limit gs
        { remaining := rest.remaining - g.bytes
          removed := rest.removed + 1
          usage := { rest.usage with entries := rest.usage.entries.erase g.key }
          keys := rest.keys.filter (· ≠ g.key) }

/-! ### Pointers -/

/-- The first of the newest generations that load. -/
def newestLoaded : List (Int × LoadedGeneration) → Option LoadedGeneration
  | [] => none
  | g :: gs => some ((gs.foldl (fun best h => if best.1 < h.1 then h else best) g).2)

def writePointer (env : PruneSetting) (root : Path) (loaded : LoadedGeneration) : Store Unit := do
  let bytes ← inspect (readBounded (loaded.generationDir ++ ["manifest.json"]) maxManifestBytes)
  let latest : LatestPointer :=
    { schemaVersion := 1
      generationId := loaded.manifest.generationId
      manifestSha256 := env.codec.sha256 bytes
      updatedAt := env.now }
  let latestBytes ← Prog.lift
    ((env.codec.encodeLatest latest).elim
      (.error (.manifest "latest pointer serialization failed")) .ok)
  atomicWrite (root ++ ["latest.json"]) latestBytes "latest pointer persistence failed"

def removePointer (root : Path) : Store Unit := do
  let there ← Prog.read (fun fs => .ok (fs (root ++ ["latest.json"])).isSome)
    (.io "latest pointer inspection failed")
  if there then do
    let _ ← inspect (validateRegularFile (root ++ ["latest.json"]))
    change (fun fs => some (Function.update fs (root ++ ["latest.json"]) none))
      "latest pointer removal failed" id

/-- `reconcile_latest_pointer` below a generations directory. -/
def reconcileListed (env : PruneSetting) (instanceId fingerprint : String) (root : Path) :
    Store Unit := do
  let generations := root ++ ["generations"]
  let names ← listDir env.listing generations "generation scan failed"
  let loaded ← Prog.look fun fs =>
    names.filterMap (loadNamed env.codec instanceId fingerprint generations fs)
  match newestLoaded loaded with
  | some loaded => writePointer env root loaded
  | none => removePointer root

def reconcileLatestPointer (env : PruneSetting) (instanceId fingerprint : String) : Store Unit := do
  let root ← Prog.lift (fingerprintRoot instanceId fingerprint)
  let there ← Prog.look fun fs => (fs root).isSome
  if there then do
    inspect (validateDirectory root)
    let listed ← Prog.look fun fs => (fs (root ++ ["generations"])).isSome
    if listed then do
      inspect (validateDirectory (root ++ ["generations"]))
      reconcileListed env instanceId fingerprint root

def reconcilePointers (env : PruneSetting) (instanceId : String) : List String → Store Unit
  | [] => pure ()
  | fingerprint :: fingerprints => do
    reconcileLatestPointer env instanceId fingerprint
    reconcilePointers env instanceId fingerprints

/-! ### Pruning -/

structure PruneResult where
  removedGenerations : Nat := 0
  remainingBytes : Nat := 0
deriving DecidableEq, Repr

def writeUsage (c : Codec) (instanceId : String) (usage : UsageFile) : Store Unit := do
  let bytes ← Prog.lift
    ((c.encodeUsage usage).elim (.error (.io "usage metadata serialization failed")) .ok)
  let path ← Prog.lift (usagePath instanceId)
  atomicWrite path bytes "usage metadata persistence failed"

/-- Pruning below an instance's directory. -/
def pruneListed (env : PruneSetting) (instanceId : String) (root : Path) (limit : Nat)
    (explicit : List String) : Store PruneResult := do
  let usage ← Prog.look (readUsage env.codec instanceId maxMetadataBytes)
  let names ← listDir env.listing root "instance generation scan failed"
  let scan ← scanFingerprints env usage instanceId root names { usage }
  let kept := protectedKeys explicit scan.generations limit
  let total := min ((scan.generations.map (·.bytes)).sum) (2 ^ 64 - 1)
  let rest ← removeUnused env kept limit
    (scan.generations.insertionSort fun a b => a.lastUsed ≤ b.lastUsed)
    { remaining := total
      removed := scan.removed
      usage := scan.usage
      keys := scan.generations.map (·.key) }
  let next := { rest.usage with
    entries := Dict.filter (fun key _ => rest.keys.contains key) rest.usage.entries }
  let current ← Prog.look (readUsage env.codec instanceId maxMetadataBytes)
  if next.entries ≠ current.entries then writeUsage env.codec instanceId next
  reconcilePointers env instanceId scan.fingerprints
  return ⟨rest.removed, rest.remaining⟩

def pruneInstance (env : PruneSetting) (instanceId : String) (limit : Nat)
    (kept : List (String × String)) : Store PruneResult := do
  ensureRoot env.ready
  let root ← Prog.lift (instanceRoot instanceId)
  let there ← Prog.look fun fs => (fs root).isSome
  if there then do
    inspect (validateDirectory root)
    let explicit := (kept.filter fun (fingerprint, generation) =>
      isLowerHexDigest fingerprint && validateUuid generation).map fun (fingerprint, generation) =>
        usageKey fingerprint generation
    pruneListed env instanceId root limit explicit
  else return {}

end LlamaServerManager.Checkpoint
