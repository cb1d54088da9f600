import LlamaServerManager.Checkpoint.Manifest
import LlamaServerManager.Lib.Crash
import LlamaServerManager.Lib.Files
import Mathlib.Data.List.Sort

/-!
`CheckpointStore` in `checkpoint.rs`: committing a generation and loading the
latest one.

Paths are relative to the root of the store, and free of links. Committing is a
program over the file tree whose every call can fail or be the last one; a call
of `atomic_write` is one step, as a rename is. Loading is a function of the tree.
The calls whose I/O errors the source swallows are the exception: `exists` and
`read_usage` are taken as not failing (`Prog.look`). Where they do, `exists`
answers that nothing is there and `read_usage` answers the default, as both do
for an entry that is missing or unreadable in the tree.
-/

namespace LlamaServerManager.Checkpoint

open Lib

/-! ### Inspecting the tree -/

def validateRegularFile (p : Path) (fs : Files) : Except StoreError (List UInt8) :=
  match fs p with
  | none => .error (.io "file inspection failed")
  | some (.file bytes) => .ok bytes
  | some _ => .error (.manifest "checkpoint payload is not a regular file")

def validateDirectory (p : Path) (fs : Files) : Except StoreError Unit :=
  match fs p with
  | none => .error (.io "directory inspection failed")
  | some .dir => .ok ()
  | some _ => .error (.manifest "checkpoint directory is not a regular directory")

def sha256File (c : Codec) (p : Path) (fs : Files) : Except StoreError String := do
  let bytes ← validateRegularFile p fs
  return c.sha256 bytes

def readBounded (p : Path) (limit : Nat) (fs : Files) : Except StoreError (List UInt8) := do
  let bytes ← validateRegularFile p fs
  require (bytes.length ≤ limit) (.manifest "checkpoint metadata exceeds its size limit")
  return bytes

def verifiedChildPath (path root : Path) (fs : Files) : Except StoreError Unit := do
  validateDirectory root fs
  validateDirectory path fs
  require (path ≠ root ∧ root <+: path) (.manifest "checkpoint path escaped its private root")

/-- A file has the size and the hash its slot says. -/
def verifyPayload (c : Codec) (slot : CheckpointSlotManifest) (message : String) (p : Path)
    (fs : Files) : Except StoreError Unit := do
  let bytes ← validateRegularFile p fs
  require (bytes.length = slot.bytes) ⟨.checksumMismatch, message⟩
  let sha256 ← sha256File c p fs
  require (sha256 = slot.sha256) ⟨.checksumMismatch, message⟩

/-! ### Paths -/

def instanceRoot (instanceId : String) : Except StoreError Path := do
  require (validateIdentifier instanceId) (.manifest "checkpoint instance identity is invalid")
  return [instanceId]

def fingerprintRoot (instanceId fingerprint : String) : Except StoreError Path := do
  require (isLowerHexDigest fingerprint) (.manifest "checkpoint fingerprint path is invalid")
  let root ← instanceRoot instanceId
  return root ++ [fingerprint]

def usagePath (instanceId : String) : Except StoreError Path := do
  let root ← instanceRoot instanceId
  return root ++ ["usage-v1.json"]

/-! ### Calls -/

abbrev Store := Prog Files StoreError

/-- A system call that does not change the tree: permissions, `fsync`, resolving. -/
def touch (message : String) : Store Unit := Prog.read (fun _ => .ok ()) (.io message)

/-- A step of the tree that fails where `f` is not defined. -/
def change (f : Files → Option Files) (message : String) (torn : Files → Files) : Store Unit :=
  Prog.call (fun fs => (f fs).elim (.error (.io message)) .ok) (.io message) torn

def inspect {α : Type} (f : Files → Except StoreError α) : Store α :=
  Prog.read f (.io "file inspection failed")

def makeDirs (message : String) : List Path → Store Unit
  | [] => pure ()
  | p :: rest => do
    change (Files.makeDir p) message id
    makeDirs message rest

/-- `create_dir_all`. -/
def createDirAll (p : Path) (message : String) : Store Unit := makeDirs message p.inits

/-- `atomic_write` without a backup. -/
def atomicWrite (p : Path) (bytes : List UInt8) (message : String) : Store Unit := do
  createDirAll p.dropLast message
  change (Files.replaceFile p bytes) message id

def ensurePrivateDirectory (p : Path) : Store Unit := do
  createDirAll p "checkpoint directory creation failed"
  inspect (validateDirectory p)
  touch "directory permission update failed"

/-- `ready` is the flag of a handle that has prepared the root before. -/
def ensureRoot (ready : Bool) : Store Unit :=
  if ready then inspect (validateDirectory [])
  else do
    ensurePrivateDirectory []
    touch "checkpoint ACL update failed"

def prepareInstance (ready : Bool) (instanceId : String) : Store Path := do
  ensureRoot ready
  let root ← Prog.lift (instanceRoot instanceId)
  ensurePrivateDirectory root
  let scratch := root ++ ["scratch"]
  ensurePrivateDirectory scratch
  return scratch

/-- `kept` is what a removal that does not get to its end leaves. -/
def safeRemoveDirectory (path root : Path) (kept : Path → Bool) : Store Unit := do
  inspect (verifiedChildPath path root)
  change (fun fs => some (fs.removeExcept path fun _ => false))
    "checkpoint directory removal failed" (Files.removeExcept path kept)

def ensureGenerationRoots (ready : Bool) (instanceId fingerprint : String) :
    Store (Path × Path) := do
  let _ ← prepareInstance ready instanceId
  let root ← Prog.lift (fingerprintRoot instanceId fingerprint)
  ensurePrivateDirectory root
  let generations := root ++ ["generations"]
  ensurePrivateDirectory generations
  return (root, generations)

/-! ### The usage index -/

def readUsage (c : Codec) (instanceId : String) (maxMetadataBytes : Nat) (fs : Files) : UsageFile :=
  match (usagePath instanceId).bind fun p => readBounded p maxMetadataBytes fs with
  | .error _ => {}
  | .ok bytes =>
    match c.decodeUsage bytes with
    | some usage => if usage.schemaVersion = 1 then usage else {}
    | none => {}

/-- `MAX_METADATA_BYTES`. -/
def maxMetadataBytes : Nat := 16 * 1024 * 1024

def touchUsage (c : Codec) (instanceId fingerprint generationId : String) (millis : Nat) :
    Store Unit := do
  Prog.require (isLowerHexDigest fingerprint ∧ validateUuid generationId)
    (.manifest "usage metadata identity is invalid")
  let usage ← Prog.look (readUsage c instanceId maxMetadataBytes)
  let entries := usage.entries.insert (fingerprint ++ "/" ++ generationId) millis
  let bytes ← Prog.lift
    ((c.encodeUsage { usage with entries }).elim
      (.error (.io "usage metadata serialization failed")) .ok)
  let path ← Prog.lift (usagePath instanceId)
  atomicWrite path bytes "usage metadata persistence failed"

/-! ### Committing -/

inductive StoreFaultPoint where
  | afterPayloadMove
  | afterPayloadSync
  | afterManifestWrite
  | beforeGenerationRename
  | beforeLatestUpdate
deriving DecidableEq, Repr

structure CommittedGeneration where
  generationId : String
  bytes : Nat
  promptTokens : Nat
deriving DecidableEq, Repr

/-- What a commit depends on besides its arguments: the clock, the errors injected
at the fault points, and what a removal cut short leaves. -/
structure Setting where
  codec : Codec
  ready : Bool
  now : String
  millis : Nat
  injected : StoreFaultPoint → StoreError
  kept : Path → Bool

def Setting.inject (env : Setting) (point : StoreFaultPoint) : Store Unit :=
  Prog.read (fun _ => .ok ()) (env.injected point)

def validateScratchPayload (ready : Bool) (instanceId : String) (path : Path) : Store Unit := do
  let scratch ← prepareInstance ready instanceId
  let bytes ← inspect (validateRegularFile path)
  Prog.require (bytes.length ≠ 0) (.manifest "checkpoint payload is empty")
  touch "file permission update failed"
  touch "scratch path resolution failed"
  touch "scratch payload resolution failed"
  Prog.require (scratch <+: path ∧ isManagerSlotFilename (path.getLast?.getD ""))
    (.manifest "checkpoint scratch payload path is invalid")

/-- Every payload is a file of its own and what its slot says. -/
def checkPayloads (c : Codec) (ready : Bool) (instanceId : String) (seen : List Path) :
    List (CheckpointSlotManifest × Path) → Store Unit
  | [] => pure ()
  | (slot, source) :: rest => do
    validateScratchPayload ready instanceId source
    touch "payload resolution failed"
    let mismatch := "checkpoint scratch payload does not match its manifest"
    Prog.require (source ∉ seen) ⟨.checksumMismatch, mismatch⟩
    inspect (verifyPayload c slot mismatch source)
    checkPayloads c true instanceId (source :: seen) rest

def movePayloads (env : Setting) (pending : Path) :
    List (CheckpointSlotManifest × Path) → Store Unit
  | [] => pure ()
  | (slot, source) :: rest => do
    let destination := pending ++ [slot.filename]
    change (Files.rename source destination) "generation payload move failed" id
    env.inject .afterPayloadMove
    touch "generation payload sync failed"
    touch "file permission update failed"
    env.inject .afterPayloadSync
    inspect (verifyPayload env.codec slot "moved generation payload failed verification"
      destination)
    movePayloads env pending rest

/-- The part of a commit that is undone by an error. -/
def stageGeneration (env : Setting) (pending final : Path)
    (payloads : List (CheckpointSlotManifest × Path)) (manifestBytes : List UInt8) :
    Store Unit := do
  movePayloads env pending payloads
  atomicWrite (pending ++ ["manifest.json"]) manifestBytes "manifest persistence failed"
  env.inject .afterManifestWrite
  touch "directory sync failed"
  env.inject .beforeGenerationRename
  change (Files.rename pending final) "generation commit rename failed" id

def discardPending (pending generations : Path) (kept : Path → Bool) : Store Unit := do
  let there ← Prog.look fun fs => (fs pending).isSome
  if there then safeRemoveDirectory pending generations kept

/-- The part of a commit after the rename. -/
def publishGeneration (env : Setting) (root : Path) (manifest : CheckpointManifest)
    (manifestBytes : List UInt8) : Store CommittedGeneration := do
  touch "directory sync failed"
  env.inject .beforeLatestUpdate
  let latest : LatestPointer :=
    { schemaVersion := 1
      generationId := manifest.generationId
      manifestSha256 := env.codec.sha256 manifestBytes
      updatedAt := env.now }
  let latestBytes ← Prog.lift
    ((env.codec.encodeLatest latest).elim
      (.error (.manifest "latest pointer serialization failed")) .ok)
  atomicWrite (root ++ ["latest.json"]) latestBytes "latest pointer persistence failed"
  touchUsage env.codec manifest.instanceId manifest.fingerprint.digest manifest.generationId
    env.millis
  return ⟨manifest.generationId, manifest.payloadBytes, manifest.promptTokens⟩

def commitSlots (env : Setting) (manifest : CheckpointManifest) (scratchPayloads : List Path)
    (storageLimitBytes : Nat) : Store CommittedGeneration := do
  Prog.lift (manifest.validate env.codec manifest.instanceId manifest.fingerprint.digest)
  Prog.require (scratchPayloads.length = manifest.slots.length)
    (.manifest "slot payload set is incomplete")
  let payloads := manifest.slots.zip scratchPayloads
  checkPayloads env.codec env.ready manifest.instanceId [] payloads
  let manifestBytes ← Prog.lift
    ((env.codec.encodeManifest manifest).elim
      (.error (.manifest "manifest serialization failed")) .ok)
  Prog.require (min (manifest.payloadBytes + manifestBytes.length) (2 ^ 64 - 1) ≤ storageLimitBytes)
    ⟨.storageLimit, "checkpoint generation exceeds the storage limit"⟩
  let (root, generations) ←
    ensureGenerationRoots true manifest.instanceId manifest.fingerprint.digest
  let pending := generations ++ [".pending-" ++ manifest.generationId]
  let final := generations ++ [manifest.generationId]
  let taken ← Prog.look fun fs => (fs pending).isSome || (fs final).isSome
  Prog.require (taken = false) (.manifest "checkpoint generation identity already exists")
  ensurePrivateDirectory pending
  Prog.onError (stageGeneration env pending final payloads manifestBytes)
    (discardPending pending generations env.kept)
  publishGeneration env root manifest manifestBytes

/-! ### Loading -/

structure LoadedGeneration where
  manifest : CheckpointManifest
  generationDir : Path
  payloadPath : Path
deriving DecidableEq, Repr

def verifySlots (c : Codec) (dir : Path) (fs : Files) :
    List CheckpointSlotManifest → Except StoreError Unit
  | [] => .ok ()
  | slot :: slots => do
    verifyPayload c slot "checkpoint payload checksum mismatch" (dir ++ [slot.filename]) fs
    verifySlots c dir fs slots

def loadGeneration (c : Codec) (instanceId fingerprint : String) (generations : Path)
    (generationId : String) (expected : Option String) (fs : Files) :
    Except StoreError LoadedGeneration := do
  require (validateUuid generationId) (.manifest "checkpoint generation identity is invalid")
  let dir := generations ++ [generationId]
  verifiedChildPath dir generations fs
  require (fs (dir ++ ["restore-rejected.json"]) = none)
    ⟨.restoreGenerationRejected, "checkpoint generation was rejected by an earlier restore"⟩
  let bytes ← readBounded (dir ++ ["manifest.json"]) maxManifestBytes fs
  require (∀ sha256 ∈ expected, c.sha256 bytes = sha256)
    ⟨.checksumMismatch, "checkpoint manifest checksum mismatch"⟩
  let manifest ← CheckpointManifest.parseAndValidate c bytes instanceId fingerprint
  require (manifest.generationId = generationId)
    (.manifest "checkpoint generation directory does not match its manifest")
  verifySlots c dir fs manifest.slots
  return ⟨manifest, dir, dir ++ [(manifest.slots.head?.map (·.filename)).getD ""]⟩

def readLatestPointer (c : Codec) (root : Path) (fs : Files) : Except StoreError LatestPointer := do
  let bytes ← readBounded (root ++ ["latest.json"]) maxManifestBytes fs
  match c.decodeLatest bytes with
  | none => .error (.manifest "checkpoint latest pointer is malformed")
  | some latest =>
    latest.validate c
    return latest

/-- The generation the pointer names. -/
def loadPointed (c : Codec) (instanceId fingerprint : String) (root : Path) (fs : Files) :
    Except StoreError LoadedGeneration := do
  let latest ← readLatestPointer c root fs
  loadGeneration c instanceId fingerprint (root ++ ["generations"]) latest.generationId
    (some latest.manifestSha256) fs

/-- A generation found by its name, with its time. -/
def loadNamed (c : Codec) (instanceId fingerprint : String) (generations : Path) (fs : Files)
    (name : String) : Option (Int × LoadedGeneration) :=
  if !validateUuid name then none
  else
    match loadGeneration c instanceId fingerprint generations name none fs with
    | .error _ => none
    | .ok loaded => (c.parseTime loaded.manifest.createdAt).map fun t => (t, loaded)

/-- The last of the candidates in a stable sort by time. -/
def newest {α : Type} (candidates : List (Int × α)) : Option α :=
  ((candidates.insertionSort fun a b => a.1 ≤ b.1).getLast?).map (·.2)

/-- The pointed generation if it loads, else the newest candidate, else the error
of the pointer. -/
def latestOf (pointed : Option (Except StoreError LoadedGeneration))
    (candidates : List (Int × LoadedGeneration)) : Except StoreError (Option LoadedGeneration) :=
  match pointed with
  | none => .ok (newest candidates)
  | some (.ok loaded) => .ok (some loaded)
  | some (.error e) =>
    match newest candidates with
    | some loaded => .ok (some loaded)
    | none => .error e

def pointed (c : Codec) (instanceId fingerprint : String) (root : Path) (fs : Files) :
    Option (Except StoreError LoadedGeneration) :=
  if fs (root ++ ["latest.json"]) = none then none
  else some (loadPointed c instanceId fingerprint root fs)

def candidates (c : Codec) (listing : Listing) (instanceId fingerprint : String)
    (generations : Path) (fs : Files) : List (Int × LoadedGeneration) :=
  (fs.readDir listing generations).filterMap (loadNamed c instanceId fingerprint generations fs)

/-- `load_latest` below a prepared root. -/
def readLatest (c : Codec) (listing : Listing) (instanceId fingerprint : String) (fs : Files) :
    Except StoreError (Option LoadedGeneration) := do
  let root ← fingerprintRoot instanceId fingerprint
  if fs root = none then .ok none
  else
    validateDirectory root fs
    let generations := root ++ ["generations"]
    if fs generations = none then .ok none
    else
      validateDirectory generations fs
      latestOf (pointed c instanceId fingerprint root fs)
        (candidates c listing instanceId fingerprint generations fs)

/-- `load_latest`, when no call on the file system fails: the root is prepared,
and what is found is noted in the usage index, if that can be written. -/
def loadLatest (c : Codec) (listing : Listing) (ready : Bool) (millis : Nat)
    (instanceId fingerprint : String) (fs : Files) :
    Files × Except StoreError (Option LoadedGeneration) :=
  match (ensureRoot ready).ended Prog.calm fs with
  | .raised e => ((ensureRoot ready).final Prog.calm fs, .error e)
  | _ =>
    let fs := (ensureRoot ready).final Prog.calm fs
    let result := readLatest c listing instanceId fingerprint fs
    match result with
    | .ok (some loaded) =>
      ((touchUsage c instanceId fingerprint loaded.manifest.generationId millis).final
        Prog.calm fs, result)
    | _ => (fs, result)

end LlamaServerManager.Checkpoint
