import LlamaServerManager.Checkpoint.Store

/-!
The rest of `CheckpointStore` that the coordinator uses: the scratch directory of an
instance, where slots are saved to and restored from, and the marker of a rejected
generation. `exists`, whose I/O errors count as absence, is taken as not failing.
-/

namespace LlamaServerManager.Checkpoint

open Lib

/-! ### Scratch files -/

/-- `CHECKPOINT_DISK_HEADROOM_BYTES`. -/
def checkpointDiskHeadroom : Nat := 64 * 1024 * 1024

/-- `available` is what `available_space` answers. -/
def ensureScratchCapacity (ready : Bool) (available : Nat) (instanceId : String)
    (payloadBytes : Nat) : Store Unit := do
  let _ ← prepareInstance ready instanceId
  touch "checkpoint disk capacity query failed"
  Prog.require (min (payloadBytes + checkpointDiskHeadroom) (2 ^ 64 - 1) ≤ available)
    ⟨.insufficientDiskSpace, "checkpoint storage does not have enough free space"⟩

def scratchFilename (slot pid : Nat) (uuid : String) : String :=
  "slot-" ++ slot.repr ++ "-" ++ pid.repr ++ "-" ++ uuid ++ ".bin"

def newScratchSlotPathFor (ready : Bool) (uuid instanceId : String) (pid slot : Nat) :
    Store Path := do
  Prog.require (slot < maxCheckpointSlots) (.manifest "slot id exceeds reviewed limit")
  let scratch ← prepareInstance ready instanceId
  return scratch ++ [scratchFilename slot pid uuid]

def removeScratchPayload (ready : Bool) (instanceId : String) (path : Path) : Store Unit := do
  let scratch ← prepareInstance ready instanceId
  let there ← Prog.look fun fs => (fs path).isSome
  if there then do
    let _ ← inspect (validateRegularFile path)
    touch "scratch path resolution failed"
    touch "scratch payload resolution failed"
    Prog.require (scratch <+: path ∧ isManagerSlotFilename (path.getLast?.getD ""))
      (.manifest "scratch payload escaped its private root")
    change (fun fs => some (Function.update fs path none)) "scratch payload removal failed" id

def verifyScratchPayload (c : Codec) (ready : Bool) (instanceId : String) (path : Path)
    (expectedBytes : Nat) : Store String := do
  validateScratchPayload ready instanceId path
  let bytes ← inspect (validateRegularFile path)
  Prog.require (bytes.length = expectedBytes ∧ expectedBytes ≠ 0)
    ⟨.checksumMismatch, "scratch payload byte count mismatch"⟩
  inspect (sha256File c path)

/-- `create_new` and a copy that gets as far as `cut` if it fails. -/
def fillScratch (c : Codec) (destination : Path) (content : List UInt8) (cut : Nat)
    (slot : CheckpointSlotManifest) : Store Unit := do
  change (Files.replaceFile destination content) "scratch restore payload copy failed"
    fun fs => Function.update fs destination (some (.file (content.take cut)))
  touch "scratch restore payload flush failed"
  touch "scratch restore payload sync failed"
  touch "file permission update failed"
  inspect (verifyPayload c slot "scratch restore payload failed verification" destination)

def copySlotToScratch (c : Codec) (ready : Bool) (available cut : Nat) (uuid instanceId : String)
    (pid : Nat) (generation : LoadedGeneration) (slot : CheckpointSlotManifest) : Store Path := do
  Prog.require (generation.manifest.instanceId = instanceId ∧ slot ∈ generation.manifest.slots)
    (.manifest "slot does not belong to generation")
  ensureScratchCapacity ready available instanceId slot.bytes
  let destination ← newScratchSlotPathFor true uuid instanceId pid slot.id
  let source := generation.generationDir ++ [slot.filename]
  let _ ← inspect (validateRegularFile source)
  let content ← Prog.read (validateRegularFile source) (.io "generation payload open failed")
  change (fun fs => if fs destination = none then fs.replaceFile destination [] else none)
    "scratch restore payload create failed" id
  Prog.onError (fillScratch c destination content cut slot)
    (removeScratchPayload true instanceId destination)
  return destination

/-! ### Rejected generations -/

def rejectionMarker : String := "restore-rejected.json"

/-- The content of the marker. -/
def rejectionBytes : List UInt8 :=
  "\x7b\"schema_version\":1\x7d\n".toList.map fun c => UInt8.ofNat c.toNat

def rejectGeneration (ready : Bool) (instanceId : String) (generation : LoadedGeneration) :
    Store Unit := do
  let (_, generations) ←
    ensureGenerationRoots ready instanceId generation.manifest.fingerprint.digest
  inspect (verifiedChildPath generation.generationDir generations)
  atomicWrite (generation.generationDir ++ [rejectionMarker]) rejectionBytes
    "checkpoint rejection could not be persisted"

/-- `clear_instance` of the store. -/
def clearStore (ready : Bool) (kept : Path → Bool) (instanceId : String) : Store Bool := do
  ensureRoot ready
  let root ← Prog.lift (instanceRoot instanceId)
  let there ← Prog.look fun fs => (fs root).isSome
  if there then do
    inspect (validateDirectory root)
    safeRemoveDirectory root [] kept
    touch "directory sync failed"
    return true
  else return false

/-! ### Other fingerprints -/

/-- Whether one of the names has a generation that loads; what is found is noted in
the usage index. -/
def anyLoads (c : Codec) (listing : Listing) (millis : Nat) (instanceId current : String) :
    List String → Files → Files × Bool
  | [], fs => (fs, false)
  | name :: names, fs =>
    if name = current ∨ !isLowerHexDigest name then
      anyLoads c listing millis instanceId current names fs
    else
      match loadLatest c listing true millis instanceId name fs with
      | (fs, .ok (some _)) => (fs, true)
      | (fs, _) => anyLoads c listing millis instanceId current names fs

/-- What is found in a prepared root. -/
def otherLoads (c : Codec) (listing : Listing) (millis : Nat) (instanceId current : String)
    (fs : Files) : Files × Except StoreError Bool :=
  let checked : Except StoreError Path := do
    require (isLowerHexDigest current) (.manifest "current fingerprint is invalid")
    instanceRoot instanceId
  match checked with
  | .error e => (fs, .error e)
  | .ok root =>
    if fs root = none then (fs, .ok false)
    else
      match validateDirectory root fs with
      | .error e => (fs, .error e)
      | .ok () =>
        let (fs, found) :=
          anyLoads c listing millis instanceId current (fs.readDir listing root) fs
        (fs, .ok found)

/-- `has_other_fingerprint_generation`, when no call on the file system fails. -/
def hasOtherFingerprintGeneration (c : Codec) (listing : Listing) (ready : Bool) (millis : Nat)
    (instanceId current : String) (fs : Files) : Files × Except StoreError Bool :=
  match (ensureRoot ready).ended Prog.calm fs with
  | .raised e => ((ensureRoot ready).final Prog.calm fs, .error e)
  | _ => otherLoads c listing millis instanceId current ((ensureRoot ready).final Prog.calm fs)

end LlamaServerManager.Checkpoint
