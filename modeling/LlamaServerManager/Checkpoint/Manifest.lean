import LlamaServerManager.Lib.Dict
import LlamaServerManager.Lib.Except
import LlamaServerManager.Lib.Text
import Mathlib.Data.List.Nodup
import Mathlib.Algebra.BigOperators.Group.List.Basic

/-!
The records of the checkpoint store in `checkpoint.rs`: manifests, the pointer to
the latest generation, the usage index, and what makes each of them valid.
Hashing, JSON and RFC 3339 are not part of the repository; a `Codec` stands for
them.
-/

namespace LlamaServerManager.Checkpoint

open Lib Lib.Text

/-- `CheckpointReasonCode`. -/
inductive ReasonCode where
  | none
  | disabled
  | unsupportedConfiguration
  | managedLocalRequired
  | manualLaunchUnsupported
  | customArgumentsUnsupported
  | multiModelUnsupported
  | vectorWorkloadUnsupported
  | parallelMustBeOne
  | promptCacheRequired
  | promptCacheRetentionRequired
  | multiSlotIdleCacheUnsupported
  | slotsRequired
  | loopbackHttpRequired
  | customEndpointUnsupported
  | engineCapabilityMissing
  | localValidationRequired
  | nativeEnvironmentUnsupported
  | speculativeDecodingUnsupported
  | loraUnsupported
  | multimodalUnsupported
  | hybridRecurrentUnsupported
  | contextCheckpointsRequired
  | slidingWindowRequiresFullCache
  | modelArchitectureUnknown
  | shardedModelUnsupported
  | modelArtifactsIncomplete
  | conflictingSlotSavePath
  | fingerprintUnavailable
  | fingerprintMismatch
  | noCheckpoint
  | autoSaveDisabled
  | autoRestoreDisabled
  | belowTokenThreshold
  | longerCheckpointRetained
  | busyTimeout
  | checksumMismatch
  | manifestInvalid
  | saveResponseInvalid
  | restoreResponseInvalid
  | slotStateMismatch
  | storageLimit
  | insufficientDiskSpace
  | ioError
  | httpTimeout
  | slotApiError
  | staleProcessEvent
  | invalidStateTransition
  | clearWhileRunning
  | unexpectedExit
  | restoreGenerationRejected
  | coldAfterRestoreFailure
deriving DecidableEq, Repr

structure StoreError where
  reasonCode : ReasonCode
  message : String
deriving DecidableEq, Repr

def StoreError.io (message : String) : StoreError := ⟨.ioError, message⟩

def StoreError.manifest (message : String) : StoreError := ⟨.manifestInvalid, message⟩

/-- An error unless the condition holds. -/
def require (c : Prop) [Decidable c] (e : StoreError) : Except StoreError Unit :=
  if c then .ok () else .error e

theorem require_of {c : Prop} [Decidable c] (h : c) (e : StoreError) : require c e = .ok () :=
  if_pos h

theorem require_eq_ok {c : Prop} [Decidable c] {e : StoreError} :
    require c e = .ok () ↔ c := by
  unfold require
  split <;> simp_all

/-! ### Identities

Lengths are in bytes; only ASCII text passes these tests, so characters do. -/

def isLowerHex (c : Char) : Bool := c.isDigit || ('a' ≤ c && c ≤ 'f')

def isLowerHexDigest (value : String) : Bool :=
  value.toList.length == 64 && value.toList.all isLowerHex

def validateIdentifier (value : String) : Bool :=
  !value.isEmpty && value.toList.length ≤ 128 &&
    value.toList.all fun c => c.isAlphanum || c == '-' || c == '_'

/-- `validate_uuid`: the lower-case text with hyphens, which `Uuid` prints. -/
def validateUuid (value : String) : Bool :=
  value.toList.length == 36 &&
    (value.toList.zipIdx).all fun (c, i) =>
      if i = 8 ∨ i = 13 ∨ i = 18 ∨ i = 23 then c == '-' else isLowerHex c

/-- `MAX_CHECKPOINT_SLOTS`. -/
def maxCheckpointSlots : Nat := 4

/-- The names the manager gives to scratch payloads. -/
def isManagerSlotFilename (filename : String) : Bool :=
  !filename.isEmpty && filename.toList.length ≤ 128 &&
    (List.range maxCheckpointSlots).any
      (fun id => (stripPrefix ("slot-" ++ id.repr ++ "-") filename).isSome) &&
    (".bin".toList.isSuffixOf filename.toList) &&
    filename.toList.all fun c => c.isAlphanum || c == '-' || c == '.'

/-! ### Records -/

structure CheckpointFingerprint where
  algorithm : String
  digest : String
  modelSha256 : String
  draftModelSha256 : Option String := none
  engineSha256 : String
  engineVersion : String
  backend : String
deriving DecidableEq, Repr

def CheckpointFingerprint.validate (f : CheckpointFingerprint) : Except StoreError Unit :=
  require (f.algorithm = "sha256" ∧ isLowerHexDigest f.digest ∧ isLowerHexDigest f.modelSha256 ∧
    (∀ d ∈ f.draftModelSha256, isLowerHexDigest d = true) ∧ isLowerHexDigest f.engineSha256 ∧
    ¬ (trim f.engineVersion).isEmpty ∧ ¬ (trim f.backend).isEmpty)
    (.manifest "checkpoint fingerprint is invalid")

structure CheckpointSlotManifest where
  id : Nat
  filename : String
  promptTokens : Nat
  bytes : Nat
  sha256 : String
deriving DecidableEq, Repr

structure CheckpointManifest where
  schemaVersion : Nat
  stateFormat : String
  generationId : String
  instanceId : String
  fingerprint : CheckpointFingerprint
  createdAt : String
  slots : List CheckpointSlotManifest
  slotCount : Nat := 1
deriving DecidableEq, Repr

structure LatestPointer where
  schemaVersion : Nat
  generationId : String
  manifestSha256 : String
  updatedAt : String
deriving DecidableEq, Repr

structure UsageFile where
  schemaVersion : Nat := 1
  entries : Dict String Nat := ∅

/-- The functions of `sha2`, `serde_json` and `chrono` the store calls. -/
structure Codec where
  /-- `Sha256::digest`, 32 bytes. -/
  digest : List UInt8 → List UInt8
  encodeManifest : CheckpointManifest → Option (List UInt8)
  decodeManifest : List UInt8 → Option CheckpointManifest
  encodeLatest : LatestPointer → Option (List UInt8)
  decodeLatest : List UInt8 → Option LatestPointer
  encodeUsage : UsageFile → Option (List UInt8)
  decodeUsage : List UInt8 → Option UsageFile
  /-- `DateTime::parse_from_rfc3339`, as an instant. -/
  parseTime : String → Option Int

/-- What the store relies on of these functions. -/
structure Codec.Lawful (c : Codec) : Prop where
  digest_length : ∀ bytes, (c.digest bytes).length = 32
  manifest_roundtrip : ∀ m bytes, c.encodeManifest m = some bytes →
    c.decodeManifest bytes = some m
  latest_roundtrip : ∀ l bytes, c.encodeLatest l = some bytes → c.decodeLatest bytes = some l

/-! ### Hashing -/

def hexDigit (n : Nat) : Char :=
  "0123456789abcdef".toList.getD n '0'

/-- `{byte:02x}`. -/
def hexByte (b : UInt8) : List Char := [hexDigit (b.toNat / 16), hexDigit (b.toNat % 16)]

def Codec.sha256 (c : Codec) (bytes : List UInt8) : String :=
  String.ofList ((c.digest bytes).flatMap hexByte)

/-! ### Manifests -/

/-- `STATE_FORMAT`. -/
def slotStateFormat : String := "llama.cpp-slot-state"

/-- `MAX_MANIFEST_BYTES`. -/
def maxManifestBytes : Nat := 1024 * 1024

def slotFilename (id : Nat) : String := "slot-" ++ id.repr ++ ".bin"

namespace CheckpointManifest

/-- The slots in order, none of them seen before. -/
def validateSlots (m : CheckpointManifest) (seen : List Nat) :
    List CheckpointSlotManifest → Except StoreError Unit
  | [] => .ok ()
  | slot :: slots => do
    require (slot.id < m.slotCount ∧ slot.id ∉ seen ∧ slot.filename = slotFilename slot.id ∧
      slot.promptTokens ≠ 0 ∧ slot.bytes ≠ 0 ∧ isLowerHexDigest slot.sha256)
      (.manifest "checkpoint slot manifest is invalid")
    validateSlots m (slot.id :: seen) slots

def validate (c : Codec) (m : CheckpointManifest) (instanceId fingerprint : String) :
    Except StoreError Unit := do
  require (((m.schemaVersion = 1 ∧ m.slotCount = 1) ∨
      (m.schemaVersion = 2 ∧ (m.slotCount = 2 ∨ m.slotCount = 4))) ∧
    m.stateFormat = slotStateFormat ∧ validateIdentifier m.instanceId ∧ m.instanceId = instanceId ∧
    validateUuid m.generationId ∧ (c.parseTime m.createdAt).isSome)
    (.manifest "checkpoint manifest identity is invalid")
  m.fingerprint.validate
  require (m.fingerprint.digest = fingerprint ∧ m.slots ≠ [] ∧ m.slots.length ≤ m.slotCount)
    (.manifest "checkpoint manifest does not match the requested state")
  m.validateSlots [] m.slots

def parseAndValidate (c : Codec) (bytes : List UInt8) (instanceId fingerprint : String) :
    Except StoreError CheckpointManifest := do
  require (bytes.length ≤ maxManifestBytes)
    (.manifest "checkpoint manifest exceeds its size limit")
  match c.decodeManifest bytes with
  | none => .error (.manifest "checkpoint manifest is malformed")
  | some m =>
    m.validate c instanceId fingerprint
    return m

/-- A sum that stays a `u64`. -/
def saturatingSum (l : List Nat) : Nat := l.foldl (fun total n => min (total + n) (2 ^ 64 - 1)) 0

def payloadBytes (m : CheckpointManifest) : Nat := saturatingSum (m.slots.map (·.bytes))

def promptTokens (m : CheckpointManifest) : Nat := saturatingSum (m.slots.map (·.promptTokens))

end CheckpointManifest

def LatestPointer.validate (c : Codec) (l : LatestPointer) : Except StoreError Unit :=
  require (l.schemaVersion = 1 ∧ validateUuid l.generationId ∧ isLowerHexDigest l.manifestSha256 ∧
    (c.parseTime l.updatedAt).isSome)
    (.manifest "checkpoint latest pointer is invalid")

/-! ### What validation says -/

theorem hexByte_isLowerHex (b : UInt8) : ∀ c ∈ hexByte b, isLowerHex c = true := by
  have digits : ∀ n < 16, isLowerHex (hexDigit n) = true := by decide
  have high : b.toNat / 16 < 16 := by
    have := b.toNat_lt
    omega
  intro c mem
  rcases List.mem_cons.mp mem with rfl | mem
  · exact digits _ high
  · cases List.mem_singleton.mp mem
    exact digits _ (Nat.mod_lt _ (by decide))

theorem Codec.Lawful.sha256_digest {c : Codec} (lawful : c.Lawful) (bytes : List UInt8) :
    isLowerHexDigest (c.sha256 bytes) = true := by
  have two : ∀ b, (hexByte b).length = 2 := fun _ => rfl
  have length : ((c.digest bytes).flatMap hexByte).length = 64 := by
    rw [List.length_flatMap, List.map_congr_left fun b _ => two b, List.map_const', List.sum_replicate,
      lawful.digest_length]
    rfl
  unfold isLowerHexDigest Codec.sha256
  rw [String.toList_ofList, length]
  refine (Bool.and_eq_true _ _).mpr ⟨rfl, List.all_eq_true.mpr fun ch mem => ?_⟩
  obtain ⟨b, -, hb⟩ := List.mem_flatMap.mp mem
  exact hexByte_isLowerHex b ch hb

/-- A name that does not start with a hexadecimal digit is no generation. -/
theorem validateUuid_pending (id : String) : validateUuid (".pending-" ++ id) = false := by
  unfold validateUuid
  rw [String.toList_append]
  have head : ∃ rest, ".pending-".toList ++ id.toList = '.' :: rest := ⟨_, rfl⟩
  obtain ⟨rest, eq⟩ := head
  rw [eq, List.zipIdx_cons, List.all_cons]
  have dot : (if 0 = 8 ∨ 0 = 13 ∨ 0 = 18 ∨ 0 = 23 then '.' == '-' else isLowerHex '.') = false := by
    decide
  dsimp only
  rw [dot, Bool.false_and, Bool.and_false]

theorem isLowerHexDigest_ne {digest name : String} (h : isLowerHexDigest digest = true)
    (short : name.toList.length ≠ 64) : digest ≠ name := by
  rintro rfl
  exact short (beq_iff_eq.mp (Bool.and_eq_true _ _ ▸ h).1)

theorem slotFilename_injective : ∀ a < 4, ∀ b < 4, slotFilename a = slotFilename b → a = b := by
  decide

/-- No slot is stored under a name the generation uses itself. -/
theorem slotFilename_ne : ∀ id < 4,
    slotFilename id ≠ "manifest.json" ∧ slotFilename id ≠ "restore-rejected.json" := by
  decide

namespace CheckpointManifest

/-- A slot of a valid manifest. -/
structure ValidSlot (m : CheckpointManifest) (slot : CheckpointSlotManifest) : Prop where
  id_lt : slot.id < m.slotCount
  filename : slot.filename = slotFilename slot.id
  tokens : slot.promptTokens ≠ 0
  bytes : slot.bytes ≠ 0
  sha256 : isLowerHexDigest slot.sha256 = true

theorem validateSlots_eq_ok {m : CheckpointManifest} {slots : List CheckpointSlotManifest}
    {seen : List Nat} (h : m.validateSlots seen slots = .ok ()) :
    (∀ slot ∈ slots, m.ValidSlot slot) ∧ (slots.map (·.id)).Nodup ∧
      ∀ slot ∈ slots, slot.id ∉ seen := by
  induction slots generalizing seen with
  | nil => exact ⟨fun _ h => (nomatch h), List.nodup_nil, fun _ h => (nomatch h)⟩
  | cons slot slots ih =>
    obtain ⟨⟨⟩, first, rest⟩ := bind_eq_ok.mp h
    obtain ⟨lt, fresh, filename, tokens, bytes, sha⟩ := require_eq_ok.mp first
    obtain ⟨valid, nodup, unseen⟩ := ih rest
    refine ⟨?_, ?_, ?_⟩
    · intro s mem
      rcases List.mem_cons.mp mem with rfl | mem
      · exact ⟨lt, filename, tokens, bytes, sha⟩
      · exact valid s mem
    · refine List.nodup_cons.mpr ⟨fun mem => ?_, nodup⟩
      obtain ⟨s, hs, same⟩ := List.mem_map.mp mem
      exact unseen s hs (same ▸ List.mem_cons_self)
    · intro s mem
      rcases List.mem_cons.mp mem with rfl | mem
      · exact fresh
      · exact fun old => unseen s mem (List.mem_cons_of_mem _ old)

/-- What a valid manifest of an instance and a fingerprint satisfies. -/
structure Valid (c : Codec) (m : CheckpointManifest) (instanceId fingerprint : String) : Prop where
  identifier : validateIdentifier instanceId = true
  instanceId : m.instanceId = instanceId
  generationId : validateUuid m.generationId = true
  created : ∃ t, c.parseTime m.createdAt = some t
  digest : isLowerHexDigest fingerprint = true
  fingerprint : m.fingerprint.digest = fingerprint
  slots_ne : m.slots ≠ []
  slotCount_le : m.slotCount ≤ 4
  slots : ∀ slot ∈ m.slots, m.ValidSlot slot
  nodup : (m.slots.map (·.id)).Nodup

theorem Valid.of_validate {c : Codec} {m : CheckpointManifest} {instanceId fingerprint : String}
    (h : m.validate c instanceId fingerprint = .ok ()) : m.Valid c instanceId fingerprint := by
  obtain ⟨⟨⟩, identity, h⟩ := bind_eq_ok.mp h
  obtain ⟨⟨⟩, print, h⟩ := bind_eq_ok.mp h
  obtain ⟨⟨⟩, shape, slots⟩ := bind_eq_ok.mp h
  obtain ⟨count, -, identifier, same, uuid, created⟩ := require_eq_ok.mp identity
  obtain ⟨-, digest, -⟩ := require_eq_ok.mp print
  obtain ⟨fingerprint, nonempty, -⟩ := require_eq_ok.mp shape
  obtain ⟨valid, nodup, -⟩ := validateSlots_eq_ok slots
  exact
    { identifier := same ▸ identifier
      instanceId := same
      generationId := uuid
      created := Option.isSome_iff_exists.mp created
      digest := fingerprint ▸ digest
      fingerprint
      slots_ne := nonempty
      slotCount_le := by omega
      slots := valid
      nodup }

variable {c : Codec} {m : CheckpointManifest} {instanceId fingerprint : String}

theorem Valid.id_lt (valid : m.Valid c instanceId fingerprint) {slot : CheckpointSlotManifest}
    (mem : slot ∈ m.slots) : slot.id < 4 :=
  Nat.lt_of_lt_of_le (valid.slots slot mem).id_lt valid.slotCount_le

theorem Valid.filename_ne (valid : m.Valid c instanceId fingerprint)
    {slot : CheckpointSlotManifest} (mem : slot ∈ m.slots) :
    slot.filename ≠ "manifest.json" ∧ slot.filename ≠ "restore-rejected.json" := by
  rw [(valid.slots slot mem).filename]
  exact slotFilename_ne slot.id (valid.id_lt mem)

/-- Different slots are stored in different files. -/
theorem Valid.filename_inj (valid : m.Valid c instanceId fingerprint)
    {a b : CheckpointSlotManifest} (ha : a ∈ m.slots) (hb : b ∈ m.slots)
    (same : a.filename = b.filename) : a = b := by
  rw [(valid.slots a ha).filename, (valid.slots b hb).filename] at same
  have ids := slotFilename_injective _ (valid.id_lt ha) _ (valid.id_lt hb) same
  exact List.inj_on_of_nodup_map valid.nodup ha hb ids

theorem Valid.filenames_nodup (valid : m.Valid c instanceId fingerprint) :
    (m.slots.map (·.filename)).Nodup :=
  valid.nodup.of_map.map_on fun _ ha _ hb same => valid.filename_inj ha hb same

end CheckpointManifest

end LlamaServerManager.Checkpoint
