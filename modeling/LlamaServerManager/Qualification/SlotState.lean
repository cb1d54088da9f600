import LlamaServerManager.Lib.LittleEndian
import LlamaServerManager.Lib.Words

/-!
The inspection of saved slot states in `checkpoint_qualification.rs`.

* `trailer` — the sections from an offset to the end of the file.
* `inspectSlot` — the scan for an offset where they can be read.
-/

namespace LlamaServerManager.Qualification

open Lib.LittleEndian Lib.Words

abbrev Bytes := List UInt8

inductive Failure where
  /-- An addition or multiplication that is not checked leaves 64 bits. -/
  | overflow
  | endOfFile
  | blobExceedsFile
  | unsupportedSckpVersion
  | invalidSckpCount
  | invalidCheckpointOffset
  | incompleteCheckpoint
  | unsupportedSdftVersion
  | unrecognizedTrailer
  | unsupportedHeader
  | missingMainState
  | noSdftPayload
deriving DecidableEq

def Failure.message : Failure → String
  | .overflow => "attempt to add with overflow"
  | .endOfFile => "failed to fill whole buffer"
  | .blobExceedsFile => "state blob exceeds file"
  | .unsupportedSckpVersion => "unsupported SCKP version"
  | .invalidSckpCount => "invalid SCKP count"
  | .invalidCheckpointOffset => "invalid checkpoint offset"
  | .incompleteCheckpoint => "incomplete checkpoint payload"
  | .unsupportedSdftVersion => "unsupported SDFT version"
  | .unrecognizedTrailer => "incomplete or unrecognized state trailer"
  | .unsupportedHeader => "unsupported saved-state header"
  | .missingMainState => "missing main-model state"
  | .noSdftPayload => "no complete SDFT payload was found"

structure CheckpointSizes where
  tokens : Nat
  targetBytes : Nat
  draftBytes : Nat
  speculativeBytes : Nat
deriving DecidableEq

structure SlotState where
  checkpoints : List CheckpointSizes
  draftBytes : Nat
  speculativeBytes : Nat
deriving DecidableEq

/-- A file has no more bytes than an `i64` can count. -/
structure SlotFile where
  items : Bytes
  small : items.length < 2 ^ 63

def SlotFile.size (file : SlotFile) : Nat := file.items.length

def ascii (text : String) : Bytes := text.toList.map fun c => UInt8.ofNat c.toNat

def sckp : Bytes := ascii "SCKP"

def sdft : Bytes := ascii "SDFT"

/-! ### Reads at an offset -/

/-- `+` -/
def add (a b : Nat) : Except Failure Nat :=
  match checkedAdd a b with
  | some sum => .ok sum
  | none => .error .overflow

/-- `*` -/
def mul (a b : Nat) : Except Failure Nat :=
  match checkedMul a b with
  | some product => .ok product
  | none => .error .overflow

section Reads

variable (file : SlotFile)

def read (count offset : Nat) : Except Failure Bytes :=
  if offset + count ≤ file.size then .ok ((file.items.drop offset).take count)
  else .error .endOfFile

def u32At (offset : Nat) : Except Failure Nat := do return number (← read file 4 offset)

def u64At (offset : Nat) : Except Failure Nat := do return number (← read file 8 offset)

/-- The size of a blob, and where it ends. -/
def blob (offset : Nat) : Except Failure (Nat × Nat) := do
  let n ← u64At file offset
  match ((checkedAdd offset 8).bind (checkedAdd · n)).filter (· ≤ file.size) with
  | some end_ => return (n, end_)
  | none => throw .blobExceedsFile

variable (draftRequired : Bool)

/-- So many records. -/
def checkpointsAt : Nat → Nat → Except Failure (List CheckpointSizes × Nat)
  | 0, offset => return ([], offset)
  | count + 1, offset => do
    let tokens ← u64At file offset
    match checkedAdd offset 16 with
    | none => throw .invalidCheckpointOffset
    | some offset =>
      let (target, offset) ← blob file offset
      let (draft, offset) ← blob file offset
      let (speculative, offset) ← blob file offset
      if target = 0 ∨ tokens = 0 ∨ (draftRequired ∧ draft = 0) then throw .incompleteCheckpoint
      else
        let (checkpoints, offset) ← checkpointsAt count offset
        return (⟨tokens, target, draft, speculative⟩ :: checkpoints, offset)

def sckpAt (offset : Nat) : Except Failure (List CheckpointSizes × Nat) := do
  if (← read file 4 offset) = sckp then
    if (← u32At file (← add offset 4)) ≠ 1 then throw .unsupportedSckpVersion
    else
      let count ← u32At file (← add offset 8)
      if 1 ≤ count ∧ count ≤ 1024 then checkpointsAt file draftRequired count (← add offset 12)
      else throw .invalidSckpCount
  else return ([], offset)

/-- The sizes of the draft's state, and where the section ends. -/
def sdftAt (offset : Nat) : Except Failure (Nat × Nat × Nat) := do
  if file.size ≤ offset then return (0, 0, offset)
  else if (← read file 4 offset) = sdft then
    if (← u32At file (← add offset 4)) ≠ 1 then throw .unsupportedSdftVersion
    else
      let (draft, offset) ← blob file (← add offset 8)
      let (speculative, offset) ← blob file offset
      return (draft, speculative, offset)
  else return (0, 0, offset)

def trailer (offset : Nat) : Except Failure SlotState := do
  let (checkpoints, offset) ← sckpAt file draftRequired offset
  let (draftBytes, speculativeBytes, offset) ← sdftAt file offset
  if offset ≠ file.size ∨ (draftRequired ∧ draftBytes = 0) then throw .unrecognizedTrailer
  else return ⟨checkpoints, draftBytes, speculativeBytes⟩

end Reads

/-! ### The scan -/

/-- After some windows: the scan is over, or it goes on with what it found last. -/
inductive Visit where
  | done (result : Except Failure SlotState)
  | go (found : Option SlotState)

section Scan

variable (file : SlotFile) (draftRequired : Bool) (body : Nat)

/-- A window; the panic of an addition is no error that is ignored. -/
def visit (offset i : Nat) (magic : Bytes) (found : Option SlotState) : Visit :=
  if magic = sckp ∨ magic = sdft then
    match add offset i with
    | .error e => .done (.error e)
    | .ok position =>
      if body < position then
        match trailer file draftRequired position with
        | .ok result => if magic = sckp then .done (.ok result) else .go (some result)
        | .error .overflow => .done (.error .overflow)
        | .error _ => .go found
      else .go found
  else .go found

/-- `windows(4)` -/
def visitWindows (offset : Nat) : Nat → Bytes → Option SlotState → Visit
  | i, a :: b :: c :: d :: rest, found =>
    match visit file draftRequired body offset i [a, b, c, d] found with
    | .done result => .done result
    | .go found => visitWindows offset (i + 1) (b :: c :: d :: rest) found
  | _, _, found => .go found

def finish (found : Option SlotState) : Except Failure SlotState :=
  match found.or (if draftRequired then none else some ⟨[], 0, 0⟩) with
  | some result => .ok result
  | none => .error .noSdftPayload

def scanCapacity : Nat := 1024 * 1024

/-- How much a read of the scan gives at an offset. -/
def SlotFile.amount (chunk : Nat → Nat) (offset : Nat) : Nat :=
  min (chunk offset) (min scanCapacity (file.size - offset))

def scan (chunk : Nat → Nat) (offset : Nat) (found : Option SlotState) :
    Except Failure SlotState :=
  if offset < file.size then
    let n := file.amount chunk offset
    if n = 0 then finish draftRequired found
    else
      match visitWindows file draftRequired body offset 0 ((file.items.drop offset).take n)
        found with
      | .done result => result
      | .go found =>
        if n < 4 then finish draftRequired found
        else
          match _advanced : checkedAdd offset (n - 3) with
          | none => .error .overflow
          | some next => scan chunk next found
  else finish draftRequired found
termination_by file.size - offset
decreasing_by
  obtain ⟨-, rfl⟩ := checkedAdd_eq_some.mp _advanced
  omega

end Scan

/-- The reads of the scan give as much as `chunk` says. -/
def inspectSlot (file : SlotFile) (chunk : Nat → Nat) (draftRequired : Bool) :
    Except Failure SlotState := do
  if file.size < 13 then throw .unsupportedHeader
  else if (← u32At file 0) ≠ 0x67677371 then throw .unsupportedHeader
  else if (← u32At file 4) ≠ 4 then throw .unsupportedHeader
  else
    let body ← add 12 (← mul 4 (← u32At file 8))
    if file.size ≤ body then throw .missingMainState
    else scan file draftRequired body chunk body none

end LlamaServerManager.Qualification
