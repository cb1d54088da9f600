import LlamaServerManager.Lib.Buffered
import LlamaServerManager.Lib.Decoding
import LlamaServerManager.Lib.LittleEndian
import LlamaServerManager.Lib.Words

/-!
The reader of GGUF metadata in `utils.rs`: what it may read in all (`GgufParseBudget`), where it is
in the file (`GgufReader`), and the values it reads or skips.

* `readGgufString`, `readGgufStringArray` — values that are kept.
* `skipGgufValue` — values that are not.
-/

namespace LlamaServerManager.Gguf

open Lib.Buffered Lib.Decoding Lib.LittleEndian Lib.Words

abbrev Str := List Char

abbrev Bytes := List UInt8

def maxGgufStringBytes : Nat := 10000000
def maxGgufArrayItems : Nat := 10000000
def maxGgufMetadataItems : Nat := 65536
def maxGgufStringItems : Nat := 65536
def maxGgufSkippedStringItems : Nat := 1000000
def maxGgufTotalStringBytes : Nat := 16 * 1024 * 1024
def maxGgufTagArrayItems : Nat := 4096
def maxGgufStoredTags : Nat := 256
def maxGgufTagBytes : Nat := 4096
def maxGgufTagTotalBytes : Nat := 65536

/-! ### UTF-8 -/

/-- A character of which some bytes are read: its bits, the bounds of the next byte, and how many
bytes follow that one. -/
structure Pending where
  bits : Nat
  low : Nat
  high : Nat
  more : Nat

/-- A first byte: a character, the start of one, or neither. -/
def startUtf8 (byte : Nat) : Sum Char Pending :=
  if byte < 0x80 then .inl (Char.ofNat byte)
  else if 0xC2 ≤ byte ∧ byte ≤ 0xDF then .inr ⟨byte % 32, 0x80, 0xBF, 0⟩
  else if byte = 0xE0 then .inr ⟨byte % 16, 0xA0, 0xBF, 1⟩
  else if byte = 0xED then .inr ⟨byte % 16, 0x80, 0x9F, 1⟩
  else if 0xE1 ≤ byte ∧ byte ≤ 0xEF then .inr ⟨byte % 16, 0x80, 0xBF, 1⟩
  else if byte = 0xF0 then .inr ⟨byte % 8, 0x90, 0xBF, 2⟩
  else if 0xF1 ≤ byte ∧ byte ≤ 0xF3 then .inr ⟨byte % 8, 0x80, 0xBF, 2⟩
  else if byte = 0xF4 then .inr ⟨byte % 8, 0x80, 0x8F, 2⟩
  else .inl '\uFFFD'

/-- `U+FFFD` for each maximal part that cannot be continued. -/
def decodeUtf8 : Option Pending → Bytes → Str
  | none, [] => []
  | some _, [] => ['\uFFFD']
  | none, byte :: bytes =>
    match startUtf8 byte.toNat with
    | .inl c => c :: decodeUtf8 none bytes
    | .inr pending => decodeUtf8 (some pending) bytes
  | some pending, byte :: bytes =>
    if pending.low ≤ byte.toNat ∧ byte.toNat ≤ pending.high then
      let bits := pending.bits * 64 + byte.toNat % 64
      match pending.more with
      | 0 => Char.ofNat bits :: decodeUtf8 none bytes
      | more + 1 => decodeUtf8 (some ⟨bits, 0x80, 0xBF, more⟩) bytes
    else
      match startUtf8 byte.toNat with
      | .inl c => '\uFFFD' :: c :: decodeUtf8 none bytes
      | .inr pending => '\uFFFD' :: decodeUtf8 (some pending) bytes

/-- `String::from_utf8_lossy`. -/
def fromUtf8Lossy (bytes : Bytes) : Str := decodeUtf8 none bytes

/-! ### Errors -/

inductive Failure where
  | endOfFile
  | fileTooSmall
  | notGguf
  | tooManyEntries
  | entriesExceedFile
  | stringTooLarge
  | tooManyStrings
  | tooManyStringBytes
  | tooManySkippedStrings
  | offsetOverflow
  | beyondFile
  | tagArrayTooLarge
  | arrayLengthOverflow
  | stringArrayTooLarge
  | unsupportedArrayType (arrayType : Nat)
  | arrayTooLarge
  | unsupportedValueType (valueType : Nat)
deriving DecidableEq

def Failure.message : Failure → String
  | .endOfFile => "failed to fill whole buffer"
  | .fileTooSmall => "file is too small"
  | .notGguf => "not a valid GGUF file"
  | .tooManyEntries => "GGUF metadata entry count is too large"
  | .entriesExceedFile => "GGUF metadata entry count exceeds the available file data"
  | .stringTooLarge => "GGUF string is too large"
  | .tooManyStrings => "GGUF contains too many strings"
  | .tooManyStringBytes => "GGUF cumulative string data is too large"
  | .tooManySkippedStrings => "GGUF contains too many skipped strings"
  | .offsetOverflow => "GGUF value offset overflow"
  | .beyondFile => "GGUF value extends beyond the file"
  | .tagArrayTooLarge => "GGUF tag array is too large"
  | .arrayLengthOverflow => "GGUF array byte length overflow"
  | .stringArrayTooLarge => "GGUF string array is too large"
  | .unsupportedArrayType arrayType => s!"unsupported GGUF array type {arrayType}"
  | .arrayTooLarge => "GGUF array is too large"
  | .unsupportedValueType valueType => s!"unsupported GGUF value type {valueType}"

/-! ### Budgets -/

structure GgufParseBudget where
  remainingStringItems : Nat := maxGgufStringItems
  remainingStringBytes : Nat := maxGgufTotalStringBytes
  remainingSkippedStringItems : Nat := maxGgufSkippedStringItems
deriving DecidableEq

def GgufParseBudget.consumeString (budget : GgufParseBudget) (len : Nat) :
    Except Failure GgufParseBudget :=
  if maxGgufStringBytes < len then .error .stringTooLarge
  else
    match checkedSub budget.remainingStringItems 1 with
    | none => .error .tooManyStrings
    | some items =>
      match checkedSub budget.remainingStringBytes len with
      | none => .error .tooManyStringBytes
      | some bytes =>
        .ok { budget with remainingStringItems := items, remainingStringBytes := bytes }

def GgufParseBudget.consumeSkippedString (budget : GgufParseBudget) (len : Nat) :
    Except Failure GgufParseBudget :=
  if maxGgufStringBytes < len then .error .stringTooLarge
  else
    match checkedSub budget.remainingSkippedStringItems 1 with
    | none => .error .tooManySkippedStrings
    | some items => .ok { budget with remainingSkippedStringItems := items }

/-! ### The reader -/

structure GgufReader where
  source : BufReader UInt8
  length : Nat
  position : Nat

def bufferCapacity : Nat := 64 * 1024

def GgufReader.new (source : Source UInt8) (length : Nat) : GgufReader := ⟨.new source, length, 0⟩

/-- `Read::read`. -/
def GgufReader.read (file : GgufReader) (wanted : Nat) : Bytes × GgufReader :=
  let (output, source) := file.source.read bufferCapacity wanted
  (output, { file with source, position := addU64 file.position output.length })

/-- `Read::read_exact`: reads on until nothing is given. -/
def GgufReader.readExact (file : GgufReader) (wanted : Nat) : Option (Bytes × GgufReader) :=
  if wanted = 0 then some ([], file)
  else
    match file.read wanted with
    | ([], _) => none
    | (byte :: output, file) =>
      (file.readExact (wanted - (output.length + 1))).map fun (more, file) =>
        (byte :: output ++ more, file)
termination_by wanted

def GgufReader.seekRelative (file : GgufReader) (bytes : Nat) : GgufReader :=
  { file with
    source := file.source.seekRelative bytes
    position := addU64 file.position bytes }

/-- What the functions below change. -/
structure State where
  file : GgufReader
  budget : GgufParseBudget

abbrev Parse := StateT State (Except Failure)

def readExact (wanted : Nat) : Parse Bytes := fun s =>
  match s.file.readExact wanted with
  | some (bytes, file) => .ok (bytes, { s with file })
  | none => .error .endOfFile

def readU32 : Parse Nat := do return number (← readExact 4)

def readBool : Parse Bool := do return number (← readExact 1) ≠ 0

def readI32 : Parse Int := do return signed 32 (number (← readExact 4))

def readU64 : Parse Nat := do return number (← readExact 8)

def readI64 : Parse Int := do return signed 64 (number (← readExact 8))

def consumeString (len : Nat) : Parse Unit := fun s =>
  (s.budget.consumeString len).map fun budget => ((), { s with budget })

def consumeSkippedString (len : Nat) : Parse Unit := fun s =>
  (s.budget.consumeSkippedString len).map fun budget => ((), { s with budget })

def ensureBytesAvailable (bytes : Nat) : Parse Unit := fun s =>
  match checkedAdd s.file.position bytes with
  | none => .error .offsetOverflow
  | some target =>
    if s.file.length < target then .error .beyondFile else .ok ((), s)

/-- `i64::try_from` and `seek_relative`. -/
def seekRelative (bytes : Nat) : Parse Unit := fun s =>
  if bytes < 2 ^ 63 then .ok ((), { s with file := s.file.seekRelative bytes })
  else .error .offsetOverflow

def skipBytes (bytes : Nat) : Parse Unit := do
  ensureBytesAvailable bytes
  seekRelative bytes

def readGgufString : Parse Str := do
  let len ← readU64
  consumeString len
  ensureBytesAvailable len
  return fromUtf8Lossy (← readExact len)

def skipGgufString : Parse Unit := do
  let len ← readU64
  consumeSkippedString len
  skipBytes len

/-! ### Arrays and skipped values -/

def skipScaledArray (arrayLen itemBytes : Nat) : Parse Unit :=
  match checkedMul arrayLen itemBytes with
  | some bytes => skipBytes bytes
  | none => throw .arrayLengthOverflow

def skipGgufArray (arrayType arrayLen : Nat) : Parse Unit :=
  match arrayType with
  | 0 | 1 | 7 => skipBytes arrayLen
  | 2 | 3 => skipScaledArray arrayLen 2
  | 4 | 5 | 6 => skipScaledArray arrayLen 4
  | 10 | 11 | 12 => skipScaledArray arrayLen 8
  | 8 => do
    if (← get).budget.remainingSkippedStringItems < arrayLen then throw .stringArrayTooLarge
    else loop (fun _ => skipGgufString) arrayLen ()
  | arrayType => throw (.unsupportedArrayType arrayType)

/-- The tags that are kept, of how many bytes, and how many there were. -/
structure Tags where
  values : List Str
  retainedBytes : Nat
  index : Nat

/-- A tag is kept while there are few, and none of them and not all are too long. -/
def Tags.keeps (tags : Tags) (len : Nat) : Bool :=
  tags.index < maxGgufStoredTags && len ≤ maxGgufTagBytes &&
    (checkedAdd tags.retainedBytes len).any (· ≤ maxGgufTagTotalBytes)

def Tags.push (tags : Tags) (bytes : Bytes) : Tags :=
  if tags.keeps bytes.length then
    { values := tags.values ++ [fromUtf8Lossy bytes]
      retainedBytes := (checkedAdd tags.retainedBytes bytes.length).getD tags.retainedBytes
      index := tags.index + 1 }
  else { tags with index := tags.index + 1 }

def readTag (tags : Tags) : Parse Tags := do
  let len ← readU64
  consumeString len
  ensureBytesAvailable len
  if tags.keeps len then return tags.push (← readExact len)
  else
    skipBytes len
    return { tags with index := tags.index + 1 }

def readGgufStringArray : Parse (List Str) := do
  let arrayType ← readU32
  let arrayLen ← readU64
  if maxGgufTagArrayItems < arrayLen then throw .tagArrayTooLarge
  else if arrayType ≠ 8 then
    skipGgufArray arrayType arrayLen
    return []
  else return (← loop readTag arrayLen ⟨[], 0, 0⟩).values

def skipGgufValue (valueType : Nat) : Parse Unit :=
  match valueType with
  | 0 | 1 | 7 => skipBytes 1
  | 2 | 3 => skipBytes 2
  | 4 | 5 | 6 => skipBytes 4
  | 10 | 11 | 12 => skipBytes 8
  | 8 => do
    let _ ← readGgufString
  | 9 => do
    let arrayType ← readU32
    let arrayLen ← readU64
    if maxGgufArrayItems < arrayLen then throw .arrayTooLarge
    else skipGgufArray arrayType arrayLen
  | valueType => throw (.unsupportedValueType valueType)

end LlamaServerManager.Gguf
