import LlamaServerManager.Logs.Lines
import Mathlib.Algebra.Group.Nat.Defs

/-!
The log file of a bounded size (`CappedLogWriter` of `commands/server.rs`). An append that
would make the file too long rotates it first: the file keeps its last bytes only, the
generation goes up, and the boundary is where the bytes appended since then begin. The
lock makes every operation one step.
-/

namespace LlamaServerManager.Logs

open Lib.Framing

/-- The largest value of a 64-bit counter. -/
def maxCounter : Nat := 2 ^ 64 - 1

/-- `u64::saturating_add`. -/
def saturatingAdd (a b : Nat) : Nat := min (a + b) maxCounter

/-- File offsets are signed; a write past the last one is an I/O error. -/
def maxFileSize : Nat := 2 ^ 63 - 1

structure CappedLog where
  file : List UInt8
  size : Nat
  maxBytes : Nat
  retainedBytes : Nat
  generation : Nat
  rotationBoundary : Nat
deriving DecidableEq, Repr

structure LogReadChunk where
  bytes : List UInt8
  endOffset : Nat
  generation : Nat
  rotated : Bool
deriving DecidableEq, Repr

namespace CappedLog

/-- `CappedLogWriter::new`; `none` is the error of a retained size that is too large. -/
def new (maxBytes retainedBytes : Nat) : Option CappedLog :=
  if maxBytes ≤ retainedBytes then none
  else some {
    file := [], size := 0, maxBytes, retainedBytes, generation := 0, rotationBoundary := 0 }

/-- The append of these bytes rotates the file. -/
def rotates (log : CappedLog) (bytes : List UInt8) : Bool :=
  log.maxBytes < saturatingAdd log.size bytes.length

/-- The rotation at the head of `append`. -/
def rotate (log : CappedLog) : CappedLog :=
  let keep := min log.size log.retainedBytes
  let tailStart := log.size - keep
  let tail := (log.file.drop tailStart).take keep
  { log with
    file := tail
    size := keep
    generation := saturatingAdd log.generation 1
    rotationBoundary := keep }

/-- `append`; `none` is an I/O error. -/
def append (log : CappedLog) (bytes : List UInt8) : Option CappedLog :=
  let log := if log.rotates bytes then log.rotate else log
  if maxFileSize < (log.file ++ bytes).length then none
  else some { log with
    file := log.file ++ bytes
    size := saturatingAdd log.size bytes.length }

/-- `read_since`. -/
def readSince (log : CappedLog) (offset generation : Nat) : LogReadChunk :=
  let rotated := decide (log.generation ≠ generation)
  let start := if rotated then min log.rotationBoundary log.size else min offset log.size
  let available := log.size - start
  { bytes := (log.file.drop start).take available
    endOffset := log.size
    generation := log.generation
    rotated }

end CappedLog

/-! ### What an append leaves -/

namespace CappedLog

/-- The recorded size is that of the file, and the file can exist. -/
structure Sound (log : CappedLog) : Prop where
  size_eq : log.size = log.file.length
  bounded : log.file.length ≤ maxFileSize
  boundary_le : log.rotationBoundary ≤ log.file.length

theorem new_eq {maxBytes retainedBytes : Nat} {log : CappedLog}
    (made : new maxBytes retainedBytes = some log) :
    retainedBytes < maxBytes ∧ log = {
      file := [], size := 0, maxBytes, retainedBytes, generation := 0, rotationBoundary := 0 } := by
  unfold new at made
  split at made
  · cases made
  · rename_i smaller
    exact ⟨Nat.not_le.mp smaller, (Option.some.inj made).symm⟩

theorem saturatingAdd_eq {a b : Nat} (small : a + b ≤ maxCounter) : saturatingAdd a b = a + b :=
  Nat.min_eq_left small

/-- No file is as long as a counter is large. -/
theorem size_add_length {a b : Nat} (file : a ≤ maxFileSize) (bytes : b ≤ maxFileSize) :
    saturatingAdd a b = a + b := by
  refine saturatingAdd_eq (Nat.le_trans (Nat.add_le_add file bytes) ?_)
  decide

variable {log log' : CappedLog} {bytes : List UInt8}

theorem append_eq_some :
    log.append bytes = some log' ↔
      ((if log.rotates bytes then log.rotate else log).file ++ bytes).length ≤ maxFileSize ∧
        log' = { (if log.rotates bytes then log.rotate else log) with
          file := (if log.rotates bytes then log.rotate else log).file ++ bytes
          size := saturatingAdd (if log.rotates bytes then log.rotate else log).size
            bytes.length } := by
  unfold append
  simp only [Option.ite_none_left_eq_some, Nat.not_lt, Option.some.injEq]
  exact and_congr_right fun _ => eq_comm

/-- The bytes that a rotation keeps. -/
def retained (log : CappedLog) : List UInt8 :=
  log.file.drop (log.file.length - log.retainedBytes)

theorem retained_length_le (log : CappedLog) : log.retained.length ≤ log.retainedBytes := by
  rw [retained, List.length_drop]
  omega

theorem retained_suffix (log : CappedLog) : log.retained <:+ log.file :=
  List.drop_suffix _ _

theorem rotate_eq (sound : log.Sound) :
    log.rotate = { log with
      file := log.retained
      size := log.retained.length
      generation := saturatingAdd log.generation 1
      rotationBoundary := log.retained.length } := by
  have length : min log.file.length log.retainedBytes = log.retained.length := by
    rw [retained, List.length_drop]
    omega
  have start : log.file.length - log.retained.length = log.file.length - log.retainedBytes := by
    omega
  unfold rotate
  simp only [sound.size_eq, length, start]
  rw [← retained, List.take_length]

/-- **What an append leaves**: the file with the bytes behind it, after a rotation where
the two together are too long. -/
theorem append_cases (sound : log.Sound) (done : log.append bytes = some log') :
    (log.rotates bytes = false ∧ log.file.length + bytes.length ≤ log.maxBytes ∧
      log' = { log with file := log.file ++ bytes, size := (log.file ++ bytes).length }) ∨
    (log.rotates bytes = true ∧
      log' = { log with
        file := log.retained ++ bytes
        size := (log.retained ++ bytes).length
        generation := saturatingAdd log.generation 1
        rotationBoundary := log.retained.length }) := by
  obtain ⟨fits, rfl⟩ := append_eq_some.mp done
  cases rotates : log.rotates bytes with
  | false =>
    simp only [rotates, Bool.false_eq_true, ↓reduceIte, List.length_append] at fits ⊢
    have exact_ := size_add_length sound.bounded (Nat.le_trans (Nat.le_add_left _ _) fits)
    have small : ¬log.maxBytes < saturatingAdd log.size bytes.length := by
      simpa [CappedLog.rotates] using rotates
    rw [sound.size_eq, exact_] at small
    exact .inl ⟨trivial, Nat.not_lt.mp small, by rw [sound.size_eq, exact_]⟩
  | true =>
    simp only [rotates, ↓reduceIte, rotate_eq sound, List.length_append] at fits ⊢
    have exact_ := size_add_length (Nat.le_trans (Nat.le_add_right _ _) fits)
      (Nat.le_trans (Nat.le_add_left _ _) fits)
    exact .inr ⟨trivial, by rw [exact_]⟩

theorem append_bounded (done : log.append bytes = some log') :
    log'.file.length ≤ maxFileSize := by
  obtain ⟨fits, rfl⟩ := append_eq_some.mp done
  exact fits

/-- What a read gives: the file from where it starts. -/
theorem readSince_bytes (sound : log.Sound) (offset generation : Nat) :
    (log.readSince offset generation).bytes = log.file.drop
      (if log.generation ≠ generation then log.rotationBoundary
        else min offset log.file.length) := by
  have boundary := Nat.min_eq_left sound.boundary_le
  unfold readSince
  simp only [sound.size_eq, boundary, decide_eq_true_eq]
  generalize (if log.generation ≠ generation then log.rotationBoundary
    else min offset log.file.length) = start
  rw [← List.length_drop, List.take_length]

end CappedLog

/-! ### The tail of a file -/

def logReplayMaxBytes : Nat := 4 * 1024 * 1024

def replayChunkBytes : Nat := 64 * 1024

/-- The chunks from the end of the file until they hold more than `maxLines` newlines:
where they begin, and their bytes. -/
def scanTail (chunkBytes : Nat) (file : List UInt8)
    (minOffset maxLines offset newlineCount : Nat) (bytes : List UInt8) : Nat × List UInt8 :=
  if minOffset < offset ∧ newlineCount ≤ maxLines then
    let chunkStart := max (offset - chunkBytes) minOffset
    let chunkLen := offset - chunkStart
    if chunkLen = 0 then (offset, bytes)
    else
      let chunk := (file.drop chunkStart).take chunkLen
      scanTail chunkBytes file minOffset maxLines chunkStart
        (newlineCount + chunk.count newline) (chunk ++ bytes)
  else (offset, bytes)
termination_by offset

/-- The first byte after the line that the scan may have cut. -/
def validStart (offset : Nat) (bytes : List UInt8) : Nat :=
  if 0 < offset then
    match bytes.findIdx? (· == newline) with
    | some index => index + 1
    | none => bytes.length
  else 0

/-- The first byte after the last newline. -/
def completeEnd (offset : Nat) (bytes : List UInt8) : Nat :=
  match rposition newline bytes with
  | some index =>
    if validStart offset bytes ≤ index + 1 then index + 1 else validStart offset bytes
  | none => validStart offset bytes

/-- `str::lines`: a line loses its newline and a carriage return before it. -/
def textLines (text : String) : List String :=
  let (ended, open_) := frames '\n' text.toList
  let ended := ended.map fun line => if line.getLast? = some '\r' then line.dropLast else line
  (if open_ = [] then ended else ended ++ [open_]).map String.ofList

section Tail

variable (fromUtf8Lossy : List UInt8 → String) (redactCommandSecrets : String → String)

/-- `read_log_tail_from_file`: the last lines, and where the reader goes on. -/
def readLogTailFromFile (file : List UInt8) (fileLen maxLines : Nat) : List String × Nat :=
  let minOffset := fileLen - logReplayMaxBytes
  let (offset, bytes) := scanTail replayChunkBytes file minOffset maxLines fileLen 0 []
  let start := validStart offset bytes
  let stop := completeEnd offset bytes
  let text := fromUtf8Lossy ((bytes.take stop).drop start)
  let lines := (((textLines text).reverse.take maxLines).map redactCommandSecrets).reverse
  (lines, saturatingAdd offset stop)

/-- `read_tail`: the lines, the offset, and the generation. -/
def CappedLog.readTail (log : CappedLog) (maxLines : Nat) : List String × Nat × Nat :=
  let (lines, offset) :=
    readLogTailFromFile fromUtf8Lossy redactCommandSecrets log.file log.size maxLines
  (lines, offset, log.generation)

end Tail

/-! ### Where the reader of a tail goes on -/

/-- The scan holds the bytes from where it begins to the end of the file. -/
theorem scanTail_spec {chunkBytes : Nat} {file : List UInt8}
    {minOffset maxLines offset newlineCount : Nat} {bytes : List UInt8}
    (rest : bytes = file.drop offset) (inside : offset ≤ file.length) :
    (scanTail chunkBytes file minOffset maxLines offset newlineCount bytes).2 =
        file.drop (scanTail chunkBytes file minOffset maxLines offset newlineCount bytes).1 ∧
      (scanTail chunkBytes file minOffset maxLines offset newlineCount bytes).1 ≤
        file.length := by
  fun_induction scanTail chunkBytes file minOffset maxLines offset newlineCount bytes with
  | case1 => exact ⟨rest, inside⟩
  | case2 offset newlineCount bytes more chunkStart chunkLen some chunk ih =>
    have before : chunkStart ≤ offset := by omega
    refine ih ?_ (by omega)
    have cut := List.take_append_drop chunkLen (file.drop chunkStart)
    rw [List.drop_drop, Nat.add_sub_cancel' before, ← rest] at cut
    exact cut
  | case3 => exact ⟨rest, inside⟩

theorem validStart_le (offset : Nat) (bytes : List UInt8) :
    validStart offset bytes ≤ bytes.length := by
  unfold validStart
  split
  · split
    · rename_i index found
      exact (List.findIdx?_eq_some_iff_getElem.mp found).1
    · exact Nat.le_refl _
  · exact Nat.zero_le _

theorem completeEnd_le (offset : Nat) (bytes : List UInt8) :
    completeEnd offset bytes ≤ bytes.length := by
  unfold completeEnd
  split
  · rename_i index last
    obtain ⟨front, back, rfl, rfl, -⟩ := rposition_some last
    split
    · simp
    · exact validStart_le _ _
  · exact validStart_le _ _

section Tail

variable {fromUtf8Lossy : List UInt8 → String} {redactCommandSecrets : String → String}

/-- **The tail ends inside the file.** -/
theorem readLogTailFromFile_le (file : List UInt8) (maxLines : Nat) :
    (readLogTailFromFile fromUtf8Lossy redactCommandSecrets file file.length maxLines).2 ≤
      file.length := by
  simp only [readLogTailFromFile]
  obtain ⟨held, inside⟩ := @scanTail_spec replayChunkBytes file
    (file.length - logReplayMaxBytes) maxLines file.length 0 [] (by simp) (Nat.le_refl _)
  generalize scanTail replayChunkBytes file (file.length - logReplayMaxBytes) maxLines
    file.length 0 [] = scanned at held inside ⊢
  obtain ⟨offset, bytes⟩ := scanned
  simp only at held inside ⊢
  have stop := completeEnd_le offset bytes
  have length : bytes.length = file.length - offset := by rw [held, List.length_drop]
  exact Nat.le_trans (Nat.min_le_left _ _) (by omega)

end Tail

end LlamaServerManager.Logs
