import LlamaServerManager.Lib.Machine
import LlamaServerManager.Logs.Capped

/-!
One writer and one reader of a capped log. The reader takes the tail once and then reads
on from the offset and the generation it was last given. Beside the log stands what it
does not store: everything that was appended, and for each read which of these bytes it
returned.

* `Stored` — the file is the end of what was appended, with the last append in it.
* `Tracked` — where the reader is, in what was appended; it holds as long as the
  generation counts the rotations.
* `follower_faithful` — the two over all runs.
-/

namespace LlamaServerManager.Logs

open Lib

/-- What the reader was last given, and the index after the last byte it has. -/
structure Reader where
  offset : Nat
  generation : Nat
  received : Nat
deriving DecidableEq, Repr

/-- One `read_since`: the indices of the bytes it returned among all bytes appended, how
many these were then, and the index of the first one since the last rotation. -/
structure Reading where
  start : Nat
  stop : Nat
  bytes : List UInt8
  rotated : Bool
  total : Nat
  rotatedAt : Nat
deriving DecidableEq, Repr

/-- A log with one reader, and as history what was appended to it, from where the reader
has read and what each read gave. -/
structure Following where
  log : CappedLog
  appended : List UInt8
  lastAppend : List UInt8
  rotations : Nat
  sinceRotation : Nat
  reader : Option Reader
  position : Nat
  readings : List Reading
deriving DecidableEq, Repr

inductive Action where
  | append (bytes : List UInt8)
  | readTail (maxLines : Nat)
  | readSince
deriving DecidableEq, Repr

namespace Following

/-- Nothing appended yet, nothing read. -/
def start (log : CappedLog) : Following where
  log := log
  appended := []
  lastAppend := []
  rotations := 0
  sinceRotation := 0
  reader := none
  position := 0
  readings := []

/-- The index of the file's first byte. -/
def base (s : Following) : Nat := s.appended.length - s.log.file.length

def append (s : Following) (bytes : List UInt8) : Option Following :=
  (s.log.append bytes).map fun log =>
    { s with
      log
      appended := s.appended ++ bytes
      lastAppend := bytes
      rotations := if s.log.rotates bytes then s.rotations + 1 else s.rotations
      sinceRotation :=
        if s.log.rotates bytes then bytes.length else s.sinceRotation + bytes.length }

def readSince (s : Following) (reader : Reader) : Following :=
  let chunk := s.log.readSince reader.offset reader.generation
  { s with
    reader := some {
      offset := chunk.endOffset
      generation := chunk.generation
      received := s.base + chunk.endOffset }
    readings := s.readings ++ [{
      start := s.base + (chunk.endOffset - chunk.bytes.length)
      stop := s.base + chunk.endOffset
      bytes := chunk.bytes
      rotated := chunk.rotated
      total := s.appended.length
      rotatedAt := s.appended.length - s.sinceRotation }] }

section

variable (fromUtf8Lossy : List UInt8 → String) (redactCommandSecrets : String → String)

def readTail (s : Following) (maxLines : Nat) : Following :=
  let (_, offset, generation) := s.log.readTail fromUtf8Lossy redactCommandSecrets maxLines
  { s with
    reader := some { offset, generation, received := s.base + offset }
    position := s.base + offset }

/-- The tail is read once, before any other read. -/
def next (s : Following) : Action → Option Following
  | .append bytes => s.append bytes
  | .readTail maxLines =>
    match s.reader with
    | none => some (s.readTail fromUtf8Lossy redactCommandSecrets maxLines)
    | some _ => none
  | .readSince => s.reader.map s.readSince

end

end Following

def following (fromUtf8Lossy : List UInt8 → String) (redactCommandSecrets : String → String)
    (log : CappedLog) : Machine Following Action where
  init := .start log
  next := Following.next fromUtf8Lossy redactCommandSecrets

/-! ### What a read returns -/

/-- A read by a reader that had everything up to `received`: a stretch of what was
appended, after what it had, to the end, with all that came since the last rotation;
without a rotation it begins where the reader was. -/
structure Delivered (appended : List UInt8) (received : Nat) (r : Reading) : Prop where
  bytes_eq : r.bytes = (appended.take r.stop).drop r.start
  ordered : received ≤ r.start
  stop_eq : r.stop = r.total
  start_le : r.start ≤ r.stop
  stop_le : r.stop ≤ appended.length
  recent : r.start ≤ max received r.rotatedAt
  gapless : r.rotated = false → r.start = received

/-- The reads one after another, each where the one before it stopped. -/
def Follows (appended : List UInt8) : Nat → List Reading → Nat → Prop
  | received, [], last => received = last
  | received, r :: rs, last => Delivered appended received r ∧ Follows appended r.stop rs last

theorem Delivered.append {appended : List UInt8} {received : Nat} {r : Reading}
    (h : Delivered appended received r) (bytes : List UInt8) :
    Delivered (appended ++ bytes) received r where
  bytes_eq := by rw [List.take_append_of_le_length h.stop_le, h.bytes_eq]
  ordered := h.ordered
  stop_eq := h.stop_eq
  start_le := h.start_le
  stop_le := by
    rw [List.length_append]
    exact Nat.le_trans h.stop_le (Nat.le_add_right _ _)
  recent := h.recent
  gapless := h.gapless

theorem Follows.append {appended : List UInt8} {received last : Nat} {rs : List Reading}
    (h : Follows appended received rs last) (bytes : List UInt8) :
    Follows (appended ++ bytes) received rs last := by
  induction rs generalizing received with
  | nil => exact h
  | cons r rs ih => exact ⟨h.1.append bytes, ih h.2⟩

theorem Follows.snoc {appended : List UInt8} {received last : Nat} {rs : List Reading}
    {r : Reading} (h : Follows appended received rs last) (more : Delivered appended last r) :
    Follows appended received (rs ++ [r]) r.stop := by
  induction rs generalizing received with
  | nil =>
    obtain rfl : received = last := h
    exact ⟨more, rfl⟩
  | cons first rs ih => exact ⟨h.1, ih h.2⟩

/-! ### The file -/

/-- **The file**: the end of what was appended, with the last append in it, no longer
than the limit or than what a rotation keeps and the last append. -/
structure Stored (s : Following) : Prop where
  sound : s.log.Sound
  suffix : s.log.file <:+ s.appended
  whole : s.lastAppend <:+ s.log.file
  bounded : s.log.file.length ≤
    max s.log.maxBytes (s.log.retainedBytes + s.lastAppend.length)
  boundary : s.log.rotationBoundary + s.sinceRotation = s.log.file.length
  counted : s.log.generation = min s.rotations maxCounter

namespace Stored

variable {s t : Following}

theorem base_add (h : Stored s) : s.base + s.log.file.length = s.appended.length :=
  Nat.sub_add_cancel h.suffix.length_le

/-- A byte of the file and its index among all bytes appended. -/
theorem drop_file (h : Stored s) (i : Nat) :
    s.log.file.drop i = s.appended.drop (s.base + i) := by
  obtain ⟨before, all⟩ := h.suffix
  have base : s.base = before.length := by
    unfold Following.base
    rw [← all, List.length_append, Nat.add_sub_cancel]
  rw [base, ← all, List.drop_append, List.drop_eq_nil_of_le (Nat.le_add_right _ _),
    List.nil_append, Nat.add_sub_cancel_left]

theorem start {maxBytes retainedBytes : Nat} {log : CappedLog}
    (made : CappedLog.new maxBytes retainedBytes = some log) : Stored (.start log) := by
  obtain ⟨-, rfl⟩ := CappedLog.new_eq made
  exact {
    sound := ⟨rfl, Nat.zero_le _, Nat.le_refl _⟩
    suffix := List.suffix_refl _
    whole := List.suffix_refl _
    bounded := Nat.zero_le _
    boundary := rfl
    counted := rfl }

theorem append {bytes : List UInt8} (h : Stored s) (step : s.append bytes = some t) :
    Stored t := by
  obtain ⟨log, done, rfl⟩ := Option.map_eq_some_iff.mp step
  have fits := CappedLog.append_bounded done
  rcases CappedLog.append_cases h.sound done with ⟨same, small, rfl⟩ | ⟨rotates, rfl⟩
  · refine ⟨⟨rfl, fits, ?_⟩, ?_, List.suffix_append _ _, ?_, ?_, ?_⟩
    · simp only [List.length_append]
      exact Nat.le_trans h.sound.boundary_le (Nat.le_add_right _ _)
    · obtain ⟨before, all⟩ := h.suffix
      exact ⟨before, by rw [← List.append_assoc, all]⟩
    · simp only [List.length_append]
      exact Nat.le_trans small (Nat.le_max_left _ _)
    · have boundary := h.boundary
      simp [same]
      omega
    · simpa [same] using h.counted
  · refine ⟨⟨rfl, fits, ?_⟩, ?_, List.suffix_append _ _, ?_, ?_, ?_⟩
    · simp
    · obtain ⟨before, all⟩ := s.log.retained_suffix.trans h.suffix
      exact ⟨before, by rw [← List.append_assoc, all]⟩
    · simp only [List.length_append]
      have kept := s.log.retained_length_le
      exact Nat.le_trans (Nat.add_le_add_right kept _) (Nat.le_max_right _ _)
    · simp [rotates]
    · have counted := h.counted
      simp only [rotates, ↓reduceIte, saturatingAdd]
      omega

/-- The reader changes nothing of the file. -/
theorem read (h : Stored s) (reader : Option Reader) (position : Nat)
    (readings : List Reading) : Stored { s with reader, position, readings } where
  sound := h.sound
  suffix := h.suffix
  whole := h.whole
  bounded := h.bounded
  boundary := h.boundary
  counted := h.counted

end Stored

/-! ### The reader -/

/-- Where the reader is in what was appended: in the file, as long as there was no
rotation since its last read, and before the last rotation otherwise. -/
structure Placed (s : Following) (reader : Reader) : Prop where
  generation_le : reader.generation ≤ s.rotations
  inside : reader.generation = s.rotations →
    reader.received = s.base + reader.offset ∧ reader.offset ≤ s.log.file.length
  passed : reader.generation < s.rotations →
    reader.received ≤ s.appended.length - s.sinceRotation
  received_le : reader.received ≤ s.appended.length

/-- **The reader**: what it read, in order, up to where it is. -/
structure Tracked (s : Following) : Prop where
  unread : s.reader = none → s.readings = []
  placed : ∀ reader, s.reader = some reader → Placed s reader
  follows : ∀ reader, s.reader = some reader →
    Follows s.appended s.position s.readings reader.received

namespace Tracked

variable {s t : Following}

theorem append {bytes : List UInt8} (stored : Stored s) (h : Tracked s)
    (step : s.append bytes = some t) : Tracked t := by
  obtain ⟨log, done, rfl⟩ := Option.map_eq_some_iff.mp step
  refine ⟨h.unread, ?_, fun reader at_ => (h.follows reader at_).append bytes⟩
  intro reader at_
  obtain ⟨generation_le, inside, passed, received_le⟩ := h.placed reader at_
  rcases CappedLog.append_cases stored.sound done with ⟨same, small, rfl⟩ | ⟨rotates, rfl⟩
  · refine ⟨?_, ?_, ?_, ?_⟩
    · simpa [same] using generation_le
    · simp only [same, Bool.false_eq_true, ↓reduceIte]
      intro current
      obtain ⟨received, fits⟩ := inside current
      simp only [Following.base, List.length_append] at received ⊢
      omega
    · simp only [same, Bool.false_eq_true, ↓reduceIte, List.length_append]
      intro behind
      have before := passed behind
      omega
    · simp only [List.length_append]
      omega
  · refine ⟨?_, ?_, ?_, ?_⟩
    · simp only [rotates, ↓reduceIte]
      omega
    · simp only [rotates, ↓reduceIte]
      omega
    · simp only [rotates, ↓reduceIte, List.length_append, Nat.add_sub_cancel]
      exact fun _ => received_le
    · simp only [List.length_append]
      omega

theorem readTail {fromUtf8Lossy : List UInt8 → String} {redactCommandSecrets : String → String}
    (stored : Stored s) (counts : s.rotations ≤ maxCounter) (h : Tracked s)
    (fresh : s.reader = none) (maxLines : Nat) :
    Tracked (s.readTail fromUtf8Lossy redactCommandSecrets maxLines) := by
  have inside := @readLogTailFromFile_le fromUtf8Lossy redactCommandSecrets s.log.file maxLines
  have all := stored.base_add
  have generation : s.log.generation = s.rotations := by
    rw [stored.counted, Nat.min_eq_left counts]
  rw [← stored.sound.size_eq] at inside
  refine ⟨fun none_ => (nomatch none_), ?_, ?_⟩
  · rintro reader ⟨rfl⟩
    refine ⟨Nat.le_of_eq generation, fun _ => ⟨rfl, ?_⟩, ?_, ?_⟩
    · exact Nat.le_trans inside (Nat.le_of_eq stored.sound.size_eq)
    · intro behind
      exact absurd generation (Nat.ne_of_lt behind)
    · refine Nat.le_trans (Nat.add_le_add_left inside _) ?_
      rw [stored.sound.size_eq]
      exact Nat.le_of_eq all
  · rintro reader ⟨rfl⟩
    show Follows s.appended _ s.readings _
    rw [h.unread fresh]
    rfl

/-- Where a read starts among all bytes appended. -/
theorem delivered (stored : Stored s) (counts : s.rotations ≤ maxCounter) {reader : Reader}
    (placed : Placed s reader) :
    ∃ r, (s.readSince reader).readings = s.readings ++ [r] ∧ r.stop = s.appended.length ∧
      Delivered s.appended reader.received r := by
  have generation : s.log.generation = s.rotations := by
    rw [stored.counted, Nat.min_eq_left counts]
  have all := stored.base_add
  have boundary := stored.boundary
  have boundary_le := stored.sound.boundary_le
  have bytes := CappedLog.readSince_bytes stored.sound reader.offset reader.generation
  have size : (s.log.readSince reader.offset reader.generation).endOffset = s.log.file.length :=
    stored.sound.size_eq
  refine ⟨_, rfl, ?_, ?_⟩
  · rw [size, all]
  generalize hstart : (if s.log.generation ≠ reader.generation then s.log.rotationBoundary
    else min reader.offset s.log.file.length) = start at bytes
  have start_le : start ≤ s.log.file.length := by
    rw [← hstart]
    split
    · exact boundary_le
    · exact Nat.min_le_right _ _
  have from_ : s.base + (s.log.file.length -
      (s.log.readSince reader.offset reader.generation).bytes.length) = s.base + start := by
    rw [bytes, List.length_drop]
    omega
  by_cases current : reader.generation = s.rotations
  · -- No rotation since the last read: it starts where the reader is.
    obtain ⟨received, offset_le⟩ := placed.inside current
    have start_eq : start = reader.offset := by
      rw [← hstart, if_neg (by simp [generation, current]), Nat.min_eq_left offset_le]
    refine ⟨?_, ?_, ?_, ?_, ?_, ?_, ?_⟩ <;> simp only [size, from_, all]
    · rw [bytes, stored.drop_file, List.take_length]
    · omega
    · omega
    · exact Nat.le_refl _
    · omega
    · intro _
      omega
  · -- A rotation: it starts with the first byte appended since.
    have behind : reader.generation < s.rotations :=
      Nat.lt_of_le_of_ne placed.generation_le current
    have rotated : s.log.generation ≠ reader.generation := by omega
    have start_eq : start = s.log.rotationBoundary := by
      rw [← hstart, if_pos rotated]
    have passed := placed.passed behind
    refine ⟨?_, ?_, ?_, ?_, ?_, ?_, ?_⟩ <;> simp only [size, from_, all]
    · rw [bytes, stored.drop_file, List.take_length]
    · omega
    · omega
    · exact Nat.le_refl _
    · omega
    · intro same
      simp [CappedLog.readSince, rotated] at same

theorem readSince (stored : Stored s) (counts : s.rotations ≤ maxCounter) (h : Tracked s)
    {reader : Reader} (at_ : s.reader = some reader) : Tracked (s.readSince reader) := by
  have placed := h.placed reader at_
  have generation : s.log.generation = s.rotations := by
    rw [stored.counted, Nat.min_eq_left counts]
  have size : s.base + s.log.size = s.appended.length := by
    rw [stored.sound.size_eq, stored.base_add]
  obtain ⟨r, readings, stop, delivered⟩ := delivered stored counts placed
  refine ⟨fun none_ => (nomatch none_), ?_, ?_⟩
  · rintro reader' ⟨rfl⟩
    refine ⟨Nat.le_of_eq generation, fun _ => ⟨rfl, Nat.le_of_eq stored.sound.size_eq⟩, ?_,
      Nat.le_of_eq size⟩
    intro behind
    exact absurd generation (Nat.ne_of_lt behind)
  · rintro reader' ⟨rfl⟩
    rw [readings]
    have followed := (h.follows reader at_).snoc delivered
    rw [stop] at followed
    show Follows s.appended s.position _ (s.base + s.log.size)
    rw [size]
    exact followed

end Tracked

/-! ### All runs -/

section Runs

variable {fromUtf8Lossy : List UInt8 → String} {redactCommandSecrets : String → String}
  {maxBytes retainedBytes : Nat} {log : CappedLog} {actions : List Action} {s : Following}

/-- No step lowers the count of rotations or changes the limits. -/
theorem next_grows {s t : Following} {action : Action}
    (step : s.next fromUtf8Lossy redactCommandSecrets action = some t) :
    s.rotations ≤ t.rotations ∧ t.log.maxBytes = s.log.maxBytes ∧
      t.log.retainedBytes = s.log.retainedBytes := by
  cases action with
  | append bytes =>
    obtain ⟨log, done, rfl⟩ := Option.map_eq_some_iff.mp step
    obtain ⟨-, rfl⟩ := CappedLog.append_eq_some.mp done
    refine ⟨?_, ?_⟩
    · simp only
      split <;> omega
    · simp only
      split <;> exact ⟨rfl, rfl⟩
  | readTail maxLines =>
    simp only [Following.next] at step
    split at step
    · cases step
      exact ⟨Nat.le_refl _, rfl, rfl⟩
    · cases step
  | readSince =>
    obtain ⟨reader, at_, rfl⟩ := Option.map_eq_some_iff.mp step
    exact ⟨Nat.le_refl _, rfl, rfl⟩

/-- **One step** keeps the file and, while the generation counts, the reader. -/
theorem next_keeps {s t : Following} {action : Action}
    (step : s.next fromUtf8Lossy redactCommandSecrets action = some t)
    (h : Stored s ∧ (s.rotations ≤ maxCounter → Tracked s)) :
    Stored t ∧ (t.rotations ≤ maxCounter → Tracked t) := by
  obtain ⟨stored, tracked⟩ := h
  have mono := (next_grows step).1
  cases action with
  | append bytes =>
    exact ⟨stored.append step,
      fun counts => (tracked (Nat.le_trans mono counts)).append stored step⟩
  | readTail maxLines =>
    simp only [Following.next] at step
    split at step
    · rename_i fresh
      cases step
      exact ⟨stored.read _ _ _, fun counts => (tracked counts).readTail stored counts fresh _⟩
    · cases step
  | readSince =>
    obtain ⟨reader, at_, rfl⟩ := Option.map_eq_some_iff.mp step
    exact ⟨stored.read _ _ _, fun counts => (tracked counts).readSince stored counts at_⟩

theorem run_keeps (made : CappedLog.new maxBytes retainedBytes = some log)
    (run : (following fromUtf8Lossy redactCommandSecrets log).run (.start log) actions = some s) :
    Stored s ∧ (s.rotations ≤ maxCounter → Tracked s) := by
  refine Machine.run_preserves
    (P := fun s => Stored s ∧ (s.rotations ≤ maxCounter → Tracked s))
    (fun _ _ _ step h => next_keeps step h) run
    ⟨Stored.start made, fun _ => ⟨fun _ => rfl, ?_, ?_⟩⟩
  · exact fun reader none_ => (nomatch none_)
  · exact fun reader none_ => (nomatch none_)

/-- The file and the reads of a run. -/
structure Faithful (maxBytes retainedBytes : Nat) (s : Following) : Prop where
  suffix : s.log.file <:+ s.appended
  whole : s.lastAppend <:+ s.log.file
  bounded : s.log.file.length ≤ max maxBytes (retainedBytes + s.lastAppend.length)

/-- What the reader has is everything from the position of the tail on, in order and
once, but for what a read that reports a rotation passes. -/
def Followed (s : Following) : Prop :=
  ∀ reader, s.reader = some reader →
    Follows s.appended s.position s.readings reader.received

/-- **The capped log is a faithful bounded stream.** In every run the file is the end of
what was appended, with the last append whole in it and within its bound; and as long as
no more than `2 ^ 64 - 1` rotations happened the reads follow what was appended. -/
theorem follower_faithful (made : CappedLog.new maxBytes retainedBytes = some log)
    (run : (following fromUtf8Lossy redactCommandSecrets log).run (.start log) actions = some s) :
    Faithful maxBytes retainedBytes s ∧ (s.rotations ≤ maxCounter → Followed s) := by
  obtain ⟨stored, tracked⟩ := run_keeps made run
  obtain ⟨-, rfl⟩ := CappedLog.new_eq made
  obtain ⟨maxBytes_eq, retainedBytes_eq⟩ :=
    Machine.run_preserves (P := fun s : Following =>
        s.log.maxBytes = maxBytes ∧ s.log.retainedBytes = retainedBytes)
      (fun _ _ _ step h => ⟨(next_grows step).2.1.trans h.1, (next_grows step).2.2.trans h.2⟩)
      run ⟨rfl, rfl⟩
  have bounded := stored.bounded
  rw [maxBytes_eq, retainedBytes_eq] at bounded
  exact ⟨⟨stored.suffix, stored.whole, bounded⟩, fun counts => (tracked counts).follows⟩

end Runs

theorem follower_faithful_four :
    ∃ s, (following ascii id ⟨[], 0, 4, 2, 0, 0⟩).run (.start ⟨[], 0, 4, 2, 0, 0⟩)
        [.readTail 1, .append [1, 2, 3], .append [4, 5], .readSince] = some s ∧
      Faithful 4 2 s ∧ Followed s := by
  refine ⟨_, rfl, ?_⟩
  have run := @follower_faithful ascii id 4 2 ⟨[], 0, 4, 2, 0, 0⟩
    [.readTail 1, .append [1, 2, 3], .append [4, 5], .readSince] _ rfl rfl
  exact ⟨run.1, run.2 (by decide)⟩

/-! ### The counter at its end -/

/-- A log that keeps nothing but the last byte. -/
def lastByte (generation : Nat) (byte : UInt8) : CappedLog where
  file := [byte]
  size := 1
  maxBytes := 1
  retainedBytes := 0
  generation := generation
  rotationBoundary := 0

theorem lastByte_append (generation : Nat) (byte more : UInt8) :
    (lastByte generation byte).append [more] =
      some (lastByte (saturatingAdd generation 1) more) := by
  have rotates : (lastByte generation byte).rotates [more] = true := by
    simp [CappedLog.rotates, lastByte, saturatingAdd, maxCounter]
  rw [CappedLog.append_eq_some, rotates]
  simp [CappedLog.rotate, lastByte, saturatingAdd, maxCounter, maxFileSize]

/-- After `n + 1` bytes and the tail of the empty log. -/
def afterBytes (n : Nat) : Following where
  log := lastByte (min n maxCounter) 120
  appended := List.replicate (n + 1) 120
  lastAppend := [120]
  rotations := n
  sinceRotation := 1
  reader := some { offset := 0, generation := 0, received := 0 }
  position := 0
  readings := []

theorem readTail_empty (maxBytes retainedBytes : Nat) :
    (Following.start ⟨[], 0, maxBytes, retainedBytes, 0, 0⟩).readTail ascii id 0 =
      { Following.start ⟨[], 0, maxBytes, retainedBytes, 0, 0⟩ with
        reader := some { offset := 0, generation := 0, received := 0 } } := by
  have scan : scanTail replayChunkBytes [] 0 0 0 0 [] = (0, []) := by simp [scanTail]
  simp [Following.readTail, Following.start, Following.base, CappedLog.readTail,
    readLogTailFromFile, scan, completeEnd, validStart, Framing.rposition, saturatingAdd]

theorem run_afterBytes (n : Nat) :
    (following ascii id ⟨[], 0, 1, 0, 0, 0⟩).run (.start ⟨[], 0, 1, 0, 0, 0⟩)
      (.readTail 0 :: List.replicate (n + 1) (.append [120])) = some (afterBytes n) := by
  induction n with
  | zero =>
    have first : (⟨[], 0, 1, 0, 0, 0⟩ : CappedLog).append [120] = some (lastByte 0 120) := by
      simp [CappedLog.append, CappedLog.rotates, lastByte, saturatingAdd, maxCounter, maxFileSize]
    refine (Machine.run_cons_eq_some _).mpr ⟨_, congrArg some (readTail_empty 1 0), ?_⟩
    simp [Machine.run, following, Following.next, Following.append, first, Following.start,
      afterBytes, CappedLog.rotates, saturatingAdd, maxCounter]
  | succ n ih =>
    rw [List.replicate_succ', ← List.cons_append, Machine.run_concat]
    refine ⟨_, ih, ?_⟩
    have rotates : (lastByte (min n maxCounter) 120).rotates [120] = true := by
      simp [CappedLog.rotates, lastByte, saturatingAdd, maxCounter]
    simp only [following, Following.next, Following.append, afterBytes, lastByte_append,
      Option.map_some, rotates, ↓reduceIte]
    have counted : saturatingAdd (min n maxCounter) 1 = min (n + 1) maxCounter := by
      unfold saturatingAdd
      omega
    rw [counted, ← List.replicate_succ']
    rfl

/-- After a read, one more byte, and another read. -/
def afterSkip (n : Nat) : Following where
  log := lastByte maxCounter 121
  appended := List.replicate (n + 1) 120 ++ [121]
  lastAppend := [121]
  rotations := n + 1
  sinceRotation := 1
  reader := some { offset := 1, generation := maxCounter, received := n + 2 }
  position := 0
  readings := [
    { start := n, stop := n + 1, bytes := [120], rotated := true, total := n + 1,
      rotatedAt := n },
    { start := n + 2, stop := n + 2, bytes := [], rotated := false, total := n + 2,
      rotatedAt := n + 1 }]

theorem run_afterSkip {n : Nat} (counted : maxCounter ≤ n) :
    (following ascii id ⟨[], 0, 1, 0, 0, 0⟩).run (afterBytes n)
      [.readSince, .append [121], .readSince] = some (afterSkip n) := by
  have generation : min n maxCounter = maxCounter := Nat.min_eq_right counted
  have stays : saturatingAdd maxCounter 1 = maxCounter := by
    simp [saturatingAdd]
  have rotates : (lastByte maxCounter 120).rotates [121] = true := by
    simp [CappedLog.rotates, lastByte, saturatingAdd, maxCounter]
  have read : (lastByte maxCounter 120).readSince 0 0 =
      { bytes := [120], endOffset := 1, generation := maxCounter, rotated := true } := by
    simp [CappedLog.readSince, lastByte, maxCounter]
  have again : (lastByte maxCounter 121).readSince 1 maxCounter =
      { bytes := [], endOffset := 1, generation := maxCounter, rotated := false } := by
    simp [CappedLog.readSince, lastByte]
  have length (byte : UInt8) : (lastByte maxCounter byte).file.length = 1 := rfl
  simp only [Machine.run, following, Following.next, afterBytes, generation, Option.map_some,
    Following.readSince, read, Following.append, lastByte_append, stays, rotates, again,
    Option.bind_some, List.nil_append, Following.base, length, List.length_append,
    List.length_replicate, List.length_cons, List.length_nil, ↓reduceIte]
  simp [afterSkip]

/-- A rotation that the counter does not show passes the byte it brings. -/
theorem afterSkip_not_followed (n : Nat) : ¬Followed (afterSkip n) := by
  intro followed
  have gapless := (followed _ rfl).2.1.gapless rfl
  have : n + 2 = n + 1 := gapless
  omega

/-- `2 ^ 64` rotations, and a byte is passed without a report. -/
theorem follower_uncounted :
    ¬∀ (maxBytes retainedBytes : Nat) (log : CappedLog) (actions : List Action) (s : Following),
      CappedLog.new maxBytes retainedBytes = some log →
      (following ascii id log).run (.start log) actions = some s →
      Faithful maxBytes retainedBytes s ∧ Followed s := by
  intro claim
  have run := (Machine.run_append _).mpr
    ⟨_, run_afterBytes maxCounter, run_afterSkip (Nat.le_refl _)⟩
  exact afterSkip_not_followed _ (claim 1 0 _ _ _ rfl run).2

end LlamaServerManager.Logs
