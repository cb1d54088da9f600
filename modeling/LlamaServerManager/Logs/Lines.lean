import LlamaServerManager.Lib.Framing

/-!
The lines of a log that arrives in chunks (`commands/server.rs`): what a chunk does not
finish stays in a buffer of at most 256 KiB. The reading of bytes as text and the masking
of secrets are parameters.

* `takeCompleteLogLines_eq` — the lines of the last 256 KiB of buffer and chunk.
* `feed_of_fits` — while every chunk fits beside the unfinished line before it, the
  chunks give the lines of the whole log.
* `marked_iff` — a chunk that does not fit is cut, whatever lines it finishes.
-/

namespace LlamaServerManager.Logs

open Lib.Framing

def maxPendingLogBytes : Nat := 256 * 1024

def truncationMarker : String := "[log line truncated after 256 KiB without a terminator]"

/-- The byte of a newline. -/
def newline : UInt8 := 10

/-- The byte of a carriage return. -/
def carriageReturn : UInt8 := 13

/-- The line without a carriage return at its end. -/
def stripReturn (line : List UInt8) : List UInt8 :=
  if line.getLast? = some carriageReturn then line.dropLast else line

section Lines

variable (fromUtf8Lossy : List UInt8 → String) (redactCommandSecrets : String → String)

/-- What one line of the log gives; an empty one gives nothing. -/
def logLine (line : List UInt8) : Option String :=
  if line = [] then none
  else some (redactCommandSecrets (fromUtf8Lossy (stripReturn line)))

/-- What the buffer gives up to its last newline, and what it keeps. -/
def drainLines (truncated : Bool) (pending : List UInt8) : List String × List UInt8 :=
  match rposition newline pending with
  | none => (if truncated then [truncationMarker] else [], pending)
  | some lastNewline =>
    let complete := pending.take (lastNewline + 1)
    let lines := (complete.splitOn newline).filterMap (logLine fromUtf8Lossy redactCommandSecrets)
    (if truncated then truncationMarker :: lines else lines, pending.drop (lastNewline + 1))

/-- `take_complete_log_lines`: the lines, and the buffer afterwards. -/
def takeCompleteLogLines (pending bytes : List UInt8) : List String × List UInt8 :=
  let pending := pending ++ bytes
  let truncated := decide (maxPendingLogBytes < pending.length)
  let pending :=
    if truncated then pending.drop (pending.length - maxPendingLogBytes) else pending
  drainLines fromUtf8Lossy redactCommandSecrets truncated pending

/-- The chunks one after another: all lines, and the buffer at the end. -/
def feed (pending : List UInt8) : List (List UInt8) → List String × List UInt8
  | [] => ([], pending)
  | chunk :: chunks =>
    let (lines, pending) := takeCompleteLogLines fromUtf8Lossy redactCommandSecrets pending chunk
    let (more, pending) := feed pending chunks
    (lines ++ more, pending)

theorem feed_cons (pending chunk : List UInt8) (chunks : List (List UInt8)) :
    feed fromUtf8Lossy redactCommandSecrets pending (chunk :: chunks) =
      let taken := takeCompleteLogLines fromUtf8Lossy redactCommandSecrets pending chunk
      let rest := feed fromUtf8Lossy redactCommandSecrets taken.2 chunks
      (taken.1 ++ rest.1, rest.2) := rfl

/-- The newline-terminated non-empty lines of a log. -/
def logLines (bytes : List UInt8) : List String :=
  (frames newline bytes).1.filterMap (logLine fromUtf8Lossy redactCommandSecrets)

/-- What follows the last newline of a log. -/
def unterminated (bytes : List UInt8) : List UInt8 :=
  (frames newline bytes).2

/-- Some call puts the truncation marker before its lines. -/
def Marked (pending : List UInt8) : List (List UInt8) → Prop
  | [] => False
  | chunk :: chunks =>
    maxPendingLogBytes < (pending ++ chunk).length ∨
      Marked (takeCompleteLogLines fromUtf8Lossy redactCommandSecrets pending chunk).2 chunks

/-- The chunks give the lines of the log they make up, nothing cut, and leave its
unterminated tail. -/
def Whole (chunks : List (List UInt8)) : Prop :=
  feed fromUtf8Lossy redactCommandSecrets [] chunks =
      (logLines fromUtf8Lossy redactCommandSecrets chunks.flatten, unterminated chunks.flatten) ∧
    ¬Marked fromUtf8Lossy redactCommandSecrets [] chunks

end Lines

/-- Each chunk, with the unterminated tail of the bytes before it, is at most 256 KiB. -/
def Fits (before : List UInt8) : List (List UInt8) → Prop
  | [] => True
  | chunk :: chunks =>
    (unterminated before ++ chunk).length ≤ maxPendingLogBytes ∧ Fits (before ++ chunk) chunks

instance decidableFits : ∀ before chunks, Decidable (Fits before chunks)
  | _, [] => .isTrue trivial
  | before, chunk :: chunks =>
    @instDecidableAnd _ _ inferInstance (decidableFits (before ++ chunk) chunks)

/-! ### One chunk -/

section Lines

variable {fromUtf8Lossy : List UInt8 → String} {redactCommandSecrets : String → String}

@[simp] theorem logLine_nil : logLine fromUtf8Lossy redactCommandSecrets [] = none := rfl

@[simp] theorem unterminated_nil : unterminated [] = [] := rfl

theorem newline_notMem_unterminated (bytes : List UInt8) : newline ∉ unterminated bytes :=
  tail_notMem bytes

theorem unterminated_append (as bs : List UInt8) :
    unterminated (as ++ bs) = unterminated (unterminated as ++ bs) := by
  simp only [unterminated, frames_append as bs]

theorem logLines_append (as bs : List UInt8) :
    logLines fromUtf8Lossy redactCommandSecrets (as ++ bs) =
      logLines fromUtf8Lossy redactCommandSecrets as ++
        logLines fromUtf8Lossy redactCommandSecrets (unterminated as ++ bs) := by
  simp [logLines, unterminated, frames_append as bs]

/-- What is kept of buffer and chunk: the last 256 KiB. -/
def kept (bytes : List UInt8) : List UInt8 :=
  bytes.drop (bytes.length - maxPendingLogBytes)

theorem kept_of_le {bytes : List UInt8} (fits : bytes.length ≤ maxPendingLogBytes) :
    kept bytes = bytes := by
  simp [kept, Nat.sub_eq_zero_of_le fits]

theorem kept_of_length {bytes : List UInt8} {n : Nat}
    (length : bytes.length = n + maxPendingLogBytes) : kept bytes = bytes.drop n := by
  rw [kept, length, Nat.add_sub_cancel]

theorem drainLines_eq (truncated : Bool) (held : List UInt8) :
    drainLines fromUtf8Lossy redactCommandSecrets truncated held =
      ((if truncated then [truncationMarker] else []) ++
          logLines fromUtf8Lossy redactCommandSecrets held,
        unterminated held) := by
  unfold drainLines
  cases last : rposition newline held with
  | none =>
    have whole := frames_of_notMem (rposition_none last)
    simp [logLines, unterminated, whole]
  | some i =>
    obtain ⟨pieces, tail⟩ := frames_rposition last
    have lines : (held.take (i + 1)).splitOn newline = (frames newline held).1 ++ [[]] := by
      rw [splitOn_eq, pieces]
    simp only [lines, List.filterMap_append, logLines, unterminated, tail]
    cases truncated <;> simp

/-- **One chunk**: the lines of the last 256 KiB, behind the marker when there was more. -/
theorem takeCompleteLogLines_eq (pending bytes : List UInt8) :
    takeCompleteLogLines fromUtf8Lossy redactCommandSecrets pending bytes =
      ((if maxPendingLogBytes < (pending ++ bytes).length then [truncationMarker] else []) ++
          logLines fromUtf8Lossy redactCommandSecrets (kept (pending ++ bytes)),
        unterminated (kept (pending ++ bytes))) := by
  have keeps :
      (if decide (maxPendingLogBytes < (pending ++ bytes).length) = true then
          (pending ++ bytes).drop ((pending ++ bytes).length - maxPendingLogBytes)
        else pending ++ bytes) = kept (pending ++ bytes) := by
    split
    · rfl
    · rename_i small
      exact (kept_of_le (Nat.not_lt.mp (by simpa using small))).symm
  unfold takeCompleteLogLines
  simp only [keeps]
  rw [drainLines_eq]
  simp only [decide_eq_true_eq]

/-- A chunk that fits gives the lines it finishes. -/
theorem takeCompleteLogLines_of_fits {before chunk : List UInt8}
    (fits : (unterminated before ++ chunk).length ≤ maxPendingLogBytes) :
    takeCompleteLogLines fromUtf8Lossy redactCommandSecrets (unterminated before) chunk =
      (logLines fromUtf8Lossy redactCommandSecrets (unterminated before ++ chunk),
        unterminated (before ++ chunk)) := by
  rw [takeCompleteLogLines_eq, kept_of_le fits, if_neg (Nat.not_lt.mpr fits), List.nil_append,
    unterminated_append before chunk]

/-! ### All chunks -/

/-- **Chunks that fit give the lines of the whole log.** The buffer is the unterminated
tail of what has arrived. -/
theorem feed_of_fits {before : List UInt8} {chunks : List (List UInt8)}
    (fits : Fits before chunks) :
    feed fromUtf8Lossy redactCommandSecrets (unterminated before) chunks =
      (logLines fromUtf8Lossy redactCommandSecrets (unterminated before ++ chunks.flatten),
        unterminated (before ++ chunks.flatten)) := by
  induction chunks generalizing before with
  | nil =>
    have open_ := frames_of_notMem (newline_notMem_unterminated before)
    simp [feed, logLines, open_]
  | cons chunk chunks ih =>
    obtain ⟨first, rest⟩ := fits
    have later := @logLines_append fromUtf8Lossy redactCommandSecrets
      (unterminated before ++ chunk) chunks.flatten
    rw [← unterminated_append] at later
    simp only [feed, takeCompleteLogLines_of_fits first, ih rest, List.flatten_cons]
    rw [← List.append_assoc, later, List.append_assoc]

/-- **A call cuts its buffer exactly when some chunk does not fit.** -/
theorem marked_iff {before : List UInt8} {chunks : List (List UInt8)} :
    Marked fromUtf8Lossy redactCommandSecrets (unterminated before) chunks ↔
      ¬Fits before chunks := by
  induction chunks generalizing before with
  | nil => simp [Marked, Fits]
  | cons chunk chunks ih =>
    by_cases first : (unterminated before ++ chunk).length ≤ maxPendingLogBytes
    · have small := Nat.not_lt.mpr first
      simp only [Marked, Fits, takeCompleteLogLines_of_fits first, ih, first, small, false_or,
        true_and]
    · simp only [Marked, Fits, Nat.not_le.mp first, first, true_or, false_and, not_false_eq_true]

/-- A call that cuts its buffer puts the marker among the lines. -/
theorem marker_mem_of_marked {pending : List UInt8} {chunks : List (List UInt8)}
    (marked : Marked fromUtf8Lossy redactCommandSecrets pending chunks) :
    truncationMarker ∈ (feed fromUtf8Lossy redactCommandSecrets pending chunks).1 := by
  induction chunks generalizing pending with
  | nil => cases marked
  | cons chunk chunks ih =>
    simp only [feed, List.mem_append]
    rcases marked with large | later
    · left
      rw [takeCompleteLogLines_eq, if_pos large]
      exact List.mem_append_left _ List.mem_cons_self
    · exact .inr (ih later)

theorem whole_iff (chunks : List (List UInt8)) :
    Whole fromUtf8Lossy redactCommandSecrets chunks ↔ Fits [] chunks := by
  have cut := @marked_iff fromUtf8Lossy redactCommandSecrets [] chunks
  rw [unterminated_nil] at cut
  constructor
  · intro whole
    exact Decidable.not_not.mp (cut.not.mp whole.2)
  · intro fits
    have lines := @feed_of_fits fromUtf8Lossy redactCommandSecrets [] chunks fits
    exact ⟨lines, cut.not.mpr (not_not_intro fits)⟩

/-- Without the marker's text in the log, a cut shows in the lines. -/
theorem fits_of_lines {chunks : List (List UInt8)}
    (plain : truncationMarker ∉ logLines fromUtf8Lossy redactCommandSecrets chunks.flatten)
    (lines : (feed fromUtf8Lossy redactCommandSecrets [] chunks).1 =
      logLines fromUtf8Lossy redactCommandSecrets chunks.flatten) : Fits [] chunks := by
  by_contra cut
  have marked := (@marked_iff fromUtf8Lossy redactCommandSecrets [] chunks).mpr cut
  exact plain (lines ▸ marker_mem_of_marked marked)

/-- **When splitting does not depend on the chunks**: two cuttings of one log give its
lines, whole, and its tail exactly when every chunk of both fits. In a log without the
marker's text the lines alone decide it. -/
theorem takeCompleteLogLines_chunked (chunks chunks' : List (List UInt8))
    (same : chunks.flatten = chunks'.flatten) :
    (feed fromUtf8Lossy redactCommandSecrets [] chunks =
          feed fromUtf8Lossy redactCommandSecrets [] chunks' ∧
        Whole fromUtf8Lossy redactCommandSecrets chunks ∧
        Whole fromUtf8Lossy redactCommandSecrets chunks' ↔
      Fits [] chunks ∧ Fits [] chunks') ∧
    (truncationMarker ∉ logLines fromUtf8Lossy redactCommandSecrets chunks.flatten →
      ((feed fromUtf8Lossy redactCommandSecrets [] chunks).1 =
            logLines fromUtf8Lossy redactCommandSecrets chunks.flatten ∧
          (feed fromUtf8Lossy redactCommandSecrets [] chunks').1 =
            logLines fromUtf8Lossy redactCommandSecrets chunks.flatten ↔
        Fits [] chunks ∧ Fits [] chunks')) := by
  have first := @whole_iff fromUtf8Lossy redactCommandSecrets chunks
  have second := @whole_iff fromUtf8Lossy redactCommandSecrets chunks'
  constructor
  · rw [first, second]
    constructor
    · exact fun h => h.2
    · rintro ⟨fits, fits'⟩
      have lines := (first.mpr fits).1
      have lines' := (second.mpr fits').1
      exact ⟨by rw [lines, lines', same], fits, fits'⟩
  · intro plain
    constructor
    · rintro ⟨lines, lines'⟩
      exact ⟨fits_of_lines plain lines,
        fits_of_lines (same ▸ plain) (lines'.trans (by rw [same]))⟩
    · rintro ⟨fits, fits'⟩
      exact ⟨by rw [(first.mpr fits).1], by rw [(second.mpr fits').1, same]⟩

end Lines

/-- Bytes of ASCII as text. -/
def ascii (bytes : List UInt8) : String :=
  String.ofList (bytes.map fun byte => Char.ofNat byte.toNat)

theorem takeCompleteLogLines_chunked_two :
    (feed ascii id [] [[112], [10, 113]] = feed ascii id [] [[112, 10], [113]] ∧
        Whole ascii id [[112], [10, 113]] ∧ Whole ascii id [[112, 10], [113]]) ∧
      (feed ascii id [] [[112], [10, 113]]).1 =
        logLines ascii id ([[112], [10, 113]] : List (List UInt8)).flatten := by
  have cuttings := @takeCompleteLogLines_chunked ascii id [[112], [10, 113]] [[112, 10], [113]] rfl
  exact ⟨cuttings.1.mpr (by decide), ((cuttings.2 (by decide)).mpr (by decide)).1⟩

/-! ### A burst of short lines -/

/-- Nothing but newlines: only empty pieces. -/
theorem frames_newlines (n : Nat) :
    frames newline (List.replicate n newline) = (List.replicate n [], []) := by
  induction n with
  | zero => rfl
  | succ n ih => simp [List.replicate_succ, ih]

theorem frames_burst (n : Nat) :
    frames newline ([120, newline] ++ List.replicate n newline) =
      ([120] :: List.replicate n [], []) := by
  have line : frames newline ([120] ++ [newline]) = ([[120]], []) := frames_piece (by decide)
  have all : frames newline ([120] ++ [newline] ++ List.replicate n newline) = _ :=
    frames_append ([120] ++ [newline]) (List.replicate n newline)
  rw [line] at all
  simpa [frames_newlines] using all

/-- One byte too many, and the first line of the chunk is gone. -/
theorem feed_burst {n : Nat} (size : n + 1 = maxPendingLogBytes) :
    feed ascii id [] [[120, newline] ++ List.replicate n newline] =
      ([truncationMarker], []) := by
  have length :
      ([] ++ ([120, newline] ++ List.replicate n newline)).length = 1 + maxPendingLogBytes := by
    rw [← size, List.nil_append, List.length_append, List.length_replicate]
    exact Nat.add_right_comm 1 1 n
  have large :
      maxPendingLogBytes < ([] ++ ([120, newline] ++ List.replicate n newline)).length := by
    rw [length]
    exact Nat.lt_add_of_pos_left Nat.one_pos
  have last : kept ([] ++ ([120, newline] ++ List.replicate n newline)) =
      List.replicate (n + 1) newline := by
    rw [kept_of_length length, List.nil_append]
    simp [List.replicate_succ]
  have taken : takeCompleteLogLines ascii id [] ([120, newline] ++ List.replicate n newline) =
      ([truncationMarker], []) := by
    rw [takeCompleteLogLines_eq, if_pos large, last, logLines, unterminated, frames_newlines]
    simp
  rw [feed_cons, taken]
  rfl

theorem feed_burst_halves {n : Nat} (size : n + 1 = maxPendingLogBytes) :
    (feed ascii id [] [[120, newline], List.replicate n newline]).1 = [ascii [120]] := by
  have fits : Fits [] [[120, newline], List.replicate n newline] := by
    have closed : unterminated ([] ++ [120, newline]) = [] := by decide
    refine ⟨?_, ?_, trivial⟩
    · decide
    · rw [closed]
      simp
      omega
  have lines := @feed_of_fits ascii id [] _ fits
  have joined : unterminated [] ++ [[120, newline], List.replicate n newline].flatten =
      [120, newline] ++ List.replicate n newline := by simp
  rw [unterminated_nil] at lines joined
  rw [lines, joined]
  simp only [logLines, frames_burst, List.filterMap_cons]
  simp [logLine, stripReturn, carriageReturn]

theorem burst_lost {n : Nat} (size : n + 1 = maxPendingLogBytes) :
    let chunks := [[120, newline] ++ List.replicate n newline]
    let chunks' := [[120, newline], List.replicate n newline]
    (∀ chunk ∈ chunks ++ chunks', chunk ≠ []) ∧ chunks.flatten = chunks'.flatten ∧
      (∀ line ∈ chunks.flatten.splitOn newline, line.length ≤ maxPendingLogBytes) ∧
      (feed ascii id [] chunks).1 ≠ (feed ascii id [] chunks').1 ∧
      truncationMarker ∈ (feed ascii id [] chunks).1 := by
  intro chunks chunks'
  have lost := feed_burst size
  refine ⟨?_, by simp [chunks, chunks'], ?_, ?_, ?_⟩
  · have some : n ≠ 0 := by
      rintro rfl
      cases size
    simp [chunks, chunks', some]
  · have short : (1 : Nat) ≤ maxPendingLogBytes := by omega
    have flat : chunks.flatten = [120, newline] ++ List.replicate n newline := by simp [chunks]
    rw [flat, splitOn_eq, frames_burst]
    intro line at_
    have one : line = [120] ∨ line = [] := by
      simp only [List.cons_append, List.mem_cons, List.mem_append, List.mem_replicate,
        List.not_mem_nil, or_false] at at_
      tauto
    rcases one with rfl | rfl
    · exact short
    · exact Nat.zero_le _
  · rw [lost, feed_burst_halves size]
    decide
  · rw [lost]
    exact List.mem_cons_self

theorem takeCompleteLogLines_burst :
    let chunks := [[120, newline] ++ List.replicate 262143 newline]
    let chunks' := [[120, newline], List.replicate 262143 newline]
    (∀ chunk ∈ chunks ++ chunks', chunk ≠ []) ∧ chunks.flatten = chunks'.flatten ∧
      (∀ line ∈ chunks.flatten.splitOn newline, line.length ≤ maxPendingLogBytes) ∧
      (feed ascii id [] chunks).1 ≠ (feed ascii id [] chunks').1 ∧
      truncationMarker ∈ (feed ascii id [] chunks).1 :=
  burst_lost (by decide)

end LlamaServerManager.Logs
