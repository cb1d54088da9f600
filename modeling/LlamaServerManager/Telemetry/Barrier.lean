import LlamaServerManager.Telemetry.Writer
import Mathlib.Data.List.Perm.Basic
import Mathlib.Data.List.Perm.Subperm

/-!
What the telemetry writer guarantees (`writes_accounted`): data writes take effect
at most once and in the order of the queue, and every other one is counted as
dropped. An answer to a waiter is a barrier only where the last batch before it
tells of the losses: a batch without losses clears the error of an earlier one
(`loss_masked`).
-/

namespace LlamaServerManager.Telemetry

open Lib

/-! ### Batches -/

theorem applyWrite_eq (answers : WriteAnswers) : (answers.fatal = true ∧
      (applyWrite answers).isOk = false) ∨
    (answers.fatal = false ∧ applyWrite answers = .ok answers.apply) := by
  unfold WriteAnswers.fatal applyWrite
  cases answers.savepoint with
  | some error => exact .inl ⟨rfl, rfl⟩
  | none =>
    cases answers.apply with
    | none =>
      cases answers.release with
      | none => exact .inr ⟨rfl, rfl⟩
      | some error => exact .inl ⟨rfl, rfl⟩
    | some error =>
      cases answers.rollback with
      | some error => exact .inl ⟨by simp, rfl⟩
      | none =>
        cases answers.release with
        | none => exact .inr ⟨rfl, rfl⟩
        | some error => exact .inl ⟨rfl, rfl⟩

/-- The writes of a transaction that commits, with the errors of the database. -/
def outcomes (answers : Nat → WriteAnswers) (i : Nat) (writes : List Nat) :
    List (Nat × Option String) :=
  (writes.zipIdx i).map fun w => (w.1, (answers w.2).apply)

theorem applyWrites_eq (answers : Nat → WriteAnswers) (writes : List Nat) (i : Nat) :
    ((List.range' i writes.length).all (fun j => !(answers j).fatal) = false ∧
      (applyWrites answers i writes).isOk = false) ∨
    ((List.range' i writes.length).all (fun j => !(answers j).fatal) = true ∧
      applyWrites answers i writes = .ok (outcomes answers i writes)) := by
  induction writes generalizing i with
  | nil => exact .inr ⟨rfl, rfl⟩
  | cons write rest ih =>
    rw [applyWrites, List.length_cons, List.range'_succ, List.all_cons]
    rcases applyWrite_eq (answers i) with ⟨fatal, failed⟩ | ⟨fine, applied⟩
    · refine .inl ⟨by rw [fatal]; rfl, ?_⟩
      cases result : applyWrite (answers i) with
      | error error => rfl
      | ok undone =>
        rw [result] at failed
        cases failed
    · rw [applied, fine]
      rcases ih (i + 1) with ⟨fatal, failed⟩ | ⟨fine, applied⟩
      · refine .inl ⟨fatal, ?_⟩
        cases result : applyWrites answers (i + 1) rest with
        | error error => rfl
        | ok results =>
          rw [result] at failed
          cases failed
      · refine .inr ⟨fine, ?_⟩
        rw [applied]
        rfl

theorem transaction_eq (attempt : Attempt) (writes : List Nat) :
    (attempt.commits writes.length = false ∧
      ∃ error, transaction attempt writes = .error error) ∨
    (attempt.commits writes.length = true ∧
      transaction attempt writes = .ok (outcomes attempt.writes 0 writes)) := by
  unfold transaction Attempt.commits
  rw [List.range_eq_range']
  cases attempt.start with
  | some error => exact .inl ⟨rfl, _, rfl⟩
  | none =>
    rcases applyWrites_eq attempt.writes writes 0 with ⟨fatal, failed⟩ | ⟨fine, applied⟩
    · cases result : applyWrites attempt.writes 0 writes with
      | error error =>
        refine .inl ⟨?_, error, rfl⟩
        rw [fatal, Bool.and_false]
      | ok results =>
        rw [result] at failed
        cases failed
    · simp only [applied]
      cases attempt.commit with
      | some error => exact .inl ⟨rfl, _, rfl⟩
      | none => exact .inr ⟨fine, rfl⟩

theorem attemptLoop_eq (attempts : Nat → Attempt) (writes : List Nat) (remaining i : Nat)
    (lastError : Option String) :
    (match (List.range' i remaining).find? fun j => (attempts j).commits writes.length with
      | none => ∃ error, attemptLoop attempts writes remaining i lastError = .error error
      | some j => attemptLoop attempts writes remaining i lastError =
          .ok (outcomes (attempts j).writes 0 writes)) := by
  induction remaining generalizing i lastError with
  | zero => exact ⟨lastError, rfl⟩
  | succ remaining ih =>
    rw [List.range'_succ, List.find?_cons]
    unfold attemptLoop
    rcases transaction_eq (attempts i) writes with ⟨fails, error, failed⟩ | ⟨commits, done⟩
    · rw [fails, failed]
      exact ih (i + 1) (some error)
    · rw [commits, done]

theorem outcomes_written (answers : Nat → WriteAnswers) (i : Nat) (writes : List Nat) :
    (((outcomes answers i writes).filter fun r => r.2.isNone).map Prod.fst).Sublist writes ∧
    ((outcomes answers i writes).filterMap Prod.snd).length +
      ((outcomes answers i writes).filter fun r => r.2.isNone).length = writes.length ∧
    ((outcomes answers i writes).filterMap Prod.snd = [] ↔
      (List.range' i writes.length).any (fun j => (answers j).apply.isSome) = false) := by
  induction writes generalizing i with
  | nil => exact ⟨.slnil, rfl, by simp [outcomes]⟩
  | cons write rest ih =>
    obtain ⟨sub, count, clean⟩ := ih (i + 1)
    have cons_ : outcomes answers i (write :: rest) =
        (write, (answers i).apply) :: outcomes answers (i + 1) rest := rfl
    rw [cons_, List.length_cons, List.range'_succ, List.any_cons]
    cases applied : (answers i).apply with
    | none =>
      refine ⟨?_, ?_, ?_⟩
      · exact sub.cons_cons write
      · rw [List.filterMap_cons_none (by rfl), List.filter_cons_of_pos (by rfl),
          List.length_cons]
        omega
      · rw [List.filterMap_cons_none (by rfl)]
        simpa using clean
    | some error =>
      refine ⟨?_, ?_, ?_⟩
      · exact sub.cons write
      · rw [List.filterMap_cons_some (by rfl), List.filter_cons_of_neg (by simp),
          List.length_cons]
        omega
      · rw [List.filterMap_cons_some (by rfl)]
        simp

/-- What a batch does: its writes take effect in order or are counted as errors,
and there are errors exactly when it loses a write. -/
theorem writeTelemetryBatchWithRetry_spec (attempts : Nat → Attempt) {writes : List Nat}
    (some_ : writes ≠ []) :
    (writeTelemetryBatchWithRetry attempts writes 3).2.Sublist writes ∧
    (writeTelemetryBatchWithRetry attempts writes 3).1.length +
      (writeTelemetryBatchWithRetry attempts writes 3).2.length = writes.length ∧
    ((writeTelemetryBatchWithRetry attempts writes 3).1 = [] ↔
      loses attempts writes.length = false) := by
  have loop := attemptLoop_eq attempts writes 3 0 none
  unfold writeTelemetryBatchWithRetry loses
  rw [if_neg (by simpa using some_), List.range_eq_range' (n := 3)]
  cases found : (List.range' 0 3).find? fun j => (attempts j).commits writes.length with
  | none =>
    rw [found] at loop
    obtain ⟨error, failed⟩ := loop
    rw [show max 3 1 = 3 from rfl, failed]
    refine ⟨List.nil_sublist _, ?_, ?_⟩
    · rw [List.length_map, List.length_nil, Nat.add_zero]
    · simpa using some_
  | some j =>
    rw [found] at loop
    rw [show max 3 1 = 3 from rfl, loop]
    obtain ⟨sub, count, clean⟩ := outcomes_written (attempts j).writes 0 writes
    refine ⟨sub, ?_, ?_⟩
    · rw [List.length_map]
      exact count
    · rw [List.range_eq_range']
      exact clean

/-! ### The queue -/

/-- The messages from the `p`-th on, with their numbers. -/
def numbered (messages : List Message) (p : Nat) : List (Message × Nat) :=
  messages.zipIdx.drop p

variable {messages : List Message}

theorem numbered_cons {p n : Nat} {message : Message} {rest : List (Message × Nat)}
    (h : numbered messages p = (message, n) :: rest) :
    n = p ∧ messages[p]? = some message ∧ numbered messages (p + 1) = rest := by
  have head : (numbered messages p)[0]? = some (message, n) := by rw [h]; rfl
  rw [numbered, List.getElem?_drop, List.getElem?_zipIdx, Nat.add_zero, Option.map_eq_some_iff]
    at head
  obtain ⟨found, there, eq⟩ := head
  cases eq
  refine ⟨by omega, there, ?_⟩
  rw [numbered, ← List.drop_drop] at *
  rw [h]
  rfl

theorem numbered_append {p : Nat} (le : p ≤ messages.length) (message : Message) :
    numbered (messages ++ [message]) p =
      numbered messages p ++ [(message, messages.length)] := by
  unfold numbered
  rw [List.zipIdx_append, List.drop_append_of_le_length (by rw [List.length_zipIdx]; exact le)]
  simp

/-- The batch is a run of data messages, and nothing is lost of the queue. -/
theorem gather_spec (k p : Nat) {queue : List (Message × Nat)} (h : numbered messages p = queue) :
    (gather k queue).1 = List.range' p (gather k queue).1.length ∧
    (∀ n ∈ (gather k queue).1, messages[n]? = some .data) ∧
    numbered messages (p + (gather k queue).1.length) =
      (gather k queue).2.1.toList ++ (gather k queue).2.2 := by
  induction k generalizing p queue with
  | zero => exact ⟨rfl, fun _ mem => (nomatch mem), h⟩
  | succ k ih =>
    cases queue with
    | nil => exact ⟨rfl, fun _ mem => (nomatch mem), h⟩
    | cons head rest =>
      obtain ⟨message, n⟩ := head
      obtain ⟨rfl, found, later⟩ := numbered_cons h
      cases message with
      | data =>
        obtain ⟨range, data, left⟩ := ih (n + 1) later
        refine ⟨?_, ?_, ?_⟩
        · show n :: (gather k rest).1 = List.range' n ((gather k rest).1.length + 1)
          rw [List.range'_succ, ← range]
        · intro m mem
          rcases List.mem_cons.mp mem with rfl | mem
          · exact found
          · exact data m mem
        · show numbered messages (n + ((gather k rest).1.length + 1)) = _
          rw [Nat.add_comm _ 1, ← Nat.add_assoc]
          exact left
      | flush => exact ⟨rfl, fun _ mem => (nomatch mem), h⟩
      | prune before => exact ⟨rfl, fun _ mem => (nomatch mem), h⟩
      | vacuum => exact ⟨rfl, fun _ mem => (nomatch mem), h⟩

/-- What stops the batch is a control message. -/
theorem gather_control (k : Nat) (queue : List (Message × Nat)) :
    ∀ message n, (gather k queue).2.1 = some (message, n) → message ≠ .data := by
  induction k generalizing queue with
  | zero => exact fun _ _ eq => (nomatch eq)
  | succ k ih =>
    cases queue with
    | nil => exact fun _ _ eq => (nomatch eq)
    | cons head rest =>
      obtain ⟨message, n⟩ := head
      cases message with
      | data => exact ih rest
      | flush =>
        intro _ _ eq
        cases eq
        exact fun eq => (nomatch eq)
      | prune before =>
        intro _ _ eq
        cases eq
        exact fun eq => (nomatch eq)
      | vacuum =>
        intro _ _ eq
        cases eq
        exact fun eq => (nomatch eq)

/-! ### The invariant -/

variable {ρ : Type}

/-- The data writes among the first `p` messages that are not in the database. -/
def lost (messages : List Message) (rows : List Nat) (p : Nat) : Nat :=
  (List.range p).countP fun n => messages[n]? = some .data && !rows.contains n

/-- Every message of the numbers `since ≤ n < stop` is a data write in the database. -/
def AllWritten (rows : List Nat) (since stop : Nat) : Prop :=
  ∀ n, since ≤ n → n < stop → n ∈ rows

/-- What is known of the messages between two control messages. -/
structure Segment (messages : List Message) (rows : List Nat) (since stop : Nat)
    (batches : List Bool) : Prop where
  le : since ≤ stop
  first : since = 0 ∨ ∃ message, messages[since - 1]? = some message ∧ message ≠ .data
  data : ∀ n, since ≤ n → n < stop → messages[n]? = some .data
  written : true ∉ batches ↔ AllWritten rows since stop

/-- The invariant of the loop: every message before `processed` is written or counted as
lost, and each answer speaks for the segment since the control message before it. -/
structure Accounted (s : State ρ) : Prop where
  le : s.processed ≤ s.messages.length
  queue : numbered s.messages s.processed = s.pendingControl.toList ++ s.queue
  control : ∀ message n, s.pendingControl = some (message, n) → message ≠ .data
  order : s.rows.Pairwise (· < ·)
  rows : ∀ n ∈ s.rows, n < s.processed ∧ s.messages[n]? = some .data
  dropped : s.droppedWrites = lost s.messages s.rows s.processed
  segment : Segment s.messages s.rows s.since s.processed s.batches
  error : s.lastWriteError = none ↔ s.batches.getLast? ≠ some true
  answers : ∀ a ∈ s.answers, a.control < s.processed ∧
    s.messages[a.control]? = some a.message ∧ a.message ≠ .data ∧
    Segment s.messages s.rows a.since a.control a.batches ∧
    (a.result.isOk = true ↔ a.own = true ∧ a.batches.getLast? ≠ some true)

theorem getElem?_append_of_some {n : Nat} {message : Message} (more : List Message)
    (h : messages[n]? = some message) :
    (messages ++ more)[n]? = some message := by
  obtain ⟨lt, _⟩ := List.getElem?_eq_some_iff.mp h
  rw [List.getElem?_append_left lt]
  exact h

theorem Segment.receive {rows : List Nat} {since stop : Nat} {batches : List Bool}
    (h : Segment messages rows since stop batches) (message : Message) :
    Segment (messages ++ [message]) rows since stop batches where
  le := h.le
  first := h.first.imp_right fun ⟨m, found, control⟩ =>
    ⟨m, getElem?_append_of_some _ found, control⟩
  data n from_ below := getElem?_append_of_some _ (h.data n from_ below)
  written := h.written

/-- Later rows say nothing about an earlier segment. -/
theorem Segment.grow {rows new : List Nat} {since stop : Nat} {batches : List Bool}
    (h : Segment messages rows since stop batches) (later : ∀ n ∈ new, stop ≤ n) :
    Segment messages (rows ++ new) since stop batches where
  le := h.le
  first := h.first
  data := h.data
  written := h.written.trans ⟨fun all n from_ below => List.mem_append_left _ (all n from_ below),
    fun all n from_ below => (List.mem_append.mp (all n from_ below)).resolve_right
      fun mem => absurd (later n mem) (not_le.mpr below)⟩

theorem lost_receive {rows : List Nat} {p : Nat} (le : p ≤ messages.length) (message : Message) :
    lost (messages ++ [message]) rows p = lost messages rows p := by
  unfold lost
  apply List.countP_congr
  intro n mem
  have below := List.mem_range.mp mem
  rw [List.getElem?_append_left (by omega)]

theorem lost_control {rows : List Nat} {p : Nat} {message : Message}
    (found : messages[p]? = some message) (control : message ≠ .data) :
    lost messages rows (p + 1) = lost messages rows p := by
  unfold lost
  rw [List.range_succ, List.countP_append, List.countP_singleton, found]
  simp [control]

/-- A batch of `k` data writes loses those it does not write. -/
theorem lost_batch {rows written : List Nat} {p k : Nat} (old : ∀ n ∈ rows, n < p)
    (data : ∀ n ∈ List.range' p k, messages[n]? = some .data)
    (sub : written.Sublist (List.range' p k)) :
    lost messages (rows ++ written) (p + k) + written.length = lost messages rows p + k := by
  unfold lost
  have ranges : List.range (p + k) = List.range p ++ List.range' p k := by
    have joined : List.range' 0 p ++ List.range' (0 + p) k = List.range' 0 (p + k) :=
      List.range'_append_1
    rw [List.range_eq_range', List.range_eq_range', ← joined, Nat.zero_add]
  have before : (List.range p).countP (fun n => messages[n]? = some .data &&
      !(rows ++ written).contains n) =
      (List.range p).countP fun n => messages[n]? = some .data && !rows.contains n := by
    apply List.countP_congr
    intro n mem
    have absent : n ∉ written := fun there => by
      have := (List.mem_range'_1.mp (sub.subset there)).1
      have := List.mem_range.mp mem
      omega
    simp [absent]
  have inside : (List.range' p k).countP (fun n => messages[n]? = some .data &&
      !(rows ++ written).contains n) = (List.range' p k).countP fun n => !written.contains n := by
    apply List.countP_congr
    intro n mem
    have absent : n ∉ rows := fun there => by
      have := old n there
      have := (List.mem_range'_1.mp mem).1
      omega
    simp [absent, data n mem]
  have split := List.length_eq_countP_add_countP (fun n => written.contains n)
    (l := List.range' p k)
  have taken : (List.range' p k).countP (fun n => written.contains n) = written.length := by
    rw [List.countP_eq_length_filter]
    have nodup : (List.range' p k).Nodup := List.nodup_range'
    refine ((List.perm_ext_iff_of_nodup (nodup.filter _) (sub.nodup nodup)).mpr fun n => ?_).length_eq
    rw [List.mem_filter, List.contains_iff_mem]
    exact ⟨fun h => h.2, fun h => ⟨sub.subset h, h⟩⟩
  rw [List.length_range', taken] at split
  rw [ranges, List.countP_append, before, inside]
  have same : (List.range' p k).countP (fun n => !written.contains n) =
      (List.range' p k).countP fun n => decide ¬ written.contains n = true := by
    apply List.countP_congr
    intro n _
    simp
  omega

/-! ### The steps -/

theorem Accounted.receive {s : State ρ} (h : Accounted s) (message : Message) :
    Accounted { s with
      queue := s.queue ++ [(message, s.messages.length)]
      messages := s.messages ++ [message] } where
  le := by
    rw [List.length_append]
    exact h.le.trans (Nat.le_add_right _ _)
  queue := by
    rw [numbered_append h.le, h.queue, List.append_assoc]
  control := h.control
  order := h.order
  rows n mem := ⟨(h.rows n mem).1, getElem?_append_of_some _ (h.rows n mem).2⟩
  dropped := by
    rw [lost_receive h.le]
    exact h.dropped
  segment := h.segment.receive message
  error := h.error
  answers a mem := by
    obtain ⟨below, found, control, segment, told⟩ := h.answers a mem
    exact ⟨below, getElem?_append_of_some _ found, control, segment.receive message, told⟩

/-- The answer to a control message closes its segment. -/
theorem Accounted.answer {s : State ρ} {pending : Option (Message × Nat)}
    {queue : List (Message × Nat)} (h : Accounted s) (chance : Chance ρ) {message : Message}
    {n : Nat} (head : numbered s.messages s.processed = (message, n) :: (pending.toList ++ queue))
    (control : message ≠ .data) (none_ : pending = none) :
    Accounted (answerControl { s with pendingControl := pending, queue } chance message n) := by
  obtain ⟨rfl, found, rest⟩ := numbered_cons head
  have inside : s.processed < s.messages.length := (List.getElem?_eq_some_iff.mp found).1
  have rows : ∀ n ∈ s.rows, n < s.processed + 1 ∧ s.messages[n]? = some .data := fun n mem =>
    ⟨Nat.lt_succ_of_lt (h.rows n mem).1, (h.rows n mem).2⟩
  refine ⟨inside, rest, ?_, h.order, rows, ?_, ?_, ?_, ?_⟩
  · intro _ _ eq
    rw [show pending = some _ from eq] at none_
    cases none_
  · exact h.dropped.trans (lost_control found control).symm
  · exact ⟨le_rfl, .inr ⟨message, found, control⟩,
      fun m from_ below => absurd from_ (not_le.mpr below),
      fun _ m from_ below => absurd from_ (not_le.mpr below),
      fun _ mem => absurd mem List.not_mem_nil⟩
  · exact ⟨fun _ eq => (by cases eq), fun _ => rfl⟩
  · intro a mem
    rcases List.mem_append.mp mem with mem | mem
    · obtain ⟨below, rest⟩ := h.answers a mem
      exact ⟨Nat.lt_succ_of_lt below, rest⟩
    · cases List.mem_singleton.mp mem
      refine ⟨Nat.lt_succ_self _, found, control, h.segment, ?_⟩
      have error := h.error
      dsimp only
      cases pendingError : s.lastWriteError with
      | none =>
        exact ⟨fun ok => ⟨ok, error.mp pendingError⟩, fun both => both.1⟩
      | some e =>
        refine ⟨fun ok => (nomatch ok), fun both => ?_⟩
        rw [error.mpr both.2] at pendingError
        cases pendingError

/-- A batch continues the segment. -/
theorem Segment.batch {rows : List Nat} {since p : Nat} {batches : List Bool}
    (h : Segment messages rows since p batches) {batch written : List Nat} {loss : Bool}
    (range : batch = List.range' p batch.length) (data : ∀ n ∈ batch, messages[n]? = some .data)
    (old : ∀ n ∈ rows, n < p) (sub : written.Sublist batch)
    (whole : loss = false ↔ written = batch) :
    Segment messages (rows ++ written) since (p + batch.length) (batches ++ [loss]) := by
  have member : ∀ n, n ∈ batch ↔ p ≤ n ∧ n < p + batch.length := by
    intro n
    rw [range, List.mem_range'_1, List.length_range']
  refine ⟨h.le.trans (Nat.le_add_right _ _), h.first, ?_, ?_⟩
  · intro n from_ below
    by_cases early : n < p
    · exact h.data n from_ early
    · exact data n ((member n).mpr ⟨not_lt.mp early, below⟩)
  · have flag : ¬ true = loss ↔ loss = false := by cases loss <;> simp
    rw [List.mem_append, not_or, List.mem_singleton, flag, whole, h.written]
    constructor
    · rintro ⟨all, same⟩ n from_ below
      by_cases early : n < p
      · exact List.mem_append_left _ (all n from_ early)
      · rw [same]
        exact List.mem_append_right _ ((member n).mpr ⟨not_lt.mp early, below⟩)
    · intro all
      have early : ∀ n, n < p → n ∈ rows ++ written → n ∈ rows := fun n below mem =>
        (List.mem_append.mp mem).resolve_right fun new =>
          absurd ((member n).mp (sub.subset new)).1 (not_le.mpr below)
      refine ⟨fun n from_ below => early n below (all n from_ (by omega)), ?_⟩
      have every : ∀ n ∈ batch, n ∈ written := by
        intro n mem
        obtain ⟨late, below⟩ := (member n).mp mem
        refine (List.mem_append.mp (all n (h.le.trans late) below)).resolve_left fun there => ?_
        exact absurd (old n there) (not_lt.mpr late)
      have nodup : batch.Nodup := by
        rw [range]
        exact List.nodup_range'
      exact sub.eq_of_length_le (List.subperm_of_subset nodup every).length_le

theorem Accounted.batch {s : State ρ} {pending : Option (Message × Nat)}
    {queue : List (Message × Nat)} (h : Accounted s) (chance : Chance ρ) {batch : List Nat}
    (some_ : batch ≠ []) (range : batch = List.range' s.processed batch.length)
    (data : ∀ n ∈ batch, s.messages[n]? = some .data)
    (left : numbered s.messages (s.processed + batch.length) = pending.toList ++ queue)
    (control : ∀ message n, pending = some (message, n) → message ≠ .data) :
    Accounted (writeBatch { s with pendingControl := pending, queue } chance batch) := by
  obtain ⟨sub, count, clean⟩ := writeTelemetryBatchWithRetry_spec chance.attempts some_
  unfold writeBatch
  generalize writeTelemetryBatchWithRetry chance.attempts batch 3 = result at sub count clean ⊢
  obtain ⟨errors, written⟩ := result
  simp only at sub count clean ⊢
  have later : ∀ n ∈ written, s.processed ≤ n ∧ n < s.processed + batch.length := by
    intro n mem
    have there := sub.subset mem
    rw [range, List.mem_range'_1] at there
    exact there
  have whole : loses chance.attempts batch.length = false ↔ written = batch := by
    rw [← clean]
    constructor
    · intro none_
      rw [none_, List.length_nil, Nat.zero_add] at count
      exact sub.eq_of_length count
    · intro same
      rw [same] at count
      exact List.length_eq_zero_iff.mp (by omega)
  have inside : s.processed + batch.length ≤ s.messages.length := by
    have pos := List.length_pos_iff.mpr some_
    have there : s.processed + (batch.length - 1) ∈ batch := by
      rw [range, List.mem_range'_1, List.length_range']
      omega
    have := (List.getElem?_eq_some_iff.mp (data _ there)).1
    omega
  constructor
  · exact inside
  · exact left
  · exact control
  · refine List.pairwise_append.mpr ⟨h.order, ?_, fun m old n new => ?_⟩
    · have sorted : batch.Pairwise (· < ·) := by
        rw [range]
        exact List.pairwise_lt_range'
      exact sorted.sublist sub
    · exact lt_of_lt_of_le (h.rows m old).1 (later n new).1
  · intro n mem
    rcases List.mem_append.mp mem with old | new
    · exact ⟨lt_of_lt_of_le (h.rows n old).1 (Nat.le_add_right _ _), (h.rows n old).2⟩
    · exact ⟨(later n new).2, data n (sub.subset new)⟩
  · have total : lost s.messages (s.rows ++ written) (s.processed + batch.length) +
        written.length = lost s.messages s.rows s.processed + batch.length :=
      lost_batch (fun n mem => (h.rows n mem).1) (range ▸ data) (range ▸ sub)
    have before := h.dropped
    simp only
    omega
  · exact h.segment.batch range data (fun n mem => (h.rows n mem).1) sub whole
  · simp only
    rw [List.getLast?_append, List.getLast?_singleton, List.getLast?_eq_none_iff, clean]
    cases loses chance.attempts batch.length <;> simp
  · intro a mem
    obtain ⟨below, found, other, segment, told⟩ := h.answers a mem
    refine ⟨lt_of_lt_of_le below (Nat.le_add_right _ _), found, other, ?_, told⟩
    exact segment.grow fun n new => below.le.trans (later n new).1

theorem Accounted.next {s t : State ρ} (label : Label ρ) (h : Accounted s)
    (step : next s label = some t) : Accounted t := by
  cases label with
  | receive message =>
    cases step
    exact h.receive message
  | turn chance =>
    simp only [Telemetry.next] at step
    split at step
    · next message n pending =>
        cases step
        have head : numbered s.messages s.processed =
            (message, n) :: ((none : Option (Message × Nat)).toList ++ s.queue) := by
          rw [h.queue, pending]
          rfl
        exact h.answer chance head (h.control message n pending) rfl
    · next idle =>
        split at step
        · cases step
        · next message n queue some_ =>
            have head : numbered s.messages s.processed = (message, n) :: queue := by
              rw [h.queue, idle, some_]
              rfl
            split at step
            · cases step
              obtain ⟨rfl, found, rest⟩ := numbered_cons head
              obtain ⟨range, data, left⟩ := gather_spec (telemetryWriteBatchSize - 1)
                (s.processed + 1) rest
              have control := gather_control (telemetryWriteBatchSize - 1) queue
              generalize gather (telemetryWriteBatchSize - 1) queue = gathered at *
              obtain ⟨batch, control_, rest_⟩ := gathered
              refine h.batch chance (List.cons_ne_nil _ _) ?_ ?_ ?_ control
              · rw [List.length_cons, List.range'_succ]
                exact congrArg _ range
              · intro m mem
                rcases List.mem_cons.mp mem with rfl | mem
                · exact found
                · exact data m mem
              · rw [List.length_cons, Nat.add_comm _ 1, ← Nat.add_assoc]
                exact left
            · next other =>
                cases step
                have same : ({ s with queue } : State ρ) =
                    { s with pendingControl := none, queue } := by
                  rw [← idle]
                rw [same]
                exact h.answer chance head (fun eq => other eq) rfl

theorem reachable_accounted {s : State ρ} (reached : machine.Reachable s) : Accounted s := by
  refine reached.invariant ?_ fun s label t step h => h.next label step
  refine ⟨le_rfl, rfl, fun _ _ eq => (nomatch eq), .nil, fun _ mem => (nomatch mem), rfl, ?_, ?_,
    fun _ mem => (nomatch mem)⟩
  · exact ⟨le_rfl, .inl rfl, fun _ _ below => absurd below (Nat.not_lt_zero _),
      fun _ _ _ below => absurd below (Nat.not_lt_zero _), fun _ mem => (nomatch mem)⟩
  · exact ⟨fun _ eq => (nomatch eq), fun _ => rfl⟩

/-! ### The guarantees -/

/-- The waiter is told `Ok` only when all the data writes since the previous
control message are in the database. -/
def Answer.Barrier (rows : List Nat) (a : Answer ρ) : Prop :=
  a.result.isOk = true → AllWritten rows a.since a.control

/-- When the operation asked for succeeds, a loss since the previous control
message is told by the last batch. -/
def Answer.Told (a : Answer ρ) : Prop :=
  a.own = true → true ∈ a.batches → a.batches.getLast? = some true

/-- **The accounting of telemetry writes.** In every run the writes in the database
are data writes, each once, in the order of the queue, and the writes counted as
dropped are the other ones the loop is done with. The answers to the waiters are
barriers exactly when, for every one of them whose operation succeeds, the last
batch since the previous control message loses a write if any of these does. -/
theorem writes_accounted {s : State ρ} (reached : machine.Reachable s) :
    s.rows.Pairwise (· < ·) ∧
    (∀ n ∈ s.rows, n < s.processed ∧ s.messages[n]? = some .data) ∧
    s.droppedWrites = lost s.messages s.rows s.processed ∧
    (∀ a ∈ s.answers, s.messages[a.control]? = some a.message ∧ a.message ≠ .data ∧
      (a.since = 0 ∨ ∃ message, s.messages[a.since - 1]? = some message ∧ message ≠ .data) ∧
      ∀ n, a.since ≤ n → n < a.control → s.messages[n]? = some .data) ∧
    ((∀ a ∈ s.answers, a.Barrier s.rows) ↔ ∀ a ∈ s.answers, a.Told) := by
  have h := reachable_accounted reached
  refine ⟨h.order, h.rows, h.dropped, fun a mem => ?_, forall₂_congr fun a mem => ?_⟩
  · obtain ⟨_, found, other, segment, _⟩ := h.answers a mem
    exact ⟨found, other, segment.first, segment.data⟩
  · obtain ⟨_, _, _, segment, told⟩ := h.answers a mem
    unfold Answer.Barrier Answer.Told
    rw [told, ← segment.written]
    constructor
    · intro barrier own loss
      by_contra masked
      exact barrier ⟨own, masked⟩ loss
    · rintro tells ⟨own, masked⟩ loss
      exact masked (tells own loss)

/-! ### A masked loss -/

/-- A database in which another connection writes: the transaction begins, as it is deferred, and
the `INSERT` is refused. -/
def busy : Chance Unit where
  attempts _ := { writes := fun _ => { apply := some "database is locked" } }
  vacuum := .ok ()

def idle : Chance Unit where
  vacuum := .ok ()

/-- One write is undone, a later one is not, and then a flush comes. -/
def maskedRun : List (Label Unit) :=
  [.receive .data, .turn busy, .receive .data, .turn idle, .receive .flush, .turn idle]

/-- The flush is answered `Ok` although the first write did not take effect. -/
theorem loss_masked : ∃ s : State Unit, machine.run machine.init maskedRun = some s ∧
    s.droppedWrites = 1 ∧ ∃ a ∈ s.answers, ¬ a.Barrier s.rows := by
  have ends : (machine.run machine.init maskedRun).map (fun s => (s.droppedWrites, s.rows,
      s.answers.map fun a => (a.since, a.control, a.result.isOk))) =
        some (1, [1], [(0, 2, true)]) := by
    decide +kernel
  obtain ⟨s, ran, eq⟩ := Option.map_eq_some_iff.mp ends
  simp only [Prod.mk.injEq] at eq
  obtain ⟨dropped, rows, answers⟩ := eq
  obtain ⟨a, _, listed, told, _⟩ := List.map_eq_cons_iff.mp answers
  refine ⟨s, ran, dropped, a, listed ▸ List.mem_cons_self, fun barrier => ?_⟩
  simp only [Prod.mk.injEq] at told
  obtain ⟨since, control, ok⟩ := told
  have first := barrier ok 0 (since ▸ le_rfl) (control ▸ by decide)
  rw [rows] at first
  exact absurd first (by decide)

theorem writes_accounted_masked : ∃ s : State Unit,
    machine.run machine.init maskedRun = some s ∧
    ((∀ a ∈ s.answers, a.Barrier s.rows) ↔ ∀ a ∈ s.answers, a.Told) := by
  have ends : ((machine.run machine.init maskedRun).map fun _ => ()) = some () := by
    decide +kernel
  obtain ⟨s, ran, _⟩ := Option.map_eq_some_iff.mp ends
  exact ⟨s, ran, (writes_accounted ⟨maskedRun, ran⟩).2.2.2.2⟩

end LlamaServerManager.Telemetry
