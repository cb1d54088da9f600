import LlamaServerManager.Lib.Machine
import Mathlib.Data.List.Range

/-!
The telemetry writer, `telemetry_writer_loop` of `telemetry.rs`: one thread that
takes messages off a queue, writes the data in batches and answers the waiters
of the control messages. A data write is known by its number in the order of
arrival; the answers of the database are data of the step.
-/

namespace LlamaServerManager.Telemetry

open Lib

def telemetryWriteBatchSize : Nat := 128

/-! ### Transactions -/

/-- What the database answers to one write; `none` is success. -/
structure WriteAnswers where
  savepoint : Option String := none
  apply : Option String := none
  release : Option String := none
  rollback : Option String := none

/-- What the database answers in one attempt at a batch. -/
structure Attempt where
  start : Option String := none
  writes : Nat → WriteAnswers := fun _ => {}
  commit : Option String := none

/-- One write in its savepoint. A write that fails is rolled back, and its error kept. -/
def applyWrite (answers : WriteAnswers) : Except String (Option String) :=
  match answers.savepoint with
  | some error => .error ("Telemetry writer failed to create savepoint: " ++ error)
  | none =>
    match answers.apply with
    | none =>
      match answers.release with
      | some error => .error ("Telemetry writer failed to release savepoint: " ++ error)
      | none => .ok none
    | some error =>
      match answers.rollback with
      | some rollbackError => .error
          (error ++ "; telemetry writer also failed to roll back savepoint: " ++ rollbackError)
      | none =>
        match answers.release with
        | some releaseError => .error
            (error ++ "; telemetry writer also failed to release rolled-back savepoint: " ++
              releaseError)
        | none => .ok (some error)

/-- The writes of a transaction, from the `i`-th on: each with the error that undid it. -/
def applyWrites (answers : Nat → WriteAnswers) :
    Nat → List Nat → Except String (List (Nat × Option String))
  | _, [] => .ok []
  | i, write :: rest => do
    let undone ← applyWrite (answers i)
    let results ← applyWrites answers (i + 1) rest
    return (write, undone) :: results

/-- One attempt. Dropping the transaction on an error rolls it back. -/
def transaction (attempt : Attempt) (writes : List Nat) :
    Except String (List (Nat × Option String)) :=
  match attempt.start with
  | some error => .error ("Telemetry writer failed to begin transaction: " ++ error)
  | none => do
    let results ← applyWrites attempt.writes 0 writes
    match attempt.commit with
    | some error => .error ("Telemetry writer failed to commit transaction: " ++ error)
    | none => return results

/-- The loop over the attempts, from the `i`-th on. -/
def attemptLoop (attempts : Nat → Attempt) (writes : List Nat) :
    Nat → Nat → Option String → Except (Option String) (List (Nat × Option String))
  | 0, _, lastError => .error lastError
  | remaining + 1, i, _ =>
    match transaction (attempts i) writes with
    | .ok results => .ok results
    | .error error => attemptLoop attempts writes remaining (i + 1) (some error)

/-- The errors of a batch, and the writes of it that are in the database. -/
def writeTelemetryBatchWithRetry (attempts : Nat → Attempt) (writes : List Nat)
    (maxAttempts : Nat) : List String × List Nat :=
  if writes.isEmpty then ([], [])
  else
    match attemptLoop attempts writes (max maxAttempts 1) 0 none with
    | .ok results =>
      (results.filterMap Prod.snd, (results.filter fun r => r.2.isNone).map Prod.fst)
    | .error lastError =>
      (writes.map fun _ => lastError.getD "Telemetry writer failed without an error", [])

/-! ### The loop -/

inductive Message where
  | data
  | flush
  | prune (before : Int)
  | vacuum
deriving DecidableEq, Repr

/-- What a waiter is told; `ρ` is the report of an optimisation. -/
inductive Reply (ρ : Type) where
  | flushed
  | pruned (rows : Nat)
  | vacuumed (report : ρ)
deriving DecidableEq, Repr

/-- The answer to one control message, with what led to it: the first message
after the previous control message, whether the operation asked for succeeds,
and which of the batches in between lost a write. -/
structure Answer (ρ : Type) where
  since : Nat
  control : Nat
  message : Message
  own : Bool
  batches : List Bool
  result : Except String (Reply ρ)

/-- The variables of the writer's loop and its queue. The messages are numbered as they
arrive, so that a barrier can say which of them it speaks for. -/
structure State (ρ : Type) where
  /-- The receiver's queue, with the numbers of the messages. -/
  queue : List (Message × Nat) := []
  pendingControl : Option (Message × Nat) := none
  lastWriteError : Option String := none
  droppedWrites : Nat := 0
  lastError : Option (Nat × String) := none
  /-- The writes in the database, in the order in which they took effect. -/
  rows : List Nat := []
  answers : List (Answer ρ) := []
  /-- The messages that arrived, and the number of those the loop is done with. -/
  messages : List Message := []
  processed : Nat := 0
  /-- Since the last control message: the first message, and the batches. -/
  since : Nat := 0
  batches : List Bool := []

/-- What the environment decides in one turn of the loop. -/
structure Chance (ρ : Type) where
  attempts : Nat → Attempt := fun _ => {}
  prune : Except String Nat := .ok 0
  maintenance : Option String := none
  vacuum : Except String ρ
  now : Nat := 0

/-- A message arrives, or the loop takes one turn: a control message it held back, or a
batch. -/
inductive Label (ρ : Type) where
  | receive (message : Message)
  | turn (chance : Chance ρ)

/-- The batch that `try_recv` collects: at most `k` writes, up to a control message. -/
def gather : Nat → List (Message × Nat) →
    List Nat × Option (Message × Nat) × List (Message × Nat)
  | 0, queue => ([], none, queue)
  | _ + 1, [] => ([], none, [])
  | k + 1, (message, n) :: queue =>
    match message with
    | .data =>
      let (batch, control, rest) := gather k queue
      (n :: batch, control, rest)
    | _ => ([], some (message, n), queue)

/-- What the operation of a control message does when no write error is pending. -/
def operation {ρ : Type} (chance : Chance ρ) : Message → Except String (Reply ρ)
  | .data => .ok .flushed
  | .flush => .ok .flushed
  | .prune _ =>
    match chance.prune with
    | .error error => .error error
    | .ok rows =>
      match chance.maintenance with
      | some error => .error ("Telemetry cleanup maintenance failed: " ++ error)
      | none => .ok (.pruned rows)
  | .vacuum => chance.vacuum.map .vacuumed

/-- A batch loses a write: no attempt commits, or a write of the one that does is undone. -/
def WriteAnswers.fatal (answers : WriteAnswers) : Bool :=
  answers.savepoint.isSome || answers.release.isSome ||
    (answers.apply.isSome && answers.rollback.isSome)

def Attempt.commits (attempt : Attempt) (length : Nat) : Bool :=
  attempt.start.isNone && attempt.commit.isNone &&
    (List.range length).all fun i => !(attempt.writes i).fatal

def loses (attempts : Nat → Attempt) (length : Nat) : Bool :=
  match (List.range 3).find? fun i => (attempts i).commits length with
  | none => true
  | some i => (List.range length).any fun j => ((attempts i).writes j).apply.isSome

section

variable {ρ : Type}

/-- A control message: the waiter gets the pending write error, which is taken,
or the result of the operation. -/
def answerControl (s : State ρ) (chance : Chance ρ) (message : Message) (n : Nat) : State ρ :=
  let own := operation chance message
  let result := match s.lastWriteError with
    | some error => .error error
    | none => own
  { s with
    lastWriteError := none
    answers := s.answers ++ [⟨s.since, n, message, own.isOk, s.batches, result⟩]
    processed := n + 1
    since := n + 1
    batches := [] }

/-- A batch, and the error cells after it. -/
def writeBatch (s : State ρ) (chance : Chance ρ) (batch : List Nat) : State ρ :=
  let (writeErrors, written) := writeTelemetryBatchWithRetry chance.attempts batch 3
  { s with
    lastWriteError := writeErrors.getLast?
    lastError := writeErrors.getLast?.map fun error => (chance.now, error)
    droppedWrites := s.droppedWrites + writeErrors.length
    rows := s.rows ++ written
    processed := s.processed + batch.length
    batches := s.batches ++ [loses chance.attempts batch.length] }

def next (s : State ρ) : Label ρ → Option (State ρ)
  | .receive message => some { s with
      queue := s.queue ++ [(message, s.messages.length)]
      messages := s.messages ++ [message] }
  | .turn chance =>
    match s.pendingControl with
    | some (message, n) => some (answerControl { s with pendingControl := none } chance message n)
    | none =>
      match s.queue with
      | [] => none
      | (message, n) :: queue =>
        match message with
        | .data =>
          let (batch, control, rest) := gather (telemetryWriteBatchSize - 1) queue
          some (writeBatch { s with pendingControl := control, queue := rest } chance
            (n :: batch))
        | _ => some (answerControl { s with queue } chance message n)

def machine : Machine (State ρ) (Label ρ) where
  init := {}
  next := next

end

end LlamaServerManager.Telemetry
