import LlamaServerManager.Lib.Json
import LlamaServerManager.Lib.Text
import LlamaServerManager.Lib.Except
import Mathlib.Data.List.Perm.Basic

/-!
Pairing of tool calls and results in chat requests (`proxy_tool_history.rs`).

`validate` reads the messages from left to right with the calls that wait for a
result. `Conversation` is what it accepts: turns of one message that is not a
tool result and the results of its calls, in any order. The two are related by
what has been read of the current turn (`Reads`).
-/

namespace LlamaServerManager.Requests

open Lib Lib.Json

structure ToolHistoryError where
  param : String
  message : String
deriving DecidableEq, Repr

/-! ### The scan -/

def roleOf (message : Value) : Option String := (message.get "role").bind Value.asStr

def isTool (message : Value) : Bool := roleOf message == some "tool"

/-- A field that is a text and not blank. -/
def idOf (name : String) (value : Value) : Option String :=
  ((value.get name).bind Value.asStr).filter fun id => !(Text.trim id).isEmpty

/-- The sets of ids, each without a repetition. -/
structure ToolScan where
  pending : List String := []
  answered : List String := []
  batchIndex : Nat := 0
deriving DecidableEq, Repr

/-- A message of the role `tool`. -/
def ToolScan.answer (scan : ToolScan) (index : Nat) (message : Value) :
    Except ToolHistoryError ToolScan :=
  let param := s!"messages[{index}].tool_call_id"
  match idOf "tool_call_id" message with
  | none => .error ⟨param, "tool results require a non-empty string tool_call_id"⟩
  | some id =>
    if id ∈ scan.pending then
      .ok { scan with pending := scan.pending.erase id, answered := id :: scan.answered }
    else
      .error ⟨param,
        if id ∈ scan.answered then "a tool call must not receive duplicate results"
        else "tool_call_id does not match an outstanding assistant tool call"⟩

/-- The loop over `tool_calls`. -/
def addCalls (index : Nat) : (callIndex : Nat) → List Value → List String →
    Except ToolHistoryError (List String)
  | _, [], pending => .ok pending
  | callIndex, call :: calls, pending =>
    let param := s!"messages[{index}].tool_calls[{callIndex}].id"
    match idOf "id" call with
    | none => .error ⟨param, "assistant tool calls require a non-empty string id"⟩
    | some id =>
      if id ∈ pending then
        .error ⟨param, "tool call ids must be unique within an assistant turn"⟩
      else addCalls index (callIndex + 1) calls (pending ++ [id])

/-- Any other message begins a turn. -/
def ToolScan.turn (scan : ToolScan) (index : Nat) (message : Value) :
    Except ToolHistoryError ToolScan :=
  if scan.pending ≠ [] then
    let batchIndex := scan.batchIndex
    .error ⟨s!"messages[{batchIndex}].tool_calls",
      "each assistant tool call requires a matching tool result before the next non-tool message"⟩
  else
    let scan := { scan with answered := [] }
    if roleOf message ≠ some "assistant" then .ok scan
    else
      match (message.get "tool_calls").filter fun calls => !calls.isNull with
      | none => .ok scan
      | some calls =>
        match calls.asArray with
        | none =>
          .error ⟨s!"messages[{index}].tool_calls", "assistant tool_calls must be an array or null"⟩
        | some calls => do
          let pending ← addCalls index 0 calls scan.pending
          .ok { scan with pending, batchIndex := index }

def ToolScan.next (scan : ToolScan) (index : Nat) (message : Value) :
    Except ToolHistoryError ToolScan :=
  if isTool message then scan.answer index message else scan.turn index message

def scanMessages : ToolScan → Nat → List Value → Except ToolHistoryError ToolScan
  | scan, _, [] => .ok scan
  | scan, index, message :: messages => do
    let scan ← scan.next index message
    scanMessages scan (index + 1) messages

/-- The check behind the last message. -/
def ToolScan.finish (scan : ToolScan) : Option ToolHistoryError :=
  if scan.pending ≠ [] then
    let batchIndex := scan.batchIndex
    some ⟨s!"messages[{batchIndex}].tool_calls",
      "each assistant tool call requires a matching tool result " ++
        "before requesting another generation"⟩
  else none

def validateMessages (messages : List Value) : Option ToolHistoryError :=
  match scanMessages {} 0 messages with
  | .error error => some error
  | .ok scan => scan.finish

/-- `proxy_tool_history::validate`; what is not a chat request is left to others. -/
def validateToolHistory (serde : Serde) (path : String) (body : List UInt8) :
    Option ToolHistoryError :=
  if path ≠ "/v1/chat/completions" then none
  else do
    let value ← serde.fromSlice body
    let messages ← (value.get "messages").bind Value.asArray
    validateMessages messages

/-! ### Conversations -/

/-- The ids of a list of calls, each of them there. -/
def callIds : List Value → Option (List String)
  | [] => some []
  | call :: calls => (idOf "id" call).bind fun id => (callIds calls).map (id :: ·)

/-- The ids a message calls: none of a message without calls, and no answer when
the calls are not in order. -/
def calledIds (message : Value) : Option (List String) :=
  if roleOf message ≠ some "assistant" then some []
  else
    match (message.get "tool_calls").filter fun calls => !calls.isNull with
    | none => some []
    | some calls => do
      let calls ← calls.asArray
      let ids ← callIds calls
      if ids.Nodup then some ids else none

/-- The messages are turns: a message that is not a tool result, and one result for each
id it calls. -/
inductive Conversation : List Value → Prop where
  | nil : Conversation []
  | turn {opening : Value} {ids : List String} {results rest : List Value} :
      isTool opening = false → calledIds opening = some ids →
      (∀ result ∈ results, isTool result) →
      (results.map (idOf "tool_call_id")).Perm (ids.map some) → Conversation rest →
      Conversation (opening :: (results ++ rest))

/-- Some conversation begins with these messages. -/
def Extends (messages : List Value) : Prop := ∃ rest, Conversation (messages ++ rest)

/-! ### Steps -/

theorem addCalls_eq_ok {index callIndex : Nat} {calls : List Value} {pending after : List String}
    (distinct : pending.Nodup) :
    addCalls index callIndex calls pending = .ok after ↔
      ∃ ids, callIds calls = some ids ∧ after = pending ++ ids ∧ after.Nodup := by
  induction calls generalizing callIndex pending with
  | nil =>
    simp only [addCalls, callIds, Except.ok.injEq, Option.some.injEq]
    constructor
    · rintro rfl
      exact ⟨[], rfl, (List.append_nil _).symm, distinct⟩
    · rintro ⟨ids, rfl, rfl, _⟩
      exact (List.append_nil _).symm
  | cons call calls ih =>
    cases known : idOf "id" call with
    | none => simp [addCalls, callIds, known]
    | some id =>
      by_cases again : id ∈ pending
      · simp only [addCalls, callIds, known, again, if_true, reduceCtorEq, false_iff, not_exists,
          not_and, Option.bind_some, Option.map_eq_some_iff]
        rintro ids ⟨rest, _, rfl⟩ rfl nodup
        exact (List.nodup_append.mp nodup).2.2 id again id List.mem_cons_self rfl
      · have fresh : (pending ++ [id]).Nodup := by
          refine List.nodup_append.mpr ⟨distinct, List.nodup_cons.mpr ⟨by simp, List.nodup_nil⟩, ?_⟩
          intro other mem _ one same
          obtain rfl := List.mem_singleton.mp one
          exact again (same ▸ mem)
        simp only [addCalls, callIds, known, again, if_false, ih fresh, Option.bind_some,
          Option.map_eq_some_iff]
        constructor
        · rintro ⟨ids, rest, rfl, nodup⟩
          exact ⟨id :: ids, ⟨ids, rest, rfl⟩, by simp, nodup⟩
        · rintro ⟨_, ⟨rest, read, rfl⟩, rfl, nodup⟩
          exact ⟨rest, read, by simp, nodup⟩

variable {error : ToolHistoryError}

theorem addCalls_error {index callIndex : Nat} {calls : List Value} {pending : List String}
    (fails : addCalls index callIndex calls pending = .error error) :
    ∃ k : Nat, error.param = s!"messages[{index}].tool_calls[{k}].id" := by
  induction calls generalizing callIndex pending with
  | nil => cases fails
  | cons call calls ih =>
    simp only [addCalls] at fails
    split at fails
    · obtain rfl := Except.error.inj fails
      exact ⟨callIndex, rfl⟩
    · split at fails
      · obtain rfl := Except.error.inj fails
        exact ⟨callIndex, rfl⟩
      · exact ih fails

namespace ToolScan

variable {scan after : ToolScan} {index : Nat} {message : Value} {error : ToolHistoryError}

/-- A turn begins when no call waits, and then its own calls wait. -/
theorem turn_ok (ok : scan.turn index message = .ok after) :
    scan.pending = [] ∧ after.answered = [] ∧ calledIds message = some after.pending ∧
      (after.pending ≠ [] → after.batchIndex = index) := by
  unfold turn at ok
  split at ok
  · cases ok
  · rename_i idle
    have idle : scan.pending = [] := not_not.mp idle
    refine ⟨idle, ?_⟩
    unfold calledIds
    simp only at ok
    split at ok
    · rename_i plain
      obtain rfl := Except.ok.inj ok
      rw [if_pos plain]
      exact ⟨rfl, congrArg some idle.symm, fun waits => absurd idle waits⟩
    · rename_i assistant
      rw [if_neg assistant]
      split at ok
      · obtain rfl := Except.ok.inj ok
        exact ⟨rfl, congrArg some idle.symm, fun waits => absurd idle waits⟩
      · split at ok
        · cases ok
        · rename_i calls isArray
          obtain ⟨ids, added, same⟩ := bind_eq_ok.mp ok
          obtain rfl := Except.ok.inj same
          have empty : scan.pending.Nodup := idle ▸ List.nodup_nil
          obtain ⟨read, known, rfl, distinct⟩ := (addCalls_eq_ok empty).mp added
          rw [idle, List.nil_append] at distinct
          refine ⟨rfl, ?_, fun _ => rfl⟩
          simp [isArray, known, distinct, idle]

theorem turn_of_calledIds (index : Nat) {ids : List String} (idle : scan.pending = [])
    (called : calledIds message = some ids) :
    ∃ after, scan.turn index message = .ok after ∧ after.pending = ids := by
  unfold turn
  rw [if_neg (not_not.mpr idle)]
  unfold calledIds at called
  simp only
  split at called
  · rename_i plain
    rw [if_pos plain]
    exact ⟨_, rfl, idle.trans (Option.some.inj called)⟩
  · rename_i assistant
    rw [if_neg assistant]
    split at called
    · rename_i absent
      exact ⟨_, rfl, idle.trans (Option.some.inj called)⟩
    · rename_i calls present
      obtain ⟨items, isArray, called⟩ := Option.bind_eq_some_iff.mp called
      obtain ⟨read, known, called⟩ := Option.bind_eq_some_iff.mp called
      split at called
      · rename_i distinct
        obtain rfl := Option.some.inj called
        have empty : scan.pending.Nodup := idle ▸ List.nodup_nil
        have added : addCalls index 0 items scan.pending = .ok read :=
          (addCalls_eq_ok empty).mpr ⟨read, known, by rw [idle]; rfl, distinct⟩
        exact ⟨{ scan with answered := [], pending := read, batchIndex := index },
          by simp [isArray, added, bind, Except.bind], rfl⟩
      · cases called

/-- A turn fails on calls that wait, or on its own. -/
theorem turn_error (fails : scan.turn index message = .error error) :
    (scan.pending ≠ [] ∧ error.param = s!"messages[{scan.batchIndex}].tool_calls") ∨
      error.param = s!"messages[{index}].tool_calls" ∨
      ∃ k : Nat, error.param = s!"messages[{index}].tool_calls[{k}].id" := by
  unfold turn at fails
  split at fails
  · rename_i waits
    obtain rfl := Except.error.inj fails
    exact .inl ⟨waits, rfl⟩
  · right
    simp only at fails
    split at fails
    · cases fails
    · split at fails
      · cases fails
      · split at fails
        · obtain rfl := Except.error.inj fails
          exact .inl rfl
        · rename_i calls isArray
          cases added : addCalls index 0 calls scan.pending with
          | ok pending => simp [added, bind, Except.bind] at fails
          | error other =>
            obtain rfl : other = error := by simpa [added, bind, Except.bind] using fails
            exact .inr (addCalls_error added)

theorem answer_ok (ok : scan.answer index message = .ok after) :
    ∃ id, idOf "tool_call_id" message = some id ∧ id ∈ scan.pending ∧
      after = { scan with pending := scan.pending.erase id, answered := id :: scan.answered } := by
  unfold answer at ok
  split at ok
  · cases ok
  · rename_i id known
    split at ok
    · rename_i waits
      exact ⟨id, known, waits, (Except.ok.inj ok).symm⟩
    · cases ok

theorem answer_of_mem (index : Nat) {id : String} (known : idOf "tool_call_id" message = some id)
    (waits : id ∈ scan.pending) :
    scan.answer index message = .ok
      { scan with pending := scan.pending.erase id, answered := id :: scan.answered } := by
  simp [answer, known, waits]

theorem answer_error (fails : scan.answer index message = .error error) :
    error.param = s!"messages[{index}].tool_call_id" := by
  unfold answer at fails
  split at fails
  · obtain rfl := Except.error.inj fails
    rfl
  · split at fails
    · cases fails
    · obtain rfl := Except.error.inj fails
      rfl

end ToolScan

/-! ### What has been read -/

theorem Conversation.append {first second : List Value} (one : Conversation first)
    (two : Conversation second) : Conversation (first ++ second) := by
  induction one with
  | nil => exact two
  | turn opens called results answers _ ih =>
    rw [List.cons_append, List.append_assoc]
    exact .turn opens called results answers ih

/-- The turns that are over, and the current turn with the results it has: the calls of
that turn are the answered ones and those that wait. -/
inductive Reads : List Value → ToolScan → Prop where
  | start {scan : ToolScan} : scan.pending = [] → Reads [] scan
  | turn {past results : List Value} {opening : Value} {ids answers : List String}
      {scan : ToolScan} :
      Conversation past → isTool opening = false → calledIds opening = some ids →
      (∀ result ∈ results, isTool result) →
      results.map (idOf "tool_call_id") = answers.map some →
      (answers ++ scan.pending).Perm ids →
      (scan.pending ≠ [] → scan.batchIndex = past.length) →
      Reads (past ++ opening :: results) scan

namespace Reads

variable {messages : List Value} {scan after : ToolScan}

/-- When no call waits, the current turn is over as well. -/
theorem conversation (reads : Reads messages scan) (idle : scan.pending = []) :
    Conversation messages := by
  cases reads with
  | start _ => exact .nil
  | turn past opens called results answered waiting _ =>
    rw [idle, List.append_nil] at waiting
    refine past.append ?_
    rw [← List.append_nil (_ :: _), List.cons_append]
    exact .turn opens called results (answered ▸ waiting.map some) .nil

/-- A step adds its message to what has been read. -/
theorem next {message : Value} (reads : Reads messages scan)
    (ok : scan.next messages.length message = .ok after) :
    Reads (messages ++ [message]) after := by
  unfold ToolScan.next at ok
  split at ok
  · rename_i tool
    obtain ⟨id, known, waits, rfl⟩ := ToolScan.answer_ok ok
    cases reads with
    | start idle => exact absurd waits (idle ▸ List.not_mem_nil)
    | @turn past results _ _ answers _ whole opens called tools answered waiting batch =>
      rw [List.append_assoc, List.cons_append]
      have moved : ((answers ++ [id]) ++ scan.pending.erase id).Perm (answers ++ scan.pending) := by
        rw [List.append_assoc]
        exact (List.perm_cons_erase waits).symm.append_left _
      refine .turn whole opens called ?_ ?_ (moved.trans waiting) fun _ =>
        batch (List.ne_nil_of_mem waits)
      · intro result mem
        rcases List.mem_append.mp mem with mem | mem
        · exact tools result mem
        · exact List.mem_singleton.mp mem ▸ tool
      · simp [answered, known]
  · rename_i other
    obtain ⟨idle, _, called, batch⟩ := ToolScan.turn_ok ok
    have whole := reads.conversation idle
    have none : ([] : List Value).map (idOf "tool_call_id") = ([] : List String).map some := rfl
    exact .turn whole (Bool.eq_false_iff.mpr other) called (by simp) none (List.Perm.refl _) batch

/-- And so does a run. -/
theorem scanMessages {more : List Value} (reads : Reads messages scan)
    (ok : Requests.scanMessages scan messages.length more = .ok after) :
    Reads (messages ++ more) after := by
  induction more generalizing messages scan with
  | nil =>
    obtain rfl := Except.ok.inj ok
    rwa [List.append_nil]
  | cons message more ih =>
    obtain ⟨middle, first, rest⟩ := bind_eq_ok.mp ok
    have read := reads.next first
    rw [← List.singleton_append, ← List.append_assoc]
    refine ih read ?_
    rw [List.length_append, List.length_singleton]
    exact rest

end Reads

/-! ### Every reading can be completed -/

theorem idOf_nonblank {name id : String} {value : Value} (known : idOf name value = some id) :
    (Text.trim id).isEmpty = false := by
  simpa using (Option.filter_eq_some_iff.mp known).2

theorem callIds_nonblank {calls : List Value} {ids : List String}
    (known : callIds calls = some ids) :
    ∀ id ∈ ids, (Text.trim id).isEmpty = false := by
  induction calls generalizing ids with
  | nil =>
    obtain rfl := Option.some.inj known
    simp
  | cons call calls ih =>
    obtain ⟨first, one, known⟩ := Option.bind_eq_some_iff.mp known
    obtain ⟨rest, read, rfl⟩ := Option.map_eq_some_iff.mp known
    intro id mem
    rcases List.mem_cons.mp mem with rfl | mem
    · exact idOf_nonblank one
    · exact ih read id mem

/-- The called ids are not blank. -/
theorem calledIds_nonblank {message : Value} {ids : List String}
    (called : calledIds message = some ids) : ∀ id ∈ ids, (Text.trim id).isEmpty = false := by
  unfold calledIds at called
  split at called
  · obtain rfl := Option.some.inj called
    simp
  · split at called
    · obtain rfl := Option.some.inj called
      simp
    · obtain ⟨items, _, called⟩ := Option.bind_eq_some_iff.mp called
      obtain ⟨read, known, called⟩ := Option.bind_eq_some_iff.mp called
      split at called
      · obtain rfl := Option.some.inj called
        exact callIds_nonblank known
      · cases called

/-- The result of a call. -/
def toolResult (id : String) : Value :=
  .object [("role", .string "tool"), ("tool_call_id", .string id)]

theorem isTool_toolResult (id : String) : isTool (toolResult id) = true := rfl

theorem idOf_toolResult {id : String} (text : (Text.trim id).isEmpty = false) :
    idOf "tool_call_id" (toolResult id) = some id := by
  have read : ((toolResult id).get "tool_call_id").bind Value.asStr = some id := rfl
  simp [idOf, read, text]

variable {messages : List Value}

/-- The results of the calls that wait complete what has been read. -/
theorem Reads.extends {scan : ToolScan} (reads : Reads messages scan) : Extends messages := by
  cases reads with
  | start _ => exact ⟨[], .nil⟩
  | @turn past results opening ids answers _ whole opens called tools answered waiting _ =>
    refine ⟨scan.pending.map toolResult, ?_⟩
    rw [List.append_assoc]
    refine whole.append ?_
    have text := calledIds_nonblank called
    have known : (scan.pending.map toolResult).map (idOf "tool_call_id") =
        scan.pending.map some := by
      have each : ∀ id ∈ scan.pending, (idOf "tool_call_id" ∘ toolResult) id = some id := by
        intro id mem
        rw [Function.comp_apply]
        exact idOf_toolResult (text id (waiting.subset (List.mem_append_right answers mem)))
      rw [List.map_map]
      exact List.map_congr_left each
    rw [List.cons_append, ← List.append_nil (results ++ _)]
    refine .turn opens called ?_ ?_ .nil
    · intro result mem
      rcases List.mem_append.mp mem with mem | mem
      · exact tools result mem
      · obtain ⟨id, _, rfl⟩ := List.mem_map.mp mem
        exact isTool_toolResult id
    · rw [List.map_append, answered, known, ← List.map_append]
      exact waiting.map some

/-! ### Every conversation is read -/

section Complete

variable {scan after : ToolScan} {index : Nat} {first second results : List Value}

theorem scanMessages_append :
    scanMessages scan index (first ++ second) =
      (scanMessages scan index first).bind fun scan =>
        scanMessages scan (index + first.length) second := by
  induction first generalizing scan index with
  | nil => rfl
  | cons message first ih =>
    cases step : scan.next index message with
    | error error => simp [scanMessages, step, bind, Except.bind]
    | ok next =>
      have later : index + 1 + first.length = index + (first.length + 1) := by omega
      simp [scanMessages, step, bind, Except.bind, ih, later]

/-- The results of the calls that wait are read in any order. -/
theorem scanMessages_results (index : Nat) (tools : ∀ result ∈ results, isTool result)
    (answers : (results.map (idOf "tool_call_id")).Perm (scan.pending.map some)) :
    ∃ after, scanMessages scan index results = .ok after ∧ after.pending = [] := by
  induction results generalizing scan index with
  | nil =>
    have none : scan.pending.map some = [] := List.nil_perm.mp answers
    exact ⟨scan, rfl, List.map_eq_nil_iff.mp none⟩
  | cons result results ih =>
    have mem : idOf "tool_call_id" result ∈ scan.pending.map some :=
      answers.subset List.mem_cons_self
    obtain ⟨id, waits, known⟩ := List.mem_map.mp mem
    have tool : isTool result = true := tools result List.mem_cons_self
    have step := ToolScan.answer_of_mem index known.symm waits
    have rest : (results.map (idOf "tool_call_id")).Perm ((scan.pending.erase id).map some) := by
      have split := (List.perm_cons_erase waits).map some
      rw [List.map_cons, known] at split
      exact (answers.trans split).cons_inv
    obtain ⟨after, run, idle⟩ := @ih
      { scan with pending := scan.pending.erase id, answered := id :: scan.answered } (index + 1)
      (fun result mem => tools result (List.mem_cons_of_mem _ mem)) rest
    refine ⟨after, ?_, idle⟩
    simp [scanMessages, ToolScan.next, tool, step, bind, Except.bind, run]

theorem Conversation.scans (index : Nat) (conversation : Conversation first)
    (idle : scan.pending = []) :
    ∃ after, scanMessages scan index first = .ok after ∧ after.pending = [] := by
  induction conversation generalizing scan index with
  | nil => exact ⟨scan, rfl, idle⟩
  | @turn opening ids results rest opens called tools answers _ ih =>
    obtain ⟨open', begun, waits⟩ := ToolScan.turn_of_calledIds index idle called
    obtain ⟨closed, answered, whole⟩ := scanMessages_results (index + 1) tools (waits ▸ answers)
    obtain ⟨after, run, done⟩ := ih (index + 1 + results.length) whole
    refine ⟨after, ?_, done⟩
    have first : scan.next index opening = .ok open' := by
      simpa [ToolScan.next, opens] using begun
    simp [scanMessages, first, scanMessages_append, answered, bind, Except.bind, run]

end Complete

/-- **A list of messages is accepted exactly when it is a conversation.** -/
theorem validateMessages_eq_none : validateMessages messages = none ↔ Conversation messages := by
  unfold validateMessages
  constructor
  · intro accepted
    split at accepted
    · cases accepted
    · rename_i scan run
      have reads : Reads ([] ++ messages) scan := (Reads.start rfl).scanMessages run
      refine reads.conversation ?_
      simpa [ToolScan.finish] using accepted
  · intro conversation
    obtain ⟨after, run, idle⟩ := @Conversation.scans {} _ 0 conversation rfl
    simp [run, ToolScan.finish, idle]

/-! ### Where a rejection points -/

/-- The parameter names the message, its calls or one of them. -/
def PointsAt (param : String) (index : Nat) : Prop :=
  param = s!"messages[{index}].tool_call_id" ∨ param = s!"messages[{index}].tool_calls" ∨
    ∃ k : Nat, param = s!"messages[{index}].tool_calls[{k}].id"

/-- The turn that begins at the index is the last one, and some call of it has no result. -/
def OpenBatch (messages : List Value) (index : Nat) : Prop :=
  ∃ past opening results, messages = past ++ opening :: results ∧ past.length = index ∧
    Conversation past ∧ isTool opening = false ∧ (∀ result ∈ results, isTool result) ∧
    ¬ Conversation messages

/-- What the error says about a list: the first message that no conversation goes on with, or
the turn that is open before it, or the turn that is open at the end. -/
def PointsAtFirst (messages : List Value) (param : String) : Prop :=
  (∃ k message, messages[k]? = some message ∧
    Extends (messages.take k) ∧ ¬ Extends (messages.take (k + 1)) ∧
      (PointsAt param k ∨ isTool message = false ∧
        ∃ index, OpenBatch (messages.take k) index ∧ param = s!"messages[{index}].tool_calls")) ∨
  Extends messages ∧
    ∃ index, OpenBatch messages index ∧ param = s!"messages[{index}].tool_calls"

/-- What could not be read does not begin a conversation. -/
theorem not_extends_of_error (fails : scanMessages {} 0 messages = .error error) :
    ¬ Extends messages := by
  rintro ⟨rest, conversation⟩
  obtain ⟨after, run, _⟩ := @Conversation.scans {} _ 0 conversation rfl
  rw [scanMessages_append, fails] at run
  cases run

theorem openBatch_of_pending {scan : ToolScan} (run : scanMessages {} 0 messages = .ok scan)
    (waits : scan.pending ≠ []) :
    OpenBatch messages scan.batchIndex := by
  have unfinished : ¬ Conversation messages := by
    intro conversation
    obtain ⟨after, same, idle⟩ := @Conversation.scans {} _ 0 conversation rfl
    obtain rfl : after = scan := Except.ok.inj (same.symm.trans run)
    exact waits idle
  have reads : Reads ([] ++ messages) scan := (Reads.start rfl).scanMessages run
  rw [List.nil_append] at reads
  cases reads with
  | start idle => exact absurd idle waits
  | turn whole opens called tools answered waiting batch =>
    exact ⟨_, _, _, rfl, (batch waits).symm, whole, opens, tools, unfinished⟩

/-- A run fails at the first message that a step refuses. -/
theorem scanMessages_error {scan : ToolScan} {index : Nat}
    (fails : scanMessages scan index messages = .error error) :
    ∃ first message rest middle, messages = first ++ message :: rest ∧
      scanMessages scan index first = .ok middle ∧
        middle.next (index + first.length) message = .error error := by
  induction messages generalizing scan index with
  | nil => cases fails
  | cons message messages ih =>
    cases step : scan.next index message with
    | error other =>
      obtain rfl : other = error := by simpa [scanMessages, step, bind, Except.bind] using fails
      exact ⟨[], message, messages, scan, rfl, rfl, step⟩
    | ok next =>
      have later : scanMessages next (index + 1) messages = .error error := by
        simpa [scanMessages, step, bind, Except.bind] using fails
      obtain ⟨first, at', rest, middle, rfl, run, refused⟩ := ih later
      refine ⟨message :: first, at', rest, middle, rfl, ?_, ?_⟩
      · simpa [scanMessages, step, bind, Except.bind] using run
      · have same : index + (message :: first).length = index + 1 + first.length := by
          rw [List.length_cons]
          omega
        rw [same]
        exact refused

theorem validateMessages_error (rejected : validateMessages messages = some error) :
    PointsAtFirst messages error.param := by
  unfold validateMessages at rejected
  split at rejected
  · rename_i other fails
    obtain rfl := Option.some.inj rejected
    obtain ⟨first, message, rest, middle, rfl, run, refused⟩ := scanMessages_error fails
    have reads : Reads ([] ++ first) middle := (Reads.start rfl).scanMessages run
    rw [List.nil_append] at reads
    rw [Nat.zero_add] at refused
    have short : (first ++ message :: rest).take first.length = first := List.take_left
    have long : (first ++ message :: rest).take (first.length + 1) = first ++ [message] := by
      rw [List.take_append, List.take_of_length_le (Nat.le_succ _), Nat.add_sub_cancel_left]
      rfl
    have stops : scanMessages {} 0 (first ++ [message]) = .error other := by
      rw [scanMessages_append, run]
      simp [Except.bind, scanMessages, refused, bind]
    refine .inl ⟨first.length, message, by simp, ?_, ?_, ?_⟩
    · rw [short]
      exact reads.extends
    · rw [long]
      exact not_extends_of_error stops
    · rw [short]
      unfold ToolScan.next at refused
      split at refused
      · exact .inl (.inl (ToolScan.answer_error refused))
      · rename_i opening
        rcases ToolScan.turn_error refused with ⟨waits, param⟩ | own
        · exact .inr ⟨Bool.eq_false_iff.mpr opening, _, openBatch_of_pending run waits, param⟩
        · exact .inl (.inr own)
  · rename_i scan run
    have reads : Reads ([] ++ messages) scan := (Reads.start rfl).scanMessages run
    rw [List.nil_append] at reads
    unfold ToolScan.finish at rejected
    split at rejected
    · rename_i waits
      obtain rfl := Option.some.inj rejected
      exact .inr ⟨reads.extends, scan.batchIndex, openBatch_of_pending run waits, rfl⟩
    · cases rejected

/-- **A chat request is accepted exactly when its messages are a conversation; a
rejection points at the first message that no conversation goes on with, or at the open
turn.** A conversation is defined on its own: after each turn that calls tools, each
call has its one result, in any order. -/
theorem validateToolHistory_exact (serde : Serde) (body : List UInt8) {value : Value}
    {messages : List Value} (parsed : serde.fromSlice body = some value)
    (listed : (value.get "messages").bind Value.asArray = some messages) :
    (validateToolHistory serde "/v1/chat/completions" body = none ↔ Conversation messages) ∧
      ∀ error, validateToolHistory serde "/v1/chat/completions" body = some error →
        PointsAtFirst messages error.param := by
  have same :
      validateToolHistory serde "/v1/chat/completions" body = validateMessages messages := by
    simp [validateToolHistory, parsed, listed]
  rw [same]
  exact ⟨validateMessages_eq_none, fun error => validateMessages_error⟩

/-- A request with one call and its result. -/
def calledBody : List UInt8 :=
  [123, 34, 109, 101, 115, 115, 97, 103, 101, 115, 34, 58, 91, 123, 34, 114, 111, 108, 101,
    34, 58, 34, 97, 115, 115, 105, 115, 116, 97, 110, 116, 34, 44, 34, 116, 111, 111, 108,
    95, 99, 97, 108, 108, 115, 34, 58, 91, 123, 34, 105, 100, 34, 58, 34, 97, 34, 125, 93,
    125, 44, 123, 34, 114, 111, 108, 101, 34, 58, 34, 116, 111, 111, 108, 34, 44, 34, 116,
    111, 111, 108, 95, 99, 97, 108, 108, 95, 105, 100, 34, 58, 34, 97, 34, 125, 93, 125]

def calledTurn : Value :=
  .object [("role", .string "assistant"), ("tool_calls", .array [.object [("id", .string "a")]])]

def calledValue : Value := .object [("messages", .array [calledTurn, toolResult "a"])]

/-- What `serde_json` makes of the request. -/
def calledSerde : Serde where
  fromStr _ := none
  fromSlice body := if body = calledBody then some calledValue else none

theorem validateToolHistory_exact_calledBody :
    validateToolHistory calledSerde "/v1/chat/completions" calledBody = none := by
  have parsed : calledSerde.fromSlice calledBody = some calledValue := by simp [calledSerde]
  refine (validateToolHistory_exact calledSerde calledBody parsed rfl).1.mpr ?_
  have waiting : calledIds calledTurn = some ["a"] := by decide
  have tools : ∀ result ∈ [toolResult "a"], isTool result := by decide
  exact .turn rfl waiting tools (List.Perm.refl _) .nil

end LlamaServerManager.Requests
