import Mathlib.Data.List.Basic

/-!
Performance lines of a server's log (`commands/server.rs`): how a line changes what is known of
the tasks (`parse_perf_line`), and the two loops that record finished tasks, one for each line
(`RuntimePerfTracker::process_line`) and one for each read (`tail_log_file`).

* `Line` — what the parser's expressions find in a line.
* `parsePerfLine` — one line.
* `processLine`, `tailBatch` — the loops.
-/

namespace LlamaServerManager.Logs.Perf

/-! ### Lines and tasks -/

/-- What the expressions of `PerfParser` capture in a line; a number that does not parse is
`none`. -/
structure Line (F : Type) where
  /-- The slot and the task. -/
  ids : Option (Nat × Nat)
  isLaunch : Bool
  isRelease : Bool
  generation : Option (Option Nat × Option F)
  tg3s : Option F
  promptProgress : Option (Option Nat × Option F × Option F)
  prompt : Option (Option F × Option Nat × Option F)
  eval : Option (Option F × Option Nat × Option F)
  total : Option (Option F × Option Nat)
  draft : Option (Option F × Option Nat × Option Nat)
  stats : Option (Option Nat × Option Nat × Option F)
  stopTokens : Option Nat

structure TaskPerfState (F : Type) where
  slotId : Nat
  taskId : Nat
  startedAtMs : Int
  updatedAtMs : Int
  nDecoded : Nat
  tg : F
  tg3s : Option F
  history : List (Nat × F)
  promptTokens : Option Nat
  promptTimeMs : Option F
  promptTps : Option F
  genTokens : Option Nat
  genTimeMs : Option F
  genTps : Option F
  totalTokens : Option Nat
  totalTimeMs : Option F
  inputTokens : Option Nat
  specAcceptRate : Option F
  specAccepted : Option Nat
  specGenerated : Option Nat
  specGenTimeMs : Option F
  completed : Bool
deriving DecidableEq

/-- The arithmetic of `f64` that a line takes. -/
structure Floats (F : Type) where
  zero : F
  /-- From seconds. -/
  toMs : F → F

/-- A line with the time that the clock shows when it is parsed, and the order in which the
`HashMap` of the tasks gives them then. -/
structure Seen (F : Type) where
  line : Line F
  now : Int
  order : List (TaskPerfState F) → List (TaskPerfState F)
  order_perm : ∀ tasks, (order tasks).Perm tasks

def maxTrackedPerfTasks : Nat := 1024

section Parse

variable {F : Type} (floats : Floats F)

def newTask (slotId taskId : Nat) (timestamp : Int) : TaskPerfState F where
  slotId
  taskId
  startedAtMs := timestamp
  updatedAtMs := timestamp
  nDecoded := 0
  tg := floats.zero
  tg3s := none
  history := []
  promptTokens := none
  promptTimeMs := none
  promptTps := none
  genTokens := none
  genTimeMs := none
  genTps := none
  totalTokens := none
  totalTimeMs := none
  inputTokens := none
  specAcceptRate := none
  specAccepted := none
  specGenerated := none
  specGenTimeMs := none
  completed := false

/-- The change that a progress line or a summary makes to its task; the first that is found. -/
def summarize (line : Line F) : Option (TaskPerfState F → TaskPerfState F) :=
  match line.generation with
  | some (some n, some tg) => some fun task => { task with
      nDecoded := n
      tg
      tg3s := line.tg3s
      history := if task.history.length < 500 then task.history ++ [(n, tg)] else task.history }
  | _ =>
  match line.promptProgress with
  | some (tokens, seconds, tps) => some fun task => { task with
      promptTokens := tokens
      promptTimeMs := seconds.map floats.toMs
      promptTps := tps }
  | none =>
  match line.prompt with
  | some (timeMs, tokens, tps) => some fun task => { task with
      promptTimeMs := timeMs
      promptTokens := tokens
      promptTps := tps }
  | none =>
  match line.eval with
  | some (timeMs, tokens, tps) => some fun task => { task with
      genTimeMs := timeMs
      genTokens := tokens
      genTps := tps }
  | none =>
  match line.total with
  | some (timeMs, tokens) => some fun task => { task with
      totalTimeMs := timeMs
      totalTokens := tokens }
  | none =>
  match line.draft with
  | some (rate, accepted, generated) => some fun task => { task with
      specAcceptRate := rate
      specAccepted := accepted
      specGenerated := generated }
  | none =>
  match line.stats with
  | some (generated, accepted, timeMs) => some fun task => { task with
      specGenerated := generated.or task.specGenerated
      specAccepted := accepted.or task.specAccepted
      specGenTimeMs := timeMs }
  | none => none

/-- `tasks.insert`: an entry of the same task is replaced. -/
def insertTask (task : TaskPerfState F) (tasks : List (TaskPerfState F)) :
    List (TaskPerfState F) :=
  tasks.filter (fun other => other.taskId ≠ task.taskId) ++ [task]

def setTask (task : TaskPerfState F) (tasks : List (TaskPerfState F)) : List (TaskPerfState F) :=
  tasks.map fun other => if other.taskId = task.taskId then task else other

/-- The least recently updated task, in the order of the map. -/
def oldestTask (seen : Seen F) (tasks : List (TaskPerfState F)) : Option (TaskPerfState F) :=
  (seen.order tasks).minOn? (·.updatedAtMs)

/-- A full table loses its oldest task. -/
def makeRoom (seen : Seen F) (tasks : List (TaskPerfState F)) : List (TaskPerfState F) :=
  if maxTrackedPerfTasks ≤ tasks.length then
    match oldestTask seen tasks with
    | some oldest => tasks.filter fun task => task.taskId ≠ oldest.taskId
    | none => tasks
  else tasks

/-- `tasks` and `last_completed`. -/
structure Parsed (F : Type) where
  tasks : List (TaskPerfState F)
  lastCompleted : Option (TaskPerfState F)

/-- Whether anything changed, and what is known then. -/
def parsePerfLine (seen : Seen F) (known : Parsed F) : Bool × Parsed F :=
  match seen.line.ids with
  | none => (false, known)
  | some (slotId, taskId) =>
    if seen.line.isLaunch then
      (true, { known with
        tasks := insertTask (newTask floats slotId taskId seen.now) (makeRoom seen known.tasks) })
    else
      match known.tasks.find? fun task => task.taskId = taskId with
      | none => (false, known)
      | some task =>
        let task := { task with updatedAtMs := seen.now }
        match summarize floats seen.line with
        | some change => (true, { known with tasks := setTask (change task) known.tasks })
        | none =>
          if seen.line.isRelease then
            let task := { task with inputTokens := seen.line.stopTokens, completed := true }
            (true, { tasks := setTask task known.tasks, lastCompleted := some task })
          else (false, { known with tasks := setTask task known.tasks })

/-! ### The loops -/

/-- A completed task is recorded unless it was the last one recorded. -/
def recordCompleted (lastCompleted : Option (TaskPerfState F)) (lastRecordedTaskId : Option Nat)
    (recorded : List (TaskPerfState F)) : Option Nat × List (TaskPerfState F) :=
  match lastCompleted with
  | none => (lastRecordedTaskId, recorded)
  | some task =>
    if lastRecordedTaskId = some task.taskId then (lastRecordedTaskId, recorded)
    else (some task.taskId, recorded ++ [task])

/-- `RuntimePerfTracker`, with the tasks that `persist_completed_task` was called for. -/
structure RuntimePerfTracker (F : Type) where
  known : Parsed F
  lastRecordedTaskId : Option Nat
  finished : Bool
  recorded : List (TaskPerfState F)

def RuntimePerfTracker.new : RuntimePerfTracker F := ⟨⟨[], none⟩, none, false, []⟩

def retainOpen (tasks : List (TaskPerfState F)) : List (TaskPerfState F) :=
  tasks.filter fun task => !task.completed

def processLine (tracker : RuntimePerfTracker F) (seen : Seen F) : RuntimePerfTracker F :=
  if tracker.finished then tracker
  else
    let (changed, known) := parsePerfLine floats seen tracker.known
    if changed then
      let (lastRecordedTaskId, recorded) :=
        recordCompleted known.lastCompleted tracker.lastRecordedTaskId tracker.recorded
      { tracker with
        known := { known with tasks := retainOpen known.tasks }
        lastRecordedTaskId
        recorded }
    else { tracker with known }

/-- The variables of `tail_log_file`. -/
structure Tail (F : Type) where
  known : Parsed F
  lastRecordedTaskId : Option Nat
  perfChanged : Bool
  recorded : List (TaskPerfState F)

def Tail.start : Tail F := ⟨⟨[], none⟩, none, false, []⟩

def tailLine (tail : Tail F) (seen : Seen F) : Tail F :=
  let (changed, known) := parsePerfLine floats seen tail.known
  if changed then
    let (lastRecordedTaskId, recorded) :=
      recordCompleted known.lastCompleted tail.lastRecordedTaskId tail.recorded
    { known, lastRecordedTaskId, perfChanged := true, recorded }
  else { tail with known }

/-- A read of new lines; a blank one captures nothing. -/
def tailBatch (tail : Tail F) (batch : List (Seen F)) : Tail F :=
  let tail := batch.foldl (tailLine floats) { tail with perfChanged := false }
  if tail.perfChanged then
    { tail with known := { tail.known with tasks := retainOpen tail.known.tasks } }
  else tail

/-- The lines that are there already. -/
def tailReplay (tail : Tail F) (lines : List (Seen F)) : Tail F :=
  let tail := lines.foldl (tailLine floats) tail
  { tail with known := { tail.known with tasks := retainOpen tail.known.tasks } }

/-- The lines that are there, the reads, and what is left of a last line when the server has
stopped. -/
def tailLogFile (replay : List (Seen F)) (batches : List (List (Seen F)))
    (pending : Option (Seen F)) : Tail F :=
  let tail := batches.foldl (tailBatch floats) (tailReplay floats .start replay)
  match pending with
  | none => tail
  | some seen => tailBatch floats tail [seen]

end Parse

end LlamaServerManager.Logs.Perf
