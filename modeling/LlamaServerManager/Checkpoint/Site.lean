import LlamaServerManager.Checkpoint.Calls
import LlamaServerManager.Checkpoint.Prune
import LlamaServerManager.Checkpoint.Scratch

/-!
An operation of one process that no other operation interferes with: the entries of
the coordinator, the store on disk, and a backend that may answer anything. The
backend writes in the scratch directory of its instance only.
-/

namespace LlamaServerManager.Checkpoint

open Lib

/-- A question and its answer, with the store it left. -/
structure Event where
  query : Query
  answer : query.Answer
  files : Files

/-- The answer is an error. -/
def Query.failed : (q : Query) → q.Answer → Bool
  | .now, _ | .elapsed, _ | .activeRequests, _ | .terminate, _ | .newGeneration, _ => false
  | .loadLatest .., a => !Except.toBool a
  | .hasOtherFingerprintGeneration .., a => !Except.toBool a
  | .copySlotToScratch .., a | .newScratchSlotPathFor .., a => !Except.toBool a
  | .slotClient, a | .removeScratchPayload .., a | .ensureScratchCapacity .., a => !Except.toBool a
  | .rejectGeneration .., a | .pruneInstance .., a | .health, a => !Except.toBool a
  | .verifyScratchPayload .., a => !Except.toBool a
  | .commitSlots .., a => !Except.toBool a
  | .slots, a => !Except.toBool a
  | .saveSlot .., a => !Except.toBool a
  | .restoreSlot .., a => !Except.toBool a

def Event.failed (event : Event) : Bool := event.query.failed event.answer

/-- The coordinator and the store, and what was asked so far. -/
structure Site where
  entries : Entries
  files : Files
  log : List Event

/-- The instance, the functions a store depends on, how its calls can fare, and what
removals that are cut short can leave. -/
structure Surroundings where
  instanceId : String
  codec : Codec
  listing : Listing
  fates : (Nat → Fate) → Prop
  cuts : (Path → Bool) → Prop

/-- What can be answered, and what becomes of the store. -/
def Surroundings.Serves (around : Surroundings) :
    (q : Query) → Files → q.Answer → Files → Prop
  | .loadLatest i f, fs, a, t =>
    ∃ ready millis, loadLatest around.codec around.listing ready millis i f fs = (t, a)
  | .hasOtherFingerprintGeneration i f, fs, a, t =>
    ∃ ready millis,
      hasOtherFingerprintGeneration around.codec around.listing ready millis i f fs = (t, a)
  | .copySlotToScratch i pid generation slot, fs, a, t =>
    ∃ ready available cut uuid, validateUuid uuid = true ∧
      (copySlotToScratch around.codec ready available cut uuid i pid generation slot).Yields
        around.fates fs a t
  | .removeScratchPayload i path, fs, a, t =>
    ∃ ready, (removeScratchPayload ready i path).Yields around.fates fs a t
  | .ensureScratchCapacity i bytes, fs, a, t =>
    ∃ ready available, (ensureScratchCapacity ready available i bytes).Yields around.fates fs a t
  | .newScratchSlotPathFor i pid slot, fs, a, t =>
    ∃ ready uuid, validateUuid uuid = true ∧
      (newScratchSlotPathFor ready uuid i pid slot).Yields around.fates fs a t
  | .verifyScratchPayload i path bytes, fs, a, t =>
    ∃ ready, (verifyScratchPayload around.codec ready i path bytes).Yields around.fates fs a t
  | .rejectGeneration i generation, fs, a, t =>
    ∃ ready, (rejectGeneration ready i generation).Yields around.fates fs a t
  | .commitSlots manifest payloads limit, fs, a, t =>
    ∃ env : Setting, env.codec = around.codec ∧ around.cuts env.kept ∧
      (commitSlots env manifest payloads limit).Yields around.fates fs a t
  | .pruneInstance i limit kept, fs, a, t =>
    ∃ env result, PruneSetting.codec env = around.codec ∧ env.listing = around.listing ∧
      around.cuts env.kept ∧ (pruneInstance env i limit kept).Yields around.fates fs result t ∧
      a = result.map fun _ => ()
  | .saveSlot .., fs, _, t => ∀ p, ¬ [around.instanceId, "scratch"] <+: p → t p = fs p
  | .now, fs, _, t | .elapsed, fs, _, t | .newGeneration, fs, _, t => t = fs
  | .health, fs, _, t | .slots, fs, _, t | .restoreSlot .., fs, _, t => t = fs
  | .slotClient, fs, _, t | .activeRequests, fs, _, t | .terminate, fs, _, t => t = fs

/-- One call. -/
inductive Surroundings.Step (around : Surroundings) : Site → (q : Call) → q.Answer → Site → Prop
  | lock (env : Environment) (s : Section) (site : Site) :
      Step around site (.lock s) (s.run env site.entries).1
        { site with entries := (s.run env site.entries).2 }
  | ask {q : Query} {a : q.Answer} {site : Site} {files : Files}
      (served : around.Serves q site.files a files) :
      Step around site (.ask q) a
        { site with
          files
          log := site.log ++ [⟨q, a, files⟩] }

/-- The instance is routed in a ready phase only. -/
def RoutedWhenReady (i : String) (site : Site) : Prop :=
  Coordinator.gateAllowsRouting i site.entries = true →
    ∃ e, site.entries.lookup i = some e ∧ e.status.phase.isRoutable = true

/-- The steps of one operation; at no call the instance is routed before it is ready. -/
def Surroundings.alone (around : Surroundings) : Protocol Site Call Call.Answer where
  allowed site _ := RoutedWhenReady around.instanceId site
  step := around.Step

/-! ### An entry that nobody else changes -/

/-- The process is behind its gate, in the phase. -/
structure Site.At (site : Site) (i : String) (pid count : Nat) (phase : CheckpointPhase) : Prop where
  entry : ∃ e, site.entries.lookup i = some e ∧ e.status.expectedPid = some pid ∧
    e.gateActive = true ∧ Consistent e ∧ e.slotCount = count ∧ e.status.phase = phase

section Alone

variable {around : Surroundings} {site : Site} {pid count : Nat} {phase : CheckpointPhase}
  {α : Type} {post : Except StoreError α → Site → Prop}

theorem Site.At.routed (here : site.At around.instanceId pid count phase) :
    RoutedWhenReady around.instanceId site := by
  intro routing
  obtain ⟨e, found, -, gate, consistent, -⟩ := here.entry
  refine ⟨e, found, consistent gate ?_⟩
  have allowed : e.stopRequested = false ∧ e.status.routable = true := by
    simpa [Coordinator.gateAllowsRouting, found, gate] using routing
  exact allowed.2

/-- A change of files and log leaves the entry. -/
theorem Site.At.asked (here : site.At around.instanceId pid count phase) (files : Files)
    (log : List Event) : Site.At { site with files, log } around.instanceId pid count phase :=
  ⟨here.entry⟩

theorem at_gate {f : Bool → Fallible α} (here : site.At around.instanceId pid count phase)
    (rest : Plays around.alone (f true) post site) :
    Plays around.alone (do
      let active : Bool ← Coordinator.lock (.gateActive around.instanceId)
      f active) post site := by
  obtain ⟨e, found, -, gate, -⟩ := here.entry
  refine .bind (.lock here.routed ?_)
  intro active r step
  cases step
  have eq : Coordinator.gateActive around.instanceId site.entries = true := by
    rw [Coordinator.gateActive, found]
    exact gate
  change Plays around.alone (f (Coordinator.gateActive around.instanceId site.entries)) post site
  rw [eq]
  exact rest

theorem at_status {f : Option CheckpointStatus → Fallible α}
    (here : site.At around.instanceId pid count phase)
    (rest : ∀ status : CheckpointStatus, status.expectedPid = some pid → status.phase = phase →
      Plays around.alone (f (some status)) post site) :
    Plays around.alone (do
      let found : Option CheckpointStatus ← Coordinator.lock (.status around.instanceId)
      f found) post site := by
  obtain ⟨e, found, own, -, -, -, eq⟩ := here.entry
  refine .bind (.lock here.routed ?_)
  intro status r step
  cases step
  have known : Coordinator.status around.instanceId site.entries = some e.status := by
    rw [Coordinator.status, found]
    rfl
  change Plays around.alone (f (Coordinator.status around.instanceId site.entries)) post site
  rw [known]
  exact rest e.status own eq

theorem at_slotCount {f : Except StoreError Nat → Fallible α}
    (here : site.At around.instanceId pid count phase)
    (rest : Plays around.alone (f (.ok count)) post site) :
    Plays around.alone (do
      let found : Except StoreError Nat ← Coordinator.lock (.slotCount around.instanceId pid)
      f found) post site := by
  obtain ⟨e, found, own, -, -, counted, -⟩ := here.entry
  refine .bind (.lock here.routed ?_)
  intro answer r step
  cases step
  have known : Coordinator.slotCount around.instanceId pid site.entries = .ok count := by
    rw [Coordinator.slotCount, found]
    dsimp only
    rw [if_pos own, counted]
  change Plays around.alone (f (Coordinator.slotCount around.instanceId pid site.entries)) post site
  rw [known]
  exact rest

/-- A legal transition. -/
theorem at_enter {next : CheckpointPhase} {f : CheckpointStatus → Fallible α}
    (here : site.At around.instanceId pid count phase)
    (legal : legalCheckpointTransition phase next = true)
    (rest : ∀ status entries, Site.At { site with entries } around.instanceId pid count next →
      Plays around.alone (f status) post { site with entries }) :
    Plays around.alone (do
      let status ← Coordinator.enter around.instanceId pid next
      f status) post site := by
  obtain ⟨e, found, own, gate, -, counted, rfl⟩ := here.entry
  refine .bind (.bind (.lock here.routed ?_))
  intro answer r step
  cases step
  next env =>
    have moved := Coordinator.transition_of env.now found own legal
    change Plays around.alone
      (Coordinator.orFail (Coordinator.transition around.instanceId pid next env.now site.entries).1)
      _ { site with
        entries := (Coordinator.transition around.instanceId pid next env.now site.entries).2 }
    rw [moved]
    refine .orFail (rest _ _ ⟨_, AList.lookup_insert _, own, gate, .moved _ _ _, counted, rfl⟩)

/-- Noting what an operation came to, which is the end of it. -/
theorem at_record {update : CheckpointOperationUpdate}
    {post : Except StoreError CheckpointStatus → Site → Prop}
    (here : site.At around.instanceId pid count phase)
    (rest : ∀ status entries, status.lastOutcome = update.outcome →
      Site.At { site with entries } around.instanceId pid count phase →
      post (.ok status) { site with entries }) :
    Plays around.alone (Coordinator.record around.instanceId pid update) post site := by
  obtain ⟨e, found, own, gate, consistent, counted, rfl⟩ := here.entry
  refine .bind (.lock here.routed ?_)
  intro answer r step
  cases step
  next env =>
    change Plays around.alone
      (Coordinator.orFail
        (Coordinator.updateOperation around.instanceId pid update env.now site.entries).1) _
      { site with entries :=
        (Coordinator.updateOperation around.instanceId pid update env.now site.entries).2 }
    rw [Coordinator.updateOperation, Coordinator.ownEntry_of found own]
    refine .orFail (rest _ _ ?_ ⟨_, AList.lookup_insert _, ?_, gate, ?_, counted, ?_⟩)
    · dsimp only
      split <;> rfl
    · dsimp only
      split <;> exact own
    · intro shut routed
      have routed : e.status.routable = true := by
        revert routed
        dsimp only
        split <;> exact id
      have routable := consistent gate routed
      dsimp only
      split <;> exact routable
    · dsimp only
      split <;> rfl

/-- A question: the entry stays, and the answer is noted. -/
theorem at_ask {q : Query} {f : q.Answer → Fallible α}
    (here : site.At around.instanceId pid count phase)
    (rest : ∀ a files, around.Serves q site.files a files →
      Plays around.alone (f a) post
        { site with files, log := site.log ++ [⟨q, a, files⟩] }) :
    Plays around.alone (Coordinator.ask q >>= f) post site := by
  refine .bind (.ask here.routed ?_)
  intro a r step
  cases step with
  | ask served => exact rest a _ served

end Alone

end LlamaServerManager.Checkpoint
