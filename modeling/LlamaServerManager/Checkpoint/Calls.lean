import LlamaServerManager.Checkpoint.Sections

/-!
What an operation can do: which calls it makes, whatever is answered (`Within`), and
what holds of it under a protocol (`Plays`). The rules follow the way operations are
put together. An operation of a process looks, or changes the entry of that process,
and moves it to the phases of its own kind only.
-/

namespace LlamaServerManager.Checkpoint

open Lib

/-! ### Rules -/

/-- Every call of the operation satisfies `P`. -/
def Within {α : Type} (P : Call → Prop) (x : Fallible α) : Prop :=
  ∀ paths, Script.All P (x.run.run paths)

namespace Within

variable {α β : Type} {P : Call → Prop}

theorem pure (a : α) : Within P (Pure.pure a : Fallible α) := fun _ => trivial

theorem fail (e : StoreError) : Within P (throw e : Fallible α) := fun _ => trivial

theorem bind {x : Fallible α} {f : α → Fallible β} (first : Within P x)
    (rest : ∀ a, Within P (f a)) : Within P (x >>= f) := by
  intro paths
  change Script.All P (Script.bind (x.run.run paths) _)
  refine Script.All.bind (first paths) ?_
  rintro ⟨a | e, paths⟩
  · trivial
  · exact rest e paths

theorem lock {s : Section} (h : P (.lock s)) : Within P (Coordinator.lock s) := fun _ =>
  ⟨h, fun _ => trivial⟩

theorem ask {q : Query} (h : P (.ask q)) : Within P (Coordinator.ask q) := fun _ =>
  ⟨h, fun _ => trivial⟩

theorem orFail (r : Except StoreError α) : Within P (Coordinator.orFail r) := by
  cases r with
  | ok a => exact pure a
  | error e => exact fail e

theorem demand (c : Prop) [Decidable c] (e : StoreError) : Within P (Coordinator.demand c e) :=
  orFail _

theorem remember (path : Path) : Within P (Coordinator.remember path) := fun _ => trivial

theorem get : Within P (MonadState.get : Fallible (List Path)) := fun _ => trivial

theorem attempt {x : Fallible α} (h : Within P x) : Within P (Coordinator.attempt x) := by
  intro paths
  change Script.All P (Script.bind (x.run.run paths) _)
  exact Script.All.bind (h paths) fun _ => trivial

theorem mono {R : Call → Prop} {x : Fallible α} (h : Within P x) (imp : ∀ q, P q → R q) :
    Within R x := fun paths => (h paths).imp imp

theorem finish {x : Fallible α} (h : Within P x) : (finish x).All P :=
  Script.All.bind (h []) fun _ => trivial

end Within

/-! ### Operations under a protocol -/

/-- The operation keeps to the protocol, as long as the answers do. -/
def Plays {R α : Type} (p : Protocol R Call Call.Answer) (x : Fallible α)
    (post : Except StoreError α → R → Prop) (r : R) : Prop :=
  ∀ paths, (x.run.run paths).Follows p (fun result r' => post result.1 r') r

namespace Plays

variable {R α β : Type} {p : Protocol R Call Call.Answer} {r : R}
  {post : Except StoreError α → R → Prop}

theorem pure {a : α} (h : post (.ok a) r) : Plays p (Pure.pure a) post r := fun _ => h

theorem orFail {result : Except StoreError α} (h : post result r) :
    Plays p (Coordinator.orFail result) post r := by
  cases result with
  | ok a => exact fun _ => h
  | error e => exact fun _ => h

variable {x : Fallible α}

theorem mono {post' : Except StoreError α → R → Prop} (h : Plays p x post r)
    (imp : ∀ result r, post result r → post' result r) : Plays p x post' r :=
  fun paths => (h paths).mono fun result r => imp result.1 r

theorem bind {post : Except StoreError β → R → Prop} {f : α → Fallible β} (h : Plays p x
      (fun result r => match result with
        | .ok a => Plays p (f a) post r
        | .error e => post (.error e) r) r) :
    Plays p (x >>= f) post r := by
  intro paths
  change Script.Follows p _ (Script.bind (x.run.run paths) _) r
  refine Script.Follows.bind ((h paths).mono ?_)
  rintro ⟨a | e, paths⟩ r holds
  · exact holds
  · exact holds paths

theorem lock {s : Section} {post : Except StoreError s.Answer → R → Prop}
    (allowed : p.allowed r (.lock s)) (h : ∀ a r', p.step r (.lock s) a r' → post (.ok a) r') :
    Plays p (Coordinator.lock s) post r := fun _ => ⟨allowed, h⟩

theorem ask {q : Query} {post : Except StoreError q.Answer → R → Prop}
    (allowed : p.allowed r (.ask q)) (h : ∀ a r', p.step r (.ask q) a r' → post (.ok a) r') :
    Plays p (Coordinator.ask q) post r := fun _ => ⟨allowed, h⟩

theorem remember {path : Path} {post : Except StoreError Unit → R → Prop} (h : post (.ok ()) r) :
    Plays p (Coordinator.remember path) post r := fun _ => h

theorem get {post : Except StoreError (List Path) → R → Prop} (h : ∀ paths, post (.ok paths) r) :
    Plays p MonadState.get post r := fun paths => h paths

theorem demand {c : Prop} [Decidable c] {e : StoreError} {post : Except StoreError Unit → R → Prop}
    (met : c → post (.ok ()) r) (failed : ¬ c → post (.error e) r) :
    Plays p (Coordinator.demand c e) post r := by
  refine .orFail ?_
  by_cases holds : c
  · rw [require_of holds]
    exact met holds
  · rw [require, if_neg holds]
    exact failed holds

theorem attempt {post : Except StoreError (Except StoreError α) → R → Prop}
    (h : Plays p x (fun result r => post (.ok result) r) r) :
    Plays p (Coordinator.attempt x) post r := by
  intro paths
  change Script.Follows p _ (Script.bind (x.run.run paths) _) r
  exact Script.Follows.bind ((h paths).mono fun _ _ holds => holds)

/-- Calls that stay in the role. -/
theorem of_within {P : Call → Prop} (h : Within P x) (allowed : ∀ q, P q → p.allowed r q)
    (stays : ∀ q, P q → ∀ a r', p.step r q a r' → r' = r) (holds : ∀ result, post result r) :
    Plays p x post r := by
  intro paths
  refine (Script.Follows.of_all (h paths) allowed stays).mono ?_
  rintro result _ rfl
  exact holds result.1

theorem finish (h : Plays p x (fun _ _ => True) r) : (finish x).Follows p (fun _ _ => True) r :=
  Script.Follows.bind ((h []).mono fun _ _ _ => trivial)

end Plays

/-! ### The calls of a process -/

/-- A call for the process, or one that only looks. -/
def Own (i : String) (pid : Nat) : Call → Prop
  | .ask _ => True
  | .lock s => s.process = some (i, pid) ∨ s.reads = true

/-- The phase a call moves the entry to. -/
def Call.target : Call → Option CheckpointPhase
  | .lock (.transition _ _ next) => some next
  | _ => none

/-- A call for the process that moves it to one of these phases, if to any. -/
structure Moves (i : String) (pid : Nat) (phases : List CheckpointPhase) (q : Call) : Prop where
  own : Own i pid q
  target : ∀ next ∈ q.target, next ∈ phases

/-- The phases a restore goes through. -/
def restorePhases : List CheckpointPhase := [.restoring, .restartRequired, .ready, .readyCold]

/-- The phases a save goes through. -/
def savePhases : List CheckpointPhase := [.draining, .saving, .stopping]

namespace Coordinator

section Calls

variable {P : Call → Prop} (asks : ∀ q, P (.ask q))
include asks

theorem checkSlots_asks (count : Nat) : Within P (checkSlots count) :=
  .bind (.ask (asks _)) fun _ => .bind (.orFail _) fun _ => .orFail _

theorem restoreSlots_asks (i : String) (pid : Nat) (generation : LoadedGeneration)
    (slots : List CheckpointSlotManifest) : Within P (restoreSlots i pid generation slots) := by
  induction slots with
  | nil => exact .pure ()
  | cons slot slots ih =>
    refine .bind (.ask (asks _)) fun _ => .bind (.orFail _) fun path => ?_
    refine .bind (.remember path) fun _ => ?_
    refine .bind (.ask (asks _)) fun _ => .bind (.orFail _) fun restored => ?_
    refine .bind (.demand _ _) fun _ => ?_
    exact .bind (.ask (asks _)) fun _ => .bind (.orFail _) fun _ => ih

theorem verifyRestored_asks (i : String) (pid : Nat) (slots : List CheckpointSlotManifest) :
    Within P (verifyRestored i pid slots) := by
  induction slots with
  | nil => exact .pure ()
  | cons slot slots ih =>
    refine .bind (.ask (asks _)) fun _ => .bind (.orFail _) fun _ => ?_
    refine .bind (.ask (asks _)) fun _ => .bind (.orFail _) fun path => ?_
    refine .bind (.remember path) fun _ => ?_
    refine .bind (.ask (asks _)) fun _ => .bind (.orFail _) fun verified => ?_
    refine .bind (.demand _ _) fun _ => ?_
    refine .bind (.ask (asks _)) fun _ => .bind (.orFail _) fun sha256 => ?_
    refine .bind (.demand _ _) fun _ => ?_
    exact .bind (.ask (asks _)) fun _ => .bind (.orFail _) fun _ => ih

theorem removeScratch_asks (i : String) (paths : List Path) (cleanup : Except StoreError Unit) :
    Within P (removeScratch i paths cleanup) := by
  induction paths generalizing cleanup with
  | nil => exact .pure cleanup
  | cons path paths ih =>
    refine .bind (.ask (asks _)) fun (removed : Except StoreError Unit) => ?_
    cases removed with
    | ok => exact ih _
    | error e => exact ih _

theorem keepSlot_asks (i : String) (pid minimumPromptTokens : Nat)
    (previous : Option LoadedGeneration) (id : Nat) (path : Path) (saved : SlotSaveResult)
    (digest : String) (acc : SavedSlots) :
    Within P (keepSlot i pid minimumPromptTokens previous id path saved digest acc) := by
  unfold keepSlot
  split
  · refine .bind (.ask (asks _)) fun _ => .bind (.orFail _) fun _ => ?_
    refine .bind (.ask (asks _)) fun _ => .bind (.orFail _) fun retained => ?_
    exact .bind (.remember _) fun _ => .pure _
  · split
    · exact .pure _
    · exact .bind (.ask (asks _)) fun _ => .bind (.orFail _) fun _ => .pure _

theorem saveSlots_asks (i : String) (pid count minimumPromptTokens : Nat)
    (previous : Option LoadedGeneration) (ids : List Nat) (acc : SavedSlots) :
    Within P (saveSlots i pid count minimumPromptTokens previous ids acc) := by
  induction ids generalizing acc with
  | nil => exact .pure acc
  | cons id ids ih =>
    refine .bind (checkSlots_asks asks count) fun _ => ?_
    refine .bind (.ask (asks _)) fun _ => .bind (.orFail _) fun path => ?_
    refine .bind (.remember path) fun _ => ?_
    refine .bind (.ask (asks _)) fun _ => .bind (.orFail _) fun saved => ?_
    refine .bind (.demand _ _) fun _ => ?_
    refine .bind (.ask (asks _)) fun _ => .bind (.orFail _) fun digest => ?_
    exact .bind (keepSlot_asks asks _ _ _ _ _ _ _ _ _) fun acc => ih acc

theorem saveGeneration_asks (i : String) (pid : Nat) (fingerprint : CheckpointFingerprint)
    (config : KvCheckpointConfig) (count : Nat) :
    Within P (saveGeneration i pid fingerprint config count) := by
  have previous_asks : Within P (previousGeneration i fingerprint config) := by
    unfold previousGeneration
    split
    · exact .bind (.ask (asks _)) fun _ => .orFail _
    · exact .pure none
  refine .bind previous_asks fun previous => .bind (.demand _ _) fun _ => ?_
  refine .bind (saveSlots_asks asks _ _ _ _ _ _ _) fun saved => ?_
  refine .bind (checkSlots_asks asks count) fun _ => ?_
  refine .bind (.orFail _) fun _ => .bind (.ask (asks _)) fun fresh => ?_
  refine .bind (.ask (asks _)) fun _ => .bind (.orFail _) fun _ => ?_
  exact .bind (.ask (asks _)) fun _ => .bind (.orFail _) fun _ => .pure _

end Calls

/-! ### The calls of each operation -/

section Operations

variable {i : String} {pid : Nat} {phases : List CheckpointPhase}

theorem asks_move (q : Query) : Moves i pid phases (.ask q) := ⟨trivial, fun _ h => (nomatch h)⟩

theorem currentStatus_moves : Within (Moves i pid phases) (currentStatus i) :=
  .bind (.lock ⟨.inr rfl, fun _ h => (nomatch h)⟩) fun _ => .orFail _

theorem enter_moves {next : CheckpointPhase} (mem : next ∈ phases) :
    Within (Moves i pid phases) (enter i pid next) := by
  refine .bind (.lock ⟨.inl rfl, ?_⟩) fun _ => .orFail _
  rintro _ ⟨⟩
  exact mem

theorem record_moves (update : CheckpointOperationUpdate) :
    Within (Moves i pid phases) (record i pid update) :=
  .bind (.lock ⟨.inl rfl, fun _ h => (nomatch h)⟩) fun _ => .orFail _

theorem gated_moves {x : Fallible CheckpointStatus} (gated : Within (Moves i pid phases) x) :
    Within (Moves i pid phases) (do
      let active : Bool ← lock (.gateActive i)
      if active then x else currentStatus i) := by
  refine .bind (.lock ⟨.inr rfl, fun _ h => (nomatch h)⟩) fun (active : Bool) => ?_
  cases active with
  | true => exact gated
  | false => exact currentStatus_moves

theorem finishReadyCold_moves (cold : .readyCold ∈ phases) (update : CheckpointOperationUpdate) :
    Within (Moves i pid phases) (finishReadyCold i pid update) :=
  .bind (enter_moves cold) fun _ => record_moves _

theorem startCold_moves (cold : .readyCold ∈ phases) (outcome : CheckpointOutcome)
    (reason : ReasonCode) (message : String) :
    Within (Moves i pid phases) (startCold i pid outcome reason message) :=
  .bind (.ask (asks_move _)) fun _ => finishReadyCold_moves cold _

theorem restoreGeneration_moves (restoring : .restoring ∈ phases) (generation : LoadedGeneration) :
    Within (Moves i pid phases) (restoreGeneration i pid generation) := by
  refine .bind (.ask (asks_move _)) fun _ => .bind (.orFail _) fun _ => ?_
  refine .bind (.lock ⟨.inl rfl, fun _ h => (nomatch h)⟩) fun _ => .bind (.orFail _) fun count => ?_
  refine .bind (.demand _ _) fun _ => .bind (checkSlots_asks asks_move count) fun _ => ?_
  refine .bind (enter_moves restoring) fun _ => ?_
  refine .bind (restoreSlots_asks asks_move i pid generation _) fun _ => ?_
  exact .bind (verifyRestored_asks asks_move i pid _) fun _ => checkSlots_asks asks_move count

theorem rejectRestoring_moves (generation : LoadedGeneration) :
    Within (Moves i pid phases) (rejectRestoring i pid generation) := by
  refine .bind (.lock ⟨.inr rfl, fun _ h => (nomatch h)⟩) fun status => ?_
  split
  · exact .bind (.ask (asks_move _)) fun _ => .pure ()
  · exact .pure ()

theorem restoreFailure_moves (error : StoreError) :
    Within (Moves i pid restorePhases) (restoreFailure i pid error) := by
  refine .bind (.lock ⟨.inr rfl, fun _ h => (nomatch h)⟩) fun status => ?_
  refine .bind (.ask (asks_move _)) fun elapsed => ?_
  dsimp only
  split
  · exact .bind (enter_moves (by decide)) fun _ => record_moves _
  · exact finishReadyCold_moves (by decide) _

theorem restoreFound_moves (generation : LoadedGeneration) :
    Within (Moves i pid restorePhases) (restoreFound i pid generation) := by
  refine .bind (.attempt (restoreGeneration_moves (by decide) generation)) fun restored => ?_
  refine .bind .get fun paths => .bind (removeScratch_asks asks_move i paths _) fun cleanup => ?_
  split
  · exact .bind (rejectRestoring_moves generation) fun _ => restoreFailure_moves _
  · refine .bind (enter_moves (by decide)) fun _ => ?_
    exact .bind (.ask (asks_move _)) fun _ => record_moves _

theorem restoreLatest_moves (fingerprint : String) :
    Within (Moves i pid restorePhases) (restoreLatest i pid fingerprint) := by
  refine .bind (.ask (asks_move _)) fun (latest : Except StoreError (Option LoadedGeneration)) => ?_
  split
  · exact restoreFailure_moves _
  · refine .bind (.ask (asks_move _)) fun (mismatch : Except StoreError Bool) => ?_
    split
    · exact restoreFailure_moves _
    · exact startCold_moves (by decide) _ _ _
    · exact startCold_moves (by decide) _ _ _
  · exact restoreFound_moves _

theorem restoreOrCold_moves (fingerprint : CheckpointFingerprint) (autoRestore : Bool) :
    Within (Moves i pid restorePhases) (restoreOrCold i pid fingerprint autoRestore) := by
  refine gated_moves ?_
  unfold restoreGated
  split
  · split
    · exact startCold_moves (by decide) _ _ _
    · exact restoreLatest_moves _
  · refine .bind (.lock ⟨.inr rfl, fun _ h => (nomatch h)⟩) fun (recovering : Bool) => ?_
    cases recovering with
    | true => exact startCold_moves (by decide) _ _ _
    | false => exact startCold_moves (by decide) _ _ _

theorem finishStopping_moves (update : CheckpointOperationUpdate) :
    Within (Moves i pid savePhases) (finishStopping i pid update) :=
  .bind (enter_moves (by decide)) fun _ => record_moves _

theorem endSave_moves (outcome : CheckpointOutcome) (reason : ReasonCode) (message : String)
    (generation : Option CheckpointManifest) :
    Within (Moves i pid savePhases) (endSave i pid outcome reason message generation) :=
  .bind (.ask (asks_move _)) fun _ => finishStopping_moves _

theorem saveIdle_moves (fingerprint : CheckpointFingerprint) (config : KvCheckpointConfig)
    (count : Nat) : Within (Moves i pid savePhases) (saveIdle i pid fingerprint config count) := by
  refine .bind (enter_moves (by decide)) fun _ => ?_
  refine .bind (.attempt (saveGeneration_asks asks_move i pid fingerprint config count))
    fun operation => ?_
  refine .bind .get fun paths => .bind (removeScratch_asks asks_move i paths _) fun cleanup => ?_
  split
  · exact endSave_moves _ _ _ _
  · exact endSave_moves _ _ _ _
  · exact endSave_moves _ _ _ _
  · exact endSave_moves _ _ _ _

theorem saveBeforeStop_moves (fingerprint : CheckpointFingerprint) (config : KvCheckpointConfig) :
    Within (Moves i pid savePhases) (saveBeforeStop i pid fingerprint config) := by
  refine gated_moves ?_
  unfold saveGated
  split
  · split
    · exact endSave_moves _ _ _ _
    · refine .bind (.ask (asks_move _)) fun (slots : Except StoreError (List SlotSnapshot)) => ?_
      split
      · exact endSave_moves _ _ _ _
      · refine .bind (.lock ⟨.inl rfl, fun _ h => (nomatch h)⟩) fun _ => ?_
        refine .bind (.orFail _) fun count => ?_
        split
        · exact endSave_moves _ _ _ _
        · exact saveIdle_moves _ _ _
  · exact endSave_moves _ _ _ _

theorem beginDraining_moves : Within (Moves i pid savePhases) (beginDraining i pid) :=
  gated_moves (enter_moves (by decide))

end Operations

end Coordinator

end LlamaServerManager.Checkpoint
