import LlamaServerManager.Checkpoint.Bench
import LlamaServerManager.Checkpoint.Rejection
import LlamaServerManager.Checkpoint.Trace

/-!
What `restore_or_cold` comes to (`verified_restore`): a process is ready from a
checkpoint only if every slot was restored, saved again and found to be the same; a
process some slot of which may have been written is not used, and its generation is
rejected; otherwise nothing was touched.
-/

namespace LlamaServerManager.Checkpoint

open Lib

/-! ### Answers that match a manifest -/

/-- The slots were restored, in order, each as its manifest says. -/
inductive Restores (i : String) (pid : Nat) (generation : LoadedGeneration) :
    List CheckpointSlotManifest → List Event → Prop where
  | nil : Restores i pid generation [] []
  | cons {slot : CheckpointSlotManifest} {slots : List CheckpointSlotManifest} {path : Path}
      {copied files removed : Files} {events : List Event}
      (rest : Restores i pid generation slots events) :
      Restores i pid generation (slot :: slots)
        (⟨.copySlotToScratch i pid generation slot, .ok path, copied⟩ ::
          ⟨.restoreSlot slot.id (Coordinator.fileName path),
            .ok ⟨slot.id, Coordinator.fileName path, slot.promptTokens, slot.bytes⟩, files⟩ ::
          ⟨.removeScratchPayload i path, .ok (), removed⟩ :: events)

/-- The slots were saved again, in order, and what was saved is what the manifest says. -/
inductive Verifies (c : Codec) (i : String) (pid : Nat) :
    List CheckpointSlotManifest → List Event → Prop where
  | nil : Verifies c i pid [] []
  | cons {slot : CheckpointSlotManifest} {slots : List CheckpointSlotManifest} {path : Path}
      {room named saved checked removed : Files} {content : List UInt8} {events : List Event}
      (written : checked path = some (.file content)) (bytes : content.length = slot.bytes)
      (sha256 : c.sha256 content = slot.sha256) (rest : Verifies c i pid slots events) :
      Verifies c i pid (slot :: slots)
        (⟨.ensureScratchCapacity i slot.bytes, .ok (), room⟩ ::
          ⟨.newScratchSlotPathFor i pid slot.id, .ok path, named⟩ ::
          ⟨.saveSlot slot.id (Coordinator.fileName path),
            .ok ⟨slot.id, Coordinator.fileName path, slot.promptTokens, slot.bytes⟩, saved⟩ ::
          ⟨.verifyScratchPayload i path slot.bytes, .ok slot.sha256, checked⟩ ::
          ⟨.removeScratchPayload i path, .ok (), removed⟩ :: events)

variable {events : List Event}

theorem Restores.succeeded {i : String} {pid : Nat} {generation : LoadedGeneration}
    {slots : List CheckpointSlotManifest} (h : Restores i pid generation slots events) :
    ∀ event ∈ events, event.failed = false := by
  induction h with
  | nil => exact fun _ mem => (nomatch mem)
  | cons rest ih =>
    rintro event (_ | ⟨_, _ | ⟨_, _ | ⟨_, mem⟩⟩⟩)
    · rfl
    · rfl
    · rfl
    · exact ih event mem

theorem Verifies.succeeded {c : Codec} {i : String} {pid : Nat}
    {slots : List CheckpointSlotManifest} (h : Verifies c i pid slots events) :
    ∀ event ∈ events, event.failed = false := by
  induction h with
  | nil => exact fun _ mem => (nomatch mem)
  | cons _ _ _ rest ih =>
    rintro event (_ | ⟨_, _ | ⟨_, _ | ⟨_, _ | ⟨_, _ | ⟨_, mem⟩⟩⟩⟩⟩)
    · rfl
    · rfl
    · rfl
    · rfl
    · rfl
    · exact ih event mem

/-! ### The store -/

section Store

variable {c : Codec} {i : String} {fs t : Files}

/-- A scratch file that was verified has the size asked for and the hash answered. -/
theorem verifyScratchPayload_yields {allowed : (Nat → Fate) → Prop} {ready : Bool} {path : Path}
    {bytes : Nat} {sha256 : String}
    (ran : (verifyScratchPayload c ready i path bytes).Yields allowed fs (.ok sha256) t) :
    ∃ content, t path = some (.file content) ∧ content.length = bytes ∧ c.sha256 content = sha256 := by
  have stop : ∀ {P : Files → Prop} (s : Files), P s → True := fun _ _ => trivial
  have triple : Prog.Holds (fun _ => True) (verifyScratchPayload c ready i path bytes)
      (fun sha256 s => ∃ content, s path = some (.file content) ∧ content.length = bytes ∧
        c.sha256 content = sha256) (fun _ => True) := by
    have keeps : Keeps (fun _ => True) (scratchDirs i) := fun _ _ _ _ _ _ => trivial
    refine Prog.Holds.bind ((validateScratchPayload_holds ready path stop keeps).post
      fun _ _ _ => trivial) fun _ => ?_
    refine Prog.Holds.bind (Q := fun content s => True ∧ validateRegularFile path s = .ok content)
      (inspect_holds stop) fun content => ?_
    refine Prog.Holds.bind (Prog.Holds.require stop) fun _ => ?_
    refine (inspect_holds stop).post ?_
    rintro sha256 s ⟨⟨⟨-, read⟩, length, -⟩, hashed⟩
    obtain ⟨content', read', eq⟩ := bind_eq_ok.mp hashed
    rw [read] at read'
    cases read'
    cases eq
    exact ⟨content, validateRegularFile_eq_ok read, length, rfl⟩
  exact triple.yields trivial ran

/-- A rejection that is not an error leaves its marker. -/
theorem rejectGeneration_yields {allowed : (Nat → Fate) → Prop} {ready : Bool}
    {generation : LoadedGeneration}
    (ran : (rejectGeneration ready i generation).Yields allowed fs (.ok ()) t) :
    t (generation.generationDir ++ [rejectionMarker]) = some (.file rejectionBytes) := by
  have stop : ∀ {P : Files → Prop} (s : Files), P s → True := fun _ _ => trivial
  have triple : Prog.Holds (fun _ => True) (rejectGeneration ready i generation)
      (fun _ s => s (generation.generationDir ++ [rejectionMarker]) = some (.file rejectionBytes))
      (fun _ => True) := by
    refine Prog.Holds.bind ((ensureGenerationRoots_holds ready stop
      fun _ _ _ _ _ _ => trivial).post fun _ _ _ => trivial) fun roots => ?_
    refine Prog.Holds.bind ((inspect_holds stop).post fun _ _ _ => trivial) fun _ => ?_
    refine Prog.Holds.bind (Q := fun _ _ => True) ?_ fun _ => ?_
    · exact (makeDirs_holds _ _ stop fun _ _ _ _ _ _ => trivial).post fun _ _ _ => trivial
    · refine change_holds ?_ stop stop stop
      intro s t _ done
      rw [Files.replaceFile_eq done]
      exact Function.update_self ..
  exact triple.yields trivial ran

end Store

/-! ### The slots -/

section Slots

variable {around : Surroundings} {site : Site} {pid count : Nat} {phase : CheckpointPhase}

theorem restoreCounts {observedBytes observedTokens savedBytes savedTokens : Nat}
    (h : Coordinator.restoreCountsMatchManifest observedBytes observedTokens savedBytes
      savedTokens = true) : observedBytes = savedBytes ∧ observedTokens = savedTokens := by
  simp only [Coordinator.restoreCountsMatchManifest, Bool.and_eq_true, beq_iff_eq] at h
  exact ⟨h.1.2, h.2⟩

theorem restoreSlots_plays (generation : LoadedGeneration) (slots : List CheckpointSlotManifest)
    (here : site.At around.instanceId pid count phase) :
    Plays around.alone (Coordinator.restoreSlots around.instanceId pid generation slots)
      (fun result site' => ∃ events, site.Asked site' events ∧
        (result = .ok () → Restores around.instanceId pid generation slots events)) site := by
  induction slots generalizing site with
  | nil => exact .pure ⟨[], .refl site, fun _ => .nil⟩
  | cons slot slots ih =>
    refine at_asking here fun copied _ site₁ _ _ asked₁ here₁ => .bind (.orFail ?_)
    cases (copied : Except StoreError Path) with
    | error e => exact ⟨_, asked₁, fun h => (nomatch h)⟩
    | ok path =>
    refine .bind (.remember ?_)
    refine at_asking here₁ fun answer _ site₂ _ _ asked₂ here₂ => .bind (.orFail ?_)
    cases (answer : Except StoreError SlotRestoreResult) with
    | error e => exact ⟨_, asked₁.trans asked₂, fun h => (nomatch h)⟩
    | ok restored =>
    obtain ⟨idSlot, filename, nRestored, nRead⟩ := restored
    refine .bind (.demand ?_ fun _ => ⟨_, asked₁.trans asked₂, fun h => (nomatch h)⟩)
    rintro ⟨rfl, rfl, counts⟩
    obtain ⟨rfl, rfl⟩ := restoreCounts counts
    refine at_asking here₂ fun removed _ site₃ _ _ asked₃ here₃ => .bind (.orFail ?_)
    cases (removed : Except StoreError Unit) with
    | error e => exact ⟨_, asked₁.trans (asked₂.trans asked₃), fun h => (nomatch h)⟩
    | ok _ =>
    refine (ih here₃).mono ?_
    rintro result site' ⟨events, asked, all⟩
    exact ⟨_, asked₁.trans (asked₂.trans (asked₃.trans asked)), fun ok => .cons (all ok)⟩

theorem verifyRestored_plays (slots : List CheckpointSlotManifest)
    (here : site.At around.instanceId pid count phase) :
    Plays around.alone (Coordinator.verifyRestored around.instanceId pid slots)
      (fun result site' => ∃ events, site.Asked site' events ∧
        (result = .ok () → Verifies around.codec around.instanceId pid slots events)) site := by
  induction slots generalizing site with
  | nil => exact .pure ⟨[], .refl site, fun _ => .nil⟩
  | cons slot slots ih =>
    refine at_asking here fun room _ site₁ _ _ asked₁ here₁ => .bind (.orFail ?_)
    cases (room : Except StoreError Unit) with
    | error e => exact ⟨_, asked₁, fun h => (nomatch h)⟩
    | ok _ =>
    refine at_asking here₁ fun named _ site₂ _ _ asked₂ here₂ => .bind (.orFail ?_)
    have log₂ := asked₁.trans asked₂
    cases (named : Except StoreError Path) with
    | error e => exact ⟨_, log₂, fun h => (nomatch h)⟩
    | ok path =>
    refine .bind (.remember ?_)
    refine at_asking here₂ fun answer _ site₃ _ _ asked₃ here₃ => .bind (.orFail ?_)
    have log₃ := log₂.trans asked₃
    cases (answer : Except StoreError SlotSaveResult) with
    | error e => exact ⟨_, log₃, fun h => (nomatch h)⟩
    | ok verified =>
    obtain ⟨idSlot, filename, nSaved, nWritten⟩ := verified
    refine .bind (.demand ?_ fun _ => ⟨_, log₃, fun h => (nomatch h)⟩)
    rintro ⟨rfl, rfl, rfl, rfl⟩
    refine at_asking here₃ fun hashed _ site₄ served _ asked₄ here₄ => .bind (.orFail ?_)
    have log₄ := log₃.trans asked₄
    cases (hashed : Except StoreError String) with
    | error e => exact ⟨_, log₄, fun h => (nomatch h)⟩
    | ok sha256 =>
    obtain ⟨ready, ran⟩ := served
    obtain ⟨content, written, bytes, hash⟩ := verifyScratchPayload_yields ran
    refine .bind (.demand ?_ fun _ => ⟨_, log₄, fun h => (nomatch h)⟩)
    rintro rfl
    refine at_asking here₄ fun removed _ site₅ _ _ asked₅ here₅ => .bind (.orFail ?_)
    have log₅ := log₄.trans asked₅
    cases (removed : Except StoreError Unit) with
    | error e => exact ⟨_, log₅, fun h => (nomatch h)⟩
    | ok _ =>
    refine (ih here₅).mono ?_
    rintro result site' ⟨events, asked, all⟩
    exact ⟨_, log₅.trans asked, fun ok => .cons written bytes hash (all ok)⟩

end Slots

/-! ### The generation -/

/-- What was asked when a generation was restored: the backend is healthy, the slots are
idle, each one is restored, each one is saved again and is the same, and the slots are
idle. -/
structure Restoring (around : Surroundings) (pid count : Nat) (generation : LoadedGeneration)
    (events : List Event) : Prop where
  shape : ∃ healthy first restores verifies last,
    events = ⟨.health, .ok (), healthy⟩ :: first :: (restores ++ (verifies ++ [last])) ∧
    IdleTopology count first ∧
    Restores around.instanceId pid generation generation.manifest.slots restores ∧
    Verifies around.codec around.instanceId pid generation.manifest.slots verifies ∧
    IdleTopology count last
  topology : generation.manifest.slotCount = count

theorem IdleTopology.succeeded {count : Nat} {event : Event} (h : IdleTopology count event) :
    event.failed = false := by
  obtain ⟨slots, files, rfl, -⟩ := h
  rfl

theorem Restoring.succeeded {around : Surroundings} {pid count : Nat}
    {generation : LoadedGeneration} (h : Restoring around pid count generation events) :
    ∀ event ∈ events, event.failed = false := by
  obtain ⟨healthy, first, restores, verifies, last, rfl, idle, all, same, idle'⟩ := h.shape
  intro event mem
  simp only [List.mem_cons, List.mem_append, List.not_mem_nil, or_false] at mem
  rcases mem with rfl | rfl | mem | mem | rfl
  · rfl
  · exact idle.succeeded
  · exact all.succeeded event mem
  · exact same.succeeded event mem
  · exact idle'.succeeded

/-- Where an attempt to restore a generation ends. -/
inductive Attempted (around : Surroundings) (pid count : Nat) (generation : LoadedGeneration)
    (site site' : Site) : Except StoreError Unit → Prop where
  | restored {events : List Event} (here : site'.At around.instanceId pid count .restoring)
      (log : site'.log = site.log ++ events) (all : Restoring around pid count generation events) :
      Attempted around pid count generation site site' (.ok ())
  | untouched {e : StoreError} {events : List Event}
      (here : site'.At around.instanceId pid count .engineHealthy)
      (log : site'.log = site.log ++ events) (untouched : Untouched events) :
      Attempted around pid count generation site site' (.error e)
  | failed {e : StoreError} {events : List Event}
      (here : site'.At around.instanceId pid count .restoring)
      (log : site'.log = site.log ++ events) :
      Attempted around pid count generation site site' (.error e)

/-- The process goes on without a checkpoint, and no slot was touched and no generation
rejected. -/
structure Cold (around : Surroundings) (pid count : Nat) (site site' : Site) : Prop where
  here : site'.At around.instanceId pid count .readyCold
  quiet : ∃ events, site'.log = site.log ++ events ∧ Untouched events

theorem Cold.after {around : Surroundings} {pid count : Nat} {start site site' : Site}
    (cold : Cold around pid count site site') (log : site.log = start.log ++ events)
    (untouched : Untouched events) :
    Cold around pid count start site' := by
  obtain ⟨events', log', untouched'⟩ := cold.quiet
  refine ⟨cold.here, events ++ events', ?_, untouched.append untouched'⟩
  rw [log', log, List.append_assoc]

/-- The generation is not loaded again, whatever the store is used for later, by any
instance. The later uses include removals that are cut short, except one that takes the
marker of the generation and leaves its manifest (`MarkerLast`). -/
def Rejected (around : Surroundings) (generation : LoadedGeneration) (fs : Files) : Prop :=
  ∀ later, around.Later generation.generationDir fs later →
    ∀ listing ready millis i f loaded,
      (loadLatest around.codec listing ready millis i f later).2 = .ok (some loaded) →
        loaded.generationDir ≠ generation.generationDir

/-- How `restore_or_cold` ends. -/
inductive RestoreOutcome (around : Surroundings) (pid count : Nat) (site site' : Site) : Prop where
  /-- Nothing failed, and the slots are the ones of the generation. -/
  | ready {f : String} {generation : LoadedGeneration} {loaded : Files} {events rest : List Event}
      (here : site'.At around.instanceId pid count .ready)
      (log : site'.log = site.log ++
        ⟨.loadLatest around.instanceId f, .ok (some generation), loaded⟩ :: (events ++ rest))
      (restored : Restoring around pid count generation events)
      (succeeded : ∀ event ∈ events ++ rest, event.failed = false)
  /-- The process is not used, and the generation is rejected. -/
  | restartRequired {f : String} {generation : LoadedGeneration} {loaded files : Files}
      {events rest : List Event} {answer : Except StoreError Unit}
      (here : site'.At around.instanceId pid count .restartRequired)
      (log : site'.log = site.log ++
        ⟨.loadLatest around.instanceId f, .ok (some generation), loaded⟩ ::
          (events ++ ⟨.rejectGeneration around.instanceId generation, answer, files⟩ :: rest))
      (rejected : answer = .ok () → Rejected around generation site'.files)
  | readyCold (cold : Cold around pid count site site')

section Operation

variable {around : Surroundings} {site : Site} {pid count : Nat}

theorem restoreGeneration_plays (generation : LoadedGeneration)
    (here : site.At around.instanceId pid count .engineHealthy) :
    Plays around.alone (Coordinator.restoreGeneration around.instanceId pid generation)
      (fun result site' => Attempted around pid count generation site site' result) site := by
  refine at_asking here fun healthy files site₀ _ _ asked₀ here₀ => .bind (.orFail ?_)
  have quiet₀ : Untouched [⟨.health, healthy, files⟩] := .cons rfl .nil
  cases (healthy : Except StoreError Unit) with
  | error e => exact .untouched here₀ asked₀.log quiet₀
  | ok _ =>
  refine at_slotCount here₀ (.bind (.orFail (.bind (.demand ?_ fun _ => ?_))))
  rotate_left
  · exact .untouched here₀ asked₀.log quiet₀
  intro topology
  refine .bind ((checkSlots_plays here₀).mono ?_)
  rintro (e | _) site₁ ⟨event, asked, query, idle⟩
  · have query' : event.query.touches = false := by rw [query]; rfl
    exact .untouched (asked.at here₀) (asked₀.trans asked.toAsked).log (quiet₀.append (.cons query' .nil))
  have log₁ := (asked₀.trans asked.toAsked).log
  refine at_enter (asked.at here₀) rfl fun _ entries here₂ => ?_
  refine .bind ((restoreSlots_plays generation _ here₂).mono ?_)
  rintro result₃ site₃ ⟨restores, asked₃, all₃⟩
  have log₃ := asked₃.log.trans (congrArg (· ++ restores) log₁)
  cases result₃ with
  | error e => exact .failed (asked₃.at here₂) (log₃.trans (List.append_assoc ..))
  | ok _ =>
  refine .bind ((verifyRestored_plays _ (asked₃.at here₂)).mono ?_)
  rintro result₄ site₄ ⟨verifies, asked₄, all₄⟩
  have here₄ := asked₄.at (asked₃.at here₂)
  have log₄ := asked₄.log.trans (congrArg (· ++ verifies) log₃)
  cases result₄ with
  | error e =>
    rw [List.append_assoc, List.append_assoc] at log₄
    exact .failed here₄ log₄
  | ok _ =>
  refine (checkSlots_plays here₄).mono ?_
  rintro result₅ site₅ ⟨last, asked₅, -, idle₅⟩
  have log₅ := asked₅.log.trans (congrArg (· ++ [last]) log₄)
  rw [List.append_assoc, List.append_assoc, List.append_assoc] at log₅
  cases result₅ with
  | error e => exact .failed (asked₅.at here₄) log₅
  | ok _ =>
  exact .restored (asked₅.at here₄) log₅
    ⟨⟨_, event, restores, verifies, last, rfl, idle rfl, all₃ rfl, all₄ rfl, idle₅ rfl⟩, topology⟩

theorem finishReadyCold_plays (update : CheckpointOperationUpdate)
    (here : site.At around.instanceId pid count .engineHealthy) :
    Plays around.alone (Coordinator.finishReadyCold around.instanceId pid update)
      (fun _ site' => Cold around pid count site site') site :=
  at_enter here rfl fun _ _ here' => at_record here' fun _ _ _ here'' =>
    ⟨here'', [], (List.append_nil _).symm, .nil⟩

theorem startCold_plays (outcome : CheckpointOutcome) (reason : ReasonCode) (message : String)
    (here : site.At around.instanceId pid count .engineHealthy) :
    Plays around.alone (Coordinator.startCold around.instanceId pid outcome reason message)
      (fun _ site' => Cold around pid count site site') site :=
  at_asking here fun _ _ _ _ _ asked here' => (finishReadyCold_plays _ here').mono
    fun _ _ cold => cold.after asked.log (.cons rfl .nil)

/-- A failure before anything was restored. -/
theorem restoreFailure_healthy (error : StoreError)
    (here : site.At around.instanceId pid count .engineHealthy) :
    Plays around.alone (Coordinator.restoreFailure around.instanceId pid error)
      (fun _ site' => Cold around pid count site site') site := by
  refine at_status here fun status _ phase => at_asking here fun _ _ _ _ _ asked here' => ?_
  have cold : (some status).any (·.phase == .restoring) = false := by
    simp [phase]
  dsimp only
  rw [cold]
  exact (finishReadyCold_plays _ here').mono fun _ _ cold => cold.after asked.log (.cons rfl .nil)

/-- A failure after some slot may have been restored. -/
theorem restoreFailure_restoring (error : StoreError)
    (here : site.At around.instanceId pid count .restoring) :
    Plays around.alone (Coordinator.restoreFailure around.instanceId pid error)
      (fun _ site' => site'.At around.instanceId pid count .restartRequired ∧
        (∃ events, site'.log = site.log ++ events) ∧ site'.files = site.files) site := by
  refine at_status here fun status _ phase => at_asking here fun _ files _ same eq asked here' => ?_
  have poisoned : (some status).any (·.phase == .restoring) = true := by
    simp [phase]
  dsimp only
  rw [poisoned, if_pos rfl]
  exact at_enter here' rfl fun _ _ here₁ => at_record here₁ fun _ _ _ here₂ =>
    ⟨here₂, ⟨_, asked.log⟩, eq.trans same⟩

/-- A generation that was loaded, and whose marker is in place. -/
theorem rejected_of_marked {listing : Listing} {ready : Bool} {millis : Nat} {f : String} {fs start : Files}
    {generation : LoadedGeneration}
    (found : (loadLatest around.codec listing ready millis around.instanceId f start).2 =
      .ok (some generation))
    (marked : fs (generation.generationDir ++ [rejectionMarker]) ≠ none) :
    Rejected around generation fs := by
  obtain ⟨id, dir, digest, uuid⟩ := loadLatest_placed found
  intro later path listing' ready' millis' i' f' loaded loads eq
  rw [dir] at path marked eq
  have sealed_ : Sealed loaded.generationDir ((ensureRoot ready').final Prog.calm later) := by
    rw [eq]
    exact (ensureRoot_sealed ready').final _ (sealed_later digest uuid (.inl marked) path)
  exact sealed_.not_loaded loads

/-- A restore that failed rejects its generation. -/
theorem rejected_plays {f : String} {generation : LoadedGeneration} {start : Site} {loaded : Files}
    {events : List Event} (error : StoreError)
    (known : ∀ fs, fs (generation.generationDir ++ [rejectionMarker]) ≠ none →
      Rejected around generation fs)
    (here : site.At around.instanceId pid count .restoring)
    (log : site.log = start.log ++
      ⟨.loadLatest around.instanceId f, .ok (some generation), loaded⟩ :: events) :
    Plays around.alone (do
      Coordinator.rejectRestoring around.instanceId pid generation
      Coordinator.restoreFailure around.instanceId pid error)
      (fun _ site' => RestoreOutcome around pid count start site') site := by
  refine .bind (at_status here fun status own phase => ?_)
  have restoring : (some status).any (fun status =>
      status.expectedPid == some pid && status.phase == .restoring) = true := by
    simp [own, phase]
  rw [restoring, if_pos rfl]
  refine at_asking here fun answer files site₁ served eq asked here₁ => .pure ?_
  have marked : ∀ {a : Except StoreError Unit}, a = answer → a = .ok () →
      files (generation.generationDir ++ [rejectionMarker]) ≠ none := by
    rintro _ rfl accepted
    obtain ⟨ready, ran⟩ := served
    rw [accepted] at ran
    rw [rejectGeneration_yields ran]
    exact fun h => (nomatch h)
  refine (restoreFailure_restoring error here₁).mono ?_
  rintro - site' ⟨here', ⟨rest, log'⟩, files'⟩
  have longer : site'.log = start.log ++
      ⟨.loadLatest around.instanceId f, .ok (some generation), loaded⟩ ::
        (events ++ ⟨.rejectGeneration around.instanceId generation, answer, files⟩ :: rest) := by
    rw [log', asked.log, log]
    simp
  refine .restartRequired here' longer fun accepted => known _ ?_
  rw [files', eq]
  exact marked rfl accepted

theorem restoreFound_plays {f : String} {generation : LoadedGeneration} {start : Site}
    {loaded : Files}
    (known : ∀ fs, fs (generation.generationDir ++ [rejectionMarker]) ≠ none →
      Rejected around generation fs)
    (here : site.At around.instanceId pid count .engineHealthy)
    (log : site.log = start.log ++
      [⟨.loadLatest around.instanceId f, .ok (some generation), loaded⟩]) :
    Plays around.alone (Coordinator.restoreFound around.instanceId pid generation)
      (fun _ site' => RestoreOutcome around pid count start site') site := by
  refine .bind (.attempt ((restoreGeneration_plays generation here).mono ?_))
  intro restored site₁ attempted
  refine .bind (.get fun paths => ?_)
  -- The log once the scratch files are removed.
  have cleaned : ∀ {site₂ : Site} {events removes : List Event}, site₁.log = site.log ++ events →
      site₁.Asked site₂ removes → site₂.log = start.log ++
        ⟨.loadLatest around.instanceId f, .ok (some generation), loaded⟩ ::
          (events ++ removes) := by
    intro site₂ events removes log₁ asked
    rw [asked.log, log₁, log]
    simp
  cases attempted with
  | @untouched e events here₁ log₁ untouched =>
    refine .bind ((removeScratch_plays paths _ here₁).mono ?_)
    rintro - site₂ ⟨cleanup, removes, rfl, asked, quiet, -⟩
    refine .bind (at_status (asked.at here₁) fun status _ phase => ?_)
    have healthy : (some status).any (fun status =>
        status.expectedPid == some pid && status.phase == .restoring) = false := by
      simp [phase]
    rw [healthy, if_neg Bool.false_ne_true]
    refine .pure ((restoreFailure_healthy _ (asked.at here₁)).mono fun _ site' cold => ?_)
    exact .readyCold (cold.after (cleaned log₁ asked.toAsked)
      (.cons rfl (untouched.append quiet.untouched)))
  | failed here₁ log₁ =>
    refine .bind ((removeScratch_plays paths _ here₁).mono ?_)
    rintro - site₂ ⟨cleanup, removes, rfl, asked, -⟩
    have log₂ := cleaned log₁ asked.toAsked
    exact rejected_plays _ known (asked.at here₁) log₂
  | restored here₁ log₁ all =>
    refine .bind ((removeScratch_plays paths _ here₁).mono ?_)
    rintro - site₂ ⟨cleanup, removes, rfl, asked, -, removed⟩
    have log₂ := cleaned log₁ asked.toAsked
    cases cleanup with
    | error e => exact rejected_plays _ known (asked.at here₁) log₂
    | ok _ =>
      refine at_enter (asked.at here₁) rfl fun _ entries here₃ => ?_
      refine at_asking here₃ fun elapsed files _ _ _ asked₄ here₄ => ?_
      refine at_record here₄ fun _ _ _ here₅ => ?_
      have log₅ := asked₄.log.trans (congrArg (· ++ [_]) log₂)
      rw [List.append_assoc, List.cons_append, List.append_assoc] at log₅
      refine .ready here₅ log₅ all fun event mem => ?_
      simp only [List.mem_append, List.mem_singleton] at mem
      rcases mem with mem | mem | rfl
      · exact all.succeeded event mem
      · exact (removed rfl).2 event mem
      · rfl

theorem restoreNothing_plays (f : String)
    (here : site.At around.instanceId pid count .engineHealthy) :
    Plays around.alone (Coordinator.restoreNothing around.instanceId pid f)
      (fun _ site' => Cold around pid count site site') site := by
  refine at_asking here fun mismatch _ site₁ _ _ asked here₁ => ?_
  have longer : ∀ site', Cold around pid count site₁ site' → Cold around pid count site site' :=
    fun _ cold => cold.after asked.log (.cons rfl .nil)
  match (mismatch : Except StoreError Bool) with
  | .error e => exact (restoreFailure_healthy e here₁).mono fun _ => longer
  | .ok true => exact (startCold_plays _ _ _ here₁).mono fun _ => longer
  | .ok false => exact (startCold_plays _ _ _ here₁).mono fun _ => longer

theorem restoreLatest_plays (f : String)
    (here : site.At around.instanceId pid count .engineHealthy) :
    Plays around.alone (Coordinator.restoreLatest around.instanceId pid f)
      (fun _ site' => RestoreOutcome around pid count site site') site := by
  refine at_asking here fun latest files site₁ served _ asked here₁ => ?_
  have longer : ∀ site', Cold around pid count site₁ site' →
      RestoreOutcome around pid count site site' :=
    fun _ cold => .readyCold (cold.after asked.log (.cons rfl .nil))
  obtain ⟨ready, millis, eq⟩ := served
  have answer := congrArg Prod.snd eq
  match (latest : Except StoreError (Option LoadedGeneration)) with
  | .error e => exact (restoreFailure_healthy e here₁).mono fun _ => longer
  | .ok none => exact (restoreNothing_plays f here₁).mono fun _ => longer
  | .ok (some generation) =>
    exact restoreFound_plays (fun _ => rejected_of_marked answer) here₁ asked.log

theorem restoreOrCold_plays (fingerprint : CheckpointFingerprint)
    (here : site.At around.instanceId pid count .engineHealthy) :
    Plays around.alone (Coordinator.restoreOrCold around.instanceId pid fingerprint true)
      (fun _ site' => RestoreOutcome around pid count site site') site := by
  refine at_gate here ?_
  unfold Coordinator.restoreGated
  rw [if_pos rfl, if_pos rfl]
  cases fingerprint.validate with
  | error e => exact (startCold_plays _ _ _ here).mono fun _ _ => .readyCold
  | ok _ => exact restoreLatest_plays _ here

/-- **A restore ends ready only if every slot was restored and verified.** Nothing failed
then; a process some slot of which may have been written is not used, and its generation
is not loaded again (under `MarkerLast`, as `Rejected` says: no later removal is cut short
between the marker and the manifest); otherwise no slot was touched. At no call the
instance is routed before it is ready. -/
theorem verified_restore (fingerprint : CheckpointFingerprint)
    (here : site.At around.instanceId pid count .engineHealthy) {visited : List Site}
    {result : Except StoreError CheckpointStatus × List Path} {site' : Site}
    (ran : Script.Runs around.Step
      ((Coordinator.restoreOrCold around.instanceId pid fingerprint true).run.run [])
      site visited result site') :
    (∀ s ∈ visited, RoutedWhenReady around.instanceId s) ∧
      RestoreOutcome around pid count site site' := by
  obtain ⟨allowed, outcome⟩ := (restoreOrCold_plays fingerprint here []).visited ran
  refine ⟨fun s mem => ?_, outcome⟩
  obtain ⟨_, routed⟩ := allowed s mem
  exact routed

end Operation

/-! The one slot of a process is restored from the generation that was committed. -/

def healthyEntry : CoordinatorEntry := Coordinator.moved
  (Coordinator.registeredEntry "main" 7 ⟨true, .none, 1⟩ (some sampleManifest.fingerprint) {} 0)
  .engineHealthy 0

def restorableStore : Files := Files.ofEntries
  [([], .dir), (["main"], .dir), (["main", "scratch"], .dir),
    (["main", sampleDigest 'a'], .dir), (["main", sampleDigest 'a', "generations"], .dir),
    (finalDir "main" (sampleDigest 'a') sampleId, .dir),
    (finalDir "main" (sampleDigest 'a') sampleId ++ ["manifest.json"], .file sampleManifestBytes),
    (finalDir "main" (sampleDigest 'a') sampleId ++ ["slot-0.bin"], .file [1, 2, 3])]

def restorableSite : Site := ⟨(∅ : Entries).insert "main" healthyEntry, restorableStore, []⟩

/-- The backend restores and saves what it is asked to. -/
def faithfulBench : Bench where
  around := ⟨"main", sampleCodec, fun _ => [sampleId], fun _ => True, fun _ => True⟩
  environment := { quiet with
    answer := fun
      | .slots => .ok [⟨0, false, 1⟩]
      | .health => .ok ()
      | .restoreSlot id name => .ok ⟨id, name, 1, 3⟩
      | .saveSlot id name => .ok ⟨id, name, 1, 3⟩
      | q => quiet.answer q }
  saved _ _ := [1, 2, 3]
  uuid := sampleId
  available := 2 ^ 40
  millis := 0
  time := sampleTime

theorem faithfulBench_fits : faithfulBench.Fits := ⟨by decide +kernel, trivial, trivial⟩

def Site.phase (site : Site) (i : String) : Option CheckpointPhase :=
  (site.entries.lookup i).map (·.status.phase)

theorem verified_restore_faithful : ∃ site', site'.phase "main" = some .ready ∧
    RestoreOutcome faithfulBench.around 7 1 restorableSite site' := by
  have here : restorableSite.At "main" 7 1 .engineHealthy :=
    ⟨_, AList.lookup_insert _, rfl, rfl, .moved _ _ _, rfl, rfl⟩
  have ends : ((faithfulBench.leaves
      (Coordinator.restoreOrCold "main" 7 sampleManifest.fingerprint true) restorableSite).bind
        (Site.phase · "main")) = some .ready := by
    decide +kernel
  obtain ⟨site', left, ready⟩ := Option.bind_eq_some_iff.mp ends
  obtain ⟨visited, result, ran⟩ := Bench.leaves_runs faithfulBench_fits left
  exact ⟨site', ready, (verified_restore _ here ran).2⟩

end LlamaServerManager.Checkpoint
