import LlamaServerManager.Checkpoint.Aside

/-!
What an operation asked, when it is the only one: the events it adds, and that its
scratch files are all that it changes (`Site.Scratched`).
-/

namespace LlamaServerManager.Checkpoint

open Lib

/-- A question that changes a slot or rejects a generation. -/
def Query.touches : Query → Bool
  | .restoreSlot .. | .saveSlot .. | .rejectGeneration .. => true
  | _ => false

/-- Events of which none touches a slot. -/
def Untouched (events : List Event) : Prop := ∀ event ∈ events, event.query.touches = false

theorem Untouched.nil : Untouched [] := fun _ mem => (nomatch mem)

theorem Untouched.cons {event : Event} {events : List Event} (one : event.query.touches = false)
    (rest : Untouched events) : Untouched (event :: events) := by
  rintro event' (_ | ⟨_, mem⟩)
  · exact one
  · exact rest event' mem

theorem Untouched.append {events events' : List Event} (first : Untouched events)
    (second : Untouched events') : Untouched (events ++ events') := by
  intro event mem
  rcases List.mem_append.mp mem with mem | mem
  · exact first event mem
  · exact second event mem

/-- A question about no more than the scratch files of the instance. -/
def Query.Scratch (i : String) : Query → Prop
  | .copySlotToScratch j .. | .removeScratchPayload j .. | .ensureScratchCapacity j .. => j = i
  | .newScratchSlotPathFor j .. | .verifyScratchPayload j .. => j = i
  | .loadLatest .. | .hasOtherFingerprintGeneration .. | .rejectGeneration .. => False
  | .commitSlots .. | .pruneInstance .. => False
  | _ => True

section Trace

variable {around : Surroundings} {site : Site} {pid count : Nat} {phase : CheckpointPhase}

/-- From `site`, files may have changed, and these events were added. -/
structure Site.Asked (site site' : Site) (events : List Event) : Prop where
  entries : site'.entries = site.entries
  log : site'.log = site.log ++ events

variable {events : List Event}

theorem Site.Asked.at {site' : Site} (asked : site.Asked site' events)
    (here : site.At around.instanceId pid count phase) :
    site'.At around.instanceId pid count phase := by
  obtain ⟨e, found, rest⟩ := here.entry
  rw [← asked.entries] at found
  exact ⟨e, found, rest⟩

theorem Site.Asked.trans {site₁ site₂ : Site} {events events' : List Event}
    (first : site.Asked site₁ events) (second : site₁.Asked site₂ events') :
    site.Asked site₂ (events ++ events') where
  entries := second.entries.trans first.entries
  log := by rw [second.log, first.log, List.append_assoc]

theorem Site.Asked.refl (site : Site) : site.Asked site [] := ⟨rfl, (List.append_nil _).symm⟩

/-- And nothing that does not depend on scratch files has changed. -/
structure Site.Scratched (i : String) (site site' : Site) (events : List Event) : Prop
    extends site.Asked site' events where
  aside : ∀ P, Aside P i → P site.files → P site'.files

theorem Site.Scratched.trans {i : String} {site₁ site₂ : Site} {events events' : List Event}
    (first : site.Scratched i site₁ events) (second : site₁.Scratched i site₂ events') :
    site.Scratched i site₂ (events ++ events') where
  toAsked := first.toAsked.trans second.toAsked
  aside P aside h := second.aside P aside (first.aside P aside h)

theorem Site.Scratched.refl (i : String) (site : Site) : site.Scratched i site [] :=
  ⟨.refl site, fun _ _ h => h⟩

/-- Nothing that depends neither on scratch files nor on the usage index has changed. -/
structure Site.Unnoted (i : String) (site site' : Site) (events : List Event) : Prop
    extends site.Asked site' events where
  unnoted : ∀ P, Checkpoint.Unnoted P i → P site.files → P site'.files

theorem Site.Unnoted.trans {i : String} {site₁ site₂ : Site} {events events' : List Event}
    (first : site.Unnoted i site₁ events) (second : site₁.Unnoted i site₂ events') :
    site.Unnoted i site₂ (events ++ events') where
  toAsked := first.toAsked.trans second.toAsked
  unnoted P unnoted h := second.unnoted P unnoted (first.unnoted P unnoted h)

theorem Site.Scratched.toUnnoted {i : String} {site' : Site}
    (scratched : site.Scratched i site' events) : site.Unnoted i site' events :=
  ⟨scratched.toAsked, fun P unnoted h => scratched.aside P unnoted.toAside h⟩

theorem serves_aside {q : Query} {a : q.Answer} {s t : Files} {P : Files → Prop}
    (scratch : q.Scratch around.instanceId) (aside : Aside P around.instanceId)
    (served : around.Serves q s a t) (h : P s) : P t := by
  cases q with
  | now | elapsed | newGeneration | health | slots | restoreSlot | slotClient | activeRequests
  | terminate =>
    have same : t = s := served
    rwa [same]
  | loadLatest | hasOtherFingerprintGeneration | rejectGeneration | commitSlots | pruneInstance =>
    exact scratch.elim
  | copySlotToScratch j pid generation slot =>
    obtain rfl : j = around.instanceId := scratch
    obtain ⟨ready, available, cut, uuid, -, ran⟩ := served
    exact (aside.copySlotToScratch _ _ _ _ _ _ _ _).yields h ran
  | removeScratchPayload j path =>
    obtain rfl : j = around.instanceId := scratch
    obtain ⟨ready, ran⟩ := served
    exact (aside.removeScratchPayload _ _).yields h ran
  | ensureScratchCapacity j bytes =>
    obtain rfl : j = around.instanceId := scratch
    obtain ⟨ready, available, ran⟩ := served
    exact (aside.ensureScratchCapacity _ _ _).yields h ran
  | newScratchSlotPathFor j pid slot =>
    obtain rfl : j = around.instanceId := scratch
    obtain ⟨ready, uuid, -, ran⟩ := served
    exact (aside.newScratchSlotPathFor _ _ _ _).yields h ran
  | verifyScratchPayload j path bytes =>
    obtain rfl : j = around.instanceId := scratch
    obtain ⟨ready, ran⟩ := served
    exact (aside.verifyScratchPayload _ _ _ _).yields h ran
  | saveSlot id name => exact aside.change served h

/-- A question, when what matters of the site is its entry and what was asked. -/
theorem at_asking {α : Type} {post : Except StoreError α → Site → Prop} {q : Query}
    {f : q.Answer → Fallible α} (here : site.At around.instanceId pid count phase)
    (rest : ∀ a files site', around.Serves q site.files a files → site'.files = files →
      site.Asked site' [⟨q, a, files⟩] → site'.At around.instanceId pid count phase →
      Plays around.alone (f a) post site') :
    Plays around.alone (Coordinator.ask q >>= f) post site :=
  at_ask here fun a files served => rest a files _ served rfl ⟨rfl, rfl⟩ (here.asked _ _)

/-- A question about scratch files. -/
theorem at_scratch {α : Type} {post : Except StoreError α → Site → Prop} {q : Query}
    {f : q.Answer → Fallible α} (here : site.At around.instanceId pid count phase)
    (scratch : q.Scratch around.instanceId)
    (rest : ∀ a files site', around.Serves q site.files a files →
      site.Scratched around.instanceId site' [⟨q, a, files⟩] →
      site'.At around.instanceId pid count phase → Plays around.alone (f a) post site') :
    Plays around.alone (Coordinator.ask q >>= f) post site := by
  refine at_asking here fun a files site' served eq asked here' => ?_
  refine rest a files site' served ⟨asked, fun P aside h => ?_⟩ here'
  rw [eq]
  exact serves_aside scratch aside served h

/-- The topology is the one of the launch, and no slot is busy. -/
def IdleTopology (count : Nat) (event : Event) : Prop :=
  ∃ slots files, event = ⟨.slots, .ok slots, files⟩ ∧
    Coordinator.validateSlotSet slots count = .ok ()

theorem checkSlots_plays (here : site.At around.instanceId pid count phase) :
    Plays around.alone (Coordinator.checkSlots count)
      (fun result site' => ∃ event, site.Scratched around.instanceId site' [event] ∧
        event.query = .slots ∧ (result = .ok () → IdleTopology count event)) site := by
  refine at_scratch here trivial fun answer files site' _ asked _ => .bind (.orFail ?_)
  cases (answer : Except StoreError (List SlotSnapshot)) with
  | error e => exact ⟨_, asked, rfl, fun h => (nomatch h)⟩
  | ok slots => exact .orFail ⟨_, asked, rfl, fun valid => ⟨slots, files, rfl, valid⟩⟩

/-- Scratch files are removed, and nothing else is asked. -/
def Removes (i : String) (events : List Event) : Prop :=
  ∀ event ∈ events, ∃ path, event.query = .removeScratchPayload i path

theorem Removes.untouched {i : String} (h : Removes i events) : Untouched events := by
  intro event mem
  obtain ⟨path, eq⟩ := h event mem
  rw [eq]
  rfl

theorem Removes.cons {i : String} {event : Event} {path : Path}
    (eq : event.query = .removeScratchPayload i path) (rest : Removes i events) :
    Removes i (event :: events) := by
  rintro event' (_ | ⟨_, mem⟩)
  · exact ⟨path, eq⟩
  · exact rest event' mem

theorem removeScratch_plays (paths : List Path) (cleanup : Except StoreError Unit)
    (here : site.At around.instanceId pid count phase) :
    Plays around.alone (Coordinator.removeScratch around.instanceId paths cleanup)
      (fun result site' => ∃ cleanup' events, result = .ok cleanup' ∧
        site.Scratched around.instanceId site' events ∧ Removes around.instanceId events ∧
        (cleanup' = .ok () →
          cleanup = .ok () ∧ ∀ event ∈ events, event.failed = false)) site := by
  induction paths generalizing site cleanup with
  | nil =>
    exact .pure ⟨_, [], rfl, .refl _ site, fun _ mem => (nomatch mem),
      fun ok => ⟨ok, fun _ mem => (nomatch mem)⟩⟩
  | cons path paths ih =>
    refine at_scratch here rfl fun removed _ site₁ _ asked₁ here₁ => ?_
    cases (removed : Except StoreError Unit) with
    | error e =>
      refine (ih _ here₁).mono ?_
      rintro _ site' ⟨cleanup', events, rfl, asked, removes, ok⟩
      exact ⟨_, _, rfl, asked₁.trans asked, removes.cons rfl,
        fun done => (nomatch (ok done).1)⟩
    | ok _ =>
      refine (ih _ here₁).mono ?_
      rintro _ site' ⟨cleanup', events, rfl, asked, removes, ok⟩
      refine ⟨_, _, rfl, asked₁.trans asked, removes.cons rfl, fun done => ⟨(ok done).1, ?_⟩⟩
      rintro event (_ | ⟨_, mem⟩)
      · rfl
      · exact (ok done).2 event mem

end Trace

end LlamaServerManager.Checkpoint
