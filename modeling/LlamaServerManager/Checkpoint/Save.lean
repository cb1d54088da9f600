import LlamaServerManager.Checkpoint.Bench
import LlamaServerManager.Checkpoint.Rejection
import LlamaServerManager.Checkpoint.Trace

/-!
What `save_before_stop` comes to. A save that ends in success kept of every slot the
previous generation's state if that is longer, else the one just saved, unless it is
below the threshold (`longer_slots_preserved`); one that did not get to its commit left
the generations alone.
-/

namespace LlamaServerManager.Checkpoint

open Lib

/-! ### What a save keeps of a slot -/

/-- The slot of the manifest, if there is one. -/
def keptSlot (minimumPromptTokens : Nat) (previous : Option LoadedGeneration)
    (saved : SlotSaveResult) (digest : String) (id : Nat) : Option CheckpointSlotManifest :=
  match Coordinator.longerSlot previous id saved.nSaved with
  | some (_, older) => some older
  | none =>
    if saved.nSaved > 0 ∧ saved.nSaved ≥ minimumPromptTokens then
      some ⟨id, slotFilename id, saved.nSaved, saved.nWritten, digest⟩
    else none

variable {previous : Option LoadedGeneration} {generation : LoadedGeneration}

theorem longerSlot_eq_some {id nSaved : Nat} {older : CheckpointSlotManifest}
    (h : Coordinator.longerSlot previous id nSaved = some (generation, older)) :
    previous = some generation ∧ generation.manifest.slots.find? (·.id == id) = some older ∧
      nSaved < older.promptTokens := by
  obtain ⟨g, rfl, h⟩ := Option.bind_eq_some_iff.mp h
  obtain ⟨slot, found, h⟩ := Option.bind_eq_some_iff.mp h
  split at h
  · next longer =>
      cases h
      exact ⟨rfl, found, longer⟩
  · cases h

theorem keptSlot_id {minimum id : Nat} {saved : SlotSaveResult} {digest : String}
    {slot : CheckpointSlotManifest} (h : keptSlot minimum previous saved digest id = some slot) :
    slot.id = id := by
  unfold keptSlot at h
  split at h
  · next longer =>
      cases h
      obtain ⟨-, found, -⟩ := longerSlot_eq_some longer
      simpa using List.find?_some found
  · split at h
    · cases h
      rfl
    · cases h

/-- The answer to saving the slot. -/
def Event.saved (id : Nat) : Event → Option SlotSaveResult
  | ⟨.saveSlot slot _, a, _⟩ =>
    match (a : Except StoreError SlotSaveResult) with
    | .ok result => if slot = id then some result else none
    | .error _ => none
  | _ => none

/-- The hash of a scratch file of the size. -/
def Event.hashed (bytes : Nat) (digest : String) (event : Event) : Prop :=
  ∃ i path files, event = ⟨.verifyScratchPayload i path bytes, .ok digest, files⟩

/-- No slot was saved. -/
def Unsaved (events : List Event) : Prop := ∀ event ∈ events, ∀ id, event.saved id = none

theorem Unsaved.nil : Unsaved [] := fun _ mem => (nomatch mem)

theorem Unsaved.cons {event : Event} {events : List Event} (one : ∀ id, event.saved id = none)
    (rest : Unsaved events) : Unsaved (event :: events) := by
  rintro event' (_ | ⟨_, mem⟩)
  · exact one
  · exact rest event' mem

theorem Unsaved.append {events events' : List Event} (first : Unsaved events)
    (second : Unsaved events') : Unsaved (events ++ events') := by
  intro event mem
  rcases List.mem_append.mp mem with mem | mem
  · exact first event mem
  · exact second event mem

/-- What became of the slots `ids`: each was saved once, and is kept as `keptSlot` says. -/
structure Saves (minimum : Nat) (previous : Option LoadedGeneration) (ids : List Nat)
    (kept : List CheckpointSlotManifest) (events : List Event) : Prop where
  own : ∀ event ∈ events, ∀ id, (event.saved id).isSome = true → id ∈ ids
  known : ∀ slot ∈ kept, slot.id ∈ ids
  fate : ∀ id ∈ ids, ∃ saved digest,
    (∀ result, (∃ event ∈ events, event.saved id = some result) ↔ result = saved) ∧
    (∃ event ∈ events, event.hashed saved.nWritten digest) ∧
    ∀ slot, slot ∈ kept ∧ slot.id = id ↔ keptSlot minimum previous saved digest id = some slot

theorem Saves.nil (minimum : Nat) (previous : Option LoadedGeneration) :
    Saves minimum previous [] [] [] :=
  ⟨fun _ mem => (nomatch mem), fun _ mem => (nomatch mem), fun _ mem => (nomatch mem)⟩

/-- One more slot: of the events for it, one is its answer and one the hash. -/
theorem Saves.cons {minimum : Nat} {id : Nat} {ids : List Nat} {kept : List CheckpointSlotManifest}
    {block events : List Event} {saved : SlotSaveResult} {digest : String} (fresh : id ∉ ids)
    (own : ∀ event ∈ block, ∀ other result, event.saved other = some result →
      other = id ∧ result = saved) (answer : ∃ event ∈ block, event.saved id = some saved)
    (hashed : ∃ event ∈ block, event.hashed saved.nWritten digest)
    (rest : Saves minimum previous ids kept events) :
    Saves minimum previous (id :: ids)
      ((keptSlot minimum previous saved digest id).toList ++ kept) (block ++ events) := by
  have apart : ∀ other ∈ ids, other ≠ id := fun other mem eq => fresh (eq ▸ mem)
  constructor
  · intro event mem other some
    obtain ⟨result, eq⟩ := Option.isSome_iff_exists.mp some
    rcases List.mem_append.mp mem with mem | mem
    · exact (own event mem other result eq).1 ▸ List.mem_cons_self
    · exact List.mem_cons_of_mem _ (rest.own event mem other some)
  · intro slot mem
    rcases List.mem_append.mp mem with mem | mem
    · rw [keptSlot_id (Option.mem_toList.mp mem)]
      exact List.mem_cons_self
    · exact List.mem_cons_of_mem _ (rest.known slot mem)
  · intro other mem
    rcases List.mem_cons.mp mem with rfl | mem
    · refine ⟨saved, digest, fun result => ⟨?_, ?_⟩, ?_, fun slot => ⟨?_, ?_⟩⟩
      · rintro ⟨event, mem, eq⟩
        rcases List.mem_append.mp mem with mem | mem
        · exact (own event mem other result eq).2
        · exact absurd (rest.own event mem other (Option.isSome_of_eq_some eq)) fresh
      · rintro rfl
        obtain ⟨event, mem, eq⟩ := answer
        exact ⟨event, List.mem_append_left _ mem, eq⟩
      · obtain ⟨event, mem, eq⟩ := hashed
        exact ⟨event, List.mem_append_left _ mem, eq⟩
      · rintro ⟨mem, rfl⟩
        rcases List.mem_append.mp mem with mem | mem
        · exact Option.mem_toList.mp mem
        · exact absurd (rest.known slot mem) fresh
      · intro eq
        exact ⟨List.mem_append_left _ (Option.mem_toList.mpr eq), keptSlot_id eq⟩
    · obtain ⟨saved', digest', answered, ⟨event, at_, eq⟩, keeps⟩ := rest.fate other mem
      refine ⟨saved', digest', fun result => ?_, ⟨event, List.mem_append_right _ at_, eq⟩,
        fun slot => ?_⟩
      · rw [← answered]
        refine ⟨?_, fun ⟨event, at_, eq⟩ => ⟨event, List.mem_append_right _ at_, eq⟩⟩
        rintro ⟨event, at_, eq⟩
        rcases List.mem_append.mp at_ with at_ | at_
        · exact absurd (own event at_ other result eq).1 (apart other mem)
        · exact ⟨event, at_, eq⟩
      · rw [← keeps]
        refine ⟨?_, fun ⟨at_, eq⟩ => ⟨List.mem_append_right _ at_, eq⟩⟩
        rintro ⟨at_, eq⟩
        rcases List.mem_append.mp at_ with at_ | at_
        · exact absurd (eq.symm.trans (keptSlot_id (Option.mem_toList.mp at_))) (apart other mem)
        · exact ⟨at_, eq⟩

/-- Other events do not change what became of the slots. -/
theorem Saves.widen {minimum : Nat} {ids : List Nat} {kept : List CheckpointSlotManifest}
    {first events last : List Event} (h : Saves minimum previous ids kept events)
    (before : Unsaved first) (after : Unsaved last) :
    Saves minimum previous ids kept (first ++ (events ++ last)) := by
  have inner : ∀ event ∈ first ++ (events ++ last), ∀ id result, event.saved id = some result →
      event ∈ events := by
    intro event mem id result some
    rcases List.mem_append.mp mem with mem | mem
    · rw [before event mem id] at some
      cases some
    · rcases List.mem_append.mp mem with mem | mem
      · exact mem
      · rw [after event mem id] at some
        cases some
  have outer : ∀ event ∈ events, event ∈ first ++ (events ++ last) := fun event mem =>
    List.mem_append_right _ (List.mem_append_left _ mem)
  refine ⟨fun event mem id some => ?_, h.known, fun id mem => ?_⟩
  · obtain ⟨result, eq⟩ := Option.isSome_iff_exists.mp some
    exact h.own event (inner event mem id result eq) id some
  · obtain ⟨saved, digest, once, ⟨event, at_, hashed⟩, fate⟩ := h.fate id mem
    refine ⟨saved, digest, fun result => ?_, ⟨event, outer event at_, hashed⟩, fate⟩
    rw [← once]
    constructor
    · exact fun ⟨event, at_, eq⟩ => ⟨event, inner event at_ id result eq, eq⟩
    · exact fun ⟨event, at_, eq⟩ => ⟨event, outer event at_, eq⟩

/-! ### The slots -/

section Slots

variable {around : Surroundings} {site : Site} {pid count : Nat} {phase : CheckpointPhase}

theorem keepSlot_plays (minimum : Nat) (previous : Option LoadedGeneration) (id : Nat)
    (path : Path) (saved : SlotSaveResult) (digest : String) (acc : Coordinator.SavedSlots)
    (here : site.At around.instanceId pid count phase) :
    Plays around.alone
      (Coordinator.keepSlot around.instanceId pid minimum previous id path saved digest acc)
      (fun result site' => ∃ events, site.Scratched around.instanceId site' events ∧
        Unsaved events ∧ ∀ acc', result = .ok acc' →
          acc'.manifests = acc.manifests ++ (keptSlot minimum previous saved digest id).toList)
      site := by
  unfold Coordinator.keepSlot keptSlot
  cases Coordinator.longerSlot previous id saved.nSaved with
  | some found =>
    obtain ⟨generation, older⟩ := found
    refine at_scratch here rfl fun removed _ site₁ _ asked₁ here₁ => .bind (.orFail ?_)
    cases (removed : Except StoreError Unit) with
    | error e => exact ⟨_, asked₁, .cons (fun _ => rfl) .nil, fun _ h => (nomatch h)⟩
    | ok _ =>
    refine at_scratch here₁ rfl fun copied files site₂ _ asked₂ here₂ => .bind (.orFail ?_)
    have none : Unsaved [⟨.copySlotToScratch around.instanceId pid generation older, copied,
      files⟩] := .cons (fun _ => rfl) .nil
    cases (copied : Except StoreError Path) with
    | error e =>
      exact ⟨_, asked₁.trans asked₂, .cons (fun _ => rfl) none, fun _ h => (nomatch h)⟩
    | ok retained =>
      refine .bind (.remember (.pure ⟨_, asked₁.trans asked₂, .cons (fun _ => rfl) none, ?_⟩))
      rintro _ ⟨⟩
      rfl
  | none =>
    dsimp only
    split
    · refine .pure ⟨[], .refl _ site, .nil, ?_⟩
      rintro _ ⟨⟩
      rfl
    · refine at_scratch here rfl fun removed _ site₁ _ asked₁ here₁ => .bind (.orFail ?_)
      cases (removed : Except StoreError Unit) with
      | error e => exact ⟨_, asked₁, .cons (fun _ => rfl) .nil, fun _ h => (nomatch h)⟩
      | ok _ =>
        refine .pure ⟨_, asked₁, .cons (fun _ => rfl) .nil, ?_⟩
        rintro _ ⟨⟩
        exact (List.append_nil _).symm

theorem saveSlots_plays (minimum : Nat) (previous : Option LoadedGeneration) (ids : List Nat)
    (distinct : ids.Nodup) (acc : Coordinator.SavedSlots)
    (here : site.At around.instanceId pid count phase) :
    Plays around.alone
      (Coordinator.saveSlots around.instanceId pid count minimum previous ids acc)
      (fun result site' => ∃ events, site.Scratched around.instanceId site' events ∧
        ∀ acc', result = .ok acc' → ∃ kept, acc'.manifests = acc.manifests ++ kept ∧
          Saves minimum previous ids kept events) site := by
  induction ids generalizing site acc with
  | nil =>
    refine .pure ⟨[], .refl _ site, ?_⟩
    rintro _ ⟨⟩
    exact ⟨[], (List.append_nil _).symm, .nil _ _⟩
  | cons id ids ih =>
    obtain ⟨fresh, distinct⟩ := List.nodup_cons.mp distinct
    refine .bind ((checkSlots_plays here).mono ?_)
    rintro (e | _) site₁ ⟨topology, asked₁, query, -⟩
    · exact ⟨_, asked₁, fun _ h => (nomatch h)⟩
    have unsaved₁ : ∀ id, topology.saved id = none := by
      intro id
      obtain ⟨q, a, files⟩ := topology
      cases query
      rfl
    refine at_scratch (asked₁.at here) rfl fun named f₂ site₂ _ asked₂ here₂ => .bind (.orFail ?_)
    have log₂ := asked₁.trans asked₂
    cases (named : Except StoreError Path) with
    | error e => exact ⟨_, log₂, fun _ h => (nomatch h)⟩
    | ok path =>
    refine .bind (.remember ?_)
    refine at_scratch here₂ trivial fun answer f₃ site₃ _ asked₃ here₃ => .bind (.orFail ?_)
    have log₃ := log₂.trans asked₃
    cases (answer : Except StoreError SlotSaveResult) with
    | error e => exact ⟨_, log₃, fun _ h => (nomatch h)⟩
    | ok saved =>
    refine .bind (.demand ?_ fun _ => ⟨_, log₃, fun _ h => (nomatch h)⟩)
    rintro -
    refine at_scratch here₃ rfl fun hashed f₄ site₄ _ asked₄ here₄ => .bind (.orFail ?_)
    have log₄ := log₃.trans asked₄
    cases (hashed : Except StoreError String) with
    | error e => exact ⟨_, log₄, fun _ h => (nomatch h)⟩
    | ok digest =>
    refine .bind ((keepSlot_plays minimum previous id path saved digest acc here₄).mono ?_)
    rintro (e | acc₅) site₅ ⟨events₅, asked₅, unsaved₅, keeps⟩
    · exact ⟨_, log₄.trans asked₅, fun _ h => (nomatch h)⟩
    refine (ih distinct acc₅ (asked₅.at here₄)).mono ?_
    rintro result site' ⟨events, asked, all⟩
    refine ⟨_, (log₄.trans asked₅).trans asked, fun acc' ok => ?_⟩
    obtain ⟨kept, eq, saves⟩ := all acc' ok
    refine ⟨(keptSlot minimum previous saved digest id).toList ++ kept, ?_,
      saves.cons fresh ?_ ⟨⟨.saveSlot id (Coordinator.fileName path), .ok saved, f₃⟩, ?_, ?_⟩
        ⟨⟨.verifyScratchPayload around.instanceId path saved.nWritten, .ok digest, f₄⟩, ?_,
          _, _, _, rfl⟩⟩
    · rw [eq, keeps acc₅ rfl, List.append_assoc]
    · intro event mem other answered some
      simp only [List.mem_append, List.mem_singleton] at mem
      rcases mem with (((rfl | rfl) | rfl) | rfl) | mem
      · rw [unsaved₁] at some
        cases some
      · cases some
      · obtain ⟨rfl, eq⟩ := Option.ite_none_right_eq_some.mp some
        exact ⟨rfl, (Option.some.inj eq).symm⟩
      · cases some
      · rw [unsaved₅ event mem other] at some
        cases some
    · simp
    · exact if_pos rfl
    · simp

end Slots

/-! ### The generation -/

/-- A slot that was saved, as it was answered and hashed. -/
def Fresh (events : List Event) (slot : CheckpointSlotManifest) : Prop :=
  ∃ event ∈ events, ∃ saved, event.saved slot.id = some saved ∧
    slot.promptTokens = saved.nSaved ∧ slot.bytes = saved.nWritten ∧
    ∃ event ∈ events, event.hashed slot.bytes slot.sha256

/-- Every slot of the generation is in the manifest, as long as it was: the one that was
saved, or the same. -/
def KeepsSlots (generation : LoadedGeneration) (manifest : CheckpointManifest)
    (events : List Event) : Prop :=
  ∀ older ∈ generation.manifest.slots, ∃ slot ∈ manifest.slots, slot.id = older.id ∧
    older.promptTokens ≤ slot.promptTokens ∧ (slot = older ∨ Fresh events slot)

/-- No slot was saved that is as long as it was and below the threshold. -/
def NoneBelow (minimum : Nat) (generation : LoadedGeneration) (events : List Event) : Prop :=
  ∀ older ∈ generation.manifest.slots, ∀ event ∈ events, ∀ saved,
    event.saved older.id = some saved → saved.nSaved < older.promptTokens ∨ minimum ≤ saved.nSaved

/-- The slots of a generation, by their ids. -/
structure Indexed (count : Nat) (generation : LoadedGeneration) : Prop where
  lt : ∀ slot ∈ generation.manifest.slots, slot.id < count
  tokens : ∀ slot ∈ generation.manifest.slots, slot.promptTokens ≠ 0
  find : ∀ slot ∈ generation.manifest.slots,
    generation.manifest.slots.find? (·.id == slot.id) = some slot

theorem Indexed.longer {count nSaved : Nat} (indexed : Indexed count generation)
    {older : CheckpointSlotManifest} (mem : older ∈ generation.manifest.slots) :
    Coordinator.longerSlot (some generation) older.id nSaved =
      if older.promptTokens > nSaved then some (generation, older) else none := by
  simp [Coordinator.longerSlot, indexed.find older mem]

variable {manifest : CheckpointManifest}

/-- **Which slots a save keeps.** -/
theorem Saves.keepsSlots_iff {minimum count : Nat} {kept : List CheckpointSlotManifest}
    {events : List Event} (saves : Saves minimum (some generation) (List.range count) kept events)
    (indexed : Indexed count generation) (slots : manifest.slots = kept) :
    KeepsSlots generation manifest events ↔ NoneBelow minimum generation events := by
  subst slots
  constructor
  · intro keeps older mem event at_ saved answered
    obtain ⟨slot, kept, id, longer, -⟩ := keeps older mem
    obtain ⟨saved', digest, once, -, fate⟩ :=
      saves.fate older.id (List.mem_range.mpr (indexed.lt older mem))
    cases (once saved).mp ⟨event, at_, answered⟩
    have eq := (fate slot).mp ⟨kept, id⟩
    rw [keptSlot, indexed.longer mem] at eq
    split at eq
    · next found =>
        split at found
        · next lt => exact .inl lt
        · cases found
    · split at eq
      · next above => exact .inr above.2
      · cases eq
  · intro below older mem
    obtain ⟨saved, digest, once, hashed, fate⟩ :=
      saves.fate older.id (List.mem_range.mpr (indexed.lt older mem))
    obtain ⟨event, at_, answered⟩ := (once saved).mpr rfl
    by_cases lt : saved.nSaved < older.promptTokens
    · have eq : keptSlot minimum (some generation) saved digest older.id = some older := by
        rw [keptSlot, indexed.longer mem, if_pos lt]
      exact ⟨older, ((fate older).mpr eq).1, rfl, le_rfl, .inl rfl⟩
    · have above := (below older mem event at_ saved answered).resolve_left lt
      have some : saved.nSaved > 0 := Nat.lt_of_lt_of_le
        (Nat.pos_of_ne_zero (indexed.tokens older mem)) (not_lt.mp lt)
      have eq : keptSlot minimum (.some generation) saved digest older.id = .some
          ⟨older.id, slotFilename older.id, saved.nSaved, saved.nWritten, digest⟩ := by
        rw [keptSlot, indexed.longer mem, if_neg lt]
        exact if_pos ⟨some, above⟩
      exact ⟨_, ((fate _).mpr eq).1, rfl, not_lt.mp lt,
        .inr ⟨event, at_, saved, answered, rfl, rfl, hashed⟩⟩

/-- Below the directory of the fingerprint nothing has changed. -/
def Left (i f : String) (before fs : Files) : Prop :=
  ∀ rest, fs ([i, f] ++ rest) = before ([i, f] ++ rest)

variable {i f : String}

theorem Left.unnoted (digest : isLowerHexDigest f = true) (before : Files) (j : String) :
    Unnoted (Left i f before) j where
  dirs d mem s t h made rest := by
    refine (Files.makeDir_other made ?_).trans (h rest)
    simp only [List.mem_cons, List.not_mem_nil, or_false] at mem
    rcases mem with rfl | rfl <;> simp
  change same h rest := (same _ (scratch_apart digest rest)).trans (h rest)
  usage bytes h rest := by
    have ne : f ≠ "usage-v1.json" := isLowerHexDigest_ne digest (by decide)
    refine (Function.update_of_ne ?_ ..).trans (h rest)
    simp [ne]

/-- What only depends on what is below the directory of the fingerprint. -/
theorem unnoted_of_left {P : Files → Prop} (digest : isLowerHexDigest f = true)
    (keeps : ∀ s t, Left i f s t → P s → P t) (j : String) : Unnoted P j where
  dirs d mem s t h made :=
    keeps s t ((Left.unnoted digest s j).dirs d mem s t (fun _ => rfl) made) h
  change same h := keeps _ _ ((Left.unnoted digest _ j).change same fun _ => rfl) h
  usage bytes h := keeps _ _ ((Left.unnoted digest _ j).usage bytes fun _ => rfl) h

theorem Left.treeBelow {s t : Files} (left : Left i f s t) (tree : s.TreeBelow [i, f]) :
    t.TreeBelow [i, f] := by
  rintro _ name ⟨rest, rfl⟩ present
  rw [List.append_assoc, left] at present
  rw [left]
  rw [← List.append_assoc] at present
  exact tree _ name (List.prefix_append ..) present

/-- Below the directory of the fingerprint, every entry stays in a directory. -/
theorem treeBelow_unnoted (digest : isLowerHexDigest f = true) (j : String) :
    Unnoted (Files.TreeBelow [i, f]) j :=
  unnoted_of_left digest (fun _ _ => Left.treeBelow) j

theorem loadGeneration_valid {c : Codec} {i f name : String} {generations : Path}
    {expected : Option String} {fs : Files} {loaded : LoadedGeneration}
    (h : loadGeneration c i f generations name expected fs = .ok loaded) :
    loaded.manifest.Valid c i f := by
  obtain ⟨⟨⟩, -, h⟩ := bind_eq_ok.mp h
  obtain ⟨⟨⟩, -, h⟩ := bind_eq_ok.mp h
  obtain ⟨⟨⟩, -, h⟩ := bind_eq_ok.mp h
  obtain ⟨bytes, -, h⟩ := bind_eq_ok.mp h
  obtain ⟨⟨⟩, -, h⟩ := bind_eq_ok.mp h
  obtain ⟨m, parsed, h⟩ := bind_eq_ok.mp h
  obtain ⟨⟨⟩, -, h⟩ := bind_eq_ok.mp h
  obtain ⟨⟨⟩, -, h⟩ := bind_eq_ok.mp h
  cases h
  obtain ⟨⟨⟩, -, parsed⟩ := bind_eq_ok.mp parsed
  split at parsed
  · cases parsed
  · obtain ⟨⟨⟩, valid, eq⟩ := bind_eq_ok.mp parsed
    cases eq
    exact CheckpointManifest.Valid.of_validate valid

theorem Indexed.of_valid {c : Codec} (valid : generation.manifest.Valid c i f) :
    Indexed generation.manifest.slotCount generation where
  lt slot mem := (valid.slots slot mem).id_lt
  tokens slot mem := (valid.slots slot mem).tokens
  find slot mem := by
    have there : (generation.manifest.slots.find? (·.id == slot.id)).isSome = true :=
      List.find?_isSome.mpr ⟨slot, mem, beq_self_eq_true slot.id⟩
    obtain ⟨other, found⟩ := Option.isSome_iff_exists.mp there
    have same : other.id = slot.id := by simpa using List.find?_some found
    rw [found, List.inj_on_of_nodup_map valid.nodup (List.mem_of_find?_eq_some found) mem same]

/-- A question for a commit. -/
def Query.commits : Query → Bool
  | .commitSlots .. => true
  | _ => false

/-- What a commit of the manifest left: of every slot a file of the length and the SHA-256 that
the manifest has for it. -/
def Stored (c : Codec) (manifest : CheckpointManifest) (committed : Files) : Prop :=
  ∀ slot ∈ manifest.slots, ∃ content,
    committed (finalDir manifest.instanceId manifest.fingerprint.digest manifest.generationId ++
      [slot.filename]) = some (.file content) ∧
    content.length = slot.bytes ∧ c.sha256 content = slot.sha256

theorem commitSlots_stored {env : Setting} {payloads : List Path} {limit : Nat}
    {allowed : (Nat → Fate) → Prop} {before committed : Files} {stored : CommittedGeneration}
    (tree : before.TreeBelow [manifest.instanceId, manifest.fingerprint.digest])
    (ran : (commitSlots env manifest payloads limit).Yields allowed before (.ok stored)
      committed) : Stored env.codec manifest committed := by
  intro slot mem
  cases validated : manifest.validate env.codec manifest.instanceId
      manifest.fingerprint.digest with
  | error e =>
    obtain ⟨fates, n, k, -, eq⟩ := ran
    have stopped : commitSlots env manifest payloads limit fates n before =
        (.raised e, n, before) := by
      unfold commitSlots
      rw [validated]
      rfl
    rw [stopped] at eq
    cases congrArg (·.1) eq
  | ok _ =>
    have valid := CheckpointManifest.Valid.of_validate validated
    obtain ⟨_, _, -, -, published⟩ := Prog.Holds.yields
      (commitSlots_holds env payloads limit valid tree) (Files.Frame.refl _ _ before) ran
    exact published.complete.slots slot mem

/-! ### Saving a generation -/

/-- What a save knows of the generation before it. -/
structure Before (c : Codec) (i f : String) (count : Nat) (loaded : Files)
    (generation : LoadedGeneration) : Prop where
  indexed : Indexed count generation
  verified : Verified c loaded generation

theorem Verified.left {c : Codec} {i f id : String} {s t : Files} (h : Verified c s generation)
    (dir : generation.generationDir = finalDir i f id) (left : Left i f s t) :
    Verified c t generation := by
  intro slot mem
  rw [dir]
  have same := left (["generations", id] ++ [slot.filename])
  have read := h slot mem
  rw [dir] at read
  rwa [show finalDir i f id ++ [slot.filename] =
    [i, f] ++ (["generations", id] ++ [slot.filename]) from rfl, same]

theorem before_of_loaded {c : Codec} {listing : Listing} {ready : Bool} {millis : Nat}
    {fs loaded : Files}
    (h : loadLatest c listing ready millis i f fs = (loaded, .ok (some generation))) :
    Before c i f generation.manifest.slotCount loaded generation := by
  have answer : (loadLatest c listing ready millis i f fs).2 = .ok (some generation) :=
    congrArg Prod.snd h
  have read := loadLatest_read answer
  obtain ⟨digest, name, _, loads⟩ := readLatest_loaded read
  obtain ⟨id, dir, -⟩ := loadLatest_placed answer
  refine ⟨.of_valid (loadGeneration_valid loads), ?_⟩
  have unnoted : Unnoted (Left i f fs) i := Left.unnoted digest fs i
  have prepared := (unnoted.ensureRoot ready).final Prog.calm fun _ => rfl
  have after : Left i f fs (loadLatest c listing ready millis i f fs).1 :=
    unnoted.loadLatest ready f fun _ => rfl
  rw [h] at after
  exact (loadGeneration_verified loads).left dir fun rest => (after rest).trans (prepared rest).symm

/-- What was asked by a save that committed its manifest, from when the store was `start`. -/
inductive SaveCommitted (around : Surroundings) (count minimum : Nat) (f : String)
    (start : Files) (manifest : CheckpointManifest) : List Event → Prop where
  | intro {previous : Option LoadedGeneration} {loaded before committed : Files}
      {kept : List CheckpointSlotManifest} {saves rest : List Event} {topology : Event}
      {fresh : String × String} {payloads : List Path} {limit : Nat} {stored : CommittedGeneration}
      (latest : ∀ generation ∈ previous,
        Before around.codec around.instanceId f count loaded generation)
      (saved : Saves minimum previous (List.range count) kept saves)
      (slots : manifest.slots = kept)
      (store : start.TreeBelow [around.instanceId, f] → Stored around.codec manifest committed)
      (last : ∀ id, topology.saved id = none) (after : Unsaved rest) :
      SaveCommitted around count minimum f start manifest
        (⟨.loadLatest around.instanceId f, .ok previous, loaded⟩ :: (saves ++ topology ::
          ⟨.newGeneration, fresh, before⟩ ::
          ⟨.commitSlots manifest payloads limit, .ok stored, committed⟩ :: rest))

theorem SaveCommitted.append {around : Surroundings} {count minimum : Nat} {f : String}
    {start : Files} {events more : List Event}
    (h : SaveCommitted around count minimum f start manifest events) (unsaved : Unsaved more) :
    SaveCommitted around count minimum f start manifest (events ++ more) := by
  cases h with
  | intro latest saved slots store last after =>
    rw [List.cons_append, List.append_assoc, List.cons_append, List.cons_append,
      List.cons_append]
    exact .intro latest saved slots store last (after.append unsaved)

/-- From an earlier store, if the directory of the fingerprint is still a tree. -/
theorem SaveCommitted.earlier {around : Surroundings} {count minimum : Nat} {f : String}
    {start fs : Files} {events : List Event}
    (h : SaveCommitted around count minimum f fs manifest events)
    (tree : start.TreeBelow [around.instanceId, f] → fs.TreeBelow [around.instanceId, f]) :
    SaveCommitted around count minimum f start manifest events := by
  cases h with
  | intro latest saved slots store last after =>
    exact .intro latest saved slots (fun below => store (tree below)) last after

/-- Where an attempt to save a generation ends. -/
inductive SaveAttempt (around : Surroundings) (count minimum : Nat) (f : String)
    (site site' : Site) : Except StoreError CheckpointManifest → Prop where
  | committed {manifest : CheckpointManifest} {events : List Event}
      (log : site'.log = site.log ++ events)
      (done : SaveCommitted around count minimum f site.files manifest events) :
      SaveAttempt around count minimum f site site' (.ok manifest)
  /-- The generations were left alone. -/
  | quiet {e : StoreError} {events : List Event}
      (unnoted : site.Unnoted around.instanceId site' events) :
      SaveAttempt around count minimum f site site' (.error e)
  | tried {e : StoreError} {events : List Event} (log : site'.log = site.log ++ events)
      (commits : ∃ event ∈ events, event.query.commits = true) :
      SaveAttempt around count minimum f site site' (.error e)

section Generation

variable {around : Surroundings} {site : Site} {pid count : Nat}

theorem saveGeneration_plays (fingerprint : CheckpointFingerprint) (config : KvCheckpointConfig)
    (digest : isLowerHexDigest fingerprint.digest = true)
    (on : config.preserveLonger = true) (here : site.At around.instanceId pid count .saving) :
    Plays around.alone
      (Coordinator.saveGeneration around.instanceId pid fingerprint config count)
      (fun result site' => site'.At around.instanceId pid count .saving ∧
        SaveAttempt around count config.minimumPromptTokens fingerprint.digest site site' result)
      site := by
  unfold Coordinator.saveGeneration Coordinator.previousGeneration
  rw [if_pos on]
  refine .bind (at_asking here fun latest loaded site₁ served eq asked₁ here₁ => .orFail ?_)
  have unnoted₁ : site.Unnoted around.instanceId site₁
      [⟨.loadLatest around.instanceId fingerprint.digest, latest, loaded⟩] := by
    refine ⟨asked₁, fun P unnoted h => ?_⟩
    obtain ⟨ready, millis, ran⟩ := served
    have kept : P (loadLatest around.codec around.listing ready millis around.instanceId
        fingerprint.digest site.files).1 := unnoted.loadLatest ready _ h
    rw [ran] at kept
    rwa [eq]
  cases (latest : Except StoreError (Option LoadedGeneration)) with
  | error e => exact ⟨here₁, .quiet unnoted₁⟩
  | ok previous =>
  refine .bind (.demand ?_ fun _ => ⟨here₁, .quiet unnoted₁⟩)
  intro topology
  have latest : ∀ generation ∈ previous,
      Before around.codec around.instanceId fingerprint.digest count loaded generation := by
    rintro generation rfl
    obtain ⟨ready, millis, ran⟩ := served
    rw [← topology generation rfl]
    exact before_of_loaded ran
  refine .bind ((saveSlots_plays _ previous _ (List.nodup_range) _ here₁).mono ?_)
  rintro (e | saved) site₂ ⟨saves, asked₂, all⟩
  · exact ⟨asked₂.at here₁, .quiet (unnoted₁.trans asked₂.toUnnoted)⟩
  obtain ⟨kept, slots, saves'⟩ := all saved rfl
  have unnoted₂ := unnoted₁.trans asked₂.toUnnoted
  refine .bind ((checkSlots_plays (asked₂.at here₁)).mono ?_)
  rintro (e | _) site₃ ⟨last, asked₃, query, -⟩
  · exact ⟨asked₃.at (asked₂.at here₁), .quiet (unnoted₂.trans asked₃.toUnnoted)⟩
  have here₃ := asked₃.at (asked₂.at here₁)
  have unnoted₃ := unnoted₂.trans asked₃.toUnnoted
  refine .bind (.orFail ?_)
  cases Coordinator.checkUpdated saved with
  | error e => exact ⟨here₃, .quiet unnoted₃⟩
  | ok _ =>
  refine at_asking here₃ fun fresh before site₄ served₄ eq₄ asked₄ here₄ => ?_
  obtain ⟨generationId, createdAt⟩ : String × String := fresh
  refine at_asking here₄ fun answer committed site₅ served₅ eq₅ asked₅ here₅ => .bind (.orFail ?_)
  have log₅ := ((unnoted₃.toAsked.trans asked₄).trans asked₅).log
  cases (answer : Except StoreError CommittedGeneration) with
  | error e => exact ⟨here₅, .tried log₅ ⟨_, List.mem_append_right _ List.mem_cons_self, rfl⟩⟩
  | ok stored =>
  refine at_asking here₅ fun pruned pruneFiles site₆ _ _ asked₆ here₆ => .bind (.orFail ?_)
  have log₆ := (((unnoted₃.toAsked.trans asked₄).trans asked₅).trans asked₆).log
  cases (pruned : Except StoreError Unit) with
  | error e =>
    exact ⟨here₆, .tried log₆ ⟨_, List.mem_append_left _
      (List.mem_append_right _ List.mem_cons_self), rfl⟩⟩
  | ok _ =>
  have store : site.files.TreeBelow [around.instanceId, fingerprint.digest] →
      Stored around.codec (Coordinator.savedManifest around.instanceId fingerprint count
        saved generationId createdAt) committed := by
    intro tree
    have below := unnoted₃.unnoted _ (treeBelow_unnoted digest around.instanceId) tree
    obtain ⟨env, codec, -, ran⟩ := served₅
    rw [eq₄, show before = site₃.files from served₄] at ran
    rw [← codec]
    exact commitSlots_stored below ran
  have unsaved : ∀ id, last.saved id = none := by
    intro id
    obtain ⟨q, a, files⟩ := last
    cases query
    rfl
  have after : Unsaved [⟨.pruneInstance around.instanceId
      (min (config.storageLimitGib * (1024 * 1024 * 1024)) (2 ^ 64 - 1))
      [(fingerprint.digest, generationId)], .ok (), pruneFiles⟩] := .cons (fun _ => rfl) .nil
  simp only [List.append_assoc, List.cons_append, List.nil_append] at log₆
  exact .pure ⟨here₆, .committed log₆ (.intro latest saves' slots store unsaved after)⟩

theorem endSave_plays {phase : CheckpointPhase}
    (legal : legalCheckpointTransition phase .stopping = true) (outcome : CheckpointOutcome)
    (reason : ReasonCode) (message : String) (generation : Option CheckpointManifest)
    (here : site.At around.instanceId pid count phase) :
    Plays around.alone
      (Coordinator.endSave around.instanceId pid outcome reason message generation)
      (fun result site' => (∃ status, result = .ok status ∧ status.lastOutcome = outcome) ∧
        site'.files = site.files ∧ ∃ event, site'.log = site.log ++ [event] ∧
          event.query = .elapsed) site := by
  refine at_asking here fun elapsed files site₁ same eq asked here₁ => ?_
  refine at_enter here₁ legal fun _ entries here₂ => at_record here₂ fun status _ said _ => ?_
  exact ⟨⟨status, rfl, said⟩, eq.trans same, _, asked.log, rfl⟩

end Generation

/-! ### How a save ends -/

/-- How `save_before_stop` ends. -/
inductive SaveOutcome (around : Surroundings) (count minimum : Nat) (f : String)
    (site site' : Site) (result : Except StoreError CheckpointStatus) : Prop where
  | committed {manifest : CheckpointManifest} {first : Event} {events : List Event}
      (log : site'.log = site.log ++ first :: events) (unsaved : ∀ id, first.saved id = none)
      (done : SaveCommitted around count minimum f site.files manifest events)
  /-- The generations were left alone. -/
  | quiet {events : List Event} (log : site'.log = site.log ++ events)
      (unnoted : ∀ P, Unnoted P around.instanceId → P site.files → P site'.files)
      (unsuccessful : ∀ status, result = .ok status → status.lastOutcome ≠ .success)
  | tried {events : List Event} (log : site'.log = site.log ++ events)
      (commits : ∃ event ∈ events, event.query.commits = true)
      (unsuccessful : ∀ status, result = .ok status → status.lastOutcome ≠ .success)

section Outcome

variable {around : Surroundings} {site : Site} {pid count : Nat}

/-- A save that is not a success: it has asked for nothing that is noted, or for a
commit. -/
theorem endSave_unsuccessful {phase : CheckpointPhase} {start : Site} {events : List Event}
    {minimum : Nat} {f : String} (legal : legalCheckpointTransition phase .stopping = true)
    {outcome : CheckpointOutcome} (unsuccessful : outcome ≠ .success) (reason : ReasonCode)
    (message : String) (generation : Option CheckpointManifest)
    (here : site.At around.instanceId pid count phase)
    (log : site.log = start.log ++ events)
    (before : (∀ P, Unnoted P around.instanceId → P start.files → P site.files) ∨
      ∃ event ∈ events, event.query.commits = true) :
    Plays around.alone
      (Coordinator.endSave around.instanceId pid outcome reason message generation)
      (fun result site' => SaveOutcome around count minimum f start site' result) site := by
  refine (endSave_plays legal outcome reason message generation here).mono ?_
  rintro _ site' ⟨⟨status, rfl, said⟩, files, event, log', -⟩
  have log := log'.trans ((congrArg (· ++ [event]) log).trans (List.append_assoc ..))
  have unsuccessful : ∀ other, Except.ok (ε := StoreError) status = .ok other →
      other.lastOutcome ≠ .success := by
    rintro _ ⟨⟩
    exact said ▸ unsuccessful
  rcases before with unnoted | ⟨commit, mem, eq⟩
  · exact .quiet log (fun P keeps h => files ▸ unnoted P keeps h) unsuccessful
  · exact .tried log ⟨commit, List.mem_append_left _ mem, eq⟩ unsuccessful

theorem saved_of_query {event : Event} (h : ∀ id name, event.query ≠ .saveSlot id name) (id : Nat) :
    event.saved id = none := by
  obtain ⟨q, a, files⟩ := event
  cases q with
  | saveSlot slot name => exact absurd rfl (h slot name)
  | _ => rfl

theorem Removes.unsaved {i : String} {events : List Event} (h : Removes i events) :
    Unsaved events := by
  intro event mem
  obtain ⟨path, eq⟩ := h event mem
  exact saved_of_query fun id name same => by rw [eq] at same; cases same

theorem SaveCommitted.commits {minimum : Nat} {f : String} {start : Files}
    {manifest : CheckpointManifest} {events : List Event}
    (h : SaveCommitted around count minimum f start manifest events) :
    ∃ event ∈ events, event.query.commits = true := by
  cases h with
  | intro => exact ⟨_, List.mem_cons_of_mem _ (List.mem_append_right _
      (List.mem_cons_of_mem _ (List.mem_cons_of_mem _ List.mem_cons_self))), rfl⟩

theorem saveIdle_plays {start : Site} {topology : Event} (fingerprint : CheckpointFingerprint)
    (config : KvCheckpointConfig) (digest : isLowerHexDigest fingerprint.digest = true)
    (on : config.preserveLonger = true) (here : site.At around.instanceId pid count .draining)
    (asked : start.Scratched around.instanceId site [topology])
    (query : topology.query = .slots) :
    Plays around.alone (Coordinator.saveIdle around.instanceId pid fingerprint config count)
      (fun result site' => SaveOutcome around count config.minimumPromptTokens fingerprint.digest
        start site' result) site := by
  have first : ∀ id, topology.saved id = none :=
    saved_of_query fun id name same => by rw [query] at same; cases same
  refine at_enter here rfl fun _ entries here₁ => ?_
  refine .bind (.attempt ((saveGeneration_plays fingerprint config digest on here₁).mono ?_))
  rintro operation site₂ ⟨here₂, attempt⟩
  refine .bind (.get fun paths => .bind ((removeScratch_plays paths _ here₂).mono ?_))
  rintro - site₃ ⟨cleanup, removes, rfl, asked₃, removed, -⟩
  have here₃ := asked₃.at here₂
  -- What was asked since `start`.
  have longer : ∀ {events : List Event}, site₂.log = site.log ++ events →
      site₃.log = start.log ++ topology :: (events ++ removes) := by
    intro events log
    rw [asked₃.log, log, asked.log]
    simp
  cases attempt with
  | committed log done =>
    cases cleanup with
    | error e =>
      obtain ⟨event, mem, commits⟩ := done.commits
      exact endSave_unsuccessful rfl (by decide) _ _ _ here₃ (longer log)
        (.inr ⟨event, List.mem_cons_of_mem _ (List.mem_append_left _ mem), commits⟩)
    | ok _ =>
      refine (endSave_plays rfl _ _ _ _ here₃).mono ?_
      rintro _ site' ⟨⟨status, rfl, said⟩, files, event, log', elapsed⟩
      have unsaved : Unsaved [event] :=
        .cons (saved_of_query fun id name same => by rw [elapsed] at same; cases same) .nil
      have tree : start.files.TreeBelow [around.instanceId, fingerprint.digest] →
          site.files.TreeBelow [around.instanceId, fingerprint.digest] :=
        asked.aside _ (treeBelow_unnoted digest around.instanceId).toAside
      refine .committed ?_ first (((done.earlier tree).append removed.unsaved).append unsaved)
      rw [log', longer log]
      simp
  | @quiet e events unnoted =>
    have keeps : ∀ P, Unnoted P around.instanceId → P start.files → P site₃.files :=
      fun P keeps h => asked₃.aside P keeps.toAside
        (unnoted.unnoted P keeps (asked.aside P keeps.toAside h))
    cases cleanup with
    | error e =>
      exact endSave_unsuccessful rfl (by decide) _ _ _ here₃ (longer unnoted.log) (.inl keeps)
    | ok _ =>
      refine endSave_unsuccessful rfl ?_ _ _ _ here₃ (longer unnoted.log) (.inl keeps)
      split <;> decide
  | tried log commits =>
    obtain ⟨event, mem, commits⟩ := commits
    have more : ∃ event ∈ topology :: (_ ++ removes), event.query.commits = true :=
      ⟨event, List.mem_cons_of_mem _ (List.mem_append_left _ mem), commits⟩
    cases cleanup with
    | error e =>
      exact endSave_unsuccessful rfl (by decide) _ _ _ here₃ (longer log) (.inr more)
    | ok _ =>
      refine endSave_unsuccessful rfl ?_ _ _ _ here₃ (longer log) (.inr more)
      split <;> decide

theorem saveBeforeStop_plays (fingerprint : CheckpointFingerprint) (config : KvCheckpointConfig)
    (on : config.preserveLonger = true) (here : site.At around.instanceId pid count .draining) :
    Plays around.alone (Coordinator.saveBeforeStop around.instanceId pid fingerprint config)
      (fun result site' => SaveOutcome around count config.minimumPromptTokens fingerprint.digest
        site site' result) site := by
  refine at_gate here ?_
  rw [if_pos rfl]
  unfold Coordinator.saveGated
  have nothing : site.log = site.log ++ [] := (List.append_nil _).symm
  split
  · cases valid : fingerprint.validate with
    | error e =>
      exact endSave_unsuccessful rfl (by decide) _ _ _ here nothing (.inl fun _ _ h => h)
    | ok _ =>
    have digest : isLowerHexDigest fingerprint.digest = true := (require_eq_ok.mp valid).2.1
    refine at_scratch here trivial fun slots files site₁ _ asked here₁ => ?_
    have keeps : ∀ P, Unnoted P around.instanceId → P site.files → P site₁.files :=
      fun P keeps h => asked.aside P keeps.toAside h
    match (slots : Except StoreError (List SlotSnapshot)) with
    | .error e =>
      exact endSave_unsuccessful rfl (by decide) _ _ _ here₁ asked.log (.inl keeps)
    | .ok slots =>
      refine at_slotCount here₁ (.bind (.orFail ?_))
      dsimp only
      split
      · refine endSave_unsuccessful rfl ?_ _ _ _ here₁ asked.log (.inl keeps)
        split <;> decide
      · exact saveIdle_plays fingerprint config digest on here₁ asked rfl
  · exact endSave_unsuccessful rfl (by decide) _ _ _ here nothing (.inl fun _ _ h => h)

/-- The root is there, and below the directory of the fingerprint nothing has changed. -/
theorem rootLeft_unnoted {i f : String} (digest : isLowerHexDigest f = true) (before : Files)
    (j : String) : Unnoted (fun fs => fs [] = some .dir ∧ Left i f before fs) j where
  dirs d mem _ _ h made :=
    ⟨Files.makeDir_keeps made h.1, (Left.unnoted digest before j).dirs d mem _ _ h.2 made⟩
  change same h := ⟨(same [] (by simp [scratchDir])).trans h.1,
    (Left.unnoted digest before j).change same h.2⟩
  usage bytes h := ⟨(Function.update_of_ne (by simp) ..).trans h.1,
    (Left.unnoted digest before j).usage bytes h.2⟩

theorem readLatest_left {c : Codec} {listing : Listing} {i f : String} {s t : Files}
    {generation : LoadedGeneration} (left : Left i f s t)
    (h : readLatest c listing i f s = .ok (some generation)) :
    readLatest c listing i f t = .ok (some generation) := by
  obtain ⟨digest, _, _, loads⟩ := readLatest_loaded h
  have same : Unchanged i f none s t :=
    { root := .inl (left [])
      generations := .inl (left ["generations"])
      latest := left ["latest.json"]
      named := fun name _ _ rest => left (["generations", name] ++ rest) }
  rw [readLatest_congr (loadGeneration_valid loads).identifier digest same (left [])
    (left ["generations"])]
  exact h

/-- **A save that succeeds keeps the slots of the generation before it, each at least as
long, exactly if none was saved that is as long as it was and below the threshold.** What it
committed is stored: for each slot of the manifest a file of the length and the SHA-256 the
manifest has, be it the state that was just saved and hashed or that of the generation before,
of which the manifest entry is the same. All that is asked of the store is that at the start of
the save every entry of it is in a directory. A save that did not ask for a commit leaves that
generation the latest one. -/
theorem longer_slots_preserved (fingerprint : CheckpointFingerprint) (config : KvCheckpointConfig)
    (on : config.preserveLonger = true) (here : site.At around.instanceId pid count .draining)
    {visited : List Site} {result : Except StoreError CheckpointStatus × List Path} {site' : Site}
    (ran : Script.Runs around.Step
      ((Coordinator.saveBeforeStop around.instanceId pid fingerprint config).run.run [])
      site visited result site') :
    (∀ status, result.1 = .ok status → status.lastOutcome = .success →
      ∃ events previous loaded manifest payloads limit stored committed,
        site'.log = site.log ++ events ∧
        ⟨.loadLatest around.instanceId fingerprint.digest, .ok previous, loaded⟩ ∈ events ∧
        ⟨.commitSlots manifest payloads limit, .ok stored, committed⟩ ∈ events ∧
        (site.files.Tree → Stored around.codec manifest committed) ∧
        ∀ generation ∈ previous, Verified around.codec loaded generation ∧
          (KeepsSlots generation manifest events ↔
            NoneBelow config.minimumPromptTokens generation events)) ∧
    ((∀ status, result.1 = .ok status → status.lastOutcome ≠ .success) →
      (∀ events, site'.log = site.log ++ events → ∀ event ∈ events, event.query.commits = false) →
      site.files [] = some .dir → ∀ listing ready millis ready' millis' generation,
        (loadLatest around.codec listing ready millis around.instanceId fingerprint.digest
          site.files).2 = .ok (some generation) →
        (loadLatest around.codec listing ready' millis' around.instanceId fingerprint.digest
          site'.files).2 = .ok (some generation)) := by
  obtain ⟨-, outcome⟩ := (saveBeforeStop_plays fingerprint config on here []).visited ran
  constructor
  · intro status ok success
    cases outcome with
    | quiet _ _ unsuccessful | tried _ _ unsuccessful =>
      exact absurd success (unsuccessful status ok)
    | @committed manifest first events log unsaved done =>
      cases done with
      | @intro previous loaded before committed kept saves rest topology fresh payloads limit
          stored latest saved slots store last after =>
        have longer := saved.widen
          (.cons unsaved (.cons (fun _ => rfl) .nil) : Unsaved [first,
            ⟨.loadLatest around.instanceId fingerprint.digest, .ok previous, loaded⟩])
          (.cons last (.cons (fun _ => rfl) (.cons (fun _ => rfl) after)) : Unsaved (topology ::
            ⟨.newGeneration, fresh, before⟩ ::
            ⟨.commitSlots manifest payloads limit, .ok stored, committed⟩ :: rest))
        refine ⟨_, previous, loaded, manifest, payloads, limit, stored, committed, log,
          by simp, by simp, fun tree => store (tree.below _), ?_⟩
        rintro generation rfl
        have known := latest generation rfl
        exact ⟨known.verified, longer.keepsSlots_iff known.indexed slots⟩
  · intro unsuccessful silent root listing ready millis ready' millis' generation loaded
    have digest : isLowerHexDigest fingerprint.digest = true := by
      obtain ⟨_, -, digest, -⟩ := loadLatest_placed loaded
      exact digest
    cases outcome with
    | @committed manifest first events log unsaved done =>
      obtain ⟨event, mem, commits⟩ := done.commits
      rw [silent _ log event (List.mem_cons_of_mem _ mem)] at commits
      cases commits
    | tried log commits =>
      obtain ⟨event, mem, commits⟩ := commits
      rw [silent _ log event mem] at commits
      cases commits
    | quiet log unnoted =>
      obtain ⟨root', left⟩ := unnoted _ (rootLeft_unnoted digest site.files around.instanceId)
        ⟨root, fun _ => rfl⟩
      rw [loadLatest_dir _ _ _ _ _ _ root] at loaded
      rw [loadLatest_dir _ _ _ _ _ _ root']
      exact readLatest_left left loaded

end Outcome

/-! A process with two slots, both of them in the generation before, each with one token. -/

def nextId : String := "00000000-0000-4000-8000-000000000002"

def nextTime : String := "1970-01-01T00:00:01+00:00"

def sampleSlot (id promptTokens : Nat) : CheckpointSlotManifest :=
  ⟨id, slotFilename id, promptTokens, 3, samplePayloadSha256⟩

def pairManifest : CheckpointManifest :=
  { sampleManifest with
    schemaVersion := 2
    slots := [sampleSlot 0 1, sampleSlot 1 1]
    slotCount := 2 }

def nextManifest : CheckpointManifest :=
  { pairManifest with generationId := nextId, createdAt := nextTime, slots := [sampleSlot 0 2] }

/-- Lines of text, each in pieces. -/
def textLines (lines : List (List String)) : List UInt8 :=
  ((lines.map fun pieces => pieces.flatMap (·.toByteArray.data.toList)).intersperse [10]).flatten

def slotLines (slot : CheckpointSlotManifest) : List (List String) :=
  [["    \x7b"], ["      \"id\": ", slot.id.repr, ","],
    ["      \"filename\": \"", slot.filename, "\","],
    ["      \"promptTokens\": ", slot.promptTokens.repr, ","],
    ["      \"bytes\": ", slot.bytes.repr, ","], ["      \"sha256\": \"", slot.sha256, "\""]]

/-- What `serde_json` writes for these manifests. -/
def pairBytes (m : CheckpointManifest) : List UInt8 := textLines <|
  [["\x7b"], ["  \"schemaVersion\": 2,"], ["  \"stateFormat\": \"llama.cpp-slot-state\","],
    ["  \"generationId\": \"", m.generationId, "\","], ["  \"instanceId\": \"main\","],
    ["  \"fingerprint\": \x7b"], ["    \"algorithm\": \"sha256\","],
    ["    \"digest\": \"", sampleDigest 'a', "\","],
    ["    \"modelSha256\": \"", sampleDigest 'b', "\","],
    ["    \"engineSha256\": \"", sampleDigest 'e', "\","], ["    \"engineVersion\": \"b1\","],
    ["    \"backend\": \"cpu\""], ["  \x7d,"], ["  \"createdAt\": \"", m.createdAt, "\","],
    ["  \"slots\": ["]] ++ [["    \x7d,"]].intercalate (m.slots.map slotLines) ++
    [["    \x7d"], ["  ],"], ["  \"slotCount\": 2"], ["\x7d"]]

def pairPointer (generationId manifestSha256 time : String) : LatestPointer :=
  { schemaVersion := 1, generationId, manifestSha256, updatedAt := time }

def pointers : List LatestPointer :=
  [pairPointer sampleId "fae69f92214485646f0b38d89db4e98c5425b8b05bf4443bc06cee4fa6c4b335" sampleTime,
    pairPointer nextId "3ad3f95b89a3e8ca0806a468004a83806dfcfbccb5ac50acd4b82faf9a5dfa25" nextTime]

def pointerBytes (pointer : LatestPointer) : List UInt8 := textLines
  [["\x7b"], ["  \"schemaVersion\": 1,"], ["  \"generationId\": \"", pointer.generationId, "\","],
    ["  \"manifestSha256\": \"", pointer.manifestSha256, "\","],
    ["  \"updatedAt\": \"", pointer.updatedAt, "\""], ["\x7d"]]

/-- The usage index once the first generation, or both, were used at the start of time. -/
def usages : List (Dict String Nat × List UInt8) :=
  let key id := usageKey (sampleDigest 'a') id
  [((∅ : Dict String Nat).insert (key sampleId) 0, textLines
      [["\x7b"], ["  \"schemaVersion\": 1,"], ["  \"entries\": \x7b"],
        ["    \"", key sampleId, "\": 0"], ["  \x7d"], ["\x7d"]]),
    (((∅ : Dict String Nat).insert (key sampleId) 0).insert (key nextId) 0, textLines
      [["\x7b"], ["  \"schemaVersion\": 1,"], ["  \"entries\": \x7b"],
        ["    \"", key sampleId, "\": 0,"], ["    \"", key nextId, "\": 0"], ["  \x7d"], ["\x7d"]])]

def pairCodec : Codec where
  digest bytes :=
    if bytes = pairBytes pairManifest then
    [0xfa, 0xe6, 0x9f, 0x92, 0x21, 0x44, 0x85, 0x64, 0x6f, 0x0b, 0x38, 0xd8, 0x9d, 0xb4, 0xe9, 0x8c,
    0x54, 0x25, 0xb8, 0xb0, 0x5b, 0xf4, 0x44, 0x3b, 0xc0, 0x6c, 0xee, 0x4f, 0xa6, 0xc4, 0xb3, 0x35]
    else if bytes = pairBytes nextManifest then
    [0x3a, 0xd3, 0xf9, 0x5b, 0x89, 0xa3, 0xe8, 0xca, 0x08, 0x06, 0xa4, 0x68, 0x00, 0x4a, 0x83, 0x80,
    0x6d, 0xfc, 0xfb, 0xcc, 0xb5, 0xac, 0x50, 0xac, 0xd4, 0xb8, 0x2f, 0xaf, 0x9a, 0x5d, 0xfa, 0x25]
    else sampleCodec.digest bytes
  encodeManifest m := some (pairBytes m)
  decodeManifest bytes := [pairManifest, nextManifest].find? fun m => pairBytes m = bytes
  encodeLatest pointer := some (pointerBytes pointer)
  decodeLatest bytes := pointers.find? fun pointer => pointerBytes pointer = bytes
  encodeUsage usage := (usages.find? (·.1 = usage.entries)).map (·.2)
  decodeUsage bytes := (usages.find? (·.2 = bytes)).map fun (entries, _) => { entries }
  parseTime time := if time = nextTime then some 1000000000 else only sampleTime 0 time

def pairDir : Path := finalDir "main" (sampleDigest 'a') sampleId

def pairStore : Files := Files.ofEntries
  [([], .dir), (["main"], .dir), (["main", "scratch"], .dir),
    (["main", sampleDigest 'a'], .dir), (["main", sampleDigest 'a', "generations"], .dir),
    (["main", sampleDigest 'a', "latest.json"], .file (pointers.head?.elim [] pointerBytes)),
    (pairDir, .dir), (pairDir ++ ["manifest.json"], .file (pairBytes pairManifest)),
    (pairDir ++ ["slot-0.bin"], .file [1, 2, 3]), (pairDir ++ ["slot-1.bin"], .file [1, 2, 3])]

def pairSite : Site :=
  let entry := Coordinator.registeredEntry "main" 7 ⟨true, .none, 2⟩
    (some pairManifest.fingerprint) {} 0
  ⟨(∅ : Entries).insert "main" (Coordinator.moved entry .draining 0), pairStore, []⟩

/-- The first slot has one more token now, the second is as it was. -/
def shorterBench : Bench where
  around :=
    { instanceId := "main"
      codec := pairCodec
      listing := fun path =>
        if path = ["main"] then ["scratch", sampleDigest 'a'] else [sampleId, nextId]
      fates := fun _ => True
      cuts := fun _ => True }
  environment := { quiet with
    answer := fun
      | .slots => .ok [⟨0, false, 1⟩, ⟨1, false, 1⟩]
      | .saveSlot id name => .ok ⟨id, name, if id = 0 then 2 else 1, 3⟩
      | .newGeneration => (nextId, nextTime)
      | q => quiet.answer q }
  saved _ _ := [1, 2, 3]
  uuid := sampleId
  available := 2 ^ 40
  millis := 0
  time := nextTime

theorem shorterBench_fits : shorterBench.Fits := ⟨by decide +kernel, trivial, trivial⟩

def pairConfig : KvCheckpointConfig :=
  { preserveLonger := true, minimumPromptTokens := 2 }

def pairEnds : Option (Except StoreError CheckpointStatus × Site) :=
  shorterBench.ends
    (Coordinator.saveBeforeStop "main" 7 pairManifest.fingerprint pairConfig) pairSite

/-- The generation `load_latest` returns. -/
def pairLatest (fs : Files) : Except StoreError (Option LoadedGeneration) :=
  (loadLatest pairCodec shorterBench.around.listing true 0 "main" (sampleDigest 'a') fs).2

def pairGeneration (m : CheckpointManifest) : LoadedGeneration :=
  let dir := finalDir "main" (sampleDigest 'a') m.generationId
  ⟨m, dir, dir ++ ["slot-0.bin"]⟩

def pairOutcome (ends : Except StoreError CheckpointStatus × Site) : Option CheckpointOutcome :=
  (ends.1.toOption).map (·.lastOutcome)

theorem pairEnds_success : (pairEnds.map fun ends => (pairOutcome ends, pairLatest ends.2.files)) =
    some (some .success, .ok (some (pairGeneration nextManifest))) := by
  decide +kernel

theorem pairLatest_pairStore : pairLatest pairStore = .ok (some (pairGeneration pairManifest)) := by
  decide +kernel

theorem pairEnds_eq : ∃ status site', pairEnds = some (.ok status, site') ∧
    status.lastOutcome = .success ∧
    pairLatest site'.files = .ok (some (pairGeneration nextManifest)) := by
  obtain ⟨⟨result, site'⟩, ends, eq⟩ := Option.map_eq_some_iff.mp pairEnds_success
  obtain ⟨outcome, latest⟩ := Prod.mk.inj eq
  obtain ⟨status, ok, success⟩ := Option.map_eq_some_iff.mp outcome
  cases result with
  | error e => cases ok
  | ok status' =>
    cases ok
    exact ⟨status, site', ends, success, latest⟩

/-- A slot of the generation before is not in the one a successful save leaves. -/
theorem longer_slot_lost : ∃ visited result site' status previous latest,
    Script.Runs shorterBench.around.Step
      ((Coordinator.saveBeforeStop "main" 7 pairManifest.fingerprint pairConfig).run.run [])
      pairSite visited result site' ∧
    result.1 = .ok status ∧ status.lastOutcome = .success ∧
    pairLatest pairSite.files = .ok (some previous) ∧
    pairLatest site'.files = .ok (some latest) ∧
    ∃ older ∈ previous.manifest.slots, ∀ slot ∈ latest.manifest.slots, slot.id ≠ older.id := by
  obtain ⟨status, site', ends, success, latest⟩ := pairEnds_eq
  obtain ⟨visited, result, ran, eq⟩ := Bench.ends_runs shorterBench_fits ends
  exact ⟨visited, result, site', status, pairGeneration pairManifest, pairGeneration nextManifest,
    ran, eq, success, pairLatest_pairStore, latest, by decide +kernel⟩

theorem pairSite_draining : pairSite.At "main" 7 2 .draining :=
  ⟨_, AList.lookup_insert _, rfl, rfl, .moved _ _ _, rfl, rfl⟩

theorem pairStore_tree : pairStore.Tree := Files.tree_ofEntries (by decide +kernel)

/-- The save of the two slots kept those that are long enough, and stored them. -/
theorem longer_slots_preserved_pair : ∃ (site' : Site) (events : List Event), ∃ previous loaded
    manifest payloads limit stored committed, site'.log = pairSite.log ++ events ∧
      ⟨.loadLatest "main" (sampleDigest 'a'), .ok previous, loaded⟩ ∈ events ∧
      ⟨.commitSlots manifest payloads limit, .ok stored, committed⟩ ∈ events ∧
      Stored pairCodec manifest committed ∧
      ∀ generation ∈ previous, Verified pairCodec loaded generation ∧
        (KeepsSlots generation manifest events ↔ NoneBelow 2 generation events) := by
  obtain ⟨status, site', ends, success, -⟩ := pairEnds_eq
  obtain ⟨visited, result, ran, eq⟩ := Bench.ends_runs shorterBench_fits ends
  have preserved :=
    longer_slots_preserved pairManifest.fingerprint pairConfig rfl pairSite_draining ran
  obtain ⟨events, previous, loaded, manifest, payloads, limit, stored, committed, log, latest,
    commit, store, kept⟩ := preserved.1 status eq success
  exact ⟨site', events, previous, loaded, manifest, payloads, limit, stored, committed, log, latest,
    commit, store pairStore_tree, kept⟩

end LlamaServerManager.Checkpoint
