import LlamaServerManager.Checkpoint.Aside

/-!
A rejected generation stays rejected: whatever the store is used for later, its marker
stays or its manifest goes (`sealed_later`), and it is not loaded (`Sealed.not_loaded`).

The order in which `remove_dir_all` deletes the entries of a directory is not specified.
A removal that is cut short after the marker and before the manifest would bring the
generation back; of the removals that are cut short this one is left out (`MarkerLast`).
-/

namespace LlamaServerManager.Checkpoint

open Lib

/-- The generation is marked, or has no manifest. -/
def Sealed (dir : Path) (fs : Files) : Prop :=
  fs (dir ++ [rejectionMarker]) ≠ none ∨ fs (dir ++ ["manifest.json"]) = none

/-- A removal that is cut short does not take the marker of a generation and leave its
manifest: what it keeps of a directory has the marker whenever it has the manifest. -/
def MarkerLast (kept : Path → Bool) : Prop :=
  ∀ dir, kept (dir ++ ["manifest.json"]) = true → kept (dir ++ [rejectionMarker]) = true

/-! ### Loading -/

section Loading

variable {c : Codec} {i f : String} {fs : Files}

variable {loaded : LoadedGeneration}

theorem Sealed.not_loadGeneration {generations : Path} {name : String} {expected : Option String}
    (h : Sealed loaded.generationDir fs) :
    loadGeneration c i f generations name expected fs ≠ .ok loaded := by
  intro ok
  obtain ⟨⟨⟩, -, ok⟩ := bind_eq_ok.mp ok
  obtain ⟨⟨⟩, -, ok⟩ := bind_eq_ok.mp ok
  obtain ⟨⟨⟩, accepted, ok⟩ := bind_eq_ok.mp ok
  obtain ⟨bytes, read, ok⟩ := bind_eq_ok.mp ok
  obtain ⟨⟨⟩, -, ok⟩ := bind_eq_ok.mp ok
  obtain ⟨m, -, ok⟩ := bind_eq_ok.mp ok
  obtain ⟨⟨⟩, -, ok⟩ := bind_eq_ok.mp ok
  obtain ⟨⟨⟩, -, ok⟩ := bind_eq_ok.mp ok
  cases ok
  rcases h with marked | empty
  · exact marked (require_eq_ok.mp accepted)
  · obtain ⟨content, regular, -⟩ := bind_eq_ok.mp read
    have there := validateRegularFile_eq_ok regular
    rw [empty] at there
    cases there

/-- What loads was read from the prepared root. -/
theorem loadLatest_read {listing : Listing} {ready : Bool} {millis : Nat}
    (h : (loadLatest c listing ready millis i f fs).2 = .ok (some loaded)) :
    readLatest c listing i f ((ensureRoot ready).final Prog.calm fs) = .ok (some loaded) := by
  unfold loadLatest at h
  split at h
  · cases h
  · dsimp only at h
    split at h
    · next found => exact found.trans (found.symm.trans h)
    · exact h

/-- What is sealed is not loaded. -/
theorem Sealed.not_loaded {listing : Listing} {ready : Bool} {millis : Nat}
    (h : Sealed loaded.generationDir ((ensureRoot ready).final Prog.calm fs)) :
    (loadLatest c listing ready millis i f fs).2 ≠ .ok (some loaded) := by
  intro ok
  obtain ⟨-, _, _, loads⟩ := readLatest_loaded (loadLatest_read ok)
  exact h.not_loadGeneration loads

theorem loadGeneration_dir {generations : Path} {name : String} {expected : Option String}
    (h : loadGeneration c i f generations name expected fs = .ok loaded) :
    loaded.generationDir = generations ++ [name] ∧ validateUuid name = true := by
  obtain ⟨⟨⟩, uuid, h⟩ := bind_eq_ok.mp h
  obtain ⟨⟨⟩, -, h⟩ := bind_eq_ok.mp h
  obtain ⟨⟨⟩, -, h⟩ := bind_eq_ok.mp h
  obtain ⟨bytes, -, h⟩ := bind_eq_ok.mp h
  obtain ⟨⟨⟩, -, h⟩ := bind_eq_ok.mp h
  obtain ⟨m, -, h⟩ := bind_eq_ok.mp h
  obtain ⟨⟨⟩, -, h⟩ := bind_eq_ok.mp h
  obtain ⟨⟨⟩, -, h⟩ := bind_eq_ok.mp h
  cases h
  exact ⟨rfl, require_eq_ok.mp uuid⟩

/-- Where a generation that loads is. -/
theorem loadLatest_placed {listing : Listing} {ready : Bool} {millis : Nat}
    (h : (loadLatest c listing ready millis i f fs).2 = .ok (some loaded)) :
    ∃ id, loaded.generationDir = finalDir i f id ∧ isLowerHexDigest f = true ∧
      validateUuid id = true := by
  obtain ⟨digest, name, _, loads⟩ := readLatest_loaded (loadLatest_read h)
  obtain ⟨dir, uuid⟩ := loadGeneration_dir loads
  exact ⟨name, dir, digest, uuid⟩

end Loading

/-! ### What keeps a generation sealed -/

section Steps

variable {i f id : String} {fs t : Files} {p : Path}

theorem Sealed.of_same (same : ∀ rest, t (finalDir i f id ++ rest) = fs (finalDir i f id ++ rest))
    (h : Sealed (finalDir i f id) fs) : Sealed (finalDir i f id) t := by
  unfold Sealed
  rw [same, same]
  exact h

/-- Any other entry may be written. -/
theorem Sealed.write {node : Node} (ne : p ≠ finalDir i f id ++ ["manifest.json"])
    (h : Sealed (finalDir i f id) fs) :
    Sealed (finalDir i f id) (Function.update fs p (some node)) := by
  rcases h with marked | empty
  · left
    by_cases eq : finalDir i f id ++ [rejectionMarker] = p
    · rw [eq, Function.update_self]
      exact fun h => (nomatch h)
    · rwa [Function.update_of_ne eq]
  · right
    rwa [Function.update_of_ne ne.symm]

theorem Sealed.clear (ne : p ≠ finalDir i f id ++ [rejectionMarker])
    (h : Sealed (finalDir i f id) fs) : Sealed (finalDir i f id) (Function.update fs p none) := by
  rcases h with marked | empty
  · left
    rwa [Function.update_of_ne ne.symm]
  · right
    by_cases eq : finalDir i f id ++ ["manifest.json"] = p
    · rw [eq, Function.update_self]
    · rwa [Function.update_of_ne eq]

/-- A directory above the entries of a generation. -/
theorem short_ne {q : Path} {name : String} (short : q.length ≤ 4) :
    q ≠ finalDir i f id ++ [name] := by
  rintro rfl
  simp [finalDir] at short

theorem Sealed.makeDir (short : p.length ≤ 4) (h : Sealed (finalDir i f id) fs)
    (made : fs.makeDir p = some t) : Sealed (finalDir i f id) t := by
  rcases Files.makeDir_eq made with ⟨rfl, -⟩ | ⟨-, rfl⟩
  · exact h
  · exact h.write (short_ne short)

theorem below_short {q : Path} {name name' : String} (short : q.length ≤ 4)
    (below : q <+: finalDir i f id ++ [name]) : q <+: finalDir i f id ++ [name'] := by
  have inside : q <+: finalDir i f id := by
    refine List.prefix_of_prefix_length_le below (List.prefix_append _ _) ?_
    simpa [finalDir] using short
  exact inside.trans (List.prefix_append _ _)

theorem Sealed.remove {kept : Path → Bool} (last : MarkerLast kept) (short : p.length ≤ 4)
    (h : Sealed (finalDir i f id) fs) : Sealed (finalDir i f id) (fs.removeExcept p kept) := by
  unfold Sealed Files.removeExcept
  by_cases removed : p <+: finalDir i f id ++ ["manifest.json"] ∧
      kept (finalDir i f id ++ ["manifest.json"]) = false
  · right
    rw [if_pos removed]
  · rcases h with marked | empty
    · left
      rwa [if_neg]
      rintro ⟨below, gone⟩
      have keeps : kept (finalDir i f id ++ ["manifest.json"]) = true := by
        by_contra lost
        exact removed ⟨below_short short below, Bool.eq_false_iff.mpr lost⟩
      rw [last _ keeps] at gone
      cases gone
    · right
      rwa [if_neg removed]

end Steps

/-! ### The parts of the store -/

section Parts

variable {i f id : String}

theorem seal_keeps {dirs : List Path} (short : ∀ d ∈ dirs, d.length ≤ 4) :
    Keeps (Sealed (finalDir i f id)) dirs :=
  fun d mem _ _ h made => h.makeDir (short d mem) made

theorem own_short (j g : String) : ∀ d ∈ scratchDir j :: ownDirs j g, d.length ≤ 4 := by
  simp [scratchDir, ownDirs]

theorem makeDirs_sealed (message : String) (dirs : List Path)
    (short : ∀ d ∈ dirs, d.length ≤ 4) :
    Prog.Stable (Sealed (finalDir i f id)) (makeDirs message dirs) :=
  (makeDirs_holds message dirs (fun _ h => h) (seal_keeps short)).post fun _ _ h => h.1

theorem ensureRoot_sealed (ready : Bool) :
    Prog.Stable (Sealed (finalDir i f id)) (ensureRoot ready) :=
  ensureRoot_holds ready (fun _ h => h) (seal_keeps (by simp))

theorem ensureGenerationRoots_sealed (ready : Bool) (j g : String) :
    Prog.Holds (Sealed (finalDir i f id)) (ensureGenerationRoots ready j g)
      (fun roots s => Sealed (finalDir i f id) s ∧ roots = ([j, g], [j, g, "generations"]))
      (Sealed (finalDir i f id)) :=
  (ensureGenerationRoots_holds ready (fun _ h => h) (seal_keeps (own_short j g))).post
    fun _ _ h => ⟨h.1.1, h.2⟩

/-- A file outside of the directories of generations, or in one but not its manifest. -/
theorem atomicWrite_sealed {p : Path} (bytes : List UInt8) (message : String)
    (short : p.length ≤ 5) (ne : p ≠ finalDir i f id ++ ["manifest.json"]) :
    Prog.Stable (Sealed (finalDir i f id)) (atomicWrite p bytes message) := by
  refine .bind (makeDirs_sealed message _ fun d mem => ?_) fun _ => ?_
  · have le := ((List.mem_inits d p.dropLast).mp mem).length_le
    rw [List.length_dropLast] at le
    omega
  · refine change_holds ?_ (fun _ h => h) (fun _ h => h) (fun _ h => h)
    intro s t h done
    rw [Files.replaceFile_eq done]
    exact h.write ne

theorem safeRemoveDirectory_sealed {kept : Path → Bool} (last : MarkerLast kept) {p : Path}
    (root : Path) (short : p.length ≤ 4) :
    Prog.Stable (Sealed (finalDir i f id)) (safeRemoveDirectory p root kept) := by
  refine .bind (inspect_stable _) fun _ => ?_
  refine change_holds ?_ (fun _ h => h) (fun _ h => h) fun _ h => h.remove last short
  rintro s t h ⟨⟩
  exact h.remove (fun _ lost => (nomatch lost)) short

theorem writeUsage_short {j : String} {path : Path} (known : usagePath j = .ok path) :
    path.length ≤ 4 := by
  obtain ⟨root, inner, eq⟩ := bind_eq_ok.mp known
  obtain ⟨⟨⟩, -, same⟩ := bind_eq_ok.mp inner
  cases same
  cases eq
  simp

end Parts

/-! ### Scratch files and markers -/

section Scratch

variable {i f id : String}

theorem Sealed.unnoted (digest : isLowerHexDigest f = true) (j : String) :
    Unnoted (Sealed (finalDir i f id)) j where
  dirs := seal_keeps (by simp)
  change same h := h.of_same fun rest => same _ (scratch_apart digest (["generations", id] ++ rest))
  usage _ h := h.write (short_ne (by simp))

theorem rejectGeneration_sealed (ready : Bool) (j : String) {generation : LoadedGeneration}
    (short : generation.generationDir.length = 4) :
    Prog.Stable (Sealed (finalDir i f id)) (rejectGeneration ready j generation) := by
  refine .bind_of (ensureGenerationRoots_sealed ready j _) ?_
  rintro _ rfl
  refine .bind (inspect_stable _) fun _ => atomicWrite_sealed _ _ ?_ ?_
  · rw [List.length_append, short]
    rfl
  · intro eq
    have last := congrArg List.getLast? eq
    simp [rejectionMarker] at last

theorem clearStore_sealed (ready : Bool) {kept : Path → Bool} (last : MarkerLast kept)
    (j : String) : Prog.Stable (Sealed (finalDir i f id)) (clearStore ready kept j) := by
  refine .bind (ensureRoot_sealed ready) fun _ => ?_
  refine .bind_of (.lift fun _ h => h) fun root known => ?_
  obtain ⟨⟨⟩, -, eq⟩ := bind_eq_ok.mp known
  cases eq
  refine .bind (.look _) fun there => ?_
  split
  · refine .bind (inspect_stable _) fun _ => ?_
    refine .bind (safeRemoveDirectory_sealed last _ (by simp)) fun _ => ?_
    exact .bind (touch_stable _) fun _ => .pure _
  · exact .pure _

end Scratch

/-! ### Commits -/

section Commits

variable {i f id : String}

/-- A commit of another generation. -/
theorem commitSlots_sealed (digest : isLowerHexDigest f = true) (uuid : validateUuid id = true)
    (env : Setting) (m : CheckpointManifest) (payloads : List Path) (limit : Nat) {fs t : Files}
    {result : Except StoreError CommittedGeneration} {allowed : (Nat → Fate) → Prop}
    (tree : fs.Tree)
    (other : finalDir m.instanceId m.fingerprint.digest m.generationId ≠ finalDir i f id)
    (h : Sealed (finalDir i f id) fs)
    (ran : (commitSlots env m payloads limit).Yields allowed fs result t) :
    Sealed (finalDir i f id) t := by
  cases validated : m.validate env.codec m.instanceId m.fingerprint.digest with
  | error e =>
    obtain ⟨fates, n, k, -, eq⟩ := ran
    have stopped : commitSlots env m payloads limit fates n fs = (.raised e, n, fs) := by
      unfold commitSlots
      rw [validated]
      rfl
    rw [stopped] at eq
    cases congrArg (·.2.2) eq
    exact h
  | ok _ =>
    have valid := CheckpointManifest.Valid.of_validate validated
    have after := Prog.Holds.yields (commitSlots_holds env payloads limit valid (tree.below _))
      (Files.Frame.refl _ _ fs) ran
    have frame : Files.Frame (ownDirs m.instanceId m.fingerprint.digest)
        (publishedTrees m.instanceId m.fingerprint.digest m.generationId) fs t := by
      cases result with
      | ok _ =>
        obtain ⟨_, _, -, -, published⟩ := after
        exact published.frame
      | error _ => exact after.frame
    refine h.of_same fun rest => ?_
    by_cases same : (i, f) = (m.instanceId, m.fingerprint.digest)
    · cases same
      refine other_generations valid.digest frame uuid ?_ rest
      rintro rfl
      exact other rfl
    · exact other_fingerprints frame digest same (["generations", id] ++ rest)

end Commits

/-! ### Pruning -/

section Pruning

variable {i f id : String} {env : PruneSetting}

variable {generations : Path}

theorem removePendings_sealed (last : MarkerLast env.kept) (three : generations.length = 3)
    (names : List String) :
    Prog.Stable (Sealed (finalDir i f id)) (removePendings env generations names) := by
  have four : ∀ name, (generations ++ [name]).length ≤ 4 := fun name => by simp [three]
  induction names with
  | nil => exact .pure ()
  | cons name names ih =>
    unfold removePendings
    split
    · exact .bind (.attempt (safeRemoveDirectory_sealed last _ (four name))) fun _ => ih
    · exact ih

theorem cleanupPending_sealed (last : MarkerLast env.kept) (j g : String) :
    Prog.Stable (Sealed (finalDir i f id)) (cleanupPending env j g) := by
  refine .bind_of (ensureGenerationRoots_sealed env.ready j g) ?_
  rintro _ rfl
  exact .bind (.read _ _) fun names => removePendings_sealed last rfl names

/-- What was scanned is in the directories of generations. -/
def PruneScan.Placed (scan : PruneScan) : Prop := ∀ g ∈ scan.generations, g.dir.length = 4

variable {scan : PruneScan}

theorem scanGeneration_sealed (last : MarkerLast env.kept) (usage : UsageFile) (j g : String)
    (three : generations.length = 3) (name : String) (placed : scan.Placed) :
    Prog.Holds (Sealed (finalDir i f id))
      (scanGeneration env usage j g generations name scan)
      (fun scan s => Sealed (finalDir i f id) s ∧ scan.Placed) (Sealed (finalDir i f id)) := by
  have four : ∀ name, (generations ++ [name]).length = 4 := fun name => by simp [three]
  refine Prog.Holds.bind (Prog.Holds.attempt (inspect_holds fun _ h => h)) fun loaded => ?_
  cases loaded with
  | ok loaded =>
    refine Prog.Holds.bind (Q := fun found s =>
      Sealed (finalDir i f id) s ∧ found.dir.length = 4) ?_ fun found => .assume fun short => ?_
    · refine (Prog.Holds.look fun _ h => h.1).post ?_
      rintro found s ⟨⟨h, ok⟩, rfl⟩
      refine ⟨h, ?_⟩
      change loaded.generationDir.length = 4
      rw [(loadGeneration_dir ok).1]
      exact four name
    · refine .pure fun s h => ⟨h, fun g mem => ?_⟩
      rcases List.mem_append.mp mem with mem | mem
      · exact placed g mem
      · cases List.mem_singleton.mp mem
        exact short
  | error _ =>
    refine Prog.Holds.bind
      (Prog.Stable.attempt (safeRemoveDirectory_sealed last generations (four name).le)) ?_
    exact fun _ => .pure fun s h => ⟨h, placed⟩

theorem scanGenerations_sealed (last : MarkerLast env.kept) (usage : UsageFile) (j g : String)
    (three : generations.length = 3) (names : List String) (placed : scan.Placed) :
    Prog.Holds (Sealed (finalDir i f id))
      (scanGenerations env usage j g generations names scan)
      (fun scan s => Sealed (finalDir i f id) s ∧ scan.Placed) (Sealed (finalDir i f id)) := by
  induction names generalizing scan with
  | nil => exact .pure fun s h => ⟨h, placed⟩
  | cons name names ih =>
    unfold scanGenerations
    split
    · exact Prog.Holds.bind (scanGeneration_sealed last usage j g three name placed)
        fun scan => .assume ih
    · exact ih placed

theorem scanListed_sealed (last : MarkerLast env.kept) (usage : UsageFile) (j g : String)
    (three : generations.length = 3) (placed : scan.Placed) :
    Prog.Holds (Sealed (finalDir i f id)) (scanListed env usage j g generations scan)
      (fun scan s => Sealed (finalDir i f id) s ∧ scan.Placed) (Sealed (finalDir i f id)) := by
  refine Prog.Holds.bind (Prog.Stable.attempt (cleanupPending_sealed last j g)) fun _ => ?_
  refine Prog.Holds.bind (Prog.Stable.attempt (.read _ _)) fun names => ?_
  cases names with
  | error _ => exact .pure fun s h => ⟨h, placed⟩
  | ok names => exact scanGenerations_sealed last usage j g three names placed

theorem scanFingerprint_sealed (last : MarkerLast env.kept) (usage : UsageFile) (j g : String)
    (placed : scan.Placed) :
    Prog.Holds (Sealed (finalDir i f id)) (scanFingerprint env usage j [j] g scan)
      (fun scan s => Sealed (finalDir i f id) s ∧ scan.Placed) (Sealed (finalDir i f id)) := by
  refine Prog.Holds.bind (Prog.Stable.attempt (inspect_stable _)) fun there => ?_
  cases there with
  | error _ => exact .pure fun s h => ⟨h, placed⟩
  | ok _ =>
  refine Prog.Holds.bind (Prog.Stable.attempt (inspect_stable _)) fun listed => ?_
  cases listed with
  | error _ => exact .pure fun s h => ⟨h, placed⟩
  | ok _ => exact scanListed_sealed last usage j g rfl placed

theorem scanFingerprints_sealed (last : MarkerLast env.kept) (usage : UsageFile) (j : String)
    (names : List String) (placed : scan.Placed) :
    Prog.Holds (Sealed (finalDir i f id)) (scanFingerprints env usage j [j] names scan)
      (fun scan s => Sealed (finalDir i f id) s ∧ scan.Placed) (Sealed (finalDir i f id)) := by
  induction names generalizing scan with
  | nil => exact .pure fun s h => ⟨h, placed⟩
  | cons name names ih =>
    unfold scanFingerprints
    split
    · exact Prog.Holds.bind (scanFingerprint_sealed last usage j name placed)
        fun scan => .assume ih
    · exact ih placed

theorem removeUnused_sealed (last : MarkerLast env.kept) (kept : List String) (limit : Nat)
    {gs : List Prunable} (placed : ∀ g ∈ gs, g.dir.length = 4) (rest : PruneRest) :
    Prog.Stable (Sealed (finalDir i f id)) (removeUnused env kept limit gs rest) := by
  induction gs generalizing rest with
  | nil => exact .pure rest
  | cons g gs ih =>
    have more := fun rest => ih (fun g mem => placed g (List.mem_cons_of_mem _ mem)) rest
    unfold removeUnused
    split
    · exact .pure rest
    · split
      · exact more rest
      · exact .bind (safeRemoveDirectory_sealed last _ (placed g List.mem_cons_self).le)
          fun _ => more _

theorem reconcileListed_sealed (j g : String) :
    Prog.Stable (Sealed (finalDir i f id)) (reconcileListed env j g [j, g]) := by
  refine .bind (.read _ _) fun names => .bind (.look _) fun loaded => ?_
  cases newestLoaded loaded with
  | some loaded =>
    refine .bind (inspect_stable _) fun bytes => .bind (.lift _) fun latest => ?_
    exact atomicWrite_sealed _ _ (by simp) (short_ne (by simp))
  | none =>
    refine .bind (.read _ _) fun there => ?_
    split
    · refine .bind (inspect_stable _) fun _ => ?_
      refine change_holds ?_ (fun _ h => h) (fun _ h => h) (fun _ h => h)
      rintro s t h ⟨⟩
      exact h.clear (short_ne (by simp))
    · exact .pure ()

theorem reconcilePointers_sealed (j : String) (fingerprints : List String) :
    Prog.Stable (Sealed (finalDir i f id)) (reconcilePointers env j fingerprints) := by
  induction fingerprints with
  | nil => exact .pure ()
  | cons g fingerprints ih =>
    refine .bind (.bind_of (.lift fun _ h => h) fun root known => ?_) fun _ => ih
    obtain ⟨⟨⟩, -, known⟩ := bind_eq_ok.mp known
    obtain ⟨parent, inner, eq⟩ := bind_eq_ok.mp known
    obtain ⟨⟨⟩, -, same⟩ := bind_eq_ok.mp inner
    cases same
    cases eq
    refine .bind (.look _) fun there => ?_
    split
    · refine .bind (inspect_stable _) fun _ => .bind (.look _) fun listed => ?_
      split
      · exact .bind (inspect_stable _) fun _ => reconcileListed_sealed j g
      · exact .pure ()
    · exact .pure ()

theorem pruneListed_sealed (last : MarkerLast env.kept) (j : String) (limit : Nat)
    (explicit : List String) :
    Prog.Stable (Sealed (finalDir i f id)) (pruneListed env j [j] limit explicit) := by
  refine .bind (.look _) fun usage => .bind (.read _ _) fun names => ?_
  refine .bind_of (scanFingerprints_sealed last usage j names fun _ mem => (nomatch mem))
    fun scan placed => ?_
  refine .bind (removeUnused_sealed last _ _ (fun g mem => placed g ?_) _) fun rest => ?_
  · exact (List.perm_insertionSort _ _).mem_iff.mp mem
  refine .bind (.look _) fun current => ?_
  have finish : Prog.Stable (Sealed (finalDir i f id)) (do
      reconcilePointers env j scan.fingerprints
      return (⟨rest.removed, rest.remaining⟩ : PruneResult)) :=
    .bind (reconcilePointers_sealed j _) fun _ => .pure _
  dsimp only
  split
  · refine .bind (.bind (.lift _) fun bytes => ?_) fun _ => finish
    refine .bind_of (.lift fun _ h => h) fun path known => ?_
    have short := writeUsage_short known
    exact atomicWrite_sealed bytes _ (Nat.le_succ_of_le short) (short_ne short)
  · exact finish

theorem pruneInstance_sealed (last : MarkerLast env.kept) (j : String) (limit : Nat)
    (kept : List (String × String)) :
    Prog.Stable (Sealed (finalDir i f id)) (pruneInstance env j limit kept) := by
  refine .bind (ensureRoot_sealed env.ready) fun _ => ?_
  refine .bind_of (.lift fun _ h => h) fun root known => ?_
  obtain ⟨⟨⟩, -, eq⟩ := bind_eq_ok.mp known
  cases eq
  refine .bind (.look _) fun there => ?_
  split
  · exact .bind (inspect_stable _) fun _ => pruneListed_sealed last j limit _
  · exact .pure _

end Pruning

/-! ### Later uses of the store -/

/-- The identity of the generation is not used again, and what is rejected was loaded. -/
def Query.Spares (dir : Path) : Query → Prop
  | .commitSlots m _ _ => finalDir m.instanceId m.fingerprint.digest m.generationId ≠ dir
  | .rejectGeneration _ generation => generation.generationDir.length = 4
  | _ => True

/-- What a store is used for later, by any instance: every question of the coordinator, and
clearing an instance's checkpoints. A removal may be cut short, but not between a marker
and its manifest (`MarkerLast`). -/
inductive Surroundings.Later (around : Surroundings) (dir : Path) : Files → Files → Prop
  | refl (fs : Files) : Later around dir fs fs
  | asked {fs s t : Files} {q : Query} {a : q.Answer} (j : String) (later : Later around dir fs s)
      (tree : s.Tree) (spares : q.Spares dir)
      (served : Surroundings.Serves { around with instanceId := j, cuts := MarkerLast } q s a t) :
      Later around dir fs t
  | cleared {fs s t : Files} {ready : Bool} {kept : Path → Bool} {result : Except StoreError Bool}
      (j : String) (later : Later around dir fs s) (cut : MarkerLast kept)
      (ran : (clearStore ready kept j).Yields around.fates s result t) : Later around dir fs t

section Later

variable {around : Surroundings} {i f id : String}

theorem serves_sealed (last : ∀ kept, around.cuts kept → MarkerLast kept)
    (digest : isLowerHexDigest f = true) (uuid : validateUuid id = true) {q : Query}
    {a : q.Answer} {s t : Files} (tree : s.Tree) (spares : q.Spares (finalDir i f id))
    (served : around.Serves q s a t) (h : Sealed (finalDir i f id) s) :
    Sealed (finalDir i f id) t := by
  cases q with
  | now | elapsed | newGeneration | health | slots | restoreSlot | slotClient | activeRequests
  | terminate =>
    have same : t = s := served
    rwa [same]
  | loadLatest j g =>
    obtain ⟨ready, millis, eq⟩ := served
    exact (congrArg (Sealed _) (congrArg Prod.fst eq)).mp ((Sealed.unnoted digest j).loadLatest ready g h)
  | hasOtherFingerprintGeneration j g =>
    obtain ⟨ready, millis, eq⟩ := served
    exact (congrArg (Sealed _) (congrArg Prod.fst eq)).mp ((Sealed.unnoted digest j).hasOther ready g h)
  | copySlotToScratch j pid generation slot =>
    obtain ⟨ready, available, cut, uuid', -, ran⟩ := served
    exact ((Sealed.unnoted digest j).copySlotToScratch _ _ _ _ _ _ _ _).yields h ran
  | removeScratchPayload j path =>
    obtain ⟨ready, ran⟩ := served
    exact ((Sealed.unnoted digest j).removeScratchPayload _ _).yields h ran
  | ensureScratchCapacity j bytes =>
    obtain ⟨ready, available, ran⟩ := served
    exact ((Sealed.unnoted digest j).ensureScratchCapacity _ _ _).yields h ran
  | newScratchSlotPathFor j pid slot =>
    obtain ⟨ready, uuid', -, ran⟩ := served
    exact ((Sealed.unnoted digest j).newScratchSlotPathFor _ _ _ _).yields h ran
  | verifyScratchPayload j path bytes =>
    obtain ⟨ready, ran⟩ := served
    exact ((Sealed.unnoted digest j).verifyScratchPayload _ _ _ _).yields h ran
  | rejectGeneration j generation =>
    obtain ⟨ready, ran⟩ := served
    exact (rejectGeneration_sealed ready j spares).yields h ran
  | commitSlots m payloads limit =>
    obtain ⟨env, -, -, ran⟩ := served
    exact commitSlots_sealed digest uuid env m payloads limit tree spares h ran
  | pruneInstance j limit kept =>
    obtain ⟨env, result, -, -, cut, ran, -⟩ := served
    exact (pruneInstance_sealed (last _ cut) j limit kept).yields h ran
  | saveSlot slot name =>
    exact (Sealed.unnoted digest _).change served h

/-- **What is sealed stays sealed.** Induction on the later uses; the condition `MarkerLast`
that they carry is what the removals among them need. -/
theorem sealed_later (digest : isLowerHexDigest f = true) (uuid : validateUuid id = true)
    {fs t : Files} (h : Sealed (finalDir i f id) fs) (later : around.Later (finalDir i f id) fs t) :
    Sealed (finalDir i f id) t := by
  induction later with
  | refl => exact h
  | asked j _ tree spares served ih =>
    refine serves_sealed ?_ digest uuid tree spares served ih
    exact fun _ last => last
  | cleared j _ cut ran ih => exact (clearStore_sealed _ cut j).yields ih ran

end Later

end LlamaServerManager.Checkpoint
