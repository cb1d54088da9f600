import LlamaServerManager.Checkpoint.Store

/-!
What `load_latest` returns, seen from the file tree.

It reads the pointer, the directories above the generations and the generations
named by a UUID; a tree that agrees on these gives the same answer
(`readLatest_unchanged`). One more complete generation is either what is returned
or changes nothing (`readLatest_added`), and once the pointer names it, it is
returned (`readLatest_pointed`).
-/

namespace LlamaServerManager.Checkpoint

open Lib

/-! ### The newest candidate -/

section Newest

variable {α : Type}

/-- One more candidate in front. -/
def newer (a : Int × α) : Option (Int × α) → Option (Int × α)
  | none => some a
  | some b => if a.1 ≤ b.1 then some b else some a

theorem newer_some (a : Int × α) (best : Option (Int × α)) : ∃ b, newer a best = some b := by
  unfold newer
  split
  · exact ⟨_, rfl⟩
  · split_ifs
    · exact ⟨_, rfl⟩
    · exact ⟨_, rfl⟩

theorem getLast?_orderedInsert (a : Int × α) (l : List (Int × α))
    (sorted : l.Pairwise fun a b => a.1 ≤ b.1) :
    (l.orderedInsert (fun a b => a.1 ≤ b.1) a).getLast? = newer a l.getLast? := by
  induction l with
  | nil => rfl
  | cons b l ih =>
    obtain ⟨least, sorted⟩ := List.pairwise_cons.mp sorted
    rw [List.orderedInsert_cons]
    cases last : l.getLast? with
    | none =>
      rw [List.getLast?_eq_none_iff] at last
      subst last
      split_ifs with le <;> simp [newer, le]
    | some top =>
      have top_mem : top ∈ l := List.mem_of_getLast? last
      have whole : (b :: l).getLast? = some top := by
        rw [List.getLast?_cons, last]
        rfl
      rw [whole]
      split_ifs with le
      · have above : a.1 ≤ top.1 := Int.le_trans le (least top top_mem)
        rw [List.getLast?_cons, whole]
        simp [newer, above]
      · rw [List.getLast?_cons, ih sorted, last]
        unfold newer
        dsimp only
        split_ifs <;> rfl

/-- The last candidate of a stable sort, found in one pass. -/
theorem newest_eq (l : List (Int × α)) : newest l = (l.foldr newer none).map (·.2) := by
  have total : Std.Total fun a b : Int × α => a.1 ≤ b.1 := ⟨fun a b => Int.le_total a.1 b.1⟩
  have trans : IsTrans (Int × α) fun a b => a.1 ≤ b.1 := ⟨fun _ _ _ => Int.le_trans⟩
  have pass : (l.insertionSort fun a b => a.1 ≤ b.1).getLast? = l.foldr newer none := by
    induction l with
    | nil => rfl
    | cons a l ih =>
      rw [List.insertionSort_cons, getLast?_orderedInsert a _ (List.pairwise_insertionSort _ l),
        ih]
      rfl
  rw [newest, pass]

/-- A candidate in front of two passes, one of which ended in `n`, which is no
older than where the other ended. -/
theorem newer_added {n a : Int × α} {best : Option (Int × α)} (older : ∀ b ∈ best, b.1 ≤ n.1) :
    newer a (some n) = newer a best ∨
      newer a (some n) = some n ∧ ∀ b ∈ newer a best, b.1 ≤ n.1 := by
  unfold newer
  cases best with
  | none =>
    dsimp only
    split_ifs with le
    · exact .inr ⟨rfl, fun b hb => by cases hb; exact le⟩
    · exact .inl rfl
  | some b =>
    have le_n := older b rfl
    dsimp only
    by_cases le : a.1 ≤ n.1
    · rw [if_pos le]
      refine .inr ⟨rfl, fun c hc => ?_⟩
      split_ifs at hc <;> cases hc
      · exact le_n
      · exact le
    · rw [if_neg le, if_neg (by omega)]
      exact .inl rfl

/-- One more candidate wins, or changes nothing. -/
theorem newest_added (xs : List (Int × α)) (n : Int × α) (ys : List (Int × α)) :
    newest (xs ++ n :: ys) = some n.2 ∨
      ∃ a, newest (xs ++ n :: ys) = some a ∧ newest (xs ++ ys) = some a := by
  have pass : (∃ b, (xs ++ n :: ys).foldr newer none = some b ∧
        (xs ++ ys).foldr newer none = some b) ∨
      (xs ++ n :: ys).foldr newer none = some n ∧
        ∀ b ∈ (xs ++ ys).foldr newer none, b.1 ≤ n.1 := by
    induction xs with
    | nil =>
      rw [List.nil_append, List.nil_append, List.foldr_cons]
      cases ys.foldr newer none with
      | none => exact .inr ⟨rfl, fun _ none => (nomatch none)⟩
      | some b =>
        unfold newer
        dsimp only
        split_ifs with le
        · exact .inl ⟨b, rfl, rfl⟩
        · refine .inr ⟨rfl, fun c hc => ?_⟩
          cases hc
          omega
    | cons a xs ih =>
      rw [List.cons_append, List.cons_append, List.foldr_cons, List.foldr_cons]
      rcases ih with ⟨b, with_, without⟩ | ⟨won, older⟩
      · rw [with_, without]
        obtain ⟨top, eq⟩ := newer_some a (some b)
        exact .inl ⟨top, eq, eq⟩
      · rw [won]
        rcases newer_added older with same | won
        · obtain ⟨top, eq⟩ := newer_some a (some n)
          exact .inl ⟨top, eq, same ▸ eq⟩
        · exact .inr won
  rw [newest_eq, newest_eq]
  rcases pass with ⟨b, with_, without⟩ | ⟨won, -⟩
  · exact .inr ⟨b.2, by rw [with_]; rfl, by rw [without]; rfl⟩
  · exact .inl (by rw [won]; rfl)

end Newest

/-! ### What loading reads -/

variable {c : Codec} {fs fs' : Files} {p : Path}

variable {bytes : List UInt8}

theorem validateRegularFile_file (found : fs p = some (.file bytes)) :
    validateRegularFile p fs = .ok bytes := by
  rw [validateRegularFile, found]

theorem validateDirectory_dir (found : fs p = some .dir) : validateDirectory p fs = .ok () := by
  rw [validateDirectory, found]

theorem readBounded_file {limit : Nat} (found : fs p = some (.file bytes))
    (small : bytes.length ≤ limit) : readBounded p limit fs = .ok bytes := by
  rw [readBounded, validateRegularFile_file found]
  simp only [bind, Except.bind, require_of small]
  rfl

theorem verifyPayload_file {slot : CheckpointSlotManifest} (message : String)
    (found : fs p = some (.file bytes)) (length : bytes.length = slot.bytes)
    (sha256 : c.sha256 bytes = slot.sha256) : verifyPayload c slot message p fs = .ok () := by
  rw [verifyPayload, sha256File, validateRegularFile_file found]
  simp only [bind, Except.bind, pure, Except.pure, require_of length, require_of sha256]

theorem validateRegularFile_eq_ok (h : validateRegularFile p fs = .ok bytes) :
    fs p = some (.file bytes) := by
  unfold validateRegularFile at h
  split at h
  · cases h
  · next found =>
      rw [found]
      exact congrArg (fun b => some (Node.file b)) (Except.ok.inj h)
  · cases h

theorem verifyPayload_eq_ok {slot : CheckpointSlotManifest} {message : String}
    (h : verifyPayload c slot message p fs = .ok ()) :
    ∃ bytes, fs p = some (.file bytes) ∧ bytes.length = slot.bytes ∧
      c.sha256 bytes = slot.sha256 := by
  obtain ⟨bytes, read, h⟩ := bind_eq_ok.mp h
  obtain ⟨⟨⟩, length, h⟩ := bind_eq_ok.mp h
  obtain ⟨sha256, hashed, h⟩ := bind_eq_ok.mp h
  rw [sha256File, read] at hashed
  cases hashed
  exact ⟨bytes, validateRegularFile_eq_ok read, require_eq_ok.mp length, require_eq_ok.mp h⟩

theorem validateRegularFile_congr (same : fs' p = fs p) :
    validateRegularFile p fs' = validateRegularFile p fs := by
  rw [validateRegularFile, validateRegularFile, same]

theorem validateDirectory_congr (same : fs' p = fs p) :
    validateDirectory p fs' = validateDirectory p fs := by
  rw [validateDirectory, validateDirectory, same]

theorem validateDirectory_blocked (notDir : fs p ≠ some .dir) :
    ∃ e, validateDirectory p fs = .error e := by
  unfold validateDirectory
  split
  · exact ⟨_, rfl⟩
  · next dir => exact absurd dir notDir
  · exact ⟨_, rfl⟩

theorem readBounded_congr (limit : Nat) (same : fs' p = fs p) :
    readBounded p limit fs' = readBounded p limit fs := by
  rw [readBounded, readBounded, validateRegularFile_congr same]

theorem verifyPayload_congr (slot : CheckpointSlotManifest) (message : String)
    (same : fs' p = fs p) :
    verifyPayload c slot message p fs' = verifyPayload c slot message p fs := by
  rw [verifyPayload, verifyPayload, sha256File, sha256File, validateRegularFile_congr same]

theorem verifySlots_congr {dir : Path} (same : ∀ rest, fs' (dir ++ rest) = fs (dir ++ rest))
    (slots : List CheckpointSlotManifest) :
    verifySlots c dir fs' slots = verifySlots c dir fs slots := by
  induction slots with
  | nil => rfl
  | cons slot slots ih =>
    rw [verifySlots, verifySlots, verifyPayload_congr slot _ (same _), ih]

variable {generations : Path}

/-- A generation is read from its own directory. -/
theorem loadGeneration_congr {instanceId fingerprint name : String} (expected : Option String)
    (root : fs' generations = fs generations) (same : validateUuid name = true → ∀ rest,
      fs' (generations ++ [name] ++ rest) = fs (generations ++ [name] ++ rest)) :
    loadGeneration c instanceId fingerprint generations name expected fs' =
      loadGeneration c instanceId fingerprint generations name expected fs := by
  unfold loadGeneration
  cases uuid : validateUuid name with
  | false => rfl
  | true =>
    have same := same uuid
    have dir : fs' (generations ++ [name]) = fs (generations ++ [name]) := by
      simpa using same []
    have slots : verifySlots c (generations ++ [name]) fs' =
        verifySlots c (generations ++ [name]) fs := funext (verifySlots_congr same)
    simp only [verifiedChildPath, validateDirectory_congr root, validateDirectory_congr dir,
      readBounded_congr _ (same _), same, slots]

/-- A name without a directory is no generation. -/
theorem loadGeneration_absent (c : Codec) (instanceId fingerprint : String)
    (expected : Option String) {name : String} (absent : fs (generations ++ [name]) = none) :
    ∃ e, loadGeneration c instanceId fingerprint generations name expected fs = .error e := by
  cases h : loadGeneration c instanceId fingerprint generations name expected fs with
  | error e => exact ⟨e, rfl⟩
  | ok loaded =>
    obtain ⟨⟨⟩, -, h⟩ := bind_eq_ok.mp h
    obtain ⟨⟨⟩, child, h⟩ := bind_eq_ok.mp h
    obtain ⟨⟨⟩, -, child⟩ := bind_eq_ok.mp child
    obtain ⟨⟨⟩, dir, -⟩ := bind_eq_ok.mp child
    rw [validateDirectory, absent] at dir
    cases dir

theorem loadNamed_absent {instanceId fingerprint name : String}
    (absent : fs (generations ++ [name]) = none) :
    loadNamed c instanceId fingerprint generations fs name = none := by
  obtain ⟨e, error⟩ := loadGeneration_absent c instanceId fingerprint none absent
  unfold loadNamed
  rw [error]
  split <;> rfl

/-- Entries that are not there are no candidates either. -/
theorem candidates_eq (c : Codec) (listing : Listing) (instanceId fingerprint : String)
    (generations : Path) (fs : Files) :
    candidates c listing instanceId fingerprint generations fs =
      (listing generations).filterMap (loadNamed c instanceId fingerprint generations fs) := by
  rw [candidates, Files.readDir, List.filterMap_filter]
  congr 1
  funext name
  cases present : fs (generations ++ [name]) with
  | none => rw [loadNamed_absent present]; rfl
  | some node => rfl

/-! ### The answer -/

section Answer

variable {listing : Listing} {instanceId fingerprint : String}
  (hi : validateIdentifier instanceId = true) (hf : isLowerHexDigest fingerprint = true)

include hi hf

theorem fingerprintRoot_eq : fingerprintRoot instanceId fingerprint = .ok [instanceId, fingerprint] := by
  unfold fingerprintRoot instanceRoot require
  rw [if_pos hf, if_pos hi]
  rfl

theorem readLatest_missing
    (missing : fs [instanceId, fingerprint] = none ∨
      fs [instanceId, fingerprint] = some .dir ∧
        fs [instanceId, fingerprint, "generations"] = none) :
    readLatest c listing instanceId fingerprint fs = .ok none := by
  unfold readLatest
  rw [fingerprintRoot_eq hi hf]
  rcases missing with root | ⟨root, generations⟩
  · simp [bind, Except.bind, root]
  · simp [bind, Except.bind, root, generations, validateDirectory]

theorem readLatest_at (root : fs [instanceId, fingerprint] = some .dir)
    (generations : fs [instanceId, fingerprint, "generations"] = some .dir) :
    readLatest c listing instanceId fingerprint fs =
      latestOf (pointed c instanceId fingerprint [instanceId, fingerprint] fs)
        (candidates c listing instanceId fingerprint [instanceId, fingerprint, "generations"] fs) := by
  unfold readLatest
  rw [fingerprintRoot_eq hi hf]
  simp [bind, Except.bind, root, generations, validateDirectory]

/-- Something else in the place of the directory is reported. -/
theorem readLatest_blockedRoot
    (root : fs' [instanceId, fingerprint] = fs [instanceId, fingerprint])
    (present : fs [instanceId, fingerprint] ≠ none)
    (notDir : fs [instanceId, fingerprint] ≠ some .dir) :
    readLatest c listing instanceId fingerprint fs' =
      readLatest c listing instanceId fingerprint fs := by
  obtain ⟨e, error⟩ := validateDirectory_blocked notDir
  unfold readLatest
  rw [fingerprintRoot_eq hi hf]
  simp only [bind, Except.bind, root, if_neg present, validateDirectory_congr root, error]

theorem readLatest_blockedGenerations
    (root : fs' [instanceId, fingerprint] = fs [instanceId, fingerprint])
    (generations : fs' [instanceId, fingerprint, "generations"] =
      fs [instanceId, fingerprint, "generations"])
    (present : fs [instanceId, fingerprint, "generations"] ≠ none)
    (notDir : fs [instanceId, fingerprint, "generations"] ≠ some .dir) :
    readLatest c listing instanceId fingerprint fs' =
      readLatest c listing instanceId fingerprint fs := by
  obtain ⟨e, error⟩ := validateDirectory_blocked notDir
  unfold readLatest
  rw [fingerprintRoot_eq hi hf]
  simp only [bind, Except.bind, List.cons_append, List.nil_append, root, generations,
    validateDirectory_congr root, validateDirectory_congr generations, error, if_neg present]

end Answer

/-- The trees agree on all that loading reads, but for directories made on the way
and a generation that was added. -/
structure Unchanged (instanceId fingerprint : String) (added : Option String) (fs fs' : Files) :
    Prop where
  root : fs' [instanceId, fingerprint] = fs [instanceId, fingerprint] ∨
    fs [instanceId, fingerprint] = none ∧ fs' [instanceId, fingerprint] = some .dir
  generations : fs' [instanceId, fingerprint, "generations"] =
      fs [instanceId, fingerprint, "generations"] ∨
    fs [instanceId, fingerprint, "generations"] = none ∧
      fs' [instanceId, fingerprint, "generations"] = some .dir
  latest : fs' [instanceId, fingerprint, "latest.json"] =
    fs [instanceId, fingerprint, "latest.json"]
  named : ∀ name, validateUuid name = true → added ≠ some name → ∀ rest,
    fs' ([instanceId, fingerprint, "generations", name] ++ rest) =
      fs ([instanceId, fingerprint, "generations", name] ++ rest)

namespace Unchanged

variable {instanceId fingerprint : String} {added : Option String}
  (same : Unchanged instanceId fingerprint added fs fs')

include same

theorem loadNamed_eq {name : String} (old : added ≠ some name)
    (generations : fs' [instanceId, fingerprint, "generations"] =
      fs [instanceId, fingerprint, "generations"]) :
    loadNamed c instanceId fingerprint [instanceId, fingerprint, "generations"] fs' name =
      loadNamed c instanceId fingerprint [instanceId, fingerprint, "generations"] fs name := by
  unfold loadNamed
  rw [loadGeneration_congr none generations fun uuid => same.named name uuid old]

theorem readLatestPointer_eq :
    readLatestPointer c [instanceId, fingerprint] fs' =
      readLatestPointer c [instanceId, fingerprint] fs := by
  have bytes : readBounded ([instanceId, fingerprint] ++ ["latest.json"]) maxManifestBytes fs' =
      readBounded ([instanceId, fingerprint] ++ ["latest.json"]) maxManifestBytes fs :=
    readBounded_congr _ same.latest
  rw [readLatestPointer, readLatestPointer, bytes]

theorem loadGeneration_eq {name : String} (expected : Option String) (old : added ≠ some name)
    (generations : fs' [instanceId, fingerprint, "generations"] =
      fs [instanceId, fingerprint, "generations"]) :
    loadGeneration c instanceId fingerprint [instanceId, fingerprint, "generations"] name expected
        fs' =
      loadGeneration c instanceId fingerprint [instanceId, fingerprint, "generations"] name expected
        fs :=
  loadGeneration_congr expected generations fun uuid => same.named name uuid old

/-- Nothing is found in a new directory. -/
theorem loadNamed_new (tree : fs.Tree)
    (fresh : fs [instanceId, fingerprint, "generations"] = none) {name : String}
    (old : added ≠ some name) :
    loadNamed c instanceId fingerprint [instanceId, fingerprint, "generations"] fs' name = none := by
  cases uuid : validateUuid name with
  | false => rw [loadNamed, uuid]; rfl
  | true =>
    apply loadNamed_absent
    have below : fs [instanceId, fingerprint, "generations", name] = none :=
      Files.none_below tree fresh (List.prefix_append _ [name])
    have eq := same.named name uuid old []
    rw [List.append_nil] at eq
    exact eq.trans below

end Unchanged

section Answer

variable {listing : Listing} {instanceId fingerprint : String}

/-- A pointer is kept next to its generations. -/
def PointerPlaced (instanceId fingerprint : String) (fs : Files) : Prop :=
  fs [instanceId, fingerprint, "generations"] = none →
    fs [instanceId, fingerprint, "latest.json"] = none

/-! ### Making directories -/

theorem readLatest_congr (hi : validateIdentifier instanceId = true)
    (hf : isLowerHexDigest fingerprint = true)
    (same : Unchanged instanceId fingerprint none fs fs')
    (root : fs' [instanceId, fingerprint] = fs [instanceId, fingerprint])
    (generations : fs' [instanceId, fingerprint, "generations"] =
      fs [instanceId, fingerprint, "generations"]) :
    readLatest c listing instanceId fingerprint fs' =
      readLatest c listing instanceId fingerprint fs := by
  have old : ∀ name : String, (none : Option String) ≠ some name := fun _ h => (nomatch h)
  by_cases absent : fs [instanceId, fingerprint] = none
  · rw [readLatest_missing hi hf (.inl absent), readLatest_missing hi hf (.inl (root.trans absent))]
  by_cases above : fs [instanceId, fingerprint] = some .dir
  · by_cases fresh : fs [instanceId, fingerprint, "generations"] = none
    · rw [readLatest_missing hi hf (.inr ⟨above, fresh⟩),
        readLatest_missing hi hf (.inr ⟨root.trans above, generations.trans fresh⟩)]
    by_cases dir : fs [instanceId, fingerprint, "generations"] = some .dir
    · have pointer : pointed c instanceId fingerprint [instanceId, fingerprint] fs' =
          pointed c instanceId fingerprint [instanceId, fingerprint] fs := by
        unfold pointed loadPointed
        rw [same.readLatestPointer_eq]
        simp only [List.cons_append, List.nil_append, same.latest,
          same.loadGeneration_eq _ (old _) generations]
      rw [readLatest_at hi hf above dir,
        readLatest_at hi hf (root.trans above) (generations.trans dir), pointer, candidates_eq,
        candidates_eq]
      congr 1
      exact List.filterMap_congr fun name _ => same.loadNamed_eq (old name) generations
    · exact readLatest_blockedGenerations hi hf root generations fresh dir
  · exact readLatest_blockedRoot hi hf root absent above

/-- Making directories changes no answer. -/
theorem readLatest_unchanged (hi : validateIdentifier instanceId = true)
    (hf : isLowerHexDigest fingerprint = true) (tree : fs.Tree)
    (placed : PointerPlaced instanceId fingerprint fs)
    (same : Unchanged instanceId fingerprint none fs fs') :
    readLatest c listing instanceId fingerprint fs' =
      readLatest c listing instanceId fingerprint fs := by
  have old : ∀ name : String, (none : Option String) ≠ some name := fun _ h => (nomatch h)
  by_cases blocked : fs [instanceId, fingerprint] ≠ none ∧ fs [instanceId, fingerprint] ≠ some .dir
  · have root := same.root.resolve_right fun made => blocked.1 made.1
    exact readLatest_blockedRoot hi hf root blocked.1 blocked.2
  by_cases fresh : fs [instanceId, fingerprint, "generations"] = none
  · -- The generations are not there, so there is nothing to find.
    have before : readLatest c listing instanceId fingerprint fs = .ok none := by
      apply readLatest_missing hi hf
      by_cases root : fs [instanceId, fingerprint] = none
      · exact .inl root
      · exact .inr ⟨not_ne_iff.mp fun notDir => blocked ⟨root, notDir⟩, fresh⟩
    rw [before]
    have root' : fs' [instanceId, fingerprint] = none ∨
        fs' [instanceId, fingerprint] = some .dir := by
      rcases same.root with eq | ⟨-, made⟩
      · rw [eq]
        by_cases root : fs [instanceId, fingerprint] = none
        · exact .inl root
        · exact .inr (not_ne_iff.mp fun notDir => blocked ⟨root, notDir⟩)
      · exact .inr made
    rcases root' with none | root'
    · exact readLatest_missing hi hf (.inl none)
    · rcases same.generations with eq | ⟨-, made⟩
      · exact readLatest_missing hi hf (.inr ⟨root', eq.trans fresh⟩)
      · have pointer : pointed c instanceId fingerprint [instanceId, fingerprint] fs' = none :=
          if_pos (same.latest.trans (placed fresh))
        rw [readLatest_at hi hf root' made, pointer, candidates_eq,
          List.filterMap_eq_nil_iff.mpr fun name _ => same.loadNamed_new tree fresh (old name)]
        rfl
  · have generations := same.generations.resolve_right fun made => fresh made.1
    have root : fs' [instanceId, fingerprint] = fs [instanceId, fingerprint] := by
      refine same.root.resolve_right fun made => fresh ?_
      exact Files.none_below tree made.1 (List.prefix_append _ ["generations"])
    exact readLatest_congr hi hf same root generations

/-! ### One more generation -/

/-- The directory holds all of the generation: its manifest, every slot with the
size and the hash the manifest says, and no mark of a rejection. -/
structure Complete (c : Codec) (m : CheckpointManifest) (manifestBytes : List UInt8) (dir : Path)
    (fs : Files) : Prop where
  directory : fs dir = some .dir
  accepted : fs (dir ++ ["restore-rejected.json"]) = none
  manifest : fs (dir ++ ["manifest.json"]) = some (.file manifestBytes)
  slots : ∀ slot ∈ m.slots, ∃ bytes, fs (dir ++ [slot.filename]) = some (.file bytes) ∧
    bytes.length = slot.bytes ∧ c.sha256 bytes = slot.sha256

/-- The generation of `m`, as it is loaded. -/
def loadedFrom (m : CheckpointManifest) (generations : Path) : LoadedGeneration :=
  ⟨m, generations ++ [m.generationId],
    generations ++ [m.generationId] ++ [(m.slots.head?.map (·.filename)).getD ""]⟩

theorem verifySlots_ok {dir : Path} {slots : List CheckpointSlotManifest}
    (stored : ∀ slot ∈ slots, ∃ bytes, fs (dir ++ [slot.filename]) = some (.file bytes) ∧
      bytes.length = slot.bytes ∧ c.sha256 bytes = slot.sha256) :
    verifySlots c dir fs slots = .ok () := by
  induction slots with
  | nil => rfl
  | cons slot slots ih =>
    obtain ⟨bytes, found, length, sha256⟩ := stored slot List.mem_cons_self
    rw [verifySlots, ih fun s hs => stored s (List.mem_cons_of_mem _ hs),
      verifyPayload_file _ found length sha256]
    rfl

/-- A manifest as it was written: valid, readable and not too long. -/
structure Written (c : Codec) (m : CheckpointManifest) (instanceId fingerprint : String)
    (manifestBytes : List UInt8) : Prop where
  validate : m.validate c instanceId fingerprint = .ok ()
  decode : c.decodeManifest manifestBytes = some m
  length_le : manifestBytes.length ≤ maxManifestBytes

variable {m : CheckpointManifest} {manifestBytes : List UInt8}

/-- A complete generation loads unless a pointer expects another manifest. -/
theorem loadGeneration_complete {generations : Path} (expected : Option String)
    (written : Written c m instanceId fingerprint manifestBytes) (root : fs generations = some .dir)
    (complete : Complete c m manifestBytes (generations ++ [m.generationId]) fs) :
    loadGeneration c instanceId fingerprint generations m.generationId expected fs =
      if ∀ sha256 ∈ expected, c.sha256 manifestBytes = sha256 then .ok (loadedFrom m generations)
      else .error ⟨.checksumMismatch, "checkpoint manifest checksum mismatch"⟩ := by
  have valid := CheckpointManifest.Valid.of_validate written.validate
  have child : verifiedChildPath (generations ++ [m.generationId]) generations fs = .ok () := by
    rw [verifiedChildPath, validateDirectory_dir root, validateDirectory_dir complete.directory]
    exact if_pos ⟨by simp, List.prefix_append _ _⟩
  have bytes : readBounded (generations ++ [m.generationId] ++ ["manifest.json"]) maxManifestBytes
      fs = .ok manifestBytes := readBounded_file complete.manifest written.length_le
  have parsed : CheckpointManifest.parseAndValidate c manifestBytes instanceId fingerprint =
      .ok m := by
    simp [CheckpointManifest.parseAndValidate, written.decode, written.validate, require,
      written.length_le, bind, Except.bind, pure, Except.pure]
  have slots := verifySlots_ok complete.slots
  unfold loadGeneration loadedFrom
  split_ifs with matching
  · simp only [valid.generationId, child, bytes, parsed, slots, require, complete.accepted, bind,
      Except.bind, pure, Except.pure, if_true, if_pos matching]
  · simp only [valid.generationId, child, bytes, require, complete.accepted, bind, Except.bind,
      if_true, if_neg matching]

theorem loadNamed_complete {generations : Path}
    (written : Written c m instanceId fingerprint manifestBytes) (root : fs generations = some .dir)
    (complete : Complete c m manifestBytes (generations ++ [m.generationId]) fs) :
    ∃ t, loadNamed c instanceId fingerprint generations fs m.generationId =
      some (t, loadedFrom m generations) := by
  have valid := CheckpointManifest.Valid.of_validate written.validate
  obtain ⟨t, created⟩ := valid.created
  have loaded := loadGeneration_complete none written root complete
  rw [if_pos fun _ none => (nomatch none)] at loaded
  refine ⟨t, ?_⟩
  unfold loadNamed
  rw [valid.generationId, loaded]
  simp [loadedFrom, created]

/-- A pointer that names the complete generation decides the answer. -/
theorem readLatest_pointed {manifestBytes latestBytes : List UInt8} {latest : LatestPointer}
    (written : Written c m instanceId fingerprint manifestBytes)
    (root : fs [instanceId, fingerprint] = some .dir)
    (generations : fs [instanceId, fingerprint, "generations"] = some .dir)
    (complete : Complete c m manifestBytes
      [instanceId, fingerprint, "generations", m.generationId] fs)
    (stored : fs [instanceId, fingerprint, "latest.json"] = some (.file latestBytes))
    (small : latestBytes.length ≤ maxManifestBytes)
    (decode : c.decodeLatest latestBytes = some latest) (validate : latest.validate c = .ok ())
    (named : latest.generationId = m.generationId)
    (hash : latest.manifestSha256 = c.sha256 manifestBytes) :
    readLatest c listing instanceId fingerprint fs =
      .ok (some (loadedFrom m [instanceId, fingerprint, "generations"])) := by
  have valid := CheckpointManifest.Valid.of_validate written.validate
  have pointer : readLatestPointer c [instanceId, fingerprint] fs = .ok latest := by
    rw [readLatestPointer, List.cons_append, List.cons_append, List.nil_append,
      readBounded_file stored small]
    simp [decode, validate, bind, Except.bind, pure, Except.pure]
  have loaded := loadGeneration_complete (some latest.manifestSha256) written generations complete
  rw [if_pos (by rintro _ ⟨⟩; exact hash.symm)] at loaded
  have pointed : pointed c instanceId fingerprint [instanceId, fingerprint] fs =
      some (.ok (loadedFrom m [instanceId, fingerprint, "generations"])) := by
    unfold Checkpoint.pointed loadPointed
    rw [pointer]
    simp [stored, bind, Except.bind, named, loaded]
  rw [readLatest_at valid.identifier valid.digest root generations, pointed]
  rfl

/-- When the pointer does not load, some candidate is the answer. -/
theorem latestOf_fallback {pointed : Option (Except StoreError LoadedGeneration)}
    (broken : ∀ loaded, pointed ≠ some (.ok loaded)) {candidates : List (Int × LoadedGeneration)}
    {loaded : LoadedGeneration} (found : newest candidates = some loaded) :
    latestOf pointed candidates = .ok (some loaded) := by
  unfold latestOf
  split
  · rw [found]
  · exact absurd rfl (broken _)
  · rw [found]

/-- The pointer names the new generation, or loads as before, or does not load. -/
theorem pointed_added (written : Written c m instanceId fingerprint manifestBytes)
    (same : Unchanged instanceId fingerprint (some m.generationId) fs fs')
    (eq : fs' [instanceId, fingerprint, "generations"] = fs [instanceId, fingerprint, "generations"])
    (free : fs [instanceId, fingerprint, "generations", m.generationId] = none)
    (generations : fs' [instanceId, fingerprint, "generations"] = some .dir)
    (complete : Complete c m manifestBytes
      [instanceId, fingerprint, "generations", m.generationId] fs') :
    pointed c instanceId fingerprint [instanceId, fingerprint] fs' =
        some (.ok (loadedFrom m [instanceId, fingerprint, "generations"])) ∨
      (∃ loaded, pointed c instanceId fingerprint [instanceId, fingerprint] fs =
          some (.ok loaded) ∧
        pointed c instanceId fingerprint [instanceId, fingerprint] fs' = some (.ok loaded)) ∨
      (∀ loaded, pointed c instanceId fingerprint [instanceId, fingerprint] fs' ≠
          some (.ok loaded)) ∧
        ∀ loaded, pointed c instanceId fingerprint [instanceId, fingerprint] fs ≠
          some (.ok loaded) := by
  unfold pointed loadPointed
  rw [same.readLatestPointer_eq]
  simp only [List.cons_append, List.nil_append, same.latest]
  split_ifs with present
  · exact .inr (.inr ⟨fun _ h => (nomatch h), fun _ h => (nomatch h)⟩)
  · cases readLatestPointer c [instanceId, fingerprint] fs with
    | error e => exact .inr (.inr ⟨fun _ h => (nomatch h), fun _ h => (nomatch h)⟩)
    | ok latest =>
      simp only [bind, Except.bind]
      by_cases named : latest.generationId = m.generationId
      · rw [named, loadGeneration_complete _ written generations complete]
        have absent : ∃ e, loadGeneration c instanceId fingerprint
            [instanceId, fingerprint, "generations"] m.generationId
            (some latest.manifestSha256) fs = .error e := loadGeneration_absent c _ _ _ free
        obtain ⟨e, absent⟩ := absent
        split_ifs
        · exact .inl rfl
        · refine .inr (.inr ⟨fun _ h => (nomatch h), fun loaded h => ?_⟩)
          rw [Option.some.inj h] at absent
          cases absent
      · rw [same.loadGeneration_eq _ (fun h => named (Option.some.inj h).symm) eq]
        cases loadGeneration c instanceId fingerprint [instanceId, fingerprint, "generations"]
            latest.generationId (some latest.manifestSha256) fs with
        | error e => exact .inr (.inr ⟨fun _ h => (nomatch h), fun _ h => (nomatch h)⟩)
        | ok loaded => exact .inr (.inl ⟨loaded, rfl, rfl⟩)

/-- A complete generation next to the ones that were there is the answer, or the
answer is what it was. -/
theorem readLatest_added (written : Written c m instanceId fingerprint manifestBytes)
    (tree : fs.Tree) (placed : PointerPlaced instanceId fingerprint fs)
    (listed : m.generationId ∈ listing [instanceId, fingerprint, "generations"])
    (nodup : (listing [instanceId, fingerprint, "generations"]).Nodup)
    (free : fs [instanceId, fingerprint, "generations", m.generationId] = none)
    (same : Unchanged instanceId fingerprint (some m.generationId) fs fs')
    (root : fs' [instanceId, fingerprint] = some .dir)
    (generations : fs' [instanceId, fingerprint, "generations"] = some .dir)
    (complete : Complete c m manifestBytes
      [instanceId, fingerprint, "generations", m.generationId] fs') :
    readLatest c listing instanceId fingerprint fs' =
        readLatest c listing instanceId fingerprint fs ∨
      readLatest c listing instanceId fingerprint fs' =
        .ok (some (loadedFrom m [instanceId, fingerprint, "generations"])) := by
  have valid := CheckpointManifest.Valid.of_validate written.validate
  obtain ⟨t, named⟩ := loadNamed_complete written generations complete
  obtain ⟨xs, ys, split⟩ := List.append_of_mem listed
  rw [split] at nodup
  have fresh := List.nodup_middle.mp nodup
  have old : ∀ name ∈ xs ++ ys, some m.generationId ≠ some name := by
    rintro name mem ⟨⟩
    exact (List.nodup_cons.mp fresh).1 mem
  rw [readLatest_at valid.identifier valid.digest root generations, candidates_eq, split,
    List.filterMap_append, List.filterMap_cons, named]
  dsimp only
  rcases same.generations with eq | ⟨missing, -⟩
  · have dir := eq.symm.trans generations
    have above : fs [instanceId, fingerprint] = some .dir :=
      tree [instanceId, fingerprint] "generations" (by simp [dir])
    have keep : ∀ l : List String, (∀ name ∈ l, name ∈ xs ++ ys) →
        l.filterMap (loadNamed c instanceId fingerprint
            [instanceId, fingerprint, "generations"] fs') =
          l.filterMap (loadNamed c instanceId fingerprint
            [instanceId, fingerprint, "generations"] fs) := fun l sub =>
      List.filterMap_congr fun name mem => same.loadNamed_eq (old name (sub name mem)) eq
    have gone : loadNamed c instanceId fingerprint [instanceId, fingerprint, "generations"] fs
        m.generationId = none := loadNamed_absent free
    rw [readLatest_at valid.identifier valid.digest above dir, candidates_eq, split,
      List.filterMap_append, List.filterMap_cons, gone,
      keep xs fun name => List.mem_append_left _, keep ys fun name => List.mem_append_right _]
    dsimp only
    rcases pointed_added written same eq free generations complete with
      won | same | ⟨broken, broken'⟩
    · rw [won]
      exact .inr rfl
    · obtain ⟨loaded, before, after⟩ := same
      rw [before, after]
      exact .inl rfl
    · rcases newest_added (xs.filterMap _) (t, _) (ys.filterMap _) with won | ⟨loaded, eq, eq'⟩
      · exact .inr (latestOf_fallback broken won)
      · exact .inl ((latestOf_fallback broken eq).trans (latestOf_fallback broken' eq').symm)
  · -- There was nothing to find before, and there is one candidate now.
    have pointer : pointed c instanceId fingerprint [instanceId, fingerprint] fs' = none :=
      if_pos (same.latest.trans (placed missing))
    have none : ∀ name ∈ xs ++ ys, loadNamed c instanceId fingerprint
        [instanceId, fingerprint, "generations"] fs' name = none := fun name mem =>
      same.loadNamed_new tree missing (old name mem)
    rw [pointer, List.filterMap_eq_nil_iff.mpr fun name mem =>
        none name (List.mem_append_left _ mem),
      List.filterMap_eq_nil_iff.mpr fun name mem => none name (List.mem_append_right _ mem)]
    exact .inr rfl

end Answer

/-! ### What is loaded is verified -/

/-- Every slot of the generation is there with its size and its hash. -/
def Verified (c : Codec) (fs : Files) (loaded : LoadedGeneration) : Prop :=
  ∀ slot ∈ loaded.manifest.slots, ∃ bytes,
    fs (loaded.generationDir ++ [slot.filename]) = some (.file bytes) ∧
      bytes.length = slot.bytes ∧ c.sha256 bytes = slot.sha256

theorem verifySlots_eq_ok {dir : Path} {slots : List CheckpointSlotManifest}
    (h : verifySlots c dir fs slots = .ok ()) :
    ∀ slot ∈ slots, ∃ bytes, fs (dir ++ [slot.filename]) = some (.file bytes) ∧
      bytes.length = slot.bytes ∧ c.sha256 bytes = slot.sha256 := by
  induction slots with
  | nil => exact fun _ mem => (nomatch mem)
  | cons slot slots ih =>
    obtain ⟨⟨⟩, first, rest⟩ := bind_eq_ok.mp h
    intro other mem
    rcases List.mem_cons.mp mem with rfl | mem
    · exact verifyPayload_eq_ok first
    · exact ih rest other mem

variable {loaded : LoadedGeneration}

theorem loadGeneration_verified {instanceId fingerprint name : String} {expected : Option String}
    (h : loadGeneration c instanceId fingerprint generations name expected fs = .ok loaded) :
    Verified c fs loaded := by
  obtain ⟨⟨⟩, -, h⟩ := bind_eq_ok.mp h
  obtain ⟨⟨⟩, -, h⟩ := bind_eq_ok.mp h
  obtain ⟨⟨⟩, -, h⟩ := bind_eq_ok.mp h
  obtain ⟨bytes, -, h⟩ := bind_eq_ok.mp h
  obtain ⟨⟨⟩, -, h⟩ := bind_eq_ok.mp h
  obtain ⟨m, -, h⟩ := bind_eq_ok.mp h
  obtain ⟨⟨⟩, -, h⟩ := bind_eq_ok.mp h
  obtain ⟨⟨⟩, slots, h⟩ := bind_eq_ok.mp h
  cases h
  exact verifySlots_eq_ok slots

theorem newest_mem {α : Type} {l : List (Int × α)} {a : α} (h : newest l = some a) :
    ∃ t, (t, a) ∈ l := by
  obtain ⟨⟨t, b⟩, last, rfl⟩ := Option.map_eq_some_iff.mp h
  exact ⟨t, (List.mem_insertionSort _).mp (List.mem_of_getLast? last)⟩

theorem candidates_loaded {listing : Listing} {instanceId fingerprint : String}
    (h : newest (candidates c listing instanceId fingerprint generations fs) = some loaded) :
    ∃ name, loadGeneration c instanceId fingerprint generations name none fs = .ok loaded := by
  obtain ⟨t, mem⟩ := newest_mem h
  obtain ⟨name, -, named⟩ := List.mem_filterMap.mp mem
  unfold loadNamed at named
  split at named
  · cases named
  · split at named
    · cases named
    · next ok =>
        obtain ⟨-, -, ⟨⟩⟩ := Option.map_eq_some_iff.mp named
        exact ⟨name, ok⟩

/-- Whichever way a generation was found, it was loaded by its name. -/
theorem readLatest_loaded {listing : Listing} {instanceId fingerprint : String}
    (h : readLatest c listing instanceId fingerprint fs = .ok (some loaded)) :
    isLowerHexDigest fingerprint = true ∧ ∃ name expected,
      loadGeneration c instanceId fingerprint [instanceId, fingerprint, "generations"] name expected
        fs = .ok loaded := by
  obtain ⟨root, known, h⟩ := bind_eq_ok.mp h
  obtain ⟨⟨⟩, digest, known⟩ := bind_eq_ok.mp known
  obtain ⟨parent, inner, eq⟩ := bind_eq_ok.mp known
  obtain ⟨⟨⟩, -, same⟩ := bind_eq_ok.mp inner
  cases same
  cases eq
  refine ⟨require_eq_ok.mp digest, ?_⟩
  split at h
  · cases h
  obtain ⟨⟨⟩, -, h⟩ := bind_eq_ok.mp h
  dsimp only at h
  split at h
  · cases h
  obtain ⟨⟨⟩, -, h⟩ := bind_eq_ok.mp h
  unfold latestOf at h
  split at h
  · obtain ⟨name, ok⟩ := candidates_loaded (Except.ok.inj h)
    exact ⟨name, none, ok⟩
  · next ok =>
      cases h
      unfold pointed at ok
      split at ok
      · cases ok
      · obtain ⟨latest, -, loaded⟩ := bind_eq_ok.mp (Option.some.inj ok)
        exact ⟨_, _, loaded⟩
  · split at h
    · next found =>
        cases h
        obtain ⟨name, ok⟩ := candidates_loaded found
        exact ⟨name, none, ok⟩
    · cases h

theorem readLatest_verified {listing : Listing} {instanceId fingerprint : String}
    (h : readLatest c listing instanceId fingerprint fs = .ok (some loaded)) :
    Verified c fs loaded := by
  obtain ⟨-, _, _, ok⟩ := readLatest_loaded h
  exact loadGeneration_verified ok

/-! ### Preparing the root -/

section Root

variable (c : Codec) (listing : Listing) (millis : Nat) (instanceId fingerprint : String)

theorem ensureRoot_dir (ready : Bool) (root : fs [] = some .dir) :
    (ensureRoot ready).ended Prog.calm fs = .returned () ∧
      (ensureRoot ready).final Prog.calm fs = fs := by
  cases ready <;>
    simp [Prog.ended, Prog.final, Prog.calm, ensureRoot, ensurePrivateDirectory, createDirAll,
      makeDirs, change, inspect, touch, Files.makeDir, Prog.call, Prog.read, validateDirectory,
      root, bind, pure]

theorem ensureRoot_none (root : fs [] = none) :
    (ensureRoot false).ended Prog.calm fs = .returned () ∧
      (ensureRoot false).final Prog.calm fs = Function.update fs [] (some .dir) := by
  simp [Prog.ended, Prog.final, Prog.calm, ensureRoot, ensurePrivateDirectory, createDirAll,
    makeDirs, change, inspect, touch, Files.makeDir, Prog.call, Prog.read, validateDirectory,
    root, bind, pure]

/-- What is in the place of the root decides whether it can be prepared. -/
theorem ensureRoot_blocked (ready : Bool) (present : fs [] ≠ none) (notDir : fs [] ≠ some .dir) :
    (ensureRoot ready).ended Prog.calm fs = .raised
      (if ready then .manifest "checkpoint directory is not a regular directory"
        else .io "checkpoint directory creation failed") := by
  cases root : fs [] with
  | none => exact absurd root present
  | some node =>
    cases node with
    | dir => exact absurd root notDir
    | file | other =>
      cases ready <;>
        simp [Prog.ended, Prog.calm, ensureRoot, ensurePrivateDirectory, createDirAll, makeDirs,
          change, inspect, Files.makeDir, Prog.call, Prog.read, validateDirectory, root, bind]

theorem loadLatest_dir (ready : Bool) (root : fs [] = some .dir) :
    (loadLatest c listing ready millis instanceId fingerprint fs).2 =
      readLatest c listing instanceId fingerprint fs := by
  obtain ⟨ended, final⟩ := ensureRoot_dir ready root
  unfold loadLatest
  rw [ended, final]
  dsimp only
  split <;> rfl

theorem loadLatest_none (hi : validateIdentifier instanceId = true)
    (hf : isLowerHexDigest fingerprint = true) (root : fs [] = none) :
    (loadLatest c listing false millis instanceId fingerprint fs).2 =
      readLatest c listing instanceId fingerprint fs := by
  obtain ⟨ended, final⟩ := ensureRoot_none root
  have other : ∀ q : Path, q ≠ [] → Function.update fs [] (some .dir) q = fs q := fun q ne =>
    Function.update_of_ne ne ..
  have same : readLatest c listing instanceId fingerprint (Function.update fs [] (some .dir)) =
      readLatest c listing instanceId fingerprint fs := by
    apply readLatest_congr hi hf _ (other _ (by simp)) (other _ (by simp))
    exact
      { root := .inl (other _ (by simp))
        generations := .inl (other _ (by simp))
        latest := other _ (by simp)
        named := fun _ _ _ _ => other _ (by simp) }
  unfold loadLatest
  rw [ended, final]
  dsimp only
  rw [same]
  split <;> rfl

theorem loadLatest_blocked (millis' : Nat) (ready : Bool) (present : fs [] ≠ none)
    (notDir : fs [] ≠ some .dir) (same : fs' [] = fs []) :
    (loadLatest c listing ready millis' instanceId fingerprint fs').2 =
      (loadLatest c listing ready millis instanceId fingerprint fs).2 := by
  unfold loadLatest
  rw [ensureRoot_blocked ready present notDir,
    ensureRoot_blocked ready (same ▸ present) (same ▸ notDir)]

/-- A handle that says it has prepared the root is right. -/
def Prepared (ready : Bool) (fs : Files) : Prop := ready = true → fs [] = some .dir

theorem Prepared.of_missing {ready : Bool} (prepared : Prepared ready fs)
    (notDir : fs [] ≠ some .dir) : ready = false := by
  cases ready with
  | false => rfl
  | true => exact absurd (prepared rfl) notDir

/-- Loading from two trees whose roots differ at most by being made. -/
theorem loadLatest_congr {ready ready' : Bool} (millis' : Nat)
    (hi : validateIdentifier instanceId = true) (hf : isLowerHexDigest fingerprint = true)
    (prepared : Prepared ready fs) (prepared' : Prepared ready' fs')
    (root : fs' [] = fs [] ∨ fs [] = none ∧ fs' [] = some .dir)
    (same : readLatest c listing instanceId fingerprint fs' =
      readLatest c listing instanceId fingerprint fs) :
    (loadLatest c listing ready' millis' instanceId fingerprint fs').2 =
      (loadLatest c listing ready millis instanceId fingerprint fs).2 := by
  by_cases dir : fs [] = some .dir
  · have dir' : fs' [] = some .dir := by
      rcases root with eq | ⟨-, made⟩
      · exact eq.trans dir
      · exact made
    rw [loadLatest_dir c listing millis instanceId fingerprint ready dir,
      loadLatest_dir c listing millis' instanceId fingerprint ready' dir', same]
  · obtain rfl := prepared.of_missing dir
    by_cases missing : fs [] = none
    · rw [loadLatest_none c listing millis instanceId fingerprint hi hf missing, ← same]
      rcases root with eq | ⟨-, made⟩
      · obtain rfl := prepared'.of_missing (eq.symm ▸ dir)
        exact loadLatest_none c listing millis' instanceId fingerprint hi hf (eq.trans missing)
      · exact loadLatest_dir c listing millis' instanceId fingerprint ready' made
    · have eq := root.resolve_right fun made => missing made.1
      obtain rfl := prepared'.of_missing (eq.symm ▸ dir)
      exact loadLatest_blocked c listing millis instanceId fingerprint millis' false missing dir eq

theorem loadLatest_verified (ready : Bool) (hi : validateIdentifier instanceId = true)
    (hf : isLowerHexDigest fingerprint = true) (prepared : Prepared ready fs)
    {loaded : LoadedGeneration}
    (h : (loadLatest c listing ready millis instanceId fingerprint fs).2 = .ok (some loaded)) :
    Verified c fs loaded := by
  by_cases dir : fs [] = some .dir
  · rw [loadLatest_dir c listing millis instanceId fingerprint ready dir] at h
    exact readLatest_verified h
  · obtain rfl := prepared.of_missing dir
    by_cases missing : fs [] = none
    · rw [loadLatest_none c listing millis instanceId fingerprint hi hf missing] at h
      exact readLatest_verified h
    · unfold loadLatest at h
      rw [ensureRoot_blocked false missing dir] at h
      cases h

end Root

end LlamaServerManager.Checkpoint
