import LlamaServerManager.Checkpoint.Rejection
import LlamaServerManager.Lib.Calm
import LlamaServerManager.Lib.Eviction

/-!
Which generations pruning removes where no call fails. First those that do not load
(`scanFingerprints_calm`), then, in the order of their last use, those that are not
protected, until the rest fits (`removeUnused_calm`).

A state of the store while it is pruned is told by the directories that are gone
(`Pared`): whatever else is not scratch, pending, a pointer or the usage index is as
it was.
-/

namespace LlamaServerManager.Checkpoint

open Lib

/-! ### What is stored -/

section Stored

variable (env : PruneSetting) (i : String) (fs : Files)

/-- The fingerprints with a directory. -/
def fingerprintsOf : List String :=
  (fs.readDir env.listing [i]).filter fun f =>
    isLowerHexDigest f && decide (fs [i, f] = some .dir)

/-- The names in a directory of generations that may be generations. -/
def namesOf (f : String) : List String :=
  (fs.readDir env.listing [i, f, "generations"]).filter validateUuid

/-- The names of some fingerprints. -/
def pairsFrom (fingerprints : List String) : List (String × String) :=
  fingerprints.flatMap fun f => (namesOf env i fs f).map fun name => (f, name)

def pairsOf : List (String × String) := pairsFrom env i fs (fingerprintsOf env i fs)

def load (f name : String) : Except StoreError LoadedGeneration :=
  loadGeneration env.codec i f [i, f, "generations"] name none fs

/-- A generation that loads, as a scan finds it. -/
def found (pair : String × String) : Option Prunable :=
  (load env i fs pair.1 pair.2).toOption.map fun loaded =>
    prunable env.codec (readUsage env.codec i maxMetadataBytes fs) (usageKey pair.1 pair.2) loaded fs

/-- A directory that should be a generation and does not load. -/
def isBroken (pair : String × String) : Bool :=
  !(load env i fs pair.1 pair.2).toOption.isSome &&
    decide (fs (finalDir i pair.1 pair.2) = some .dir)

/-- The generations that load, in the order they are listed. -/
def validOf : List Prunable := (pairsOf env i fs).filterMap (found env i fs)

def brokenIn (pairs : List (String × String)) : List Path :=
  (pairs.filter (isBroken env i fs)).map fun pair => finalDir i pair.1 pair.2

end Stored

/-! ### What is left -/

/-- Scratch and pending generations. -/
def Loose (i : String) (q : Path) : Prop :=
  q = scratchDir i ∨ ∃ f id, [i, f, "generations", ".pending-" ++ id] <+: q

/-- The usage index and the pointers. -/
def Index (i : String) (q : Path) : Prop :=
  q = [i, "usage-v1.json"] ∨ ∃ f, q = [i, f, "latest.json"]

/-- A directory with the name of a generation. -/
def IsFinal (i : String) (d : Path) : Prop :=
  ∃ f name, isLowerHexDigest f = true ∧ validateUuid name = true ∧ d = finalDir i f name

/-- The state of a prune that has removed the generations `gone`: nothing is left below
them, and all that is not about them, their index or loose files is as it was. -/
structure Pared (i : String) (fs : Files) (gone : List Path) (s : Files) : Prop where
  final : ∀ d ∈ gone, IsFinal i d
  away : ∀ d ∈ gone, ∀ rest, s (d ++ rest) = none
  same : ∀ q, ¬ Loose i q → ¬ Index i q → (∀ d ∈ gone, ¬ d <+: q) → s q = fs q

/-- While only generations have gone. -/
structure Early (i : String) (fs : Files) (gone : List Path) (s : Files) : Prop
    extends Pared i fs gone s where
  index : ∀ q, Index i q → s q = fs q

section Pared

variable {env : PruneSetting} {i f name : String} {fs s t : Files} {gone : List Path}

theorem finalDir_inj {f' name' : String} (same : finalDir i f name = finalDir i f' name') :
    f = f' ∧ name = name' := by
  simpa [finalDir] using same

theorem finalDir_below {f' name' : String} {rest : Path}
    (below : finalDir i f name <+: finalDir i f' name' ++ rest) : f = f' ∧ name = name' := by
  obtain ⟨more, eq⟩ := below
  simp [finalDir] at eq
  exact ⟨eq.1, eq.2.1⟩

theorem not_loose_final (uuid : validateUuid name = true) (rest : Path) :
    ¬ Loose i (finalDir i f name ++ rest) := by
  rintro (eq | ⟨f', id, more, eq⟩)
  · simp [finalDir, scratchDir] at eq
  · simp [finalDir] at eq
    rw [← eq.2.1, validateUuid_pending] at uuid
    cases uuid

theorem not_index_final (rest : Path) : ¬ Index i (finalDir i f name ++ rest) := by
  rintro (eq | ⟨f', eq⟩) <;> simp [finalDir] at eq

theorem not_loose_short {q : Path} (short : q.length ≤ 3) (ne : q ≠ scratchDir i) :
    ¬ Loose i q := by
  rintro (eq | ⟨f', id, below⟩)
  · exact ne eq
  · have := below.length_le
    simp at this
    omega

theorem digest_ne_scratch (digest : isLowerHexDigest f = true) : [i, f] ≠ scratchDir i := by
  intro eq
  have named : f = "scratch" := by simpa [scratchDir] using eq
  rw [named] at digest
  exact absurd digest (by decide)

/-- A generation that is not gone is as it was. -/
theorem Pared.kept (left : Pared i fs gone s) (uuid : validateUuid name = true)
    (stays : finalDir i f name ∉ gone) (rest : Path) :
    s (finalDir i f name ++ rest) = fs (finalDir i f name ++ rest) := by
  refine left.same _ (not_loose_final uuid rest) (not_index_final rest) fun d mem below => ?_
  obtain ⟨f', name', _, _, rfl⟩ := left.final d mem
  obtain ⟨rfl, rfl⟩ := finalDir_below below
  exact stays mem

/-- So is everything above the generations. -/
theorem Pared.above (left : Pared i fs gone s) {q : Path} (short : q.length ≤ 3)
    (ne : q ≠ scratchDir i) (notIndex : ¬ Index i q) : s q = fs q := by
  refine left.same _ (not_loose_short short ne) notIndex fun d mem below => ?_
  obtain ⟨f', name', _, _, rfl⟩ := left.final d mem
  have := below.length_le
  simp [finalDir] at this
  omega

theorem Pared.root (left : Pared i fs gone s) : s [] = fs [] :=
  left.above (by simp) (by simp [scratchDir]) (by rintro (eq | ⟨_, eq⟩) <;> simp at eq)

theorem Pared.instance_ (left : Pared i fs gone s) : s [i] = fs [i] :=
  left.above (by simp) (by simp [scratchDir]) (by rintro (eq | ⟨_, eq⟩) <;> simp at eq)

theorem Pared.fingerprint (left : Pared i fs gone s) (digest : isLowerHexDigest f = true) :
    s [i, f] = fs [i, f] := by
  refine left.above (by simp) (digest_ne_scratch digest) ?_
  rintro (eq | ⟨_, eq⟩)
  · have named : f = "usage-v1.json" := by simpa using eq
    rw [named] at digest
    exact absurd digest (by decide)
  · simp at eq

theorem Pared.generations (left : Pared i fs gone s) :
    s [i, f, "generations"] = fs [i, f, "generations"] :=
  left.above (by simp) (by simp [scratchDir]) (by rintro (eq | ⟨_, eq⟩) <;> simp at eq)

/-- A generation that is not gone loads as it did. -/
theorem Pared.load (left : Pared i fs gone s) (stays : finalDir i f name ∉ gone) :
    load env i s f name = load env i fs f name :=
  loadGeneration_congr none left.generations fun uuid rest => left.kept uuid stays rest

/-- One that is gone does not load. -/
theorem Pared.not_load (left : Pared i fs gone s) (away : finalDir i f name ∈ gone) :
    ∃ e, Checkpoint.load env i s f name = .error e :=
  loadGeneration_absent _ _ _ _ (by simpa [finalDir] using left.away _ away [])

theorem index_not_loose {q : Path} (index : Index i q) : ¬ Loose i q := by
  rcases index with rfl | ⟨f, rfl⟩
  · exact not_loose_short (by simp) (by simp [scratchDir])
  · exact not_loose_short (by simp) (by simp [scratchDir])

/-- Scratch and pending generations may change. -/
theorem Early.loose (early : Early i fs gone s) (same : ∀ q, ¬ Loose i q → t q = s q) :
    Early i fs gone t where
  final := early.final
  away := by
    intro d mem rest
    obtain ⟨f, name, _, uuid, rfl⟩ := early.final d mem
    rw [same _ (not_loose_final uuid rest)]
    exact early.away _ mem rest
  same := fun q notLoose notIndex outside =>
    (same q notLoose).trans (early.same q notLoose notIndex outside)
  index := fun q index => (same q (index_not_loose index)).trans (early.index q index)

/-- A generation goes. -/
theorem Early.remove (early : Early i fs gone s) (digest : isLowerHexDigest f = true)
    (uuid : validateUuid name = true) :
    Early i fs (gone ++ [finalDir i f name])
      (s.removeExcept (finalDir i f name) fun _ => false) where
  final := by
    intro d mem
    rcases List.mem_append.mp mem with old | new
    · exact early.final d old
    · exact ⟨f, name, digest, uuid, List.mem_singleton.mp new⟩
  away := by
    intro d mem rest
    by_cases below : finalDir i f name <+: d ++ rest
    · simp [Files.removeExcept, below]
    · rw [Files.removeExcept_other below]
      rcases List.mem_append.mp mem with old | new
      · exact early.away d old rest
      · rw [List.mem_singleton.mp new] at below
        exact absurd (List.prefix_append _ _) below
  same := by
    intro q notLoose notIndex outside
    rw [Files.removeExcept_other (outside _ (by simp))]
    exact early.same q notLoose notIndex fun d mem => outside d (List.mem_append_left _ mem)
  index := by
    intro q index
    rw [Files.removeExcept_other]
    · exact early.index q index
    · intro below
      have := below.length_le
      rcases index with rfl | ⟨_, rfl⟩ <;> simp [finalDir] at this

end Pared

/-! ### Calls that do not fail -/

section Calls

variable {P R S : Files → Prop} {α : Type}

theorem inspect_calm {f : Files → Except StoreError α}
    (stop : ∀ s e, P s → f s = .error e → S s) :
    Prog.Calm P (inspect f) (fun a s => P s ∧ f s = .ok a) S := Prog.Calm.read stop

theorem change_calm {f : Files → Option Files} {message : String} {torn : Files → Files}
    (done : ∀ s t, P s → f s = some t → R t) (stop : ∀ s, P s → f s = none → S s) :
    Prog.Calm P (change f message torn) (fun _ => R) S := by
  refine Prog.Calm.call (fun s t hs h => done s t hs (elim_eq_ok.mp h)) fun s e hs h => ?_
  refine stop s hs ?_
  cases known : f s with
  | none => rfl
  | some t => simp [known] at h

/-- Directories that are there are not made again. -/
theorem makeDirs_calm (message : String) {dirs : List Path}
    (there : ∀ s, P s → ∀ d ∈ dirs, s d = some .dir) :
    Prog.Calm P (makeDirs message dirs) (fun _ => P) S := by
  induction dirs with
  | nil => exact .pure fun s hs => hs
  | cons d dirs ih =>
    refine .bind (Q := fun _ => P) ?_ fun _ => ih fun s hs e mem => there s hs e (by simp [mem])
    refine change_calm (fun s t hs h => ?_) fun s hs h => ?_
    · rw [Files.makeDir_of_dir (there s hs d (by simp))] at h
      exact Option.some.inj h ▸ hs
    · rw [Files.makeDir_of_dir (there s hs d (by simp))] at h
      cases h

theorem makeDirs_alive (message : String) (dirs : List Path) :
    Prog.Alive (makeDirs message dirs) := by
  induction dirs with
  | nil => exact .pure ()
  | cons d dirs ih => exact .bind (.call _ _ _) fun _ => ih

theorem ensurePrivateDirectory_alive (p : Path) : Prog.Alive (ensurePrivateDirectory p) :=
  .bind (makeDirs_alive _ _) fun _ => .bind (.read _ _) fun _ => .read _ _

theorem ensureRoot_alive (ready : Bool) : Prog.Alive (ensureRoot ready) := by
  cases ready with
  | true => exact .read _ _
  | false => exact .bind (ensurePrivateDirectory_alive _) fun _ => .read _ _

theorem ensureGenerationRoots_alive (ready : Bool) (i f : String) :
    Prog.Alive (ensureGenerationRoots ready i f) := by
  refine .bind (.bind (ensureRoot_alive _) fun _ => .bind (.lift _) fun _ => .bind
    (ensurePrivateDirectory_alive _) fun _ => .bind (ensurePrivateDirectory_alive _) fun _ =>
      .pure _) fun _ => .bind (.lift _) fun _ => ?_
  exact .bind (ensurePrivateDirectory_alive _) fun _ =>
    .bind (ensurePrivateDirectory_alive _) fun _ => .pure _

theorem removePendings_alive (env : PruneSetting) (generations : Path) (names : List String) :
    Prog.Alive (removePendings env generations names) := by
  induction names with
  | nil => exact .pure ()
  | cons name names ih =>
    unfold removePendings
    split
    · exact .bind (.attempt (.bind (.read _ _) fun _ => .call _ _ _)) fun _ => ih
    · exact ih

theorem cleanupPending_alive (env : PruneSetting) (i f : String) :
    Prog.Alive (cleanupPending env i f) :=
  .bind (ensureGenerationRoots_alive _ _ _) fun _ => .bind (.read _ _) fun _ =>
    removePendings_alive _ _ _

end Calls

/-! ### Scanning -/

section Scanning

variable {env : PruneSetting} {i f name : String} {fs : Files} {gone : List Path}

/-- The directories a generation is in. -/
def Rooted (i f : String) (fs : Files) : Prop := ∀ d ∈ ownDirs i f, fs d = some .dir

theorem Early.own (early : Early i fs gone s) (rooted : Rooted i f fs)
    (digest : isLowerHexDigest f = true) : Rooted i f s := by
  intro d mem
  rw [← rooted d mem]
  simp only [ownDirs, List.mem_cons, List.not_mem_nil, or_false] at mem
  rcases mem with rfl | rfl | rfl | rfl
  · exact early.root
  · exact early.instance_
  · exact early.fingerprint digest
  · exact early.generations

theorem cleanupPending_early (rooted : Rooted i f fs) (digest : isLowerHexDigest f = true) :
    Prog.Stable (Early i fs gone) (cleanupPending env i f) := by
  have keeps : Keeps (Early i fs gone) (scratchDir i :: ownDirs i f) := by
    intro d mem s t early made
    rcases List.mem_cons.mp mem with rfl | own
    · refine early.loose fun q notLoose => Files.makeDir_other made ?_
      rintro rfl
      exact notLoose (.inl rfl)
    · rw [Files.makeDir_of_dir (early.own rooted digest d own)] at made
      exact Option.some.inj made ▸ early
  refine .bind_of ((ensureGenerationRoots_holds env.ready (fun _ h => h) keeps).post
    fun _ _ h => ⟨h.1.1, h.2⟩) ?_
  rintro _ rfl
  refine .bind (.read _ _) fun names => ?_
  induction names with
  | nil => exact .pure ()
  | cons name names ih =>
    unfold removePendings
    split
    · rename_i pending
      cases cut : Text.stripPrefix ".pending-" name with
      | none => simp [cut] at pending
      | some id =>
        have loose : ∀ kept q, ¬ Loose i q → ∀ s : Files,
            s.removeExcept ([i, f, "generations"] ++ [name]) kept q = s q := by
          intro kept q notLoose s
          refine Files.removeExcept_other fun below => notLoose (.inr ⟨f, id, ?_⟩)
          rwa [Text.eq_of_stripPrefix cut] at below
        refine .bind (.attempt (.bind (inspect_stable _) fun _ => ?_)) fun _ => ih
        refine change_holds ?_ (fun _ h => h) (fun _ h => h) fun s h => h.loose fun q out =>
          loose _ q out s
        rintro s t h ⟨⟩
        exact h.loose fun q out => loose _ q out s
    · exact ih

/-- What a scan has found of some names, and what it has left. -/
structure Scanned (env : PruneSetting) (i : String) (fs : Files)
    (pairs : List (String × String)) (fingerprints : List String) (scan : PruneScan) (s : Files) :
    Prop where
  generations : scan.generations = pairs.filterMap (found env i fs)
  removed : scan.removed = (brokenIn env i fs pairs).length
  fingerprints : scan.fingerprints = fingerprints
  early : Early i fs (brokenIn env i fs pairs) s

variable {pairs : List (String × String)} {fingerprints : List String} {scan : PruneScan}
  {S : Files → Prop}

theorem not_mem_brokenIn (fresh : (f, name) ∉ pairs) :
    finalDir i f name ∉ brokenIn env i fs pairs := by
  intro mem
  obtain ⟨⟨f', name'⟩, listed, same⟩ := List.mem_map.mp mem
  obtain ⟨rfl, rfl⟩ := finalDir_inj same
  exact fresh (List.mem_of_mem_filter listed)

theorem prunable_left (left : Pared i fs gone s) (uuid : validateUuid name = true)
    (stays : finalDir i f name ∉ gone) {loaded : LoadedGeneration}
    (placed : loaded.generationDir = finalDir i f name) (usage : UsageFile) (key : String) :
    prunable env.codec usage key loaded s = prunable env.codec usage key loaded fs := by
  have manifest := left.kept uuid stays ["manifest.json"]
  simp only [prunable, placed, manifest]

/-- A directory is removed where there is one. -/
theorem safeRemoveDirectory_calm {s₀ : Files} (rooted : s₀ [i, f, "generations"] = some .dir) :
    Prog.Calm (fun s => s = s₀)
      (safeRemoveDirectory (finalDir i f name) [i, f, "generations"] env.kept)
      (fun _ s => s₀ (finalDir i f name) = some .dir ∧
        s = s₀.removeExcept (finalDir i f name) fun _ => false)
      (fun s => s₀ (finalDir i f name) ≠ some .dir ∧ s = s₀) := by
  have child : verifiedChildPath (finalDir i f name) [i, f, "generations"] s₀ =
      (validateDirectory (finalDir i f name) s₀).bind fun _ => .ok () := by
    rw [verifiedChildPath, validateDirectory_dir rooted]
    have inside : finalDir i f name ≠ [i, f, "generations"] ∧
        [i, f, "generations"] <+: finalDir i f name := by simp [finalDir]
    simp only [bind, Except.bind, require_of inside]
  refine .bind (Q := fun _ s => s₀ (finalDir i f name) = some .dir ∧ s = s₀) ?_ fun _ => ?_
  · refine (inspect_calm fun s e hs h => ?_).post fun _ s h => ?_
    · subst hs
      refine ⟨fun dir => ?_, rfl⟩
      rw [child, validateDirectory_dir dir] at h
      cases h
    · obtain ⟨rfl, ok⟩ := h
      refine ⟨?_, rfl⟩
      by_contra notDir
      obtain ⟨e, blocked⟩ := validateDirectory_blocked notDir
      rw [child, blocked] at ok
      cases ok
  · refine change_calm (fun s t hs h => ?_) fun s hs h => by cases h
    obtain ⟨dir, rfl⟩ := hs
    exact ⟨dir, (Option.some.inj h).symm⟩

theorem scanGeneration_calm (rooted : Rooted i f fs) (digest : isLowerHexDigest f = true)
    (uuid : validateUuid name = true) (fresh : (f, name) ∉ pairs) :
    Prog.Calm (Scanned env i fs pairs fingerprints scan)
      (scanGeneration env (readUsage env.codec i maxMetadataBytes fs) i f
        [i, f, "generations"] name scan)
      (Scanned env i fs (pairs ++ [(f, name)]) fingerprints) S := by
  have stays : finalDir i f name ∉ brokenIn env i fs pairs := not_mem_brokenIn fresh
  refine .bind (.attempt (inspect_calm
    (S := fun s => Scanned env i fs pairs fingerprints scan s ∧
      ∃ e, load env i s f name = .error e) fun s e h error => ⟨h, e, error⟩)) fun loaded => ?_
  cases loaded with
  | ok loaded =>
    refine .bind .look fun g => .pure ?_
    rintro s ⟨⟨h, ok⟩, rfl⟩
    have loads : load env i fs f name = .ok loaded := (h.early.load stays).symm.trans ok
    have isFound : found env i fs (f, name) = some (prunable env.codec
        (readUsage env.codec i maxMetadataBytes fs) (usageKey f name) loaded s) := by
      rw [prunable_left h.early.toPared uuid stays (loadGeneration_dir loads).1]
      simp [found, loads, Except.toOption]
    have notBroken : isBroken env i fs (f, name) = false := by
      simp [isBroken, loads, Except.toOption]
    have same : brokenIn env i fs (pairs ++ [(f, name)]) = brokenIn env i fs pairs := by
      simp [brokenIn, notBroken]
    exact
      { generations := by simp [h.generations, isFound]
        removed := same ▸ h.removed
        fingerprints := h.fingerprints
        early := same ▸ h.early }
  | error _ =>
    refine .each ?_
    rintro s₀ ⟨h, e, error⟩
    have fails : load env i fs f name = .error e := (h.early.load stays).symm.trans error
    have notFound : found env i fs (f, name) = none := by
      simp [found, fails, Except.toOption]
    have generations : s₀ [i, f, "generations"] = some .dir :=
      h.early.own rooted digest _ (by simp [ownDirs])
    have entry : s₀ (finalDir i f name) = fs (finalDir i f name) := by
      simpa using h.early.kept uuid stays []
    refine .bind (.attempt (safeRemoveDirectory_calm generations)) fun removed => ?_
    cases removed with
    | ok _ =>
      refine .pure ?_
      rintro s ⟨dir, rfl⟩
      have broken : isBroken env i fs (f, name) = true := by
        simp [isBroken, fails, Except.toOption, ← entry, dir]
      have more : brokenIn env i fs (pairs ++ [(f, name)]) =
          brokenIn env i fs pairs ++ [finalDir i f name] := by simp [brokenIn, broken]
      exact
        { generations := by simp [h.generations, notFound]
          removed := by simp [more, h.removed, Except.toOption]
          fingerprints := h.fingerprints
          early := more ▸ h.early.remove digest uuid }
    | error _ =>
      refine .pure ?_
      rintro s ⟨notDir, rfl⟩
      have notBroken : isBroken env i fs (f, name) = false := by
        simp [isBroken, ← entry, notDir]
      have same : brokenIn env i fs (pairs ++ [(f, name)]) = brokenIn env i fs pairs := by
        simp [brokenIn, notBroken]
      exact
        { generations := by simp [h.generations, notFound]
          removed := by simp [same, h.removed, Except.toOption]
          fingerprints := h.fingerprints
          early := same ▸ h.early }

theorem scanGenerations_calm (rooted : Rooted i f fs) (digest : isLowerHexDigest f = true)
    (names : List String) (nodup : names.Nodup) (fresh : ∀ name ∈ names, (f, name) ∉ pairs) :
    Prog.Calm (Scanned env i fs pairs fingerprints scan)
      (scanGenerations env (readUsage env.codec i maxMetadataBytes fs) i f
        [i, f, "generations"] names scan)
      (Scanned env i fs (pairs ++ (names.filter validateUuid).map fun name => (f, name))
        fingerprints) S := by
  induction names generalizing pairs scan with
  | nil => exact .pure fun s h => by simpa using h
  | cons name names ih =>
    obtain ⟨notLater, nodup⟩ := List.nodup_cons.mp nodup
    have later : ∀ other ∈ names, (f, other) ∉ pairs := fun other mem =>
      fresh other (List.mem_cons_of_mem _ mem)
    unfold scanGenerations
    split
    · rename_i uuid
      rw [List.filter_cons_of_pos uuid, List.map_cons, List.append_cons]
      refine .bind (scanGeneration_calm rooted digest uuid (fresh name (by simp))) fun scan => ?_
      refine ih nodup fun other mem seen => ?_
      rcases List.mem_append.mp seen with old | new
      · exact later other mem old
      · obtain rfl : other = name := by simpa using new
        exact notLater mem
    · rename_i other
      rw [List.filter_cons_of_neg other]
      exact ih nodup later

/-- The names a scan goes through are those that were there. -/
theorem names_early (early : Early i fs gone s) (stays : ∀ name, finalDir i f name ∉ gone) :
    (s.readDir env.listing [i, f, "generations"]).filter validateUuid = namesOf env i fs f := by
  simp only [namesOf, Files.readDir, List.filter_filter]
  refine List.filter_congr fun name _ => ?_
  cases uuid : validateUuid name with
  | false => simp
  | true =>
    have entry : s (finalDir i f name) = fs (finalDir i f name) := by
      simpa using early.kept uuid (stays name) []
    simp only [finalDir] at entry
    simp [entry]

/-- What is listed is listed once. -/
theorem readDir_nodup (listed : ∀ p, (env.listing p).Nodup) (s : Files) (p : Path) :
    (s.readDir env.listing p).Nodup := (listed p).filter _

theorem scanListed_calm (listed : ∀ p, (env.listing p).Nodup) (rooted : Rooted i f fs)
    (digest : isLowerHexDigest f = true) (fresh : ∀ name, (f, name) ∉ pairs) :
    Prog.Calm (Scanned env i fs pairs fingerprints scan)
      (scanListed env (readUsage env.codec i maxMetadataBytes fs) i f [i, f, "generations"] scan)
      (Scanned env i fs (pairs ++ (namesOf env i fs f).map fun name => (f, name)) fingerprints)
      S := by
  have cleaned : Prog.Stable (Scanned env i fs pairs fingerprints scan)
      (cleanupPending env i f) := by
    intro fates n s h
    have kept : Prog.Meets (fun _ => Early i fs (brokenIn env i fs pairs))
        (Early i fs (brokenIn env i fs pairs)) (cleanupPending env i f fates n s) :=
      cleanupPending_early rooted digest fates n s h.early
    unfold Prog.Meets at kept ⊢
    split at kept
    · exact ⟨h.generations, h.removed, h.fingerprints, kept⟩
    · exact ⟨h.generations, h.removed, h.fingerprints, kept⟩
    · exact ⟨h.generations, h.removed, h.fingerprints, kept⟩
  refine .bind (.attempt (.of_holds cleaned (cleanupPending_alive env i f))) fun done => ?_
  refine .bind (Q := fun names s => Scanned env i fs pairs fingerprints scan s ∧
    names = .ok (s.readDir env.listing [i, f, "generations"])) ?_ fun names => ?_
  · intro n s h
    have kept : Scanned env i fs pairs fingerprints scan s := by
      cases done <;> exact h
    exact ⟨kept, rfl⟩
  · refine .each ?_
    rintro s ⟨h, rfl⟩
    have stays : ∀ name, finalDir i f name ∉ brokenIn env i fs pairs := fun name =>
      not_mem_brokenIn (fresh name)
    rw [← names_early h.early stays]
    exact (scanGenerations_calm rooted digest _ (readDir_nodup listed s _)
      fun name _ => fresh name).weaken (fun t same => same ▸ h) (fun _ _ h => h) fun _ h => h

theorem mem_pairsFrom : (f, name) ∈ pairsFrom env i fs fingerprints ↔
    f ∈ fingerprints ∧ name ∈ namesOf env i fs f := by
  simp [pairsFrom]

theorem rooted_of_tree (tree : fs.Tree) (generations : fs [i, f, "generations"] = some .dir) :
    Rooted i f fs := by
  have fingerprint : fs [i, f] = some .dir := tree [i, f] "generations" (by simp [generations])
  have instance_ : fs [i] = some .dir := tree [i] f (by simp [fingerprint])
  have root : fs [] = some .dir := tree [] i (by simp [instance_])
  simp [Rooted, ownDirs, root, instance_, fingerprint, generations]

/-- Nothing is in what is no directory. -/
theorem namesOf_nil (tree : fs.Tree) (notDir : fs [i, f, "generations"] ≠ some .dir) :
    namesOf env i fs f = [] := by
  have empty : fs.readDir env.listing [i, f, "generations"] = [] := by
    refine List.filter_eq_nil_iff.mpr fun name _ there => notDir ?_
    exact tree _ name (Option.isSome_iff_ne_none.mp there)
  simp [namesOf, empty]

/-- The fingerprints so far, and this one where it has a directory. -/
def nextFingerprints (i : String) (fs : Files) (fingerprints : List String) (f : String) :
    List String :=
  if fs [i, f] = some .dir then fingerprints ++ [f] else fingerprints

theorem scanFingerprint_calm (listed : ∀ p, (env.listing p).Nodup) (tree : fs.Tree)
    (digest : isLowerHexDigest f = true) (fresh : f ∉ fingerprints) :
    Prog.Calm (Scanned env i fs (pairsFrom env i fs fingerprints) fingerprints scan)
      (scanFingerprint env (readUsage env.codec i maxMetadataBytes fs) i [i] f scan)
      (Scanned env i fs (pairsFrom env i fs (nextFingerprints i fs fingerprints f))
        (nextFingerprints i fs fingerprints f)) S := by
  refine .each fun s h => ?_
  have same : s [i, f] = fs [i, f] := h.early.fingerprint digest
  refine .bind (.attempt (inspect_calm (S := fun t => t = s ∧ fs [i, f] ≠ some .dir)
    fun t e eq error => ⟨eq, fun dir => ?_⟩)) fun there => ?_
  · subst eq
    cases (validateDirectory_dir (same.trans dir)).symm.trans error
  cases there with
  | error _ =>
    refine .pure ?_
    rintro t ⟨rfl, notDir⟩
    simpa [nextFingerprints, notDir] using h
  | ok _ =>
    refine .each ?_
    rintro t ⟨rfl, ok⟩
    have dir : fs [i, f] = some .dir := by
      by_contra notDir
      obtain ⟨e, blocked⟩ := validateDirectory_blocked (same ▸ notDir)
      cases blocked.symm.trans ok
    have next : nextFingerprints i fs fingerprints f = fingerprints ++ [f] := by
      simp [nextFingerprints, dir]
    have more : pairsFrom env i fs (fingerprints ++ [f]) =
        pairsFrom env i fs fingerprints ++ (namesOf env i fs f).map fun name => (f, name) := by
      simp [pairsFrom]
    rw [next, more]
    have h : Scanned env i fs (pairsFrom env i fs fingerprints) (fingerprints ++ [f])
        { scan with fingerprints := scan.fingerprints ++ [f] } t :=
      ⟨h.generations, h.removed, by rw [h.fingerprints], h.early⟩
    refine .bind (.attempt (inspect_calm (S := fun u => u = t ∧
      fs [i, f, "generations"] ≠ some .dir) fun u e eq error => ⟨eq, fun dir => ?_⟩))
      fun there => ?_
    · subst eq
      cases (validateDirectory_dir (h.early.generations.trans dir)).symm.trans error
    cases there with
    | error _ =>
      refine .pure ?_
      rintro u ⟨rfl, notDir⟩
      simpa [namesOf_nil tree notDir] using h
    | ok _ =>
      refine .each ?_
      rintro u ⟨rfl, inOrder⟩
      have generations : fs [i, f, "generations"] = some .dir := by
        by_contra notDir
        obtain ⟨e, blocked⟩ := validateDirectory_blocked (h.early.generations ▸ notDir)
        cases blocked.symm.trans inOrder
      refine (scanListed_calm listed (rooted_of_tree tree generations) digest fun name mem =>
        fresh (mem_pairsFrom.mp mem).1).weaken (fun v same => same ▸ h) (fun _ _ h => h)
          fun _ h => h

theorem scanFingerprints_calm (listed : ∀ p, (env.listing p).Nodup) (tree : fs.Tree)
    (names : List String) (nodup : names.Nodup) (fresh : ∀ f ∈ names, f ∉ fingerprints) :
    Prog.Calm (Scanned env i fs (pairsFrom env i fs fingerprints) fingerprints scan)
      (scanFingerprints env (readUsage env.codec i maxMetadataBytes fs) i [i] names scan)
      (fun scan s => ∀ all, all = fingerprints ++ names.filter (fun f =>
          isLowerHexDigest f && decide (fs [i, f] = some .dir)) →
        Scanned env i fs (pairsFrom env i fs all) all scan s) S := by
  induction names generalizing fingerprints scan with
  | nil =>
    refine .pure fun s h all eq => ?_
    obtain rfl : all = fingerprints := by simpa using eq
    exact h
  | cons f names ih =>
    obtain ⟨notLater, nodup⟩ := List.nodup_cons.mp nodup
    unfold scanFingerprints
    split
    · rename_i digest
      refine .bind (scanFingerprint_calm listed tree digest (fresh f (by simp))) fun scan => ?_
      refine (ih nodup fun g mem seen => ?_).post fun scan s h all eq => h all ?_
      · unfold nextFingerprints at seen
        split at seen
        · rcases List.mem_append.mp seen with old | new
          · exact fresh g (by simp [mem]) old
          · obtain rfl : g = f := by simpa using new
            exact notLater mem
        · exact fresh g (by simp [mem]) seen
      · rw [eq]
        by_cases dir : fs [i, f] = some .dir <;> simp [nextFingerprints, dir, digest]
    · rename_i other
      refine (ih nodup fun g mem => fresh g (by simp [mem])).post fun scan s h all eq => h all ?_
      rw [eq]
      simp [other]

end Scanning

/-! ### Removing -/

section Removing

variable {env : PruneSetting} {i f name : String} {fs s : Files} {gone : List Path}
  {S : Files → Prop} {g : Prunable}

/-- Where a generation was found. -/
structure PlacedIn (i : String) (fs : Files) (g : Prunable) (f name : String) : Prop where
  digest : isLowerHexDigest f = true
  uuid : validateUuid name = true
  dir : g.dir = finalDir i f name
  there : fs (finalDir i f name) = some .dir
  parent : fs [i, f, "generations"] = some .dir

/-- The generations that go for space. -/
def evicted (kept : List String) (limit : Nat) (gs : List Prunable) (total : Nat) :
    List Prunable :=
  Eviction.evict (fun g => g.bytes) (fun g => decide (g.key ∈ kept)) limit gs total

/-- The bookkeeping of a prune after a pass that removed the generations `gone`. -/
structure Removed (gone : List Prunable) (before after : PruneRest) : Prop where
  remaining : after.remaining = Eviction.rest (fun g => g.bytes) before.remaining gone
  removed : after.removed = before.removed + gone.length
  keys : ∀ key ∈ after.keys, key ∈ before.keys ∧ ∀ g ∈ gone, g.key ≠ key

theorem Early.evict (early : Early i fs gone s) (placed : PlacedIn i fs g f name)
    (stays : g.dir ∉ gone) :
    Prog.Calm (fun t => t = s) (safeRemoveDirectory g.dir g.dir.dropLast env.kept)
      (fun _ => Early i fs (gone ++ [g.dir])) S := by
  have parent : s [i, f, "generations"] = some .dir := early.generations.trans placed.parent
  have there : s (finalDir i f name) = some .dir := by
    have kept := early.kept placed.uuid (placed.dir ▸ stays) []
    simpa [placed.there] using kept
  have above : g.dir.dropLast = [i, f, "generations"] := by simp [placed.dir, finalDir]
  rw [above, placed.dir]
  refine (safeRemoveDirectory_calm parent).weaken (fun _ h => h) (fun _ t h => ?_) fun t h =>
    absurd there h.1
  rw [h.2]
  exact early.remove placed.digest placed.uuid

theorem removeUnused_calm (kept : List String) (limit : Nat) (gs : List Prunable)
    (placed : ∀ g ∈ gs, ∃ f name, PlacedIn i fs g f name) (nodup : (gs.map (·.dir)).Nodup)
    (stay : ∀ g ∈ gs, g.dir ∉ gone) (rest : PruneRest) :
    Prog.Calm (Early i fs gone) (removeUnused env kept limit gs rest)
      (fun rest' s => Removed (evicted kept limit gs rest.remaining) rest rest' ∧
        Early i fs (gone ++ (evicted kept limit gs rest.remaining).map (·.dir)) s) S := by
  induction gs generalizing gone rest with
  | nil =>
    refine .pure fun s early => ⟨⟨rfl, rfl, fun key mem => ⟨mem, ?_⟩⟩, ?_⟩
    · simp [evicted, Eviction.evict]
    · simpa [evicted, Eviction.evict] using early
  | cons g gs ih =>
    obtain ⟨notLater, nodup⟩ := List.nodup_cons.mp nodup
    have placed' := fun h (mem : h ∈ gs) => placed h (List.mem_cons_of_mem _ mem)
    have stay' := fun h (mem : h ∈ gs) => stay h (List.mem_cons_of_mem _ mem)
    unfold removeUnused
    simp only [evicted, Eviction.evict]
    split
    · refine .pure fun s early => ⟨⟨rfl, rfl, fun key mem => ⟨mem, by simp⟩⟩, ?_⟩
      simpa using early
    · simp only [decide_eq_true_eq]
      split
      · exact ih placed' nodup stay' rest
      · obtain ⟨f, name, place⟩ := placed g (by simp)
        refine .bind (.each fun s early => early.evict place (stay g (by simp))) fun _ => ?_
        have later : ∀ h ∈ gs, h.dir ∉ gone ++ [g.dir] := by
          intro h mem gone
          rcases List.mem_append.mp gone with old | new
          · exact stay' h mem old
          · exact notLater (List.mem_map.mpr ⟨h, mem, List.mem_singleton.mp new⟩)
        refine (ih placed' nodup later _).post fun rest' s h => ⟨?_, by simpa [evicted] using h.2⟩
        obtain ⟨remaining, removed, keys⟩ := h.1
        refine ⟨?_, ?_, fun key mem => ?_⟩
        · simpa [evicted] using remaining
        · simp only [evicted] at removed
          simp only [removed, List.length_cons]
          omega
        · obtain ⟨known, others⟩ := keys key mem
          obtain ⟨mem, ne⟩ := List.mem_filter.mp known
          refine ⟨mem, fun h gone => ?_⟩
          rcases List.mem_cons.mp gone with rfl | later
          · simpa [@eq_comm _ key] using ne
          · exact others h later

end Removing

end LlamaServerManager.Checkpoint
