import LlamaServerManager.Checkpoint.Load

/-!
A commit that is stopped at any point.

Whatever stops it, a commit leaves one of three trees: no generation was added
(`Staged`), a complete one was added (`Renamed`), or the pointer names it as well
(`Published`). Each is recognised by loading (`commit_atomic`).
-/

namespace LlamaServerManager.Checkpoint

open Lib

/-! ### The calls -/

section Calls

variable {P S : Files → Prop} {t : Files} {p : Path}

theorem touch_holds (message : String) (stop : ∀ s, P s → S s) :
    Prog.Holds P (touch message) (fun _ => P) S :=
  (Prog.Holds.read stop).post fun _ _ h => h.1

theorem inspect_holds {α : Type} {f : Files → Except StoreError α} (stop : ∀ s, P s → S s) :
    Prog.Holds P (inspect f) (fun a s => P s ∧ f s = .ok a) S :=
  Prog.Holds.read stop

theorem change_holds {f : Files → Option Files} {message : String} {torn : Files → Files}
    {R : Files → Prop} (done : ∀ s t, P s → f s = some t → R t) (before : ∀ s, P s → S s)
    (after : ∀ s, R s → S s) (torn_ : ∀ s, P s → S (torn s)) :
    Prog.Holds P (change f message torn) (fun _ => R) S := by
  have effect : ∀ s t, P s → (f s).elim (Except.error (StoreError.io message)) .ok = .ok t →
      R t := fun s t hs h => done s t hs (elim_eq_ok.mp h)
  exact Prog.Holds.call effect before (fun s t hs h => after t (effect s t hs h)) torn_

/-- Directories that may be made are there afterwards. -/
theorem makeDirs_holds (message : String) (dirs : List Path) (stop : ∀ s, P s → S s)
    (step : ∀ d ∈ dirs, ∀ s t, P s → s.makeDir d = some t → P t) :
    Prog.Holds P (makeDirs message dirs) (fun _ s => P s ∧ ∀ d ∈ dirs, s d = some .dir) S := by
  induction dirs generalizing P with
  | nil => exact .pure fun s hs => ⟨hs, fun _ mem => (nomatch mem)⟩
  | cons d dirs ih =>
    apply Prog.Holds.bind (Q := fun _ s => P s ∧ s d = some .dir)
    · apply change_holds
      · exact fun s t hs h => ⟨step d List.mem_cons_self s t hs h, Files.makeDir_self h⟩
      · exact stop
      · exact fun s h => stop s h.1
      · exact stop
    · rintro ⟨⟩
      refine (ih (P := fun s => P s ∧ s d = some .dir) (fun s h => stop s h.1) ?_).post ?_
      · intro e mem s t hs h
        exact ⟨step e (List.mem_cons_of_mem _ mem) s t hs.1 h, Files.makeDir_keeps h hs.2⟩
      · rintro - s ⟨⟨hs, first⟩, rest⟩
        refine ⟨hs, fun e mem => ?_⟩
        rcases List.mem_cons.mp mem with rfl | mem
        · exact first
        · exact rest e mem

theorem ensurePrivateDirectory_holds (p : Path) (stop : ∀ s, P s → S s)
    (step : ∀ d ∈ p.inits, ∀ s t, P s → s.makeDir d = some t → P t) :
    Prog.Holds P (ensurePrivateDirectory p) (fun _ s => P s ∧ ∀ d ∈ p.inits, s d = some .dir) S := by
  apply Prog.Holds.bind (makeDirs_holds _ p.inits stop step)
  rintro ⟨⟩
  have stop' : ∀ s, (P s ∧ ∀ d ∈ p.inits, s d = some .dir) → S s := fun s h => stop s h.1
  refine Prog.Holds.bind ((inspect_holds stop').post fun _ _ h => h.1) ?_
  rintro ⟨⟩
  exact touch_holds _ stop'

/-- Below directories that are there, a write changes one file. -/
theorem atomicWrite_holds (p : Path) (bytes : List UInt8) (message : String) {R : Files → Prop}
    (before : ∀ s, P s → S s) (after : ∀ s, R s → S s)
    (above : ∀ s, P s → ∀ d ∈ p.dropLast.inits, s d = some .dir)
    (done : ∀ s, P s → R (Function.update s p (some (.file bytes)))) :
    Prog.Holds P (atomicWrite p bytes message) (fun _ => R) S := by
  apply Prog.Holds.bind (Q := fun _ => P)
  · refine (makeDirs_holds message p.dropLast.inits before ?_).post fun _ _ h => h.1
    intro d mem s t hs made
    rw [Files.makeDir_of_dir (above s hs d mem)] at made
    cases made
    exact hs
  · rintro ⟨⟩
    apply change_holds
    · intro s t hs h
      rw [Files.replaceFile_eq h]
      exact done s hs
    · exact before
    · exact after
    · exact before

end Calls

/-! ### Where a commit writes -/

section Places

/-- The directories a commit makes on its way to the generations. -/
def ownDirs (i f : String) : List Path := [[], [i], [i, f], [i, f, "generations"]]

def scratchDir (i : String) : Path := [i, "scratch"]

def pendingDir (i f id : String) : Path := [i, f, "generations", ".pending-" ++ id]

def finalDir (i f id : String) : Path := [i, f, "generations", id]

def stagedTrees (i f id : String) : List Path := [scratchDir i, pendingDir i f id]

def renamedTrees (i f id : String) : List Path := finalDir i f id :: stagedTrees i f id

def publishedTrees (i f id : String) : List Path :=
  [i, f, "latest.json"] :: [i, "usage-v1.json"] :: renamedTrees i f id

variable {i f id : String}

theorem apart (digest : isLowerHexDigest f = true) :
    ∀ d ∈ ownDirs i f, ∀ r ∈ publishedTrees i f id, ¬ r <+: d := by
  have scratch : f ≠ "scratch" := isLowerHexDigest_ne digest (by decide)
  have usage : f ≠ "usage-v1.json" := isLowerHexDigest_ne digest (by decide)
  simp [ownDirs, publishedTrees, renamedTrees, stagedTrees, scratchDir, pendingDir, finalDir,
    List.cons_prefix_cons, scratch.symm, usage.symm]

theorem staged_sub : stagedTrees i f id ⊆ publishedTrees i f id := fun _ mem =>
  List.mem_cons_of_mem _ (List.mem_cons_of_mem _ (List.mem_cons_of_mem _ mem))

theorem renamed_sub : renamedTrees i f id ⊆ publishedTrees i f id := fun _ mem =>
  List.mem_cons_of_mem _ (List.mem_cons_of_mem _ mem)

theorem scratch_outside (digest : isLowerHexDigest f = true) :
    ∀ d ∈ ownDirs i f, ¬ scratchDir i <+: d := by
  intro d hd
  have own : ∀ r ∈ publishedTrees i f "", ¬ r <+: d := apart digest d hd
  exact own _ (staged_sub List.mem_cons_self)

/-- Nothing in the directory of a fingerprint is scratch. -/
theorem scratch_apart (digest : isLowerHexDigest f = true) {j : String} (rest : Path) :
    ¬ scratchDir j <+: [i, f] ++ rest := by
  have ne : f ≠ "scratch" := isLowerHexDigest_ne digest (by decide)
  simp [scratchDir, List.cons_prefix_cons, ne.symm]

end Places

/-! ### The trees a commit leaves -/

section Trees

variable (c : Codec) (m : CheckpointManifest) (manifestBytes : List UInt8) (i f : String)
  (before fs : Files)

/-- Scratch payloads and the pending directory aside, nothing was written. -/
def Staged : Prop := Files.Frame (ownDirs i f) (stagedTrees i f m.generationId) before fs

/-- The name of the generation is free, and nothing marks its pending directory. -/
structure Opened : Prop where
  frame : Staged m i f before fs
  made : ∀ d ∈ ownDirs i f, fs d = some .dir
  free : before (finalDir i f m.generationId) = none
  accepted : fs (pendingDir i f m.generationId ++ ["restore-rejected.json"]) = none

/-- The pending directory holds the slots that are `done`. -/
structure Staging (done : List CheckpointSlotManifest) : Prop
    extends Opened m i f before fs where
  pending : fs (pendingDir i f m.generationId) = some .dir
  slots : ∀ slot ∈ done, ∃ bytes,
    fs (pendingDir i f m.generationId ++ [slot.filename]) = some (.file bytes) ∧
      bytes.length = slot.bytes ∧ c.sha256 bytes = slot.sha256

/-- The pending directory is complete. -/
structure Filled : Prop where
  frame : Staged m i f before fs
  made : ∀ d ∈ ownDirs i f, fs d = some .dir
  free : before (finalDir i f m.generationId) = none
  complete : Complete c m manifestBytes (pendingDir i f m.generationId) fs

/-- The generation is complete under its own name. -/
structure Renamed : Prop where
  frame : Files.Frame (ownDirs i f) (renamedTrees i f m.generationId) before fs
  made : ∀ d ∈ ownDirs i f, fs d = some .dir
  free : before (finalDir i f m.generationId) = none
  complete : Complete c m manifestBytes (finalDir i f m.generationId) fs

/-- And the pointer names it. -/
structure Published (latestBytes : List UInt8) : Prop where
  frame : Files.Frame (ownDirs i f) (publishedTrees i f m.generationId) before fs
  made : ∀ d ∈ ownDirs i f, fs d = some .dir
  complete : Complete c m manifestBytes (finalDir i f m.generationId) fs
  latest : fs [i, f, "latest.json"] = some (.file latestBytes)

end Trees

section Stages

variable {c : Codec} {m : CheckpointManifest} {manifestBytes : List UInt8}
  {i f : String} {before fs t : Files}

theorem Complete.congr {dir dst : Path} (complete : Complete c m manifestBytes dir fs)
    (same : ∀ rest, t (dst ++ rest) = fs (dir ++ rest)) :
    Complete c m manifestBytes dst t := by
  constructor
  · have root := same []
    rw [List.append_nil, List.append_nil] at root
    exact root.trans complete.directory
  · exact (same _).trans complete.accepted
  · exact (same _).trans complete.manifest
  · intro slot mem
    rw [same]
    exact complete.slots slot mem

theorem pending_ne (uuid : validateUuid m.generationId = true) :
    ".pending-" ++ m.generationId ≠ m.generationId := by
  intro eq
  rw [← eq, validateUuid_pending] at uuid
  cases uuid

theorem Staged.write (digest : isLowerHexDigest f = true) (staged : Staged m i f before fs)
    (inside : ∀ q, ¬ scratchDir i <+: q → ¬ pendingDir i f m.generationId <+: q → t q = fs q) :
    Staged m i f before t := by
  apply Files.Frame.write staged
  · exact fun d hd r hr => apart digest d hd r (staged_sub hr)
  · exact fun q outside => inside q (outside _ (by simp [stagedTrees]))
      (outside _ (by simp [stagedTrees]))

theorem Opened.write (digest : isLowerHexDigest f = true) (opened : Opened m i f before fs)
    (inside : ∀ q, ¬ scratchDir i <+: q → ¬ pendingDir i f m.generationId <+: q → t q = fs q)
    (accepted : t (pendingDir i f m.generationId ++ ["restore-rejected.json"]) =
      fs (pendingDir i f m.generationId ++ ["restore-rejected.json"])) :
    Opened m i f before t := by
  have own : ∀ d ∈ ownDirs i f, ∀ r ∈ stagedTrees i f m.generationId, ¬ r <+: d :=
    fun d hd r hr => apart digest d hd r (staged_sub hr)
  constructor
  · exact opened.frame.write digest inside
  · intro d hd
    have scratch := own d hd (scratchDir i) (by simp [stagedTrees])
    have pending := own d hd (pendingDir i f m.generationId) (by simp [stagedTrees])
    exact (inside d scratch pending).trans (opened.made d hd)
  · exact opened.free
  · exact accepted.trans opened.accepted

/-- Making the pending directory, or one above it that is there. -/
theorem Opened.makeDir (digest : isLowerHexDigest f = true) (opened : Opened m i f before fs)
    {d : Path} (mem : d ∈ (pendingDir i f m.generationId).inits) (h : fs.makeDir d = some t) :
    Opened m i f before t := by
  have cases_ : d ∈ ownDirs i f ∨ d = pendingDir i f m.generationId := by
    simpa [pendingDir, ownDirs, or_assoc] using mem
  rcases cases_ with own | rfl
  · rw [Files.makeDir_of_dir (opened.made d own)] at h
    cases h
    exact opened
  · apply opened.write digest
    · intro q _ pending
      exact Files.makeDir_other h fun eq => pending (eq ▸ List.prefix_rfl)
    · exact Files.makeDir_other h (by simp)

/-- Moving scratch into the pending directory leaves what is there under other names. -/
theorem Staging.move {done : List CheckpointSlotManifest} {source : Path} {name : String}
    (digest : isLowerHexDigest f = true) (staging : Staging c m i f before fs done)
    (scratch : scratchDir i <+: source) (own : name ≠ "restore-rejected.json")
    (fresh : ∀ slot ∈ done, slot.filename ≠ name)
    (h : fs.rename source (pendingDir i f m.generationId ++ [name]) = some t) :
    Staging c m i f before t done := by
  obtain ⟨rfl, -, -⟩ := Files.rename_eq h
  have other : ∀ rest, (∀ more, rest ≠ name :: more) →
      fs.move source (pendingDir i f m.generationId ++ [name])
          (pendingDir i f m.generationId ++ rest) =
        fs (pendingDir i f m.generationId ++ rest) := by
    intro rest ne
    apply Files.move_other
    · rw [List.prefix_append_right_inj]
      rintro ⟨more, rfl⟩
      exact ne more rfl
    · exact fun below => scratch_apart digest ("generations" :: _ :: rest) (scratch.trans below)
  have pending := other [] fun more eq => (nomatch eq)
  rw [List.append_nil] at pending
  refine { toOpened := staging.write digest ?_ (other _ ?_), pending := ?_, slots := ?_ }
  · intro q notScratch notPending
    apply Files.move_other
    · exact fun below => notPending ((List.prefix_append _ _).trans below)
    · exact fun below => notScratch (scratch.trans below)
  · rintro more ⟨⟩
    exact own rfl
  · exact pending.trans staging.pending
  · intro slot mem
    rw [other [slot.filename] fun more eq => fresh slot mem (List.cons.inj eq).1]
    exact staging.slots slot mem

/-- The rename of a complete directory. -/
theorem Filled.rename (digest : isLowerHexDigest f = true)
    (filled : Filled c m manifestBytes i f before fs)
    (h : fs.rename (pendingDir i f m.generationId) (finalDir i f m.generationId) = some t) :
    Renamed c m manifestBytes i f before t := by
  obtain ⟨rfl, -, -⟩ := Files.rename_eq h
  have own : ∀ d ∈ ownDirs i f, ∀ r ∈ renamedTrees i f m.generationId, ¬ r <+: d :=
    fun d hd r hr => apart digest d hd r (renamed_sub hr)
  have final_mem : finalDir i f m.generationId ∈ renamedTrees i f m.generationId :=
    List.mem_cons_self
  have pending_mem : pendingDir i f m.generationId ∈ renamedTrees i f m.generationId := by
    simp [renamedTrees, stagedTrees]
  constructor
  · apply (filled.frame.widen (List.subset_cons_self ..)).write own
    intro q outside
    exact Files.move_other (outside _ final_mem) (outside _ pending_mem)
  · intro d hd
    rw [Files.move_other (own d hd _ final_mem) (own d hd _ pending_mem)]
    exact filled.made d hd
  · exact filled.free
  · exact filled.complete.congr fun rest => Files.move_append _ _ rest fs

/-- Discarding the pending directory takes nothing from the generation. -/
theorem Renamed.discard (digest : isLowerHexDigest f = true)
    (uuid : validateUuid m.generationId = true)
    (renamed : Renamed c m manifestBytes i f before fs)
    (inside : ∀ q, ¬ pendingDir i f m.generationId <+: q → t q = fs q) :
    Renamed c m manifestBytes i f before t := by
  have own : ∀ d ∈ ownDirs i f, ∀ r ∈ renamedTrees i f m.generationId, ¬ r <+: d :=
    fun d hd r hr => apart digest d hd r (renamed_sub hr)
  have pending_mem : pendingDir i f m.generationId ∈ renamedTrees i f m.generationId := by
    simp [renamedTrees, stagedTrees]
  constructor
  · exact renamed.frame.write own fun q outside => inside q (outside _ pending_mem)
  · exact fun d hd => (inside d (own d hd _ pending_mem)).trans (renamed.made d hd)
  · exact renamed.free
  · refine renamed.complete.congr fun rest => inside _ ?_
    simp [pendingDir, finalDir, List.cons_prefix_cons, pending_ne uuid]

end Stages

/-! ### Up to the pending directory -/

section Roots

variable {P S : Files → Prop} {i f : String}

/-- `P` stays true when one of `dirs` is made. -/
def Keeps (P : Files → Prop) (dirs : List Path) : Prop :=
  ∀ d ∈ dirs, ∀ s t, P s → s.makeDir d = some t → P t

theorem Keeps.sub {dirs fewer : List Path} (keeps : Keeps P dirs) (sub : fewer ⊆ dirs) :
    Keeps P fewer := fun d mem => keeps d (sub mem)

theorem ensureRoot_holds (ready : Bool) (stop : ∀ s, P s → S s) (keeps : Keeps P [[]]) :
    Prog.Holds P (ensureRoot ready) (fun _ => P) S := by
  cases ready with
  | true =>
    exact (inspect_holds stop).post fun _ _ h => h.1
  | false =>
    refine Prog.Holds.bind ((ensurePrivateDirectory_holds [] stop keeps).post fun _ _ h => h.1) ?_
    rintro ⟨⟩
    exact touch_holds _ stop

/-- The directories above scratch files. -/
def scratchDirs (i : String) : List Path := [[], [i], scratchDir i]

theorem scratchDirs_sub : scratchDirs i ⊆ scratchDir i :: ownDirs i f := by
  simp [scratchDirs, ownDirs]

theorem prepareInstance_holds (ready : Bool) (stop : ∀ s, P s → S s)
    (keeps : Keeps P (scratchDirs i)) :
    Prog.Holds P (prepareInstance ready i) (fun a s => P s ∧ a = scratchDir i) S := by
  have above : Keeps P [[]] := keeps.sub (by simp [scratchDirs])
  have inits : Keeps P (scratchDir i).inits := keeps.sub (by simp [scratchDirs, scratchDir])
  apply Prog.Holds.bind (ensureRoot_holds ready stop above)
  rintro ⟨⟩
  apply Prog.Holds.bind (Prog.Holds.lift stop)
  refine fun root => .assume fun known => ?_
  obtain ⟨⟨⟩, -, eq⟩ := bind_eq_ok.mp known
  cases eq
  have own : Keeps P (List.inits [i]) := keeps.sub (by simp [scratchDirs])
  refine Prog.Holds.bind ((ensurePrivateDirectory_holds [i] stop own).post fun _ _ h => h.1) ?_
  rintro ⟨⟩
  refine Prog.Holds.bind
    ((ensurePrivateDirectory_holds (scratchDir i) stop inits).post fun _ _ h => h.1) ?_
  rintro ⟨⟩
  exact .pure fun s hs => ⟨hs, rfl⟩

theorem ensureGenerationRoots_holds (ready : Bool) (stop : ∀ s, P s → S s)
    (keeps : Keeps P (scratchDir i :: ownDirs i f)) :
    Prog.Holds P (ensureGenerationRoots ready i f)
      (fun a s => (P s ∧ ∀ d ∈ ownDirs i f, s d = some .dir) ∧
        a = ([i, f], [i, f, "generations"])) S := by
  have scratch : Keeps P (scratchDirs i) := keeps.sub scratchDirs_sub
  refine Prog.Holds.bind ((prepareInstance_holds ready stop scratch).post fun _ _ h => h.1) ?_
  intro _
  apply Prog.Holds.bind (Prog.Holds.lift stop)
  refine fun root => .assume fun known => ?_
  obtain ⟨⟨⟩, -, known⟩ := bind_eq_ok.mp known
  obtain ⟨parent, inner, eq⟩ := bind_eq_ok.mp known
  obtain ⟨⟨⟩, -, same⟩ := bind_eq_ok.mp inner
  cases same
  cases eq
  have own : Keeps P (List.inits [i, f]) := keeps.sub (by simp [ownDirs])
  refine Prog.Holds.bind ((ensurePrivateDirectory_holds [i, f] stop own).post fun _ _ h => h.1) ?_
  rintro ⟨⟩
  have all : Keeps P (List.inits [i, f, "generations"]) := keeps.sub (by simp [ownDirs])
  apply Prog.Holds.bind (ensurePrivateDirectory_holds [i, f, "generations"] stop all)
  rintro ⟨⟩
  exact .pure fun s hs => ⟨hs, rfl⟩

theorem validateScratchPayload_holds (ready : Bool) (source : Path) (stop : ∀ s, P s → S s)
    (keeps : Keeps P (scratchDirs i)) :
    Prog.Holds P (validateScratchPayload ready i source)
      (fun _ s => P s ∧ scratchDir i <+: source) S := by
  apply Prog.Holds.bind (prepareInstance_holds ready stop keeps)
  refine fun scratch => .assume fun eq => ?_
  subst eq
  refine Prog.Holds.bind ((inspect_holds stop).post fun _ _ h => h.1) ?_
  intro bytes
  refine Prog.Holds.bind ((Prog.Holds.require stop).post fun _ _ h => h.1) ?_
  rintro ⟨⟩
  apply Prog.Holds.bind (touch_holds _ stop)
  rintro ⟨⟩
  apply Prog.Holds.bind (touch_holds _ stop)
  rintro ⟨⟩
  apply Prog.Holds.bind (touch_holds _ stop)
  rintro ⟨⟩
  exact (Prog.Holds.require stop).post fun _ _ h => ⟨h.1, h.2.1⟩

/-- Every payload a commit accepts is scratch of the instance. -/
theorem checkPayloads_holds (c : Codec) (ready : Bool) (seen : List Path)
    (payloads : List (CheckpointSlotManifest × Path)) (stop : ∀ s, P s → S s)
    (keeps : Keeps P (scratchDirs i)) :
    Prog.Holds P (checkPayloads c ready i seen payloads)
      (fun _ s => P s ∧ ∀ entry ∈ payloads, scratchDir i <+: entry.2) S := by
  induction payloads generalizing ready seen with
  | nil => exact .pure fun s hs => ⟨hs, fun _ mem => (nomatch mem)⟩
  | cons entry payloads ih =>
    obtain ⟨slot, source⟩ := entry
    apply Prog.Holds.bind (validateScratchPayload_holds ready source stop keeps)
    refine fun _ => .assume fun inside => ?_
    apply Prog.Holds.bind (touch_holds _ stop)
    rintro ⟨⟩
    refine Prog.Holds.bind ((Prog.Holds.require stop).post fun _ _ h => h.1) ?_
    rintro ⟨⟩
    refine Prog.Holds.bind ((inspect_holds stop).post fun _ _ h => h.1) ?_
    rintro ⟨⟩
    refine (ih true (source :: seen)).post ?_
    rintro - s ⟨hs, rest⟩
    refine ⟨hs, fun e mem => ?_⟩
    rcases List.mem_cons.mp mem with rfl | mem
    · exact inside
    · exact rest e mem

end Roots

/-! ### The generation -/

section Generation

variable {m : CheckpointManifest} {manifestBytes : List UInt8} {i f : String} {before : Files}
  {S : Files → Prop}

theorem inject_holds {P : Files → Prop} (env : Setting) (point : StoreFaultPoint)
    (stop : ∀ s, P s → S s) : Prog.Holds P (env.inject point) (fun _ => P) S :=
  (Prog.Holds.read stop).post fun _ _ h => h.1

/-- One payload after the other is moved in and verified where it now is. -/
theorem movePayloads_holds (env : Setting) (digest : isLowerHexDigest f = true)
    {all : List CheckpointSlotManifest} (names : (all.map (·.filename)).Nodup)
    (own : ∀ slot ∈ all, slot.filename ≠ "restore-rejected.json")
    (stop : ∀ done s, Staging env.codec m i f before s done → S s)
    (payloads : List (CheckpointSlotManifest × Path)) (done : List CheckpointSlotManifest)
    (whole : done ++ payloads.map Prod.fst = all)
    (inside : ∀ entry ∈ payloads, scratchDir i <+: entry.2) :
    Prog.Holds (fun s => Staging env.codec m i f before s done)
      (movePayloads env (pendingDir i f m.generationId) payloads)
      (fun _ s => Staging env.codec m i f before s all) S := by
  induction payloads generalizing done with
  | nil =>
    rw [List.map_nil, List.append_nil] at whole
    subst whole
    exact .pure fun _ hs => hs
  | cons entry payloads ih =>
    obtain ⟨slot, source⟩ := entry
    rw [List.map_cons] at whole
    have mem : slot ∈ all := whole ▸ List.mem_append_right _ List.mem_cons_self
    have fresh : ∀ other ∈ done, other.filename ≠ slot.filename := by
      intro other hd same
      rw [← whole, List.map_append, List.map_cons] at names
      exact (List.nodup_append.mp names).2.2 _ (List.mem_map_of_mem hd) _ List.mem_cons_self same
    have scratch : scratchDir i <+: source := inside (slot, source) List.mem_cons_self
    apply Prog.Holds.bind (Q := fun _ s => Staging env.codec m i f before s done)
    · apply change_holds _ (stop done) (stop done) (stop done)
      exact fun s t hs h => hs.move digest scratch (own slot mem) fresh h
    rintro ⟨⟩
    apply Prog.Holds.bind (inject_holds env .afterPayloadMove (stop done))
    rintro ⟨⟩
    apply Prog.Holds.bind (touch_holds _ (stop done))
    rintro ⟨⟩
    apply Prog.Holds.bind (touch_holds _ (stop done))
    rintro ⟨⟩
    apply Prog.Holds.bind (inject_holds env .afterPayloadSync (stop done))
    rintro ⟨⟩
    apply Prog.Holds.bind (inspect_holds (stop done))
    rintro ⟨⟩
    have whole : (done ++ [slot]) ++ payloads.map Prod.fst = all := by
      rw [List.append_assoc]
      exact whole
    refine (ih (done ++ [slot]) whole fun e he => inside e (List.mem_cons_of_mem _ he)).weaken
      ?_ (fun _ _ h => h) fun _ h => h
    rintro s ⟨hs, verified⟩
    refine { hs with slots := fun other mem => ?_ }
    rcases List.mem_append.mp mem with old | new
    · exact hs.slots other old
    · cases List.mem_singleton.mp new
      exact verifyPayload_eq_ok verified

/-- The manifest completes the pending directory. -/
theorem Staging.manifest {c : Codec} {fs : Files} (digest : isLowerHexDigest f = true)
    (own : ∀ slot ∈ m.slots, slot.filename ≠ "manifest.json")
    (staging : Staging c m i f before fs m.slots) :
    Filled c m manifestBytes i f before (Function.update fs
      (pendingDir i f m.generationId ++ ["manifest.json"]) (some (.file manifestBytes))) := by
  have other : ∀ q : Path, q ≠ pendingDir i f m.generationId ++ ["manifest.json"] →
      Function.update fs (pendingDir i f m.generationId ++ ["manifest.json"])
        (some (Node.file manifestBytes)) q = fs q := fun q ne => Function.update_of_ne ne ..
  have opened : Opened m i f before (Function.update fs
      (pendingDir i f m.generationId ++ ["manifest.json"]) (some (.file manifestBytes))) := by
    apply staging.toOpened.write digest
    · rintro q - notPending
      apply other
      rintro rfl
      exact notPending (List.prefix_append _ _)
    · exact other _ (by simp)
  refine ⟨opened.frame, opened.made, opened.free, ?_⟩
  constructor
  · exact (other _ (by simp)).trans staging.pending
  · exact opened.accepted
  · exact Function.update_self ..
  · intro slot mem
    rw [other _ (by simpa using own slot mem)]
    exact staging.slots slot mem

/-- **Up to the rename the generation is under no name that loading looks at.** -/
theorem stageGeneration_holds (env : Setting) (digest : isLowerHexDigest f = true)
    (names : (m.slots.map (·.filename)).Nodup)
    (own : ∀ slot ∈ m.slots,
      slot.filename ≠ "manifest.json" ∧ slot.filename ≠ "restore-rejected.json")
    (staged : ∀ s, Staged m i f before s → S s)
    (renamed : ∀ s, Renamed env.codec m manifestBytes i f before s → S s)
    (payloads : List (CheckpointSlotManifest × Path)) (whole : payloads.map Prod.fst = m.slots)
    (inside : ∀ entry ∈ payloads, scratchDir i <+: entry.2) :
    Prog.Holds (fun s => Staging env.codec m i f before s [])
      (stageGeneration env (pendingDir i f m.generationId) (finalDir i f m.generationId) payloads
        manifestBytes)
      (fun _ s => Renamed env.codec m manifestBytes i f before s) S := by
  have filled : ∀ s, Filled env.codec m manifestBytes i f before s → S s := fun s h =>
    staged s h.frame
  apply Prog.Holds.bind (movePayloads_holds env digest names (fun slot mem => (own slot mem).2)
    (fun _ s h => staged s h.frame) payloads [] whole inside)
  rintro ⟨⟩
  apply Prog.Holds.bind (Q := fun _ s => Filled env.codec m manifestBytes i f before s)
  · apply atomicWrite_holds _ _ _ (fun s h => staged s h.frame) filled
    · intro s hs d mem
      have cases_ : d ∈ ownDirs i f ∨ d = pendingDir i f m.generationId := by
        simpa [pendingDir, ownDirs, or_assoc] using mem
      rcases cases_ with own | rfl
      · exact hs.made d own
      · exact hs.pending
    · exact fun s hs => hs.manifest digest fun slot mem => (own slot mem).1
  rintro ⟨⟩
  apply Prog.Holds.bind (inject_holds env .afterManifestWrite filled)
  rintro ⟨⟩
  apply Prog.Holds.bind (touch_holds _ filled)
  rintro ⟨⟩
  apply Prog.Holds.bind (inject_holds env .beforeGenerationRename filled)
  rintro ⟨⟩
  apply change_holds _ filled renamed filled
  exact fun s t hs h => hs.rename digest h

/-- Clearing up after an error touches the pending directory only. -/
theorem discardPending_holds {P : Files → Prop} (pending generations : Path) (kept : Path → Bool)
    (clear : ∀ s t, P s → (∀ q, ¬ pending <+: q → t q = s q) → P t) :
    Prog.Holds P (discardPending pending generations kept) (fun _ => P) P := by
  have stop : ∀ s, P s → P s := fun _ h => h
  apply Prog.Holds.bind ((Prog.Holds.look stop).post fun _ _ h => h.1)
  intro there
  cases there with
  | false => exact .pure stop
  | true =>
    refine Prog.Holds.bind ((inspect_holds stop).post fun _ _ h => h.1) ?_
    rintro ⟨⟩
    apply change_holds _ stop stop
    · exact fun s hs => clear s _ hs fun q outside => Files.removeExcept_other outside
    · rintro s t hs ⟨⟩
      exact clear s _ hs fun q outside => Files.removeExcept_other outside

end Generation

/-! ### The pointer and the usage index -/

section Publishing

variable {m : CheckpointManifest} {manifestBytes latestBytes : List UInt8} {i f : String}
  {before : Files} {P S : Files → Prop}

theorem touchUsage_holds (c : Codec) (generationId : String) (millis : Nat)
    (stop : ∀ s, P s → S s) (above : ∀ s, P s → s [] = some .dir ∧ s [i] = some .dir)
    (write : ∀ s bytes, P s →
      P (Function.update s [i, "usage-v1.json"] (some (.file bytes)))) :
    Prog.Holds P (touchUsage c i f generationId millis) (fun _ => P) S := by
  refine Prog.Holds.bind ((Prog.Holds.require stop).post fun _ _ h => h.1) ?_
  rintro ⟨⟩
  refine Prog.Holds.bind ((Prog.Holds.look stop).post fun _ _ h => h.1) ?_
  intro usage
  refine Prog.Holds.bind ((Prog.Holds.lift stop).post fun _ _ h => h.1) ?_
  intro bytes
  apply Prog.Holds.bind (Prog.Holds.lift stop)
  refine fun path => .assume fun known => ?_
  obtain ⟨root, inner, eq⟩ := bind_eq_ok.mp known
  obtain ⟨⟨⟩, -, same⟩ := bind_eq_ok.mp inner
  cases same
  cases eq
  apply atomicWrite_holds _ _ _ stop stop
  · intro s hs d mem
    obtain ⟨root, own⟩ := above s hs
    have cases_ : d = [] ∨ d = [i] := by simpa using mem
    rcases cases_ with rfl | rfl
    · exact root
    · exact own
  · exact fun s hs => write s bytes hs

theorem Renamed.publish {c : Codec} {fs : Files} (digest : isLowerHexDigest f = true)
    (renamed : Renamed c m manifestBytes i f before fs) :
    Published c m manifestBytes i f before
      (Function.update fs [i, f, "latest.json"] (some (.file latestBytes))) latestBytes := by
  have other : ∀ q : Path, q ≠ [i, f, "latest.json"] →
      Function.update fs [i, f, "latest.json"] (some (Node.file latestBytes)) q = fs q :=
    fun q ne => Function.update_of_ne ne ..
  constructor
  · apply (renamed.frame.widen renamed_sub).write (apart digest)
    intro q outside
    refine other q fun eq => outside [i, f, "latest.json"] ?_ (eq ▸ List.prefix_rfl)
    exact List.mem_cons_self
  · intro d hd
    refine (other d fun eq => ?_).trans (renamed.made d hd)
    subst eq
    simp [ownDirs] at hd
  · exact renamed.complete.congr fun rest => other _ (by simp [finalDir])
  · exact Function.update_self ..

theorem Published.touch {c : Codec} {fs : Files} (digest : isLowerHexDigest f = true)
    (published : Published c m manifestBytes i f before fs latestBytes) (bytes : List UInt8) :
    Published c m manifestBytes i f before
      (Function.update fs [i, "usage-v1.json"] (some (.file bytes))) latestBytes := by
  have ne : f ≠ "usage-v1.json" := isLowerHexDigest_ne digest (by decide)
  have other : ∀ q : Path, q ≠ [i, "usage-v1.json"] →
      Function.update fs [i, "usage-v1.json"] (some (Node.file bytes)) q = fs q :=
    fun q ne => Function.update_of_ne ne ..
  constructor
  · apply published.frame.write (apart digest)
    intro q outside
    refine other q fun eq => outside [i, "usage-v1.json"] ?_ (eq ▸ List.prefix_rfl)
    simp [publishedTrees]
  · intro d hd
    refine (other d fun eq => ?_).trans (published.made d hd)
    subst eq
    simp [ownDirs, ne.symm] at hd
  · exact published.complete.congr fun rest => other _ (by simp [finalDir])
  · exact (other _ (by simp)).trans published.latest

/-- The pointer a commit writes. -/
def pointerOf (env : Setting) (m : CheckpointManifest) (manifestBytes : List UInt8) :
    LatestPointer :=
  ⟨1, m.generationId, env.codec.sha256 manifestBytes, env.now⟩

/-- After the rename, the generation stays complete whatever fails. -/
theorem publishGeneration_holds (env : Setting)
    (digest : isLowerHexDigest m.fingerprint.digest = true)
    (renamed : ∀ s, Renamed env.codec m manifestBytes m.instanceId m.fingerprint.digest before s →
      S s)
    (published : ∀ latestBytes s,
      env.codec.encodeLatest (pointerOf env m manifestBytes) = some latestBytes →
      Published env.codec m manifestBytes m.instanceId m.fingerprint.digest before s latestBytes →
      S s) :
    Prog.Holds (Renamed env.codec m manifestBytes m.instanceId m.fingerprint.digest before)
      (publishGeneration env [m.instanceId, m.fingerprint.digest] m manifestBytes)
      (fun _ s => ∃ latestBytes,
        env.codec.encodeLatest (pointerOf env m manifestBytes) = some latestBytes ∧
        Published env.codec m manifestBytes m.instanceId m.fingerprint.digest before s latestBytes)
      S := by
  apply Prog.Holds.bind (touch_holds _ renamed)
  rintro ⟨⟩
  apply Prog.Holds.bind (inject_holds env .beforeLatestUpdate renamed)
  rintro ⟨⟩
  apply Prog.Holds.bind (Prog.Holds.lift renamed)
  refine fun latestBytes => .assume fun encoded => ?_
  have encoded := elim_eq_ok.mp encoded
  have stop := published latestBytes
  apply Prog.Holds.bind (Q := fun _ s => Published env.codec m manifestBytes m.instanceId
    m.fingerprint.digest before s latestBytes)
  · apply atomicWrite_holds _ _ _ renamed fun s hs => stop s encoded hs
    · intro s hs d mem
      refine hs.made d ?_
      have cases_ : d = [] ∨ d = [m.instanceId] ∨ d = [m.instanceId, m.fingerprint.digest] := by
        simpa using mem
      rcases cases_ with rfl | rfl | rfl <;> simp [ownDirs]
    · exact fun s hs => hs.publish digest
  rintro ⟨⟩
  refine Prog.Holds.bind (touchUsage_holds _ _ _ (fun s hs => stop s encoded hs) ?_ ?_) ?_
  · exact fun s hs => ⟨hs.made _ (by simp [ownDirs]), hs.made _ (by simp [ownDirs])⟩
  · exact fun s bytes hs => hs.touch digest bytes
  · rintro ⟨⟩
    exact .pure fun s hs => ⟨latestBytes, encoded, hs⟩

end Publishing

/-! ### The commit -/

section Commit

variable {m : CheckpointManifest} {i f : String} {before fs : Files}

/-- Nothing but scratch was written, and directories were made. -/
def Quiet (i f : String) (before fs : Files) : Prop :=
  Files.Frame (ownDirs i f) [scratchDir i] before fs

theorem Quiet.staged (quiet : Quiet i f before fs) : Staged m i f before fs :=
  Files.Frame.widen quiet (by simp [stagedTrees])

theorem Quiet.keeps (digest : isLowerHexDigest f = true) :
    Keeps (Quiet i f before) (scratchDir i :: ownDirs i f) := by
  intro d mem s t quiet h
  rcases List.mem_cons.mp mem with rfl | own
  · apply Files.Frame.write quiet
    · intro e he r hr
      cases List.mem_singleton.mp hr
      exact scratch_outside digest e he
    · intro q outside
      refine Files.makeDir_other h fun eq => outside _ List.mem_cons_self (eq ▸ List.prefix_rfl)
  · exact Files.Frame.makeDir quiet own h

/-- The names are free now, so they were free before and nothing was below them. -/
theorem Quiet.opened (digest : isLowerHexDigest f = true) (tree : before.TreeBelow [i, f])
    (quiet : Quiet i f before fs) (made : ∀ d ∈ ownDirs i f, fs d = some .dir)
    (pending : fs (pendingDir i f m.generationId) = none)
    (final : fs (finalDir i f m.generationId) = none) : Opened m i f before fs := by
  have same : ∀ name rest, fs ([i, f, "generations", name] ++ rest) =
      before ([i, f, "generations", name] ++ rest) := by
    intro name rest
    apply quiet.same
    · simp [ownDirs]
    · intro r hr
      cases List.mem_singleton.mp hr
      exact scratch_apart digest ("generations" :: name :: rest)
  constructor
  · exact quiet.staged
  · exact made
  · have eq := same m.generationId []
    rw [List.append_nil] at eq
    exact eq.symm.trans final
  · have eq := same (".pending-" ++ m.generationId) []
    rw [List.append_nil] at eq
    refine (same _ ["restore-rejected.json"]).trans ?_
    exact tree.none ⟨["generations", ".pending-" ++ m.generationId], rfl⟩
      (eq.symm.trans pending) (List.prefix_append _ _)

/-- What a commit can leave when it does not return. -/
def Stopped (env : Setting) (m : CheckpointManifest) (before fs : Files) : Prop :=
  Staged m m.instanceId m.fingerprint.digest before fs ∨
    ∃ manifestBytes, env.codec.encodeManifest m = some manifestBytes ∧
      (Renamed env.codec m manifestBytes m.instanceId m.fingerprint.digest before fs ∨
        ∃ latestBytes,
          env.codec.encodeLatest (pointerOf env m manifestBytes) = some latestBytes ∧
          Published env.codec m manifestBytes m.instanceId m.fingerprint.digest before fs
            latestBytes)

/-- **Every end of a commit.** -/
theorem commitSlots_holds (env : Setting) (scratchPayloads : List Path) (storageLimitBytes : Nat)
    (valid : m.Valid env.codec m.instanceId m.fingerprint.digest)
    (tree : before.TreeBelow [m.instanceId, m.fingerprint.digest]) :
    Prog.Holds (Quiet m.instanceId m.fingerprint.digest before)
      (commitSlots env m scratchPayloads storageLimitBytes)
      (fun _ s => ∃ manifestBytes latestBytes,
        env.codec.encodeManifest m = some manifestBytes ∧
        env.codec.encodeLatest (pointerOf env m manifestBytes) = some latestBytes ∧
        Published env.codec m manifestBytes m.instanceId m.fingerprint.digest before s latestBytes)
      (Stopped env m before) := by
  have digest := valid.digest
  have stop : ∀ s, Quiet m.instanceId m.fingerprint.digest before s → Stopped env m before s :=
    fun s h => .inl h.staged
  have keeps : Keeps (Quiet m.instanceId m.fingerprint.digest before)
      (scratchDir m.instanceId :: ownDirs m.instanceId m.fingerprint.digest) := Quiet.keeps digest
  refine Prog.Holds.bind ((Prog.Holds.lift stop).post fun _ _ h => h.1) ?_
  rintro ⟨⟩
  apply Prog.Holds.bind (Prog.Holds.require stop)
  refine fun _ => .assume fun lengths => ?_
  apply Prog.Holds.bind (checkPayloads_holds env.codec env.ready [] _ stop
    (keeps.sub scratchDirs_sub))
  refine fun _ => .assume fun inside => ?_
  apply Prog.Holds.bind (Prog.Holds.lift stop)
  refine fun manifestBytes => .assume fun encoded => ?_
  have encoded := elim_eq_ok.mp encoded
  refine Prog.Holds.bind ((Prog.Holds.require stop).post fun _ _ h => h.1) ?_
  rintro ⟨⟩
  apply Prog.Holds.bind (ensureGenerationRoots_holds true stop keeps)
  refine fun roots => .assume fun eq => ?_
  subst eq
  have stop' : ∀ s, (Quiet m.instanceId m.fingerprint.digest before s ∧
      ∀ d ∈ ownDirs m.instanceId m.fingerprint.digest, s d = some .dir) →
      Stopped env m before s := fun s h => stop s h.1
  apply Prog.Holds.bind (Prog.Holds.look stop')
  intro taken
  refine Prog.Holds.bind (Prog.Holds.require fun s h => stop' s h.1) ?_
  rintro ⟨⟩
  apply Prog.Holds.bind (Q := fun _ s =>
    Staging env.codec m m.instanceId m.fingerprint.digest before s [])
  · refine (ensurePrivateDirectory_holds (P := Opened m m.instanceId m.fingerprint.digest before)
      (pendingDir m.instanceId m.fingerprint.digest m.generationId) (fun s h => .inl h.frame)
      fun d mem s t hs h => hs.makeDir digest mem h).weaken ?_ ?_ fun _ h => h
    · rintro s ⟨⟨⟨quiet, made⟩, rfl⟩, free⟩
      obtain ⟨pending, final⟩ := Bool.or_eq_false_iff.mp free
      exact quiet.opened digest tree made
        (Option.isNone_iff_eq_none.mp (Option.isSome_eq_false_iff.mp pending))
        (Option.isNone_iff_eq_none.mp (Option.isSome_eq_false_iff.mp final))
    · rintro - s ⟨opened, there⟩
      exact ⟨opened, there _ (by simp), fun _ mem => (nomatch mem)⟩
  rintro ⟨⟩
  have stopped : ∀ s, (Staged m m.instanceId m.fingerprint.digest before s ∨
      Renamed env.codec m manifestBytes m.instanceId m.fingerprint.digest before s) →
      Stopped env m before s := by
    rintro s (staged | renamed)
    · exact .inl staged
    · exact .inr ⟨manifestBytes, encoded, .inl renamed⟩
  apply Prog.Holds.bind
    (Q := fun _ => Renamed env.codec m manifestBytes m.instanceId m.fingerprint.digest before)
  · refine (Prog.Holds.onError (stageGeneration_holds env digest valid.filenames_nodup
      (fun slot mem => valid.filename_ne mem) (fun _ h => .inl h) (fun _ h => .inr h) _
      (List.map_fst_zip lengths.ge) inside) (discardPending_holds _ _ _ ?_)).weaken
      (fun _ h => h) (fun _ _ h => h) stopped
    rintro s t (staged | renamed) clear
    · exact .inl (staged.write digest fun q _ outside => clear q outside)
    · exact .inr (renamed.discard digest valid.generationId clear)
  rintro ⟨⟩
  refine (publishGeneration_holds env digest (fun s h => stopped s (.inr h)) ?_).post ?_
  · exact fun latestBytes s written h =>
      .inr ⟨manifestBytes, encoded, .inr ⟨latestBytes, written, h⟩⟩
  · rintro - s ⟨latestBytes, written, h⟩
    exact ⟨manifestBytes, latestBytes, encoded, written, h⟩

/-! ### What loading makes of it -/

theorem Staged.unchanged (digest : isLowerHexDigest f = true) (staged : Staged m i f before fs) :
    Unchanged i f none before fs := by
  have outside : ∀ rest : Path, ¬ pendingDir i f m.generationId <+: [i, f] ++ rest →
      ∀ r ∈ stagedTrees i f m.generationId, ¬ r <+: [i, f] ++ rest := by
    intro rest pending r mem
    simp only [stagedTrees, List.mem_cons, List.not_mem_nil, or_false] at mem
    rcases mem with rfl | rfl
    · exact scratch_apart digest rest
    · exact pending
  constructor
  · exact staged.made _ (by simp [ownDirs])
  · exact staged.made _ (by simp [ownDirs])
  · apply staged.same _ (by simp [ownDirs])
    exact outside ["latest.json"] (by simp [pendingDir, List.cons_prefix_cons])
  · intro name uuid _ rest
    apply staged.same _ (by simp [ownDirs])
    refine outside ("generations" :: name :: rest) ?_
    have ne : ".pending-" ++ m.generationId ≠ name := by
      rintro rfl
      rw [validateUuid_pending] at uuid
      cases uuid
    simp [pendingDir, List.cons_prefix_cons, ne]

theorem Renamed.unchanged {c : Codec} {manifestBytes : List UInt8}
    (digest : isLowerHexDigest f = true) (renamed : Renamed c m manifestBytes i f before fs) :
    Unchanged i f (some m.generationId) before fs := by
  have outside : ∀ rest : Path, ¬ pendingDir i f m.generationId <+: [i, f] ++ rest →
      ¬ finalDir i f m.generationId <+: [i, f] ++ rest →
      ∀ r ∈ renamedTrees i f m.generationId, ¬ r <+: [i, f] ++ rest := by
    intro rest pending final r mem
    simp only [renamedTrees, stagedTrees, List.mem_cons, List.not_mem_nil, or_false] at mem
    rcases mem with rfl | rfl | rfl
    · exact final
    · exact scratch_apart digest rest
    · exact pending
  constructor
  · exact renamed.frame.made _ (by simp [ownDirs])
  · exact renamed.frame.made _ (by simp [ownDirs])
  · apply renamed.frame.same _ (by simp [ownDirs])
    exact outside ["latest.json"] (by simp [pendingDir, List.cons_prefix_cons])
      (by simp [finalDir, List.cons_prefix_cons])
  · intro name uuid added rest
    apply renamed.frame.same _ (by simp [ownDirs])
    have ne : ".pending-" ++ m.generationId ≠ name := by
      rintro rfl
      rw [validateUuid_pending] at uuid
      cases uuid
    have old : m.generationId ≠ name := fun eq => added (eq ▸ rfl)
    refine outside ("generations" :: name :: rest) ?_ ?_
    · simp [pendingDir, List.cons_prefix_cons, ne]
    · simp [finalDir, List.cons_prefix_cons, old]

theorem Stopped.frame {env : Setting} (stopped : Stopped env m before fs) :
    Files.Frame (ownDirs m.instanceId m.fingerprint.digest)
      (publishedTrees m.instanceId m.fingerprint.digest m.generationId) before fs := by
  rcases stopped with staged | ⟨manifestBytes, -, renamed | ⟨latestBytes, -, published⟩⟩
  · exact Files.Frame.widen staged staged_sub
  · exact renamed.frame.widen renamed_sub
  · exact published.frame

/-- Other generations of the fingerprint are left alone. -/
theorem other_generations (digest : isLowerHexDigest f = true) {id name : String}
    (frame : Files.Frame (ownDirs i f) (publishedTrees i f id) before fs)
    (uuid : validateUuid name = true) (ne : name ≠ id) (rest : Path) :
    fs ([i, f, "generations", name] ++ rest) = before ([i, f, "generations", name] ++ rest) := by
  have scratch : f ≠ "scratch" := isLowerHexDigest_ne digest (by decide)
  have usage : f ≠ "usage-v1.json" := isLowerHexDigest_ne digest (by decide)
  have pending : ".pending-" ++ id ≠ name := by
    rintro rfl
    rw [validateUuid_pending] at uuid
    cases uuid
  apply frame.same _ (by simp [ownDirs])
  simp [publishedTrees, renamedTrees, stagedTrees, scratchDir, pendingDir, finalDir,
    List.cons_prefix_cons, scratch.symm, usage.symm, pending, ne.symm]

/-- Other fingerprints and other instances are left alone. -/
theorem other_fingerprints {id i' f' : String}
    (frame : Files.Frame (ownDirs i f) (publishedTrees i f id) before fs)
    (digest : isLowerHexDigest f' = true) (ne : (i', f') ≠ (i, f)) (rest : Path) :
    fs ([i', f'] ++ rest) = before ([i', f'] ++ rest) := by
  have scratch : f' ≠ "scratch" := isLowerHexDigest_ne digest (by decide)
  have usage : f' ≠ "usage-v1.json" := isLowerHexDigest_ne digest (by decide)
  have apart : i = i' → f ≠ f' := fun hi hf => ne (by rw [hi, hf])
  apply frame.same
  · intro mem
    simp only [ownDirs, List.cons_append, List.nil_append, List.mem_cons, List.cons.injEq,
      List.not_mem_nil, or_false, reduceCtorEq, and_false, false_or] at mem
    rcases mem with ⟨hi, hf, -⟩ | ⟨hi, hf, -⟩
    · exact apart hi.symm hf.symm
    · exact apart hi.symm hf.symm
  · simp only [publishedTrees, renamedTrees, stagedTrees, scratchDir, pendingDir, finalDir,
      List.mem_cons, List.not_mem_nil, or_false, List.cons_append, List.nil_append]
    rintro r (rfl | rfl | rfl | rfl | rfl) <;> simp only [List.cons_prefix_cons]
    · exact fun h => apart h.1 h.2.1
    · exact fun h => usage h.2.1.symm
    · exact fun h => apart h.1 h.2.1
    · exact fun h => scratch h.2.1.symm
    · exact fun h => apart h.1 h.2.1

/-- What a commit relies on of its setting: a pointer with the present time is read
back, and is short. -/
structure Setting.Sound (env : Setting) : Prop where
  lawful : env.codec.Lawful
  now : (env.codec.parseTime env.now).isSome = true
  pointer_length_le : ∀ m manifestBytes latestBytes, validateUuid m.generationId = true →
    env.codec.encodeLatest (pointerOf env m manifestBytes) = some latestBytes →
    latestBytes.length ≤ maxManifestBytes

/-- Loading returns the generation of `m`, and all of it is there. -/
def LoadsNew (env : Setting) (m : CheckpointManifest) (listing : Listing) (ready : Bool)
    (millis : Nat) (fs : Files) : Prop :=
  (∃ manifestBytes, env.codec.encodeManifest m = some manifestBytes ∧
    Complete env.codec m manifestBytes
      (finalDir m.instanceId m.fingerprint.digest m.generationId) fs) ∧
    (loadLatest env.codec listing ready millis m.instanceId m.fingerprint.digest fs).2 =
      .ok (some (loadedFrom m [m.instanceId, m.fingerprint.digest, "generations"]))

theorem Published.loadsNew {env : Setting} {manifestBytes latestBytes : List UInt8}
    {listing : Listing} (sound : env.Sound)
    (written : Written env.codec m m.instanceId m.fingerprint.digest manifestBytes)
    (encoded : env.codec.encodeManifest m = some manifestBytes)
    (pointer : env.codec.encodeLatest (pointerOf env m manifestBytes) = some latestBytes)
    (published : Published env.codec m manifestBytes m.instanceId m.fingerprint.digest before fs
      latestBytes) (ready : Bool) (millis : Nat) :
    LoadsNew env m listing ready millis fs := by
  have valid := CheckpointManifest.Valid.of_validate written.validate
  have validate : (pointerOf env m manifestBytes).validate env.codec = .ok () :=
    require_eq_ok.mpr ⟨rfl, valid.generationId, sound.lawful.sha256_digest _, sound.now⟩
  refine ⟨⟨manifestBytes, encoded, published.complete⟩, ?_⟩
  rw [loadLatest_dir _ _ _ _ _ _ (published.made _ (by simp [ownDirs]))]
  exact readLatest_pointed written (published.made _ (by simp [ownDirs]))
    (published.made _ (by simp [ownDirs])) published.complete published.latest
    (sound.pointer_length_le m _ _ valid.generationId pointer)
    (sound.lawful.latest_roundtrip _ _ pointer) validate rfl rfl

/-- **A commit that is stopped anywhere changed nothing for loading, or is loaded in
full.** It is loaded when it returned. What other generations, fingerprints and
instances have is left alone, and what is loaded is verified. -/
theorem commit_atomic (env : Setting) (sound : env.Sound) (m : CheckpointManifest)
    (valid : m.validate env.codec m.instanceId m.fingerprint.digest = .ok ())
    (short : ∀ bytes, env.codec.encodeManifest m = some bytes → bytes.length ≤ maxManifestBytes)
    (listing : Listing)
    (listed : m.generationId ∈ listing [m.instanceId, m.fingerprint.digest, "generations"])
    (once : (listing [m.instanceId, m.fingerprint.digest, "generations"]).Nodup)
    (before : Files) (tree : before.Tree)
    (placed : PointerPlaced m.instanceId m.fingerprint.digest before)
    (scratchPayloads : List Path) (storageLimitBytes : Nat) (fates : Nat → Fate) (fs : Files)
    (final : (commitSlots env m scratchPayloads storageLimitBytes).final fates before = fs)
    (ready ready' : Bool) (millis millis' : Nat) (prepared : Prepared ready before)
    (prepared' : Prepared ready' fs) :
    ((loadLatest env.codec listing ready' millis' m.instanceId m.fingerprint.digest fs).2 =
        (loadLatest env.codec listing ready millis m.instanceId m.fingerprint.digest before).2 ∨
      LoadsNew env m listing ready' millis' fs) ∧
    (∀ committed, (commitSlots env m scratchPayloads storageLimitBytes).ended fates before =
        .returned committed → LoadsNew env m listing ready' millis' fs) ∧
    (∀ loaded, (loadLatest env.codec listing ready' millis' m.instanceId m.fingerprint.digest
        fs).2 = .ok (some loaded) → Verified env.codec fs loaded) ∧
    (∀ name, validateUuid name = true → name ≠ m.generationId → ∀ rest,
      fs ([m.instanceId, m.fingerprint.digest, "generations", name] ++ rest) =
        before ([m.instanceId, m.fingerprint.digest, "generations", name] ++ rest)) ∧
    ∀ i' f', isLowerHexDigest f' = true → (i', f') ≠ (m.instanceId, m.fingerprint.digest) →
      ∀ rest, fs ([i', f'] ++ rest) = before ([i', f'] ++ rest) := by
  have shape := CheckpointManifest.Valid.of_validate valid
  have written : ∀ bytes, env.codec.encodeManifest m = some bytes →
      Written env.codec m m.instanceId m.fingerprint.digest bytes := fun bytes encoded =>
    ⟨valid, sound.lawful.manifest_roundtrip _ _ encoded, short bytes encoded⟩
  obtain ⟨returned, stopped⟩ := (commitSlots_holds env scratchPayloads storageLimitBytes shape
    (tree.below _)).ended fates (Files.Frame.refl _ _ before)
  rw [final] at returned stopped
  have new : ∀ committed, (commitSlots env m scratchPayloads storageLimitBytes).ended fates before =
      .returned committed → LoadsNew env m listing ready' millis' fs := by
    intro committed ended
    obtain ⟨manifestBytes, latestBytes, encoded, pointer, published⟩ := returned committed ended
    exact published.loadsNew sound (written _ encoded) encoded pointer ready' millis'
  have left : Stopped env m before fs := by
    by_cases ended : ∃ committed,
        (commitSlots env m scratchPayloads storageLimitBytes).ended fates before =
          .returned committed
    · obtain ⟨committed, ended⟩ := ended
      obtain ⟨manifestBytes, latestBytes, encoded, pointer, published⟩ := returned committed ended
      exact .inr ⟨manifestBytes, encoded, .inr ⟨latestBytes, pointer, published⟩⟩
    · exact stopped fun committed h => ended ⟨committed, h⟩
  refine ⟨?_, new, ?_, ?_, ?_⟩
  · have root := left.frame.made [] (by simp [ownDirs])
    rcases left with staged | ⟨manifestBytes, encoded, renamed | ⟨latestBytes, pointer, published⟩⟩
    · refine .inl (loadLatest_congr _ _ _ _ _ millis' shape.identifier shape.digest prepared
        prepared' root ?_)
      exact readLatest_unchanged shape.identifier shape.digest tree placed
        (staged.unchanged shape.digest)
    · have dir := renamed.made [] (by simp [ownDirs])
      rcases readLatest_added (written _ encoded) tree placed listed once renamed.free
        (renamed.unchanged shape.digest) (renamed.made _ (by simp [ownDirs]))
        (renamed.made _ (by simp [ownDirs])) renamed.complete with same | added
      · exact .inl (loadLatest_congr _ _ _ _ _ millis' shape.identifier shape.digest prepared
          prepared' root same)
      · refine .inr ⟨⟨manifestBytes, encoded, renamed.complete⟩, ?_⟩
        rw [loadLatest_dir _ _ _ _ _ _ dir]
        exact added
    · exact .inr (published.loadsNew sound (written _ encoded) encoded pointer ready' millis')
  · exact fun loaded h => loadLatest_verified _ _ _ _ _ _ shape.identifier shape.digest prepared' h
  · exact fun name uuid ne rest => other_generations shape.digest left.frame uuid ne rest
  · exact fun i' f' digest ne rest => other_fingerprints left.frame digest ne rest

/-! A store whose scratch directory holds the one payload of a manifest. -/

def sampleId : String := "00000000-0000-4000-8000-000000000001"

def sampleTime : String := "1970-01-01T00:00:00+00:00"

def sampleDigest (c : Char) : String := String.ofList (List.replicate 64 c)

def samplePayloadSha256 : String :=
  "039058c6f2c0cb492c533b0a4d14ef77cc0f78abccced5287d84a1a2011cfb81"

def sampleManifest : CheckpointManifest where
  schemaVersion := 1
  stateFormat := slotStateFormat
  generationId := sampleId
  instanceId := "main"
  fingerprint :=
    { algorithm := "sha256", digest := sampleDigest 'a', modelSha256 := sampleDigest 'b'
      engineSha256 := sampleDigest 'e', engineVersion := "b1", backend := "cpu" }
  createdAt := sampleTime
  slots := [⟨0, "slot-0.bin", 1, 3, samplePayloadSha256⟩]

def asciiLines (lines : List String) : List UInt8 :=
  ((lines.map String.toList).intersperse ['\n']).flatten.map fun c => UInt8.ofNat c.toNat

def sampleManifestBytes : List UInt8 := asciiLines
  ["\x7b", "  \"schemaVersion\": 1,", "  \"stateFormat\": \"llama.cpp-slot-state\",",
    "  \"generationId\": \"" ++ sampleId ++ "\",", "  \"instanceId\": \"main\",",
    "  \"fingerprint\": \x7b", "    \"algorithm\": \"sha256\",",
    "    \"digest\": \"" ++ sampleDigest 'a' ++ "\",",
    "    \"modelSha256\": \"" ++ sampleDigest 'b' ++ "\",",
    "    \"engineSha256\": \"" ++ sampleDigest 'e' ++ "\",", "    \"engineVersion\": \"b1\",",
    "    \"backend\": \"cpu\"", "  \x7d,", "  \"createdAt\": \"" ++ sampleTime ++ "\",",
    "  \"slots\": [", "    \x7b", "      \"id\": 0,", "      \"filename\": \"slot-0.bin\",",
    "      \"promptTokens\": 1,", "      \"bytes\": 3,",
    "      \"sha256\": \"" ++ samplePayloadSha256 ++ "\"", "    \x7d", "  ]", "\x7d"]

def samplePointer : LatestPointer where
  schemaVersion := 1
  generationId := sampleId
  manifestSha256 := "7f535c35766a407deb50e6e40a9397bb80c9f87b8c7682a3bada2a90336f727e"
  updatedAt := sampleTime

def samplePointerBytes : List UInt8 := asciiLines
  ["\x7b", "  \"schemaVersion\": 1,", "  \"generationId\": \"" ++ sampleId ++ "\",",
    "  \"manifestSha256\": \"" ++ samplePointer.manifestSha256 ++ "\",",
    "  \"updatedAt\": \"" ++ sampleTime ++ "\"", "\x7d"]

def sampleUsageBytes : List UInt8 := asciiLines
  ["\x7b", "  \"schemaVersion\": 1,", "  \"entries\": \x7b",
    "    \"" ++ sampleDigest 'a' ++ "/" ++ sampleId ++ "\": 0", "  \x7d", "\x7d"]

/-- A function with a value at one place. -/
def only {α β : Type} [DecidableEq α] (a : α) (b : β) (x : α) : Option β :=
  if x = a then some b else none

theorem only_eq_some {α β : Type} [DecidableEq α] {a x : α} {b y : β} (h : only a b x = some y) :
    x = a ∧ b = y := by
  obtain ⟨rfl, eq⟩ := Option.ite_none_right_eq_some.mp h
  exact ⟨rfl, Option.some.inj eq⟩

theorem only_inverse {α β : Type} [DecidableEq α] [DecidableEq β] {a x : α} {b y : β}
    (h : only a b x = some y) : only b a y = some x := by
  obtain ⟨rfl, rfl⟩ := only_eq_some h
  exact if_pos rfl

def sampleCodec : Codec where
  digest bytes :=
    if bytes = [1, 2, 3] then
    [0x03, 0x90, 0x58, 0xc6, 0xf2, 0xc0, 0xcb, 0x49, 0x2c, 0x53, 0x3b, 0x0a, 0x4d, 0x14, 0xef, 0x77,
    0xcc, 0x0f, 0x78, 0xab, 0xcc, 0xce, 0xd5, 0x28, 0x7d, 0x84, 0xa1, 0xa2, 0x01, 0x1c, 0xfb, 0x81]
    else if bytes = sampleManifestBytes then
    [0x7f, 0x53, 0x5c, 0x35, 0x76, 0x6a, 0x40, 0x7d, 0xeb, 0x50, 0xe6, 0xe4, 0x0a, 0x93, 0x97, 0xbb,
    0x80, 0xc9, 0xf8, 0x7b, 0x8c, 0x76, 0x82, 0xa3, 0xba, 0xda, 0x2a, 0x90, 0x33, 0x6f, 0x72, 0x7e]
    else List.replicate 32 0
  encodeManifest := only sampleManifest sampleManifestBytes
  decodeManifest := only sampleManifestBytes sampleManifest
  encodeLatest := only samplePointer samplePointerBytes
  decodeLatest := only samplePointerBytes samplePointer
  encodeUsage _ := some sampleUsageBytes
  decodeUsage := only sampleUsageBytes
    { entries := (∅ : Dict String Nat).insert (sampleDigest 'a' ++ "/" ++ sampleId) 0 }
  parseTime := only sampleTime 0

def sampleSetting : Setting where
  codec := sampleCodec
  ready := false
  now := sampleTime
  millis := 0
  injected _ := .io "injected fault"
  kept _ := false

def samplePayload : Path := ["main", "scratch", "slot-0-a.bin"]

def sampleEntries : List (Path × Node) :=
  [([], .dir), (["main"], .dir), (["main", "scratch"], .dir), (samplePayload, .file [1, 2, 3])]

def sampleStore : Files := Files.ofEntries sampleEntries

theorem sampleManifest_valid : sampleManifest.validate sampleCodec sampleManifest.instanceId
    sampleManifest.fingerprint.digest = .ok () := by
  decide +kernel

theorem sampleSetting_sound : sampleSetting.Sound where
  lawful :=
    { digest_length := by
        intro bytes
        change (if _ then _ else if _ then _ else _ : List UInt8).length = 32
        split_ifs <;> rfl
      manifest_roundtrip := fun _ _ h => only_inverse h
      latest_roundtrip := fun _ _ h => only_inverse h }
  now := by decide +kernel
  pointer_length_le := by
    intro m manifestBytes latestBytes _ h
    rw [← (only_eq_some h).2]
    decide +kernel

theorem sampleManifest_short : ∀ bytes, sampleCodec.encodeManifest sampleManifest = some bytes →
    bytes.length ≤ maxManifestBytes := by
  intro bytes h
  have h : only sampleManifest sampleManifestBytes sampleManifest = some bytes := h
  rw [← (only_eq_some h).2]
  decide +kernel

/-- The commit returns, so the generation is loaded. -/
theorem commit_atomic_sample : LoadsNew sampleSetting sampleManifest (fun _ => [sampleId]) false 0
    ((commitSlots sampleSetting sampleManifest [samplePayload] 4096).final Prog.calm
      sampleStore) := by
  have atomic := commit_atomic sampleSetting sampleSetting_sound sampleManifest sampleManifest_valid
    sampleManifest_short (fun _ => [sampleId]) (List.mem_singleton_self _)
    (List.nodup_singleton _) sampleStore (Files.tree_ofEntries (by decide +kernel))
    (fun _ => by decide +kernel) [samplePayload] 4096 Prog.calm _ rfl false false 0 0
    (fun h => (nomatch h)) (fun h => (nomatch h))
  exact atomic.2.1 ⟨sampleId, 3, 1⟩ (by decide +kernel)

/-- A pointer without a directory for its generations. -/
def strayStore : Files := Files.ofEntries
  (sampleEntries ++ [(["main", sampleDigest 'a'], .dir),
    (["main", sampleDigest 'a', "latest.json"], .file [])])

/-- A commit that dies after it made the directory brings the pointer to light: what
was no generation is an error now. -/
theorem stray_pointer :
    strayStore.Tree ∧
    (loadLatest sampleCodec (fun _ => [sampleId]) false 0 "main" (sampleDigest 'a')
      strayStore).2 = .ok none ∧
    (loadLatest sampleCodec (fun _ => [sampleId]) false 0 "main" (sampleDigest 'a')
      ((commitSlots sampleSetting sampleManifest [samplePayload] 4096).final
        (fun call => if call = 40 then .crashed else .done) strayStore)).2 =
      .error (.manifest "checkpoint latest pointer is malformed") :=
  ⟨Files.tree_ofEntries (by decide +kernel), by decide +kernel, by decide +kernel⟩

end Commit

end LlamaServerManager.Checkpoint
