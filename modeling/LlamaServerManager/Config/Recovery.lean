import LlamaServerManager.Config.Persistence
import LlamaServerManager.Lib.Calm

/-!
What becomes of the configuration when its file is damaged.

* `persist_final`, `load_final` — what an operation leaves on disk, wherever it stops.
* `Store`, `Event` — runs of persists, loads, crashes and damage, with what was put in the file.
* `recovers_iff` — both loaders find the last good configuration, unless the file is not text.
-/

namespace LlamaServerManager.Config

open Lib
open Lib.Prog (view lift raise attempt onError calmly Holds Meets)

/-! ### Texts and their bytes -/

theorem fromUTF8?_toUTF8 (text : String) : String.fromUTF8? text.toUTF8 = some text := by
  unfold String.fromUTF8?
  exact dif_pos text.isValidUTF8

theorem toUTF8_of_fromUTF8? {contents : ByteArray} {text : String}
    (read : String.fromUTF8? contents = some text) : contents = text.toUTF8 := by
  unfold String.fromUTF8? at read
  split at read
  · obtain rfl := Option.some.inj read
    rfl
  · cases read

theorem readToString_toUTF8 (text : String) : readToString (some text.toUTF8) = .ok text := by
  have decoded := fromUTF8?_toUTF8 text
  unfold readToString
  dsimp only
  rw [decoded]

theorem readToString_eq_ok {contents : Option ByteArray} {text : String}
    (read : readToString contents = .ok text) : contents = some text.toUTF8 := by
  unfold readToString at read
  split at read
  · cases read
  · rename_i bytes
    split at read
    · rename_i text' decoded
      obtain rfl := Except.ok.inj read
      rw [toUTF8_of_fromUTF8? decoded]
    · cases read

/-! ### File steps -/

section Steps

variable {α β : Type} {disk : Disk} {P S : Disk → Prop}

theorem pass_keeps {fault : String} (stop : ∀ t, P t → S t) :
    Holds P (pass fault) (fun _ => P) S := by
  apply Holds.call
  · intro s t before same
    obtain rfl := Except.ok.inj same
    exact before
  · exact stop
  · intro s t before same
    obtain rfl := Except.ok.inj same
    exact stop s before
  · exact stop

variable {contents : ByteArray}

theorem replacePathRaw_holds {slot : Slot} (before : S disk) (after : S (disk.put slot contents)) :
    Holds (· = disk) (replacePathRaw slot contents) (fun _ => (· = disk.put slot contents)) S := by
  apply Holds.call
  · rintro _ _ rfl same
    exact (Except.ok.inj same).symm
  · rintro _ rfl
    exact before
  · rintro _ _ rfl same
    obtain rfl := Except.ok.inj same
    exact after
  · rintro _ rfl
    exact before

theorem view_holds {f : Disk → α} {g : α → Persist β} {Q : β → Disk → Prop}
    (rest : Holds (· = disk) (g (f disk)) Q S) : Holds (· = disk) (view f >>= g) Q S := by
  intro fates n s start
  subst start
  exact rest fates n s rfl

theorem rotate_holds {slot : Slot} (before : S disk) (after : S (disk.put slot contents)) :
    Holds (· = disk) (rotate slot contents) (fun _ => (· = disk.put slot contents)) S := by
  have early : ∀ t, t = disk → S t := by
    rintro t rfl
    exact before
  have late : ∀ t, t = disk.put slot contents → S t := by
    rintro t rfl
    exact after
  unfold rotate
  refine .bind (pass_keeps early) fun _ => ?_
  refine .bind (pass_keeps early) fun _ => ?_
  refine .bind (pass_keeps early) fun _ => ?_
  refine .bind (replacePathRaw_holds before after) fun _ => ?_
  refine .bind (pass_keeps late) fun _ => ?_
  exact pass_keeps late

/-- The disk once the file's backup, if any, is in place. -/
def rotated (disk : Disk) (path : Slot) (backup : Option Slot) : Disk :=
  match backup with
  | none => disk
  | some slot =>
    match disk.get path with
    | none => disk
    | some current => disk.put slot current

theorem backUp_holds {path : Slot} {backup : Option Slot} (before : S disk)
    (after : S (rotated disk path backup)) :
    Holds (· = disk) (backUp disk path backup) (fun _ => (· = rotated disk path backup)) S := by
  have early : ∀ t, t = disk → S t := by
    rintro t rfl
    exact before
  unfold backUp
  unfold rotated at after ⊢
  cases backup with
  | none => exact .pure fun _ same => same
  | some slot =>
    cases old : disk.get path with
    | none => exact .pure fun _ same => same
    | some current =>
      rw [old] at after
      refine .bind (pass_keeps early) fun _ => ?_
      refine .bind (pass_keeps early) fun _ => ?_
      exact .onError (rotate_holds before after) (pass_keeps fun _ kept => kept)

theorem replaceFile_holds {path : Slot} {backup : Option Slot} (before : S disk)
    (between : S (rotated disk path backup))
    (after : S ((rotated disk path backup).put path contents)) :
    Holds (· = disk) (replaceFile path contents backup)
      (fun _ => (· = (rotated disk path backup).put path contents)) S := by
  have early : ∀ t, t = disk → S t := by
    rintro t rfl
    exact before
  have late : ∀ t, t = (rotated disk path backup).put path contents → S t := by
    rintro t rfl
    exact after
  unfold replaceFile
  refine .bind (pass_keeps early) fun _ => ?_
  refine .bind (pass_keeps early) fun _ => ?_
  refine .bind (pass_keeps early) fun _ => ?_
  refine .bind (pass_keeps early) fun _ => ?_
  refine .bind (pass_keeps early) fun _ => view_holds ?_
  refine .bind (backUp_holds before between) fun _ => ?_
  refine .bind (replacePathRaw_holds between after) fun _ => ?_
  refine .bind (pass_keeps late) fun _ => ?_
  exact pass_keeps late

/-- **`atomic_write`**, wherever it stops. -/
theorem atomicWrite_holds {path : Slot} {backup : Option Slot} (before : S disk)
    (between : S (rotated disk path backup))
    (after : S ((rotated disk path backup).put path contents)) :
    Holds (· = disk) (atomicWrite path contents backup)
      (fun _ => (· = (rotated disk path backup).put path contents)) S := by
  have early : ∀ t, t = disk → S t := by
    rintro t rfl
    exact before
  unfold atomicWrite
  refine .bind (pass_keeps early) fun _ => ?_
  refine .bind (pass_keeps early) fun _ => ?_
  refine .onError ?_ (pass_keeps fun _ kept => kept)
  refine .bind (pass_keeps early) fun _ => ?_
  refine .bind (pass_keeps early) fun _ => ?_
  refine .bind (pass_keeps early) fun _ => ?_
  refine .bind (pass_keeps early) fun _ => ?_
  refine .bind (pass_keeps early) fun _ => ?_
  exact replaceFile_holds before between after

end Steps

/-! ### What an operation leaves -/

section Operations

variable {R S O : Type} {setup : Setup R S O} {disk : Disk} {global : GlobalConfig R S O}
  {json : String}

theorem configOf_eq {contents : Option ByteArray} (read : readToString contents = .ok json) :
    configOf setup contents = (setup.decode json).toOption := by
  unfold configOf
  rw [read]
  rfl

/-- What a persist can leave on disk. -/
inductive PersistLeaves (setup : Setup R S O) (json : String) (disk : Disk) : Disk → Prop
  | nothing : PersistLeaves setup json disk disk
  | copied (same : disk.primary = some json.toUTF8) (absent : disk.backup = none) :
    PersistLeaves setup json disk { disk with backup := disk.primary }
  | rotated (changed : disk.primary ≠ some json.toUTF8)
    (valid : (configOf setup disk.primary).isSome = true) :
    PersistLeaves setup json disk { disk with backup := disk.primary }
  | replaced (changed : disk.primary ≠ some json.toUTF8)
    (valid : (configOf setup disk.primary).isSome = true) :
    PersistLeaves setup json disk ⟨some json.toUTF8, disk.primary⟩
  | written (changed : disk.primary ≠ some json.toUTF8)
    (damaged : configOf setup disk.primary = none) :
    PersistLeaves setup json disk { disk with primary := some json.toUTF8 }

theorem readToString_eq_some {contents : Option ByteArray} {text : String} :
    (readToString contents).toOption = some text ↔ contents = some text.toUTF8 := by
  constructor
  · intro read
    cases result : readToString contents with
    | error error =>
      rw [result] at read
      cases read
    | ok text' =>
      rw [result] at read
      obtain rfl := Option.some.inj read
      exact readToString_eq_ok result
  · rintro rfl
    rw [readToString_toUTF8]
    rfl

theorem backUpUnchanged_holds (same : disk.primary = some json.toUTF8) :
    Holds (· = disk) (backUpUnchanged disk) (fun _ => PersistLeaves setup json disk)
      (PersistLeaves setup json disk) := by
  unfold backUpUnchanged
  rw [same]
  cases absent : disk.backup with
  | some contents =>
    apply Holds.pure
    rintro _ rfl
    exact .nothing
  | none =>
    have copied : PersistLeaves setup json disk (disk.put .bak json.toUTF8) := by
      have leaves := @PersistLeaves.copied _ _ _ setup json disk same absent
      rw [same] at leaves
      unfold Disk.put
      rw [same]
      exact leaves
    refine (atomicWrite_holds .nothing .nothing copied).post ?_
    rintro _ t rfl
    exact copied

theorem write_holds (changed : disk.primary ≠ some json.toUTF8) :
    Holds (· = disk) (atomicWrite .json json.toUTF8
        (if (configOf setup disk.primary).isSome = true then some .bak else none))
      (fun _ => PersistLeaves setup json disk) (PersistLeaves setup json disk) := by
  cases valid : configOf setup disk.primary with
  | none =>
    have written := PersistLeaves.written changed valid
    refine (atomicWrite_holds .nothing .nothing written).post ?_
    rintro _ t rfl
    exact written
  | some config =>
    have valid : (configOf setup disk.primary).isSome = true := by rw [valid]; rfl
    have there : disk.primary ≠ none := by
      intro none_
      rw [none_] at valid
      cases valid
    obtain ⟨current, there⟩ := Option.ne_none_iff_exists'.mp there
    have eq : rotated disk .json (some .bak) = { disk with backup := disk.primary } := by
      simp [rotated, Disk.get, Disk.put, there]
    have between := PersistLeaves.rotated changed valid
    have after := PersistLeaves.replaced changed valid
    have final : PersistLeaves setup json disk
        ((rotated disk .json (some .bak)).put .json json.toUTF8) := by
      rw [eq]
      exact after
    refine (atomicWrite_holds .nothing (eq ▸ between) final).post ?_
    rintro _ t rfl
    exact final

/-- **A persist**, wherever it stops. -/
theorem persist_final (encoded : setup.encode global = .ok json) (fates : Nat → Fate) :
    PersistLeaves setup json disk
      ((persistGlobalConfigUnlocked setup global).final fates disk) := by
  have held : Holds (· = disk) (persistGlobalConfigUnlocked setup global)
      (fun _ => PersistLeaves setup json disk) (PersistLeaves setup json disk) := by
    have keeps : ∀ t, t = disk → PersistLeaves setup json disk t := by
      rintro t rfl
      exact .nothing
    unfold persistGlobalConfigUnlocked
    rw [encoded]
    refine .bind (.lift keeps) fun json' => .assume fun same => ?_
    obtain rfl := Except.ok.inj same
    refine view_holds ?_
    split
    · rename_i read
      have same := readToString_eq_some.mp read
      refine .bind (backUpUnchanged_holds same) fun _ => ?_
      exact .pure fun _ leaves => leaves
    · rename_i read
      have changed : disk.primary ≠ some json.toUTF8 := fun same =>
        read (readToString_eq_some.mpr same)
      refine .bind (.attempt (write_holds changed)) fun written => ?_
      cases written with
      | ok _ => exact .pure fun _ leaves => leaves
      | error error => exact .raise fun _ leaves => leaves
  exact held.final fates rfl (fun _ _ leaves => leaves) fun _ leaves => leaves

/-- A persist of what cannot be written as JSON. -/
theorem persist_error {error : String} (failed : setup.encode global = .error error)
    (fates : Nat → Fate) :
    (persistGlobalConfigUnlocked setup global).final fates disk = disk := by
  unfold persistGlobalConfigUnlocked
  rw [failed]
  rfl

/-- **A load for an update**, wherever it stops. -/
theorem load_final (fates : Nat → Fate) :
    (loadGlobalConfigForUpdateUnlocked setup).final fates disk = disk ∨
      configOf setup disk.primary = none ∧ (configOf setup disk.backup).isSome = true ∧
        (loadGlobalConfigForUpdateUnlocked setup).final fates disk =
          { disk with primary := disk.backup } := by
  set Left : Disk → Prop := fun t => t = disk ∨ configOf setup disk.primary = none ∧
    (configOf setup disk.backup).isSome = true ∧ t = { disk with primary := disk.backup }
  have held : Holds (· = disk) (loadGlobalConfigForUpdateUnlocked setup) (fun _ => Left) Left := by
    have keeps : ∀ t, t = disk → Left t := fun _ same => .inl same
    unfold loadGlobalConfigForUpdateUnlocked
    refine view_holds ?_
    split
    · exact .pure keeps
    · rename_i damaged
      split
      · rename_i contents read
        have read : readToString disk.backup = .ok contents := read
        refine .bind (.lift keeps) fun config => .assume fun decoded => ?_
        have valid : (configOf setup disk.backup).isSome = true := by
          cases result : setup.decode contents with
          | error error =>
            rw [result] at decoded
            cases decoded
          | ok config =>
            rw [configOf_eq read, result]
            rfl
        have repaired : Left (disk.put .json contents.toUTF8) := by
          refine .inr ⟨damaged, valid, ?_⟩
          show Disk.mk (some contents.toUTF8) disk.backup = ⟨disk.backup, disk.backup⟩
          rw [readToString_eq_ok read]
        have write : Holds (· = disk) (atomicWrite .json contents.toUTF8 none)
            (fun _ => Left) Left := by
          refine (atomicWrite_holds (.inl rfl) (.inl rfl) repaired).post ?_
          rintro _ t rfl
          exact repaired
        refine .bind (.attempt write) fun written => ?_
        cases written with
        | ok _ => exact .pure fun _ leaves => leaves
        | error error => exact .raise fun _ leaves => leaves
      · split
        · exact .pure keeps
        · exact .raise keeps
        · exact .raise keeps
  exact held.final fates rfl (fun _ _ leaves => leaves) fun _ leaves => leaves

end Operations

/-! ### Runs -/

/-- The disk, with what is known of its past: the configuration put in the file last, those that
were there when a write of other content began, and whether the file was damaged since. -/
structure Store (R S O : Type) where
  disk : Disk
  current : Option (GlobalConfig R S O)
  begun : List (GlobalConfig R S O)
  damaged : Bool

/-- What happens between two states; a replacement by a configuration counts as a write. -/
inductive Event (R S O : Type) where
  | persist (global : GlobalConfig R S O) (fates : Nat → Fate)
  | load (fates : Nat → Fate)
  | replace (contents : ByteArray)
  | delete

section Runs

variable {R S O : Type} (setup : Setup R S O)

namespace Store

def start : Store R S O := ⟨⟨none, none⟩, none, [], false⟩

/-- Other content is about to be written. -/
def begin_ (store : Store R S O) : Store R S O :=
  { store with begun := store.current.toList ++ store.begun }

/-- A configuration is put in the file. -/
def put (store : Store R S O) (config : GlobalConfig R S O) : Store R S O :=
  { store.begin_ with current := some config, damaged := false }

def persisted (store : Store R S O) (global : GlobalConfig R S O) (fates : Nat → Fate)
    (json : String) : Store R S O :=
  let disk := (persistGlobalConfigUnlocked setup global).final fates store.disk
  if store.disk.primary = some json.toUTF8 then { store with disk }
  else if disk.primary = some json.toUTF8 then
    { store.put { global with configLoadWarning := none } with disk }
  else { store.begin_ with disk }

def loaded (store : Store R S O) (fates : Nat → Fate) : Store R S O :=
  let disk := (loadGlobalConfigForUpdateUnlocked setup).final fates store.disk
  match configOf setup store.disk.backup with
  | some config =>
    if disk.primary = store.disk.primary then { store with disk }
    else { store.put config with disk }
  | none => { store with disk }

def replaced (store : Store R S O) (contents : ByteArray) : Store R S O :=
  let disk := { store.disk with primary := some contents }
  match configOf setup (some contents) with
  | some config => { store.put config with disk }
  | none => { store with disk, damaged := true }

def next (store : Store R S O) : Event R S O → Store R S O
  | .persist global fates =>
    match setup.encode global with
    | .ok json => store.persisted setup global fates json
    | .error _ => { store with
        disk := (persistGlobalConfigUnlocked setup global).final fates store.disk }
  | .load fates => store.loaded setup fates
  | .replace contents => store.replaced setup contents
  | .delete => { store with disk := { store.disk with primary := none }, damaged := true }

/-- The store after some events. -/
def run (events : List (Event R S O)) : Store R S O := events.foldl (next setup) start

end Store

/-- What every state of a run keeps. -/
structure Kept (store : Store R S O) : Prop where
  /-- An undamaged file holds the configuration that was put there last. -/
  primary : configOf setup store.disk.primary = if store.damaged then none else store.current
  backup : ∀ contents, store.disk.backup = some contents →
    ∃ config, configOf setup (some contents) = some config ∧
      (store.current = some config ∨ config ∈ store.begun)
  begun : store.current = none → store.begun = []

variable {setup} {store : Store R S O}

variable {config : GlobalConfig R S O}

theorem Kept.valid (kept : Kept setup store)
    (valid : configOf setup store.disk.primary = some config) :
    store.damaged = false ∧ store.current = some config := by
  have primary := kept.primary
  rw [valid] at primary
  cases damaged : store.damaged with
  | true =>
    rw [damaged] at primary
    cases primary
  | false =>
    rw [damaged] at primary
    exact ⟨rfl, primary.symm⟩

theorem kept_start : Kept setup (Store.start : Store R S O) where
  primary := rfl
  backup _ none_ := by cases none_
  begun _ := rfl

theorem mem_begin (known : store.current = some config ∨
    config ∈ store.begun) : config ∈ store.begin_.begun := by
  apply List.mem_append.mpr
  rcases known with current | begun
  · exact .inl (by simp [current])
  · exact .inr begun

/-- The backup goes on being one that was there. -/
theorem Kept.known_put (kept : Kept setup store) {contents : ByteArray}
    (there : store.disk.backup = some contents) (config : GlobalConfig R S O) :
    ∃ old, configOf setup (some contents) = some old ∧
      ((store.put config).current = some old ∨ old ∈ (store.put config).begun) := by
  obtain ⟨old, valid, known⟩ := kept.backup contents there
  exact ⟨old, valid, .inr (mem_begin known)⟩

theorem Kept.persisted (kept : Kept setup store) {global : GlobalConfig R S O} {json : String}
    (encoded : setup.encode global = .ok json) (fates : Nat → Fate) :
    Kept setup (store.persisted setup global fates json) := by
  have leaves := @persist_final _ _ _ _ store.disk _ _ encoded fates
  have decoded := @configOf_eq _ _ _ setup _ _ (readToString_toUTF8 json)
  rw [setup.decode_encode encoded] at decoded
  unfold Store.persisted
  generalize (persistGlobalConfigUnlocked setup global).final fates store.disk = disk at leaves ⊢
  have begun : store.begin_.current = none → store.begin_.begun = [] := by
    intro none_
    have none_ : store.current = none := none_
    simp [Store.begin_, none_, kept.begun none_]
  dsimp only
  split
  · rename_i same
    cases leaves with
    | nothing => exact kept
    | copied _ absent =>
      refine ⟨kept.primary, fun contents there => ?_, kept.begun⟩
      have there : store.disk.primary = some contents := there
      rw [same] at there
      obtain rfl := Option.some.inj there
      obtain ⟨-, current⟩ := kept.valid (same ▸ decoded)
      exact ⟨_, decoded, .inl current⟩
    | rotated changed _ => exact absurd same changed
    | replaced changed _ => exact absurd same changed
    | written changed _ => exact absurd same changed
  · rename_i changed
    split
    · rename_i written
      refine ⟨?_, fun contents there => ?_, fun none_ => (nomatch none_)⟩
      · dsimp only
        rw [written]
        exact decoded
      · cases leaves with
        | nothing => exact absurd written changed
        | copied same _ => exact absurd same changed
        | rotated _ _ => exact absurd written changed
        | replaced _ valid =>
          have there : store.disk.primary = some contents := there
          obtain ⟨config, valid⟩ := Option.isSome_iff_exists.mp valid
          obtain ⟨-, current⟩ := kept.valid valid
          rw [there] at valid
          exact ⟨config, valid, .inr (mem_begin (.inl current))⟩
        | written _ _ => exact kept.known_put there _
    · rename_i unwritten
      cases leaves with
      | nothing =>
        refine ⟨kept.primary, fun contents there => ?_, begun⟩
        obtain ⟨old, valid, known⟩ := kept.backup contents there
        exact ⟨old, valid, .inr (mem_begin known)⟩
      | copied same _ => exact absurd same changed
      | rotated _ valid =>
        refine ⟨kept.primary, fun contents there => ?_, begun⟩
        have there : store.disk.primary = some contents := there
        obtain ⟨config, valid⟩ := Option.isSome_iff_exists.mp valid
        obtain ⟨-, current⟩ := kept.valid valid
        rw [there] at valid
        exact ⟨config, valid, .inl current⟩
      | replaced _ _ => exact absurd rfl unwritten
      | written _ _ => exact absurd rfl unwritten

theorem Kept.loaded (kept : Kept setup store) (fates : Nat → Fate) :
    Kept setup (store.loaded setup fates) := by
  have leaves := @load_final _ _ _ setup store.disk fates
  unfold Store.loaded
  generalize (loadGlobalConfigForUpdateUnlocked setup).final fates store.disk = disk at leaves ⊢
  dsimp only
  obtain rfl | ⟨damaged, valid, rfl⟩ := leaves
  · split
    · rw [if_pos rfl]
      exact kept
    · exact kept
  · obtain ⟨config, valid⟩ := Option.isSome_iff_exists.mp valid
    rw [valid]
    dsimp only
    rw [if_neg]
    · refine ⟨valid, fun contents there => ?_, fun none_ => (nomatch none_)⟩
      exact kept.known_put there config
    · intro same
      rw [← same, valid] at damaged
      cases damaged

theorem next_persist {global : GlobalConfig R S O} {json : String}
    (encoded : setup.encode global = .ok json) (fates : Nat → Fate) :
    store.next setup (.persist global fates) = store.persisted setup global fates json := by
  rw [Store.next, encoded]

/-- **Each event** keeps it. -/
theorem Kept.next (kept : Kept setup store) (event : Event R S O) :
    Kept setup (store.next setup event) := by
  cases event with
  | persist global fates =>
    cases encoded : setup.encode global with
    | error error =>
      have same := @persist_error _ _ _ _ store.disk _ _ encoded fates
      have eq : store.next setup (.persist global fates) = store := by
        rw [Store.next, encoded]
        dsimp only
        rw [same]
      rwa [eq]
    | ok json =>
      rw [next_persist encoded]
      exact kept.persisted encoded fates
  | load fates => exact kept.loaded fates
  | replace contents =>
    show Kept setup (store.replaced setup contents)
    unfold Store.replaced
    dsimp only
    split
    · rename_i config valid
      exact ⟨valid, fun _ there => kept.known_put there config, fun none_ => (nomatch none_)⟩
    · rename_i invalid
      exact ⟨invalid, kept.backup, kept.begun⟩
  | delete => exact ⟨rfl, kept.backup, kept.begun⟩

/-- **Every run** keeps it. -/
theorem kept_run (events : List (Event R S O)) : Kept setup (Store.run setup events) := by
  unfold Store.run
  induction events using List.reverseRecOn with
  | nil => exact kept_start
  | append_singleton events event ih =>
    rw [List.foldl_append]
    exact ih.next event

/-! ### The loaders -/

/-- A configuration apart from its warning. -/
def GlobalConfig.quiet (config : GlobalConfig R S O) : GlobalConfig R S O :=
  { config with configLoadWarning := none }

theorem atomicWrite_calm (contents : ByteArray) (n : Nat) (disk : Disk) :
    atomicWrite .json contents none Prog.calm n disk =
      (.returned (), n + 15, disk.put .json contents) := rfl

variable {disk : Disk}

theorem load_of_valid (valid : configOf setup disk.primary = some config) :
    calmly (loadGlobalConfigForUpdateUnlocked setup) disk =
      some (.ok (normalizeLoaded setup config), disk) := by
  have run : loadGlobalConfigForUpdateUnlocked setup Prog.calm 0 disk =
      (.returned (normalizeLoaded setup config), 0, disk) := by
    unfold loadGlobalConfigForUpdateUnlocked
    rw [Prog.view_bind]
    dsimp only [id]
    rw [valid]
    rfl
  unfold calmly
  rw [run]

theorem exists_decode {contents : Option ByteArray}
    (valid : configOf setup contents = some config) :
    ∃ json, readToString contents = .ok json ∧ setup.decode json = .ok config := by
  unfold configOf at valid
  obtain ⟨json, read, decoded⟩ := Option.bind_eq_some_iff.mp valid
  refine ⟨json, ?_, ?_⟩
  · cases result : readToString contents with
    | error error =>
      rw [result] at read
      cases read
    | ok text =>
      rw [result] at read
      exact congrArg Except.ok (Option.some.inj read)
  · cases result : setup.decode json with
    | error error =>
      rw [result] at decoded
      cases decoded
    | ok found =>
      rw [result] at decoded
      exact congrArg Except.ok (Option.some.inj decoded)

theorem load_of_damaged (damaged : configOf setup disk.primary = none)
    (valid : configOf setup disk.backup = some config) :
    calmly (loadGlobalConfigForUpdateUnlocked setup) disk =
      some (.ok (normalizeLoaded setup config), { disk with primary := disk.backup }) := by
  obtain ⟨json, read, decoded⟩ := exists_decode valid
  have run : loadGlobalConfigForUpdateUnlocked setup Prog.calm 0 disk =
      (.returned (normalizeLoaded setup config), 15, disk.put .json json.toUTF8) := by
    unfold loadGlobalConfigForUpdateUnlocked
    rw [Prog.view_bind]
    dsimp only [id]
    rw [damaged]
    dsimp only
    rw [read]
    dsimp only
    rw [Prog.lift_bind, decoded]
    exact Prog.bind_of_returned (Prog.attempt_of_returned (atomicWrite_calm _ 0 disk))
  have there : disk.put .json json.toUTF8 = { disk with primary := disk.backup } := by
    show Disk.mk (some json.toUTF8) disk.backup = ⟨disk.backup, disk.backup⟩
    rw [readToString_eq_ok read]
  unfold calmly
  rw [run, ← there]

theorem loadFile_of_valid (valid : configOf setup disk.primary = some config) :
    loadGlobalConfigFile setup disk = normalizeLoaded setup config := by
  obtain ⟨json, read, decoded⟩ := exists_decode valid
  unfold loadGlobalConfigFile
  rw [read]
  dsimp only
  rw [decoded]

/-- A damaged file that is text, or none, is as good as its backup. -/
theorem loadFile_of_damaged (damaged : configOf setup disk.primary = none)
    (valid : configOf setup disk.backup = some config)
    (text : readToString disk.primary ≠ .error .invalidData) :
    (loadGlobalConfigFile setup disk).quiet = (normalizeLoaded setup config).quiet := by
  unfold loadGlobalConfigFile
  split
  · rename_i json read
    split
    · rename_i found decoded
      rw [configOf_eq read, decoded] at damaged
      cases damaged
    · rw [valid]
      rfl
  · rw [valid]
    rfl
  · rename_i error other read
    cases error with
    | notFound => exact absurd rfl other
    | invalidData => exact absurd read text

/-- Bytes that are no text are as good as no configuration at all. -/
theorem loadFile_of_invalidData (invalid : readToString disk.primary = .error .invalidData) :
    (loadGlobalConfigFile setup disk).quiet =
      (normalizeLoaded setup (defaultGlobalConfig setup)).quiet := by
  unfold loadGlobalConfigFile
  rw [invalid]
  rfl

/-! ### Recovery -/

/-- The last good configuration is found. -/
structure Recovers (setup : Setup R S O) (store : Store R S O) : Prop where
  /-- The backup was the current configuration when a later write began, or still is. -/
  backup : ∃ config, configOf setup store.disk.backup = some config ∧
    (store.current = some config ∨ config ∈ store.begun)
  /-- Both loaders return what was put in the file last, or the backup of a damaged file. -/
  loaders : ∃ config, (if store.damaged then configOf setup store.disk.backup
      else store.current) = some config ∧
    (∃ loaded disk, calmly (loadGlobalConfigForUpdateUnlocked setup) store.disk =
      some (.ok loaded, disk) ∧ loaded.quiet = (normalizeLoaded setup config).quiet) ∧
    (loadGlobalConfigFile setup store.disk).quiet = (normalizeLoaded setup config).quiet
  /-- A damaged file does not become the backup. -/
  rotation : ∀ global fates, configOf setup store.disk.primary = none →
    ((persistGlobalConfigUnlocked setup global).final fates store.disk).backup = store.disk.backup

theorem persist_keeps_backup {contents : ByteArray} (there : disk.backup = some contents)
    (damaged : configOf setup disk.primary = none) (global : GlobalConfig R S O)
    (fates : Nat → Fate) :
    ((persistGlobalConfigUnlocked setup global).final fates disk).backup = disk.backup := by
  cases encoded : setup.encode global with
  | error error => rw [persist_error encoded]
  | ok json =>
    have leaves := @persist_final _ _ _ _ disk _ _ encoded fates
    generalize (persistGlobalConfigUnlocked setup global).final fates disk = disk' at leaves ⊢
    cases leaves with
    | nothing => rfl
    | copied _ absent =>
      rw [absent] at there
      cases there
    | rotated _ valid =>
      rw [damaged] at valid
      cases valid
    | replaced _ valid =>
      rw [damaged] at valid
      cases valid
    | written _ _ => rfl

/-- **Recovery**: in every state of every run that has a backup, the last good
configuration is found, unless the file holds bytes that are no text and the backup is
not the default. Reading such bytes fails with `InvalidData`, which is taken for any
other failure to read: the loader then starts from the default and never comes to the
backup. -/
theorem recovers_iff (events : List (Event R S O)) {contents : ByteArray}
    (there : (Store.run setup events).disk.backup = some contents) :
    Recovers setup (Store.run setup events) ↔
      (readToString (Store.run setup events).disk.primary = .error .invalidData →
        ∀ config, configOf setup (some contents) = some config →
          (normalizeLoaded setup (defaultGlobalConfig setup)).quiet =
            (normalizeLoaded setup config).quiet) := by
  have kept := @kept_run _ _ _ setup events
  generalize Store.run setup events = store at there kept ⊢
  obtain ⟨backup, valid, known⟩ := kept.backup contents there
  have valid' : configOf setup store.disk.backup = some backup := by rw [there, valid]
  constructor
  · intro recovers invalid config same
    have damaged : configOf setup store.disk.primary = none := by
      unfold configOf
      rw [invalid]
      rfl
    obtain ⟨trusted, which, -, file⟩ := recovers.loaders
    have flag : store.damaged = true := by
      by_contra fine
      rw [if_neg fine] at which
      have primary := kept.primary
      rw [if_neg fine, damaged, which] at primary
      cases primary
    rw [if_pos flag, there, same] at which
    obtain rfl := Option.some.inj which
    rw [← file, loadFile_of_invalidData invalid]
  · intro text
    have primary := kept.primary
    refine ⟨⟨backup, valid', known⟩, ?_, fun global fates damaged =>
      persist_keeps_backup there damaged global fates⟩
    cases damaged : store.damaged with
    | true =>
      rw [damaged, if_pos rfl] at primary
      refine ⟨backup, by rw [if_pos rfl, valid'], ⟨_, _, load_of_damaged primary valid', rfl⟩, ?_⟩
      by_cases invalid : readToString store.disk.primary = .error .invalidData
      · rw [loadFile_of_invalidData invalid]
        exact text invalid backup valid
      · exact loadFile_of_damaged primary valid' invalid
    | false =>
      rw [damaged, if_neg (by simp)] at primary
      have some_ : store.current ≠ none := by
        intro none_
        rcases known with current | begun
        · rw [none_] at current
          cases current
        · rw [kept.begun none_] at begun
          cases begun
      obtain ⟨current, eq⟩ := Option.ne_none_iff_exists'.mp some_
      rw [eq] at primary
      refine ⟨current, by rw [if_neg (by simp), eq], ⟨_, _, load_of_valid primary, rfl⟩, ?_⟩
      rw [loadFile_of_valid primary]

end Runs

/-! ### One directory of engines -/

/-- What is written of the configuration below. -/
def shownJson : String :=
  "\x7b\n  \"dark_mode\": true,\n  \"default_engine_id\": \"\",\n" ++
  "  \"download_bandwidth_limit_bytes_per_sec\": 0,\n" ++
  "  \"download_low_priority_throttle\": false,\n  \"download_max_concurrent\": 1,\n" ++
  "  \"download_resume_policy\": \"manual\",\n  \"engine_dirs\": [\n    \"/opt/engines\"\n  ],\n" ++
  "  \"engine_names\": \x7b\x7d,\n  \"instance_order\": [],\n  \"instances\": \x7b\x7d,\n" ++
  "  \"last_tab\": \"model-repo\",\n  \"model_dirs\": [\n    \"models\"\n  ],\n" ++
  "  \"proxy_config\": \x7b\n    \"api_keys\": [],\n    \"background_service_mode\": false,\n" ++
  "    \"connect_timeout_ms\": 5000,\n    \"cors_allowed_origins\": [],\n" ++
  "    \"default_instance_id\": \"\",\n    \"enabled\": false,\n" ++
  "    \"fair_queue_enabled\": false,\n    \"health_check_interval_ms\": 5000,\n" ++
  "    \"health_check_timeout_ms\": 2000,\n    \"host\": \"127.0.0.1\",\n" ++
  "    \"max_concurrent_requests\": 64,\n    \"port\": 11435,\n    \"queue_timeout_ms\": 1000,\n" ++
  "    \"recovery_cooldown_ms\": 15000,\n    \"requests_per_minute\": 0,\n    \"routes\": [],\n" ++
  "    \"routing_strategy\": \"priorityFailover\",\n    \"runtime_service_enabled\": false,\n" ++
  "    \"streaming_idle_timeout_ms\": 300000,\n    \"strict_model_routing\": true,\n" ++
  "    \"timeout_ms\": 600000,\n    \"unhealthy_threshold\": 3\n  \x7d,\n" ++
  "  \"running\": \x7b\x7d\n\x7d"

/-- The default configuration with one directory of engines; it has no instances. -/
def shown : GlobalConfig Empty Empty Unit where
  configLoadWarning := none
  instances _ := none
  modelDirs := ["models".toList]
  engineDirs := ["/opt/engines".toList]
  running _ := none
  rest := ()

theorem eq_shown (config : GlobalConfig Empty Empty Unit)
    (dirs : config.modelDirs = shown.modelDirs ∧ config.engineDirs = shown.engineDirs) :
    shown = { config with configLoadWarning := none } := by
  obtain ⟨warning, instances, modelDirs, engineDirs, running, rest⟩ := config
  obtain ⟨rfl, rfl⟩ := dirs
  have noInstances : instances = fun _ => none := by
    funext id
    cases found : instances id with
    | none => rfl
    | some config => exact config.rest.elim
  have noneRunning : running = fun _ => none := by
    funext id
    cases found : running id with
    | none => rfl
    | some running => exact running.rest.elim
  rw [noInstances, noneRunning]
  rfl

def shownSetup : Setup Empty Empty Unit where
  host := {
    windows := false
    toLowercase := id
    canonicalize := some
    canonicalize_canonicalize real := by cases real; rfl
    isAbsolute path := ['/'].isPrefixOf path
    join base path := base ++ '/' :: path
    parent _ := none
    fileName path := some path
    workingDirectory := ['/']
    currentDirFault := none
    metadata _ := .error "No such file or directory (os error 2)"
    readToString _ := .error "No such file or directory (os error 2)" }
  defaults := ()
  encode config :=
    if config.modelDirs = shown.modelDirs ∧ config.engineDirs = shown.engineDirs then .ok shownJson
    else .error "key must be a string"
  decode json := if json = shownJson then .ok shown else .error "expected value at line 1 column 1"
  decode_encode := by
    intro config json encoded
    split at encoded
    · rename_i dirs
      obtain rfl := Except.ok.inj encoded
      rw [if_pos rfl, eq_shown config dirs]
    · cases encoded

theorem shown_encoded : shownSetup.encode shown = .ok shownJson := rfl

theorem persist_first {R S O : Type} {setup : Setup R S O} {global : GlobalConfig R S O}
    {json : String} (encoded : setup.encode global = .ok json) :
    (persistGlobalConfigUnlocked setup global).final Prog.calm ⟨none, none⟩ =
      ⟨some json.toUTF8, none⟩ := by
  have run : persistGlobalConfigUnlocked setup global Prog.calm 0 ⟨none, none⟩ =
      (.returned true, 15, ⟨some json.toUTF8, none⟩) := by
    unfold persistGlobalConfigUnlocked
    rw [encoded]
    rfl
  unfold Prog.final
  rw [run]

theorem persist_again {R S O : Type} {setup : Setup R S O} {global : GlobalConfig R S O}
    {json : String} (encoded : setup.encode global = .ok json) :
    (persistGlobalConfigUnlocked setup global).final Prog.calm ⟨some json.toUTF8, none⟩ =
      ⟨some json.toUTF8, some json.toUTF8⟩ := by
  have run : persistGlobalConfigUnlocked setup global Prog.calm 0 ⟨some json.toUTF8, none⟩ =
      (.returned false, 15, ⟨some json.toUTF8, some json.toUTF8⟩) := by
    unfold persistGlobalConfigUnlocked
    rw [encoded, Prog.lift_bind]
    dsimp only [Except.mapError]
    rw [Prog.view_bind]
    dsimp only [id]
    rw [if_pos (readToString_eq_some.mpr rfl)]
    rfl
  unfold Prog.final
  rw [run]

/-- A configuration is persisted twice, so that it has a backup. -/
def shownTwice : List (Event Empty Empty Unit) :=
  [.persist shown Prog.calm, .persist shown Prog.calm]

theorem run_shownTwice : Store.run shownSetup shownTwice =
    ⟨⟨some shownJson.toUTF8, some shownJson.toUTF8⟩, some shown, [], false⟩ := by
  have first := persist_first shown_encoded
  have again := persist_again shown_encoded
  have start : (Store.start : Store Empty Empty Unit).disk = ⟨none, none⟩ := rfl
  unfold Store.run shownTwice
  rw [List.foldl_cons, List.foldl_cons, List.foldl_nil, next_persist shown_encoded,
    next_persist shown_encoded]
  have one : Store.persisted shownSetup Store.start shown Prog.calm shownJson =
      ⟨⟨some shownJson.toUTF8, none⟩, some shown, [], false⟩ := by
    unfold Store.persisted
    rw [start, first]
    dsimp only
    rw [if_neg (by simp), if_pos rfl]
    rfl
  rw [one]
  unfold Store.persisted
  dsimp only
  rw [again, if_pos rfl]

theorem shown_configOf : configOf shownSetup (some shownJson.toUTF8) = some shown := by
  rw [configOf_eq (readToString_toUTF8 shownJson), shownSetup.decode_encode shown_encoded]
  rfl

/-- The file is deleted. -/
theorem recovers_deleted :
    Recovers shownSetup (Store.run shownSetup (shownTwice ++ [.delete])) := by
  have run : Store.run shownSetup (shownTwice ++ [.delete]) =
      ⟨⟨none, some shownJson.toUTF8⟩, some shown, [], true⟩ := by
    have twice := run_shownTwice
    unfold Store.run at twice ⊢
    rw [List.foldl_append, twice, List.foldl_cons, List.foldl_nil, Store.next]
  have backup : (Store.run shownSetup (shownTwice ++ [.delete])).disk.backup =
      some shownJson.toUTF8 := by rw [run]
  refine (recovers_iff _ backup).mpr fun invalid => ?_
  rw [run] at invalid
  cases invalid

/-- The file is overwritten by a byte that is no text. -/
theorem invalid_lost :
    let store := Store.run shownSetup (shownTwice ++ [.replace ⟨#[0xff]⟩])
    (loadGlobalConfigFile shownSetup store.disk).engineDirs = [] ∧
      (∃ loaded disk, calmly (loadGlobalConfigForUpdateUnlocked shownSetup) store.disk =
        some (.ok loaded, disk) ∧ loaded.engineDirs = ["/opt/engines".toList]) ∧
      ¬Recovers shownSetup store := by
  have invalid : readToString (some ⟨#[0xff]⟩) = .error .invalidData := by decide +kernel
  have damaged : configOf shownSetup (some ⟨#[0xff]⟩) = none := by
    unfold configOf
    rw [invalid]
    rfl
  have run : Store.run shownSetup (shownTwice ++ [.replace ⟨#[0xff]⟩]) =
      ⟨⟨some ⟨#[0xff]⟩, some shownJson.toUTF8⟩, some shown, [], true⟩ := by
    have twice := run_shownTwice
    unfold Store.run at twice ⊢
    rw [List.foldl_append, twice, List.foldl_cons, List.foldl_nil, Store.next, Store.replaced,
      damaged]
  intro store
  rw [show store = _ from run]
  have file := @loadFile_of_invalidData _ _ _ shownSetup
    ⟨some ⟨#[0xff]⟩, some shownJson.toUTF8⟩ invalid
  have none_ : (loadGlobalConfigFile shownSetup
      ⟨some ⟨#[0xff]⟩, some shownJson.toUTF8⟩).engineDirs = [] :=
    congrArg GlobalConfig.engineDirs file
  refine ⟨none_, ⟨_, _, load_of_damaged damaged shown_configOf, rfl⟩, fun recovers => ?_⟩
  obtain ⟨config, which, -, same⟩ := recovers.loaders
  rw [if_pos rfl, shown_configOf] at which
  obtain rfl := Option.some.inj which
  have dirs := congrArg GlobalConfig.engineDirs same
  have dirs : [] = ["/opt/engines".toList] := none_.symm.trans dirs
  cases dirs

end LlamaServerManager.Config
