import LlamaServerManager.Downloads.Ownership
import Mathlib.Tactic.Push
import Mathlib.Tactic.SplitIfs

/-!
The operations on download files, evaluated: what each leaves when the process
dies at a given step of it.
-/

namespace LlamaServerManager.Downloads

open Lib
open Lib.Prog (view effect lift require raise attempt crashAt)

variable {d e : Disk} {task : Task} {path : Entry} {references : References}
  {crash : Option Nat}

/-! ### When the operations do what they promise -/

/-- The task may write at `path`. -/
def Disk.Free (d : Disk) (task : Task) (path : Entry) : Prop :=
  (d.dir path).isSome → d.owns task path

instance (d : Disk) (task : Task) (path : Entry) : Decidable (d.Free task path) :=
  inferInstanceAs (Decidable (_ → _))

/-- How many files `claim` creates before it writes the ledger or cleans up. -/
def Disk.claimCreates (d : Disk) (references : References) (task : Task)
    (finalPath temp metadata : Entry) : Nat :=
  if ¬ (checkReferences references finalPath).isOk ∨ ¬ d.Free task finalPath ∨ ¬ d.Free task temp
  then 0
  else if (d.dir temp).isSome then if (d.dir metadata).isSome then 0 else 1
  else if metadata = temp ∨ (d.dir metadata).isSome then 1 else 2

/-- The steps that keep the ledger in agreement with the directory:
`claim` and `open_partial` do not die between a creation and the ledger write or
clean-up for it, and what `replace` and `record` write to the ledger is the
task's own. -/
def Step.Accountable (d : Disk) : Step → Prop
  | .own task (.claim references finalPath temp metadata) crash =>
    ∀ k, crash = some k → 0 < k →
      d.claimCreates references task (.leaf finalPath) (.leaf temp) (.leaf metadata) < k
  | .own _ (.openPartial path _) crash => crash = some 1 → (d.dir (.leaf path)).isSome
  | .own task (.replace references source destination) crash =>
    crash ≠ some 0 → (checkReferences references (.leaf destination)).isOk →
      d.Free task (.leaf destination) →
      ∀ file, d.dir source = some file → d.creator file.identity = some task
  | .own task (.record paths) crash =>
    crash ≠ some 0 → ∀ path identity, (path, identity) ∈ paths →
      d.creator identity = some task ∧
        ∀ file, d.dir (.leaf path) = some file → d.creator file.identity = some task →
          file.identity = identity
  | _ => True

/-! ### What an operation leaves -/

/-- The task creates a file and the ledger names it. -/
def Disk.adopt (d : Disk) (task : Task) (path : Entry) : Disk :=
  (d.create (some task) path []).writeLedger (insert d.ledger task path [d.nextIdentity])

/-- The file moved aside for its deletion. -/
def Disk.isolate (d : Disk) (path : Entry) : Disk :=
  (d.move path (.scratch d.nextScratch)).drawScratch

theorem owns_iff : d.owns task path = true ↔
    ∃ expected file, d.ledger task path = some expected ∧ d.dir path = some file ∧
      file.identity ∈ expected := by
  unfold Disk.owns matchesIdentity
  cases d.ledger task path with
  | none => simp
  | some expected =>
    cases d.dir path with
    | none => simp
    | some file => simp

/-- `remove_owned` of a file the identities name: aside, then away. -/
theorem removeOwned_run (crash : Option Nat) {expected : List Nat} {file : File} (n : Nat)
    (found : d.dir path = some file) (named : file.identity ∈ expected) :
    (removeOwned path expected) (crashAt crash) n d =
      if crash = some n then (.crashed, n + 1, d)
      else if crash = some (n + 1) then (.crashed, n + 2, d.isolate path)
      else (.returned (), n + 2, (d.isolate path).unlink (.scratch d.nextScratch)) := by
  unfold removeOwned
  rw [Prog.view_bind, Prog.view_bind, Prog.require_bind, if_pos (by simp [found]),
    Prog.effect_bind_crashAt]
  split_ifs with first second
  · rfl
  all_goals
    rw [Prog.view_bind]
    have owned : ((d.isolate path).dir (.scratch d.nextScratch)).any
        (fun file => expected.contains file.identity) = true := by
      unfold Disk.isolate Disk.drawScratch Disk.move
      simpa [found] using named
    show (if ((d.isolate path).dir (.scratch d.nextScratch)).any
        (fun file => expected.contains file.identity) = true then _ else _ : Own Unit) _ _ _ = _
    rw [if_pos owned, Prog.effect_crashAt]
  · exact if_pos second
  · exact if_neg second

theorem final_eq {α : Type} {x : Own α} {fates : Nat → Fate} {ended : Ended String α} {n : Nat}
    (run : x fates 0 d = (ended, n, e)) : x.final fates d = e := by
  unfold Prog.final
  rw [run]

theorem remove_final (references : References) (task : Task) (path : Entry) (crash : Option Nat) :
    (remove references task path).final (crashAt crash) d = d ∨
      d.owns task path ∧
        ((remove references task path).final (crashAt crash) d = d.isolate path ∨
          (remove references task path).final (crashAt crash) d =
            (d.isolate path).unlink (.scratch d.nextScratch)) := by
  by_cases owned : d.owns task path
  · obtain ⟨expected, file, recorded, found, named⟩ := owns_iff.mp owned
    have run : (remove references task path) (crashAt crash) 0 d =
        match checkReferences references path with
        | .error error => (.raised error, 0, d)
        | .ok _ => (removeOwned path expected) (crashAt crash) 0 d := by
      unfold remove
      rw [Prog.view_bind, if_pos owned, Prog.lift_bind]
      cases checkReferences references path with
      | error error => rfl
      | ok _ =>
        dsimp only
        rw [Prog.view_bind, recorded]
        rfl
    unfold Prog.final
    rw [run]
    cases checkReferences references path with
    | error error => exact .inl rfl
    | ok _ =>
      dsimp only
      rw [removeOwned_run crash 0 found named]
      split_ifs
      · exact .inl rfl
      · exact .inr ⟨owned, .inl rfl⟩
      · exact .inr ⟨owned, .inr rfl⟩
  · have run : (remove references task path) (crashAt crash) 0 d = (.returned (), 0, d) := by
      unfold remove
      rw [Prog.view_bind, if_neg owned]
      rfl
    exact .inl (final_eq run)

theorem replace_final (references : References) (task : Task) (source destination : Entry)
    (crash : Option Nat) :
    (replace references task source destination).final (crashAt crash) d = d ∨
      ∃ records, prepareReplace d.ledger task d.dir source destination = .ok records ∧
        crash ≠ some 0 ∧ (checkReferences references destination).isOk ∧
        ((replace references task source destination).final (crashAt crash) d =
            d.writeLedger records ∨
          (replace references task source destination).final (crashAt crash) d =
            (d.writeLedger records).move source destination) := by
  have run : (replace references task source destination) (crashAt crash) 0 d =
      match checkReferences references destination with
      | .error error => (.raised error, 0, d)
      | .ok _ =>
        match prepareReplace d.ledger task d.dir source destination with
        | .error error => (.raised error, 0, d)
        | .ok records =>
          if crash = some 0 then (.crashed, 1, d)
          else if crash = some 1 then (.crashed, 2, d.writeLedger records)
          else (.returned (), 2, (d.writeLedger records).move source destination) := by
    unfold replace
    rw [Prog.lift_bind]
    cases checkReferences references destination with
    | error error => rfl
    | ok _ =>
      dsimp only
      rw [Prog.view_bind, Prog.lift_bind]
      cases prepareReplace d.ledger task d.dir source destination with
      | error error => rfl
      | ok records =>
        dsimp only
        rw [Prog.effect_bind_crashAt]
        split_ifs with first second
        · rfl
        · rw [Prog.effect_crashAt]
          exact if_pos second
        · rw [Prog.effect_crashAt]
          exact if_neg second
  unfold Prog.final
  rw [run]
  cases checkReferences references destination with
  | error error => exact .inl rfl
  | ok _ =>
    dsimp only
    cases prepareReplace d.ledger task d.dir source destination with
    | error error => exact .inl rfl
    | ok records =>
      dsimp only
      split_ifs with first
      · exact .inl rfl
      · exact .inr ⟨records, rfl, first, rfl, .inl rfl⟩
      · exact .inr ⟨records, rfl, first, rfl, .inr rfl⟩

theorem record_run (task : Task) (crash : Option Nat) (n : Nat) (paths : List (Entry × Nat)) :
    (record task paths) (crashAt crash) n d =
      if crash = some n then (.crashed, n + 1, d)
      else (.returned (), n + 1, d.writeLedger (paths.foldl
        (fun records (file, identity) => insert records task file [identity]) d.ledger)) := by
  unfold record
  rw [Prog.view_bind, Prog.effect_crashAt]

theorem stageWrite_final (task : Task) (content : List UInt8) (crash : Option Nat) :
    let staged := (d.create (some task) (.scratch d.nextScratch) []).drawScratch
    (stageWrite task content).final (crashAt crash) d = d ∨
      (stageWrite task content).final (crashAt crash) d = staged ∨
      (stageWrite task content).final (crashAt crash) d =
        staged.setContent (.scratch d.nextScratch) content := by
  unfold stageWrite Prog.final
  rw [Prog.view_bind, Prog.effect_bind_crashAt]
  split_ifs with first
  · exact .inl rfl
  · rw [Prog.effect_bind_crashAt]
    split_ifs with second
    · exact .inr (.inl rfl)
    · exact .inr (.inr rfl)

theorem openPartial_present (task : Task) (append : Bool) (crash : Option Nat)
    (present : (d.dir path).isSome) :
    (openPartial task path append).final (crashAt crash) d = d ∨
      d.owns task path ∧
        (openPartial task path append).final (crashAt crash) d = d.setContent path [] := by
  obtain ⟨file, found⟩ := Option.isSome_iff_exists.mp present
  unfold openPartial Prog.final
  rw [Prog.view_bind, found]
  dsimp only
  rw [Prog.view_bind]
  cases recorded : d.ledger task path with
  | none => exact .inl rfl
  | some expected =>
    dsimp only
    rw [Prog.require_bind]
    by_cases named : expected.contains file.identity = true
    · rw [if_pos named]
      cases append with
      | true => exact .inl rfl
      | false =>
        rw [if_neg Bool.false_ne_true, Prog.effect_bind_crashAt]
        by_cases first : crash = some 0
        · rw [if_pos first]
          exact .inl rfl
        · rw [if_neg first]
          have owned : d.owns task path :=
            owns_iff.mpr ⟨expected, file, recorded, found, by simpa using named⟩
          exact .inr ⟨owned, rfl⟩
    · rw [if_neg named]
      exact .inl rfl

theorem openPartial_absent {append : Bool} (absent : d.dir path = none) :
    (openPartial task path append).final (crashAt crash) d =
      if crash = some 0 then d
      else if crash = some 1 then d.create (some task) path [] else d.adopt task path := by
  unfold openPartial Prog.final
  rw [Prog.view_bind, absent]
  dsimp only
  rw [Prog.view_bind, Prog.effect_bind_crashAt]
  by_cases first : crash = some 0
  · rw [if_pos first, if_pos first]
  rw [if_neg first, if_neg first, Prog.effect_bind_crashAt]
  by_cases second : crash = some 1
  · rw [if_pos second, if_pos second]
  · rw [if_neg second, if_neg second]
    rfl

section

variable {rest : List Entry} {created : List (Entry × Nat)}
  {after : List (Entry × Nat) × Except String Unit → Own Unit} {n : Nat}

theorem createFiles_owned (owned : d.owns task path) :
    (createFiles task (path :: rest) created >>= after) (crashAt crash) n d =
      (createFiles task rest created >>= after) (crashAt crash) n d := by
  obtain ⟨expected, file, recorded, found, named⟩ := owns_iff.mp owned
  refine Prog.bind_congr ?_
  rw [createFiles, Prog.view_bind, Prog.view_bind, if_pos (by simp [found]), if_pos owned]

theorem createFiles_foreign (present : (d.dir path).isSome) (unowned : ¬ d.owns task path) :
    (createFiles task (path :: rest) created >>= after) (crashAt crash) n d =
      after (created, .error foreignMessage) (crashAt crash) n d := by
  refine Prog.bind_of_returned ?_
  rw [createFiles, Prog.view_bind, Prog.view_bind, if_pos present, if_neg unowned]
  rfl

theorem createFiles_absent (absent : d.dir path = none) :
    (createFiles task (path :: rest) created >>= after) (crashAt crash) n d =
      if crash = some n then (.crashed, n + 1, d)
      else (createFiles task rest (created ++ [(path, d.nextIdentity)]) >>= after) (crashAt crash)
        (n + 1) (d.create (some task) path []) := by
  have run : (createFiles task (path :: rest) created) (crashAt crash) n d =
      if crash = some n then (.crashed, n + 1, d)
      else (createFiles task rest (created ++ [(path, d.nextIdentity)])) (crashAt crash)
        (n + 1) (d.create (some task) path []) := by
    rw [createFiles, Prog.view_bind, Prog.view_bind, if_neg (by simp [absent]), Prog.view_bind,
      Prog.effect_bind_crashAt]
  by_cases first : crash = some n
  · rw [if_pos first] at run ⊢
    exact Prog.bind_of_crashed run
  · rw [if_neg first] at run ⊢
    exact Prog.bind_congr run

end

/-- The clean-up after one file: it is moved aside and removed. -/
theorem removeCreated_run (crash : Option Nat) (n : Nat) {file : File}
    (found : d.dir path = some file) :
    (removeCreated [(path, file.identity)]) (crashAt crash) n d =
      if crash = some n then (.crashed, n + 1, d)
      else if crash = some (n + 1) then (.crashed, n + 2, d.isolate path)
      else (.returned (), n + 2, (d.isolate path).unlink (.scratch d.nextScratch)) := by
  have run := removeOwned_run crash n found (List.mem_singleton_self file.identity)
  unfold removeCreated
  split_ifs at run ⊢
  · exact Prog.bind_of_crashed (Prog.attempt_of_crashed run)
  · exact Prog.bind_of_crashed (Prog.attempt_of_crashed run)
  · exact Prog.bind_of_returned (Prog.attempt_of_returned run)

/-! ### `claim` case by case -/

section

variable {finalPath temp metadata : Entry}

/-- `claim` may go on to its files. -/
def Disk.Admits (d : Disk) (references : References) (task : Task) (finalPath : Entry) : Prop :=
  (checkReferences references finalPath).isOk ∧ d.Free task finalPath

theorem claim_refuses (temp metadata : Entry) (crash : Option Nat)
    (refused : ¬ d.Admits references task finalPath) :
    ∃ error, (claim references task finalPath temp metadata) (crashAt crash) 0 d =
      (.raised error, 0, d) := by
  unfold claim
  rw [Prog.lift_bind]
  cases checked : checkReferences references finalPath with
  | error error => exact ⟨error, rfl⟩
  | ok _ =>
    refine ⟨occupiedMessage, ?_⟩
    dsimp only
    rw [Prog.view_bind, Prog.view_bind, Prog.require_bind, if_neg]
    intro free
    exact refused ⟨by rw [checked]; rfl, free⟩

theorem claim_admitted (admits : d.Admits references task finalPath) :
    (claim references task finalPath temp metadata) (crashAt crash) 0 d =
      (createFiles task [temp, metadata] [] >>= finishClaim task) (crashAt crash) 0 d := by
  obtain ⟨ok, free⟩ := admits
  unfold claim
  rw [Prog.lift_bind]
  cases checked : checkReferences references finalPath with
  | error error =>
    rw [checked] at ok
    cases ok
  | ok _ =>
    dsimp only
    rw [Prog.view_bind, Prog.view_bind, Prog.require_bind]
    exact if_pos free

/-- All is there and the task's: the ledger is written as it is. -/
theorem finishClaim_ok (n : Nat) (created : List (Entry × Nat)) :
    (createFiles task [] created >>= finishClaim task) (crashAt crash) n d =
      if crash = some n then (.crashed, n + 1, d)
      else (.returned (), n + 1, d.writeLedger (created.foldl
        (fun records (file, identity) => insert records task file [identity]) d.ledger)) := by
  have run := record_run (d := d) task crash n created
  have loop : (createFiles task [] created) (crashAt crash) n d =
      (.returned (created, .ok ()), n, d) := rfl
  have enter : (createFiles task [] created >>= finishClaim task) (crashAt crash) n d =
      (Prog.onError (record task created) (removeCreated created)) (crashAt crash) n d :=
    Prog.bind_of_returned loop
  rw [enter]
  unfold Prog.onError
  rw [run]
  by_cases here : crash = some n
  · rw [if_pos here]
  · rw [if_neg here]

theorem claim_foreign_temp (metadata : Entry) (crash : Option Nat)
    (admits : d.Admits references task finalPath)
    (occupied : ¬ d.Free task temp) :
    ∃ error, (claim references task finalPath temp metadata) (crashAt crash) 0 d =
      (.raised error, 0, d) := by
  obtain ⟨present, unowned⟩ := Classical.not_imp.mp occupied
  refine ⟨foreignMessage, ?_⟩
  rw [claim_admitted admits, createFiles_foreign present unowned]
  rfl

theorem claim_owned_owned (crash : Option Nat) (admits : d.Admits references task finalPath)
    (temp_ : d.owns task temp) (metadata_ : d.owns task metadata) :
    (claim references task finalPath temp metadata) (crashAt crash) 0 d =
      if crash = some 0 then (.crashed, 1, d) else (.returned (), 1, d) := by
  rw [claim_admitted admits, createFiles_owned temp_, createFiles_owned metadata_, finishClaim_ok]
  rfl

theorem claim_owned_foreign (crash : Option Nat) (admits : d.Admits references task finalPath)
    (temp_ : d.owns task temp) (occupied : ¬ d.Free task metadata) :
    ∃ error, (claim references task finalPath temp metadata) (crashAt crash) 0 d =
      (.raised error, 0, d) := by
  obtain ⟨present, unowned⟩ := Classical.not_imp.mp occupied
  refine ⟨foreignMessage, ?_⟩
  rw [claim_admitted admits, createFiles_owned temp_, createFiles_foreign present unowned]
  rfl

theorem claim_owned_absent (crash : Option Nat) (admits : d.Admits references task finalPath)
    (temp_ : d.owns task temp) (absent : d.dir metadata = none) :
    (claim references task finalPath temp metadata) (crashAt crash) 0 d =
      if crash = some 0 then (.crashed, 1, d)
      else if crash = some 1 then (.crashed, 2, d.create (some task) metadata [])
      else (.returned (), 2, d.adopt task metadata) := by
  rw [claim_admitted admits, createFiles_owned temp_, createFiles_absent absent, finishClaim_ok]
  rfl

theorem claim_absent_owned (crash : Option Nat) (admits : d.Admits references task finalPath)
    (absent : d.dir temp = none)
    (metadata_ : (d.create (some task) temp []).owns task metadata) :
    (claim references task finalPath temp metadata) (crashAt crash) 0 d =
      if crash = some 0 then (.crashed, 1, d)
      else if crash = some 1 then (.crashed, 2, d.create (some task) temp [])
      else (.returned (), 2, d.adopt task temp) := by
  rw [claim_admitted admits, createFiles_absent absent, createFiles_owned metadata_, finishClaim_ok]
  rfl

theorem claim_absent_foreign (crash : Option Nat) (admits : d.Admits references task finalPath)
    (absent : d.dir temp = none)
    (occupied : ¬ (d.create (some task) temp []).Free task metadata) :
    let created := d.create (some task) temp []
    ∃ error, (claim references task finalPath temp metadata) (crashAt crash) 0 d =
      if crash = some 0 then (.crashed, 1, d)
      else if crash = some 1 then (.crashed, 2, created)
      else if crash = some 2 then (.crashed, 3, created.isolate temp)
      else (.raised error, 3, (created.isolate temp).unlink (.scratch d.nextScratch)) := by
  obtain ⟨present, unowned⟩ := Classical.not_imp.mp occupied
  refine ⟨foreignMessage, ?_⟩
  rw [claim_admitted admits, createFiles_absent absent,
    createFiles_foreign present unowned]
  have found : (d.create (some task) temp []).dir temp = some ⟨d.nextIdentity, []⟩ :=
    Function.update_self ..
  have run := removeCreated_run crash 1 found
  by_cases zero : crash = some 0
  · rw [if_pos zero, if_pos zero]
  rw [if_neg zero, if_neg zero]
  by_cases one : crash = some 1
  · rw [if_pos one] at run ⊢
    exact Prog.bind_of_crashed run
  rw [if_neg one] at run ⊢
  by_cases two : crash = some 2
  · rw [if_pos two] at run ⊢
    exact Prog.bind_of_crashed run
  · rw [if_neg two] at run ⊢
    exact Prog.bind_of_returned run

theorem claim_absent_absent (crash : Option Nat) (admits : d.Admits references task finalPath)
    (absent : d.dir temp = none)
    (absent_ : (d.create (some task) temp []).dir metadata = none) :
    let created := d.create (some task) temp []
    (claim references task finalPath temp metadata) (crashAt crash) 0 d =
      if crash = some 0 then (.crashed, 1, d)
      else if crash = some 1 then (.crashed, 2, created)
      else if crash = some 2 then (.crashed, 3, created.create (some task) metadata [])
      else (.returned (), 3, (d.adopt task temp).adopt task metadata) := by
  rw [claim_admitted admits, createFiles_absent absent, createFiles_absent absent_, finishClaim_ok]
  rfl

end

end LlamaServerManager.Downloads
