import LlamaServerManager.Checkpoint.Commit
import LlamaServerManager.Checkpoint.Site

/-!
What the scratch files of an instance leave alone (`Aside`): every call that handles
scratch files keeps what making the scratch directory and changing files in it keeps.
-/

namespace LlamaServerManager.Checkpoint

open Lib

/-- `P` does not depend on the scratch files of the instance. -/
structure Aside (P : Files → Prop) (j : String) : Prop where
  dirs : Keeps P [[], [j]]
  change : ∀ {s t : Files}, (∀ p, ¬ scratchDir j <+: p → t p = s p) → P s → P t

theorem inspect_stable {α : Type} {P : Files → Prop} (check : Files → Except StoreError α) :
    Prog.Stable P (inspect check) := .read _ _

theorem touch_stable {P : Files → Prop} (message : String) : Prog.Stable P (touch message) :=
  .read _ _

namespace Aside

variable {P : Files → Prop} {j : String}

theorem write (aside : Aside P j) {s : Files} {p : Path} (inside : scratchDir j <+: p)
    (node : Option Node) (h : P s) : P (Function.update s p node) := by
  refine aside.change (fun q outside => Function.update_of_ne ?_ ..) h
  rintro rfl
  exact outside inside

theorem keeps (aside : Aside P j) : Keeps P (scratchDirs j) := by
  intro d mem s t h made
  simp only [scratchDirs, List.mem_cons, List.not_mem_nil, or_false] at mem
  rcases mem with rfl | rfl | rfl
  · exact aside.dirs [] List.mem_cons_self s t h made
  · exact aside.dirs [j] (List.mem_cons_of_mem _ List.mem_cons_self) s t h made
  · refine aside.change (fun p outside => Files.makeDir_other made fun eq => ?_) h
    exact outside (eq ▸ List.prefix_rfl)

theorem prepareInstance (aside : Aside P j) (ready : Bool) :
    Prog.Holds P (prepareInstance ready j) (fun scratch s => P s ∧ scratch = scratchDir j) P :=
  prepareInstance_holds ready (fun _ h => h) aside.keeps

theorem ensureScratchCapacity (aside : Aside P j) (ready : Bool) (available bytes : Nat) :
    Prog.Stable P (ensureScratchCapacity ready available j bytes) := by
  refine .bind_of (aside.prepareInstance ready) fun _ _ => ?_
  exact .bind (touch_stable _) fun _ => .require _ _

/-- A new scratch file is in the scratch directory. -/
theorem newScratchSlotPath (aside : Aside P j) (ready : Bool) (uuid : String) (pid slot : Nat) :
    Prog.Holds P (newScratchSlotPathFor ready uuid j pid slot)
      (fun path s => P s ∧ scratchDir j <+: path) P := by
  refine Prog.Holds.bind (Prog.Stable.require _ _) fun _ => ?_
  refine Prog.Holds.bind (aside.prepareInstance ready) fun scratch => .assume ?_
  rintro rfl
  exact .pure fun s h => ⟨h, List.prefix_append _ _⟩

theorem newScratchSlotPathFor (aside : Aside P j) (ready : Bool) (uuid : String)
    (pid slot : Nat) : Prog.Stable P (newScratchSlotPathFor ready uuid j pid slot) :=
  (aside.newScratchSlotPath ready uuid pid slot).post fun _ _ h => h.1

theorem removeScratchPayload (aside : Aside P j) (ready : Bool) (path : Path) :
    Prog.Stable P (removeScratchPayload ready j path) := by
  refine .bind_of (aside.prepareInstance ready) ?_
  rintro _ rfl
  refine .bind (.look _) fun there => ?_
  split
  · refine .bind (inspect_stable _) fun _ => .bind (touch_stable _) fun _ => ?_
    refine .bind (touch_stable _) fun _ => ?_
    refine .bind_of (Prog.Holds.require fun _ h => h) fun _ inside => ?_
    refine change_holds ?_ (fun _ h => h) (fun _ h => h) (fun _ h => h)
    rintro s t h ⟨⟩
    exact aside.write inside.1 none h
  · exact .pure ()

theorem verifyScratchPayload (aside : Aside P j) (c : Codec) (ready : Bool) (path : Path)
    (bytes : Nat) : Prog.Stable P (verifyScratchPayload c ready j path bytes) := by
  refine .bind_of (validateScratchPayload_holds ready path (fun _ h => h) aside.keeps) fun _ _ => ?_
  refine .bind (inspect_stable _) fun _ => .bind (.require _ _) fun _ => ?_
  exact inspect_stable _

theorem copySlotToScratch (aside : Aside P j) (c : Codec) (ready : Bool) (available cut : Nat)
    (uuid : String) (pid : Nat) (generation : LoadedGeneration) (slot : CheckpointSlotManifest) :
    Prog.Stable P (copySlotToScratch c ready available cut uuid j pid generation slot) := by
  refine .bind (.require _ _) fun _ => .bind (aside.ensureScratchCapacity _ _ _) fun _ => ?_
  refine .bind_of (aside.newScratchSlotPath _ _ _ _) fun destination inside => ?_
  have filled : ∀ content, Prog.Stable P (fillScratch c destination content cut slot) := by
    intro content
    refine .bind (change_holds ?_ (fun _ h => h) (fun _ h => h)
      fun _ h => aside.write inside _ h) fun _ => ?_
    · intro s t h done
      rw [Files.replaceFile_eq done]
      exact aside.write inside _ h
    · refine .bind (touch_stable _) fun _ => .bind (touch_stable _) fun _ => ?_
      exact .bind (touch_stable _) fun _ => inspect_stable _
  refine .bind (inspect_stable _) fun _ => .bind (.read _ _) fun content => ?_
  refine .bind (change_holds ?_ (fun _ h => h) (fun _ h => h) (fun _ h => h)) fun _ => ?_
  · intro s t h done
    split at done
    · rw [Files.replaceFile_eq done]
      exact aside.write inside _ h
    · cases done
  refine .bind (.onError (filled content) (aside.removeScratchPayload _ _)) fun _ => ?_
  exact .pure _

end Aside

/-! ### The usage index -/

/-- And not on the usage index. -/
structure Unnoted (P : Files → Prop) (j : String) : Prop extends Aside P j where
  usage : ∀ {s : Files} (bytes : List UInt8), P s →
    P (Function.update s [j, "usage-v1.json"] (some (.file bytes)))

namespace Unnoted

variable {P : Files → Prop} {j : String} {c : Codec} {listing : Listing} {millis : Nat}
  {fs : Files}

theorem ensureRoot (unnoted : Unnoted P j) (ready : Bool) : Prog.Stable P (ensureRoot ready) :=
  ensureRoot_holds ready (fun _ h => h) (unnoted.dirs.sub (by simp))

theorem touchUsage (unnoted : Unnoted P j) (c : Codec) (g name : String) (millis : Nat) :
    Prog.Stable P (touchUsage c j g name millis) := by
  refine .bind (.require _ _) fun _ => .bind (.look _) fun usage => .bind (.lift _) fun bytes => ?_
  refine .bind_of (.lift fun _ h => h) fun path known => ?_
  obtain ⟨root, inner, eq⟩ := bind_eq_ok.mp known
  obtain ⟨⟨⟩, -, same⟩ := bind_eq_ok.mp inner
  cases same
  cases eq
  refine .bind ?_ fun _ => change_holds ?_ (fun _ h => h) (fun _ h => h) (fun _ h => h)
  · exact (makeDirs_holds _ _ (fun _ h => h) (unnoted.dirs.sub (by simp))).post fun _ _ h => h.1
  · intro s t h done
    rw [Files.replaceFile_eq done]
    exact unnoted.usage bytes h

theorem loadLatest (unnoted : Unnoted P j) (ready : Bool) (g : String) (h : P fs) :
    P (loadLatest c listing ready millis j g fs).1 := by
  have root := (unnoted.ensureRoot ready).final Prog.calm h
  unfold Checkpoint.loadLatest
  split
  · exact root
  · dsimp only
    split
    · exact (unnoted.touchUsage c g _ millis).final Prog.calm root
    · exact root

theorem anyLoads (unnoted : Unnoted P j) (current : String) (names : List String) (h : P fs) :
    P (anyLoads c listing millis j current names fs).1 := by
  induction names generalizing fs with
  | nil => exact h
  | cons name names ih =>
    have looked : P (Checkpoint.loadLatest c listing true millis j name fs).1 :=
      unnoted.loadLatest true name h
    unfold Checkpoint.anyLoads
    split
    · exact ih h
    · split
      · next eq => rwa [eq] at looked
      · next eq =>
          rw [eq] at looked
          exact ih looked

theorem hasOther (unnoted : Unnoted P j) (ready : Bool) (current : String) (h : P fs) :
    P (hasOtherFingerprintGeneration c listing ready millis j current fs).1 := by
  have root := (unnoted.ensureRoot ready).final Prog.calm h
  unfold hasOtherFingerprintGeneration
  split
  · exact root
  · unfold otherLoads
    dsimp only
    split
    · exact root
    · split
      · exact root
      · split
        · exact root
        · exact unnoted.anyLoads current _ root

end Unnoted

end LlamaServerManager.Checkpoint
