import LlamaServerManager.Lib.Except
import LlamaServerManager.Qualification.SlotState

/-!
Saved slot states: the file of one, and its sections as `trailer` reads them.

* `SavedState` — a token table, the state of the main model, checkpoints, and the state of a draft.
* `trailer_sckp`, `trailer_sdft` — the sections from their start.
-/

namespace LlamaServerManager.Qualification

open Lib.LittleEndian Lib.Words

/-! ### States and their code -/

structure Checkpoint where
  tokens : UInt64
  position : UInt64
  target : Bytes
  draft : Bytes
  speculative : Bytes

/-- Without checkpoints there is no section of them. -/
structure SavedState where
  tokens : List UInt32
  few : tokens.length < 2 ^ 32
  main : Bytes
  main_ne : main ≠ []
  checkpoints : List Checkpoint
  limited : checkpoints.length ≤ 1024
  draft : Option (Bytes × Bytes)

def blobCode (raw : Bytes) : Bytes := bytes 8 raw.length ++ raw

namespace Checkpoint

def code (checkpoint : Checkpoint) : Bytes :=
  bytes 8 checkpoint.tokens.toNat ++ (bytes 8 checkpoint.position.toNat ++
    (blobCode checkpoint.target ++ (blobCode checkpoint.draft ++
      blobCode checkpoint.speculative)))

def sizes (checkpoint : Checkpoint) : CheckpointSizes :=
  ⟨checkpoint.tokens.toNat, checkpoint.target.length, checkpoint.draft.length,
    checkpoint.speculative.length⟩

/-- Something can be restored from it. -/
def Complete (draftRequired : Bool) (checkpoint : Checkpoint) : Prop :=
  checkpoint.tokens ≠ 0 ∧ checkpoint.target ≠ [] ∧ (draftRequired → checkpoint.draft ≠ [])

instance (draftRequired : Bool) (checkpoint : Checkpoint) :
    Decidable (checkpoint.Complete draftRequired) :=
  inferInstanceAs (Decidable (_ ∧ _))

end Checkpoint

def sckpCode (checkpoints : List Checkpoint) : Bytes :=
  if checkpoints = [] then []
  else sckp ++ (bytes 4 1 ++ (bytes 4 checkpoints.length ++ checkpoints.flatMap (·.code)))

def sdftCode : Option (Bytes × Bytes) → Bytes
  | none => []
  | some (draft, speculative) => sdft ++ (bytes 4 1 ++ (blobCode draft ++ blobCode speculative))

namespace SavedState

def header (saved : SavedState) : Bytes :=
  bytes 4 0x67677371 ++ (bytes 4 4 ++ (bytes 4 saved.tokens.length ++
    saved.tokens.flatMap fun token => bytes 4 token.toNat))

def encode (saved : SavedState) : Bytes :=
  saved.header ++ (saved.main ++ (sckpCode saved.checkpoints ++ sdftCode saved.draft))

def sizes (saved : SavedState) : SlotState :=
  ⟨saved.checkpoints.map (·.sizes), saved.draft.elim 0 (·.1.length),
    saved.draft.elim 0 (·.2.length)⟩

end SavedState

/-! ### Reads of a code -/

/-- What follows from an offset on. -/
structure Follows (file : SlotFile) (offset : Nat) (rest : Bytes) : Prop where
  within : offset ≤ file.size
  rest : file.items.drop offset = rest

section Reads

variable {file : SlotFile} {offset n : Nat} {code rest raw : Bytes}

theorem Follows.length (follows : Follows file offset rest) : offset + rest.length = file.size := by
  have within := follows.within
  rw [← follows.rest, List.length_drop]
  unfold SlotFile.size at within ⊢
  omega

theorem Follows.advance (follows : Follows file offset (code ++ rest)) :
    Follows file (offset + code.length) rest := by
  have length := follows.length
  rw [List.length_append] at length
  refine ⟨by omega, ?_⟩
  rw [← List.drop_drop, follows.rest, List.drop_left]

/-- The same, where the length of the code is known. -/
theorem Follows.skip (follows : Follows file offset (code ++ rest)) (length : code.length = n) :
    Follows file (offset + n) rest :=
  length ▸ follows.advance

theorem read_code (follows : Follows file offset (code ++ rest)) (length : code.length = n) :
    read file n offset = .ok code := by
  have whole := follows.length
  rw [List.length_append] at whole
  unfold read
  rw [if_pos (by omega), follows.rest, ← length, List.take_left]

theorem u32At_code (follows : Follows file offset (bytes 4 n ++ rest)) (fits : n < 2 ^ 32) :
    u32At file offset = .ok n := by
  have fits : n < 256 ^ 4 := fits
  unfold u32At
  rw [read_code follows (length_bytes 4 n)]
  exact congrArg Except.ok (number_bytes fits)

theorem u64At_code (follows : Follows file offset (bytes 8 n ++ rest)) (fits : n < 2 ^ 64) :
    u64At file offset = .ok n := by
  have fits : n < 256 ^ 8 := fits
  unfold u64At
  rw [read_code follows (length_bytes 8 n)]
  exact congrArg Except.ok (number_bytes fits)

theorem add_ok {a b : Nat} (fits : a + b < 2 ^ 64) : add a b = .ok (a + b) := by
  unfold add checkedAdd
  rw [if_pos fits]

theorem length_blobCode : (blobCode raw).length = 8 + raw.length := by
  simp [blobCode]

theorem blob_code (follows : Follows file offset (blobCode raw ++ rest)) :
    blob file offset = .ok (raw.length, offset + (8 + raw.length)) := by
  have length := follows.length
  have small := file.small
  rw [List.length_append, length_blobCode] at length
  have known : offset + (8 + raw.length + rest.length) = file.items.length := length
  have prefixed : Follows file offset (bytes 8 raw.length ++ (raw ++ rest)) := by
    rwa [← List.append_assoc]
  unfold blob
  rw [u64At_code prefixed (by omega)]
  have first : checkedAdd offset 8 = some (offset + 8) :=
    checkedAdd_eq_some.mpr ⟨by omega, rfl⟩
  have second : checkedAdd (offset + 8) raw.length = some (offset + (8 + raw.length)) :=
    checkedAdd_eq_some.mpr ⟨by omega, (Nat.add_assoc ..).symm⟩
  have inside : offset + (8 + raw.length) ≤ file.size := by omega
  simp only [bind, Except.bind, first, Option.bind_some, second, Option.filter_some, inside,
    decide_true, if_true]
  rfl

end Reads

/-! ### Checkpoints -/

section Checkpoints

variable {file : SlotFile} {draftRequired : Bool} {offset : Nat} {rest : Bytes}

theorem Checkpoint.length_code (checkpoint : Checkpoint) : checkpoint.code.length =
    16 + ((8 + checkpoint.target.length) + ((8 + checkpoint.draft.length) +
      (8 + checkpoint.speculative.length))) := by
  simp only [code, List.length_append, length_bytes, length_blobCode]
  omega

/-- **The records of a section** are read if all are complete. -/
theorem checkpointsAt_code {checkpoints : List Checkpoint}
    (follows : Follows file offset (checkpoints.flatMap (·.code) ++ rest)) :
    checkpointsAt file draftRequired checkpoints.length offset =
      if ∀ checkpoint ∈ checkpoints, checkpoint.Complete draftRequired then
        .ok (checkpoints.map (·.sizes), offset + (checkpoints.flatMap (·.code)).length)
      else .error .incompleteCheckpoint := by
  induction checkpoints generalizing offset with
  | nil => simp [checkpointsAt, pure, Except.pure]
  | cons checkpoint checkpoints ih =>
    have parts : Follows file offset (bytes 8 checkpoint.tokens.toNat ++
        (bytes 8 checkpoint.position.toNat ++ (blobCode checkpoint.target ++
          (blobCode checkpoint.draft ++ (blobCode checkpoint.speculative ++
            (checkpoints.flatMap (·.code) ++ rest)))))) := by
      simpa [Checkpoint.code] using follows
    have tokens := u64At_code parts checkpoint.tokens.toNat_lt
    have atTarget := (parts.skip (length_bytes 8 _)).skip (length_bytes 8 _)
    have atDraft := atTarget.skip length_blobCode
    have atSpeculative := atDraft.skip length_blobCode
    have atNext := atSpeculative.skip length_blobCode
    have inside := atTarget.within
    have small := file.small
    have moved : checkedAdd offset 16 = some (offset + 8 + 8) :=
      checkedAdd_eq_some.mpr ⟨by unfold SlotFile.size at inside; omega, rfl⟩
    have complete : checkpoint.Complete draftRequired ↔
        ¬(checkpoint.target.length = 0 ∨ checkpoint.tokens.toNat = 0 ∨
          (draftRequired ∧ checkpoint.draft.length = 0)) := by
      have zero : checkpoint.tokens.toNat = 0 ↔ checkpoint.tokens = 0 :=
        UInt64.toNat_inj (b := 0)
      simp only [Checkpoint.Complete, List.length_eq_zero_iff, zero]
      tauto
    simp only [List.length_cons, checkpointsAt, tokens, moved, blob_code atTarget,
      blob_code atDraft, blob_code atSpeculative, bind, Except.bind, ih atNext,
      List.forall_mem_cons]
    by_cases whole : checkpoint.Complete draftRequired
    · rw [if_neg (complete.mp whole)]
      by_cases others : ∀ checkpoint ∈ checkpoints, checkpoint.Complete draftRequired
      · rw [if_pos others, if_pos ⟨whole, others⟩]
        simp only [List.flatMap_cons, List.length_append, checkpoint.length_code, List.map_cons]
        refine congrArg Except.ok (Prod.ext rfl ?_)
        dsimp only
        omega
      · rw [if_neg others, if_neg fun both => others both.2]
    · rw [if_pos (Decidable.not_not.mp fun good => whole (complete.mpr good)),
        if_neg fun both => whole both.1]
      rfl

end Checkpoints

/-! ### The sections to the end of the file -/

theorem sckp_ne_sdft : sckp ≠ sdft := by decide

section Sections

variable {file : SlotFile} {draftRequired : Bool} {offset : Nat}

theorem sdftAt_code {draft : Option (Bytes × Bytes)}
    (follows : Follows file offset (sdftCode draft)) :
    sdftAt file offset =
      .ok (draft.elim 0 (·.1.length), draft.elim 0 (·.2.length), file.size) := by
  have length := follows.length
  have small : file.size < 2 ^ 63 := file.small
  cases draft with
  | none =>
    rw [sdftCode, List.length_nil, Nat.add_zero] at length
    unfold sdftAt
    rw [if_pos (Nat.le_of_eq length.symm), length]
    rfl
  | some both =>
    obtain ⟨draft, speculative⟩ := both
    have parts : Follows file offset (sdft ++ (bytes 4 1 ++ (blobCode draft ++
        (blobCode speculative ++ [])))) := by
      simpa [sdftCode] using follows
    have atVersion := parts.skip (n := 4) rfl
    have atDraft := atVersion.skip (length_bytes 4 1)
    have atSpeculative := atDraft.skip length_blobCode
    have ended := (atSpeculative.skip length_blobCode).length
    have inside := atDraft.within
    rw [List.length_nil, Nat.add_zero] at ended
    unfold sdftAt
    rw [if_neg (by omega), read_code (n := 4) parts rfl]
    simp only [bind, Except.bind, if_true, add_ok (show offset + 4 < 2 ^ 64 by omega),
      add_ok (show offset + 8 < 2 ^ 64 by omega), u32At_code atVersion (by decide),
      blob_code atDraft, blob_code atSpeculative, ended]
    rfl

/-- **The last section** is read if a draft is there where one is required. -/
theorem trailer_sdft {draft speculative : Bytes}
    (follows : Follows file offset (sdftCode (some (draft, speculative)))) :
    trailer file draftRequired offset =
      if draftRequired ∧ draft = [] then .error .unrecognizedTrailer
      else .ok ⟨[], draft.length, speculative.length⟩ := by
  have first : Follows file offset (sdft ++ (bytes 4 1 ++ (blobCode draft ++
    blobCode speculative))) := follows
  have none_ : sckpAt file draftRequired offset = .ok ([], offset) := by
    unfold sckpAt
    rw [read_code (n := 4) first rfl]
    simp only [bind, Except.bind, if_neg sckp_ne_sdft.symm]
    rfl
  unfold trailer
  simp only [none_, bind, Except.bind, sdftAt_code follows, Option.elim_some, ne_eq, not_true,
    false_or, List.length_eq_zero_iff]
  rfl

/-- **Both sections** are read if the checkpoints are complete, and a draft is there where one is
required. -/
theorem trailer_sckp {checkpoints : List Checkpoint} {draft : Option (Bytes × Bytes)}
    (some_ : checkpoints ≠ []) (limited : checkpoints.length ≤ 1024)
    (follows : Follows file offset (sckpCode checkpoints ++ sdftCode draft)) :
    trailer file draftRequired offset =
      if ∀ checkpoint ∈ checkpoints, checkpoint.Complete draftRequired then
        if draftRequired ∧ draft.elim 0 (·.1.length) = 0 then .error .unrecognizedTrailer
        else .ok ⟨checkpoints.map (·.sizes), draft.elim 0 (·.1.length),
          draft.elim 0 (·.2.length)⟩
      else .error .incompleteCheckpoint := by
  have small : file.size < 2 ^ 63 := file.small
  have positive := List.length_pos_of_ne_nil some_
  have parts : Follows file offset (sckp ++ (bytes 4 1 ++ (bytes 4 checkpoints.length ++
      (checkpoints.flatMap (·.code) ++ sdftCode draft)))) := by
    simpa [sckpCode, some_] using follows
  have atVersion := parts.skip (n := 4) rfl
  have atCount := atVersion.skip (length_bytes 4 1)
  have atRecords := atCount.skip (length_bytes 4 _)
  have inside := atRecords.within
  have records := @checkpointsAt_code file draftRequired _ _ _ atRecords
  have section_ : sckpAt file draftRequired offset =
      checkpointsAt file draftRequired checkpoints.length (offset + 4 + 4 + 4) := by
    unfold sckpAt
    rw [read_code (n := 4) parts rfl]
    simp only [bind, Except.bind, if_true, add_ok (show offset + 4 < 2 ^ 64 by omega),
      add_ok (show offset + 8 < 2 ^ 64 by omega), add_ok (show offset + 12 < 2 ^ 64 by omega),
      u32At_code atVersion (by decide), u32At_code atCount (by omega)]
    rw [if_neg (fun other => other rfl), if_pos ⟨positive, limited⟩]
  unfold trailer
  rw [section_, records]
  split
  · simp only [bind, Except.bind, sdftAt_code atRecords.advance, ne_eq, not_true, false_or]
    rfl
  · rfl

end Sections

end LlamaServerManager.Qualification
