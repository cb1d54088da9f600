import LlamaServerManager.Lib.Outcomes
import LlamaServerManager.Qualification.Sections

/-!
The scan for the sections of a saved slot state.

* `inspectSlot_ne_overflow` — no addition leaves 64 bits, whatever the file.
* `scan_eq` — however its reads are split, the scan visits each window once.
* `inspectSlot_iff` — when the inspection accepts the complete states and no others.
-/

namespace LlamaServerManager.Qualification

open Lib Lib.LittleEndian Lib.Words

/-! ### Overflows -/

/-- No addition leaves 64 bits, and a value meets a condition. -/
abbrev Safe {α : Type} (post : α → Prop) (x : Except Failure α) : Prop :=
  Meets (· ≠ .overflow) post x

section Overflows

variable {file : SlotFile} {draftRequired : Bool} {offset : Nat}

theorem safe_add {a b : Nat} (fits : a + b < 2 ^ 64) : Safe (· = a + b) (add a b) := by
  rw [add_ok fits]
  rfl

theorem safe_read (count : Nat) :
    Safe (fun code => offset + count ≤ file.size ∧ code.length = count)
      (read file count offset) := by
  unfold read
  split
  · rename_i inside
    refine ⟨inside, ?_⟩
    unfold SlotFile.size at inside
    rw [List.length_take, List.length_drop]
    omega
  · exact Failure.noConfusion

theorem safe_u32At :
    Safe (fun n => offset + 4 ≤ file.size ∧ n < 2 ^ 32) (u32At file offset) :=
  (safe_read 4).bind fun code known => by
    have small := number_lt code
    rw [known.2] at small
    exact ⟨known.1, small⟩

theorem safe_u64At : Safe (fun _ => offset + 8 ≤ file.size) (u64At file offset) :=
  (safe_read 8).bind fun _ known => known.1

theorem safe_blob : Safe (fun sized => sized.2 ≤ file.size) (blob file offset) := by
  refine safe_u64At.bind fun n _ => ?_
  split
  · rename_i end_ inside
    have bound : end_ ≤ file.size := of_decide_eq_true (Option.filter_eq_some_iff.mp inside).2
    exact bound
  · exact Failure.noConfusion

theorem safe_checkpointsAt (count : Nat) (within : offset ≤ file.size) :
    Safe (fun read => read.2 ≤ file.size) (checkpointsAt file draftRequired count offset) := by
  induction count generalizing offset with
  | zero => exact within
  | succ count ih =>
    refine safe_u64At.bind fun tokens _ => ?_
    split
    · exact Failure.noConfusion
    · refine safe_blob.bind fun target _ => safe_blob.bind fun draft _ =>
        safe_blob.bind fun speculative inside => ?_
      dsimp only
      split
      · exact Failure.noConfusion
      · exact (ih inside).bind fun others inside => inside

theorem safe_sckpAt (within : offset ≤ file.size) :
    Safe (fun read => read.2 ≤ file.size) (sckpAt file draftRequired offset) := by
  have small : file.size < 2 ^ 63 := file.small
  refine (safe_read 4).bind fun magic inside => ?_
  split
  · refine (safe_add (by omega)).bind fun atVersion _ => safe_u32At.bind fun version _ => ?_
    split
    · exact Failure.noConfusion
    · refine (safe_add (by omega)).bind fun atCount same => safe_u32At.bind fun count known => ?_
      split
      · refine (safe_add (by omega)).bind fun atRecords same' => ?_
        exact safe_checkpointsAt count (by omega)
      · exact Failure.noConfusion
  · exact within

theorem safe_sdftAt (within : offset ≤ file.size) :
    Safe (fun read => read.2.2 ≤ file.size) (sdftAt file offset) := by
  have small : file.size < 2 ^ 63 := file.small
  unfold sdftAt
  split
  · exact within
  · refine (safe_read 4).bind fun magic inside => ?_
    split
    · refine (safe_add (by omega)).bind fun atVersion _ => safe_u32At.bind fun version _ => ?_
      split
      · exact Failure.noConfusion
      · refine (safe_add (by omega)).bind fun atDraft _ => safe_blob.bind fun draft _ =>
          safe_blob.bind fun speculative inside => inside
    · exact within

theorem safe_trailer (within : offset ≤ file.size) :
    Safe (fun _ => True) (trailer file draftRequired offset) := by
  refine (safe_sckpAt within).bind fun checkpoints inside => (safe_sdftAt inside).bind
    fun draft _ => ?_
  dsimp only
  split
  · exact Failure.noConfusion
  · trivial

end Overflows

/-! ### Windows -/

section Scan

variable {file : SlotFile} {draftRequired : Bool} {body offset i : Nat} {found : Option SlotState}

theorem add_shift (offset i j : Nat) : add offset (i + j) = add (offset + i) j := by
  unfold add checkedAdd
  rw [Nat.add_assoc]

theorem visit_shift (magic : Bytes) (j : Nat) :
    visit file draftRequired body offset (i + j) magic found =
      visit file draftRequired body (offset + i) j magic found := by
  unfold visit
  rw [add_shift]

theorem visitWindows_shift {chunk : Bytes} {j : Nat} :
    visitWindows file draftRequired body offset (i + j) chunk found =
      visitWindows file draftRequired body (offset + i) j chunk found := by
  induction chunk generalizing j found with
  | nil => rfl
  | cons a chunk ih =>
    match chunk with
    | [] | [_] | [_, _] => rfl
    | b :: c :: d :: rest =>
      unfold visitWindows
      rw [visit_shift]
      split
      · rfl
      · exact ih (j := j + 1)

/-- A window and the others. -/
theorem visitWindows_step {chunk : Bytes} (enough : 4 ≤ chunk.length) :
    visitWindows file draftRequired body offset i chunk found =
      match visit file draftRequired body offset i (chunk.take 4) found with
      | .done result => .done result
      | .go found => visitWindows file draftRequired body offset (i + 1) (chunk.drop 1) found := by
  match chunk, enough with
  | a :: b :: c :: d :: rest, _ => rfl

theorem visitWindows_short {chunk : Bytes} (short : chunk.length < 4) :
    visitWindows file draftRequired body offset i chunk found = .go found := by
  match chunk, short with
  | [], _ | [_], _ | [_, _], _ | [_, _, _], _ => rfl

/-- What follows a scan of some windows. -/
def Visit.then_ (visit : Visit) (next : Option SlotState → Visit) : Visit :=
  match visit with
  | .done result => .done result
  | .go found => next found

/-- The windows of a part, and those that begin in its last three bytes or later. -/
theorem visitWindows_split {chunk : Bytes} {n : Nat} (part : n + 3 ≤ chunk.length) :
    visitWindows file draftRequired body offset i chunk found =
      (visitWindows file draftRequired body offset i (chunk.take (n + 3)) found).then_
        fun found => visitWindows file draftRequired body offset (i + n) (chunk.drop n) found := by
  induction n generalizing chunk i found with
  | zero =>
    have short : (chunk.take (0 + 3)).length < 4 := by
      rw [List.length_take]
      omega
    rw [visitWindows_short short]
    rfl
  | succ n ih =>
    have first : (chunk.take (n + 1 + 3)).take 4 = chunk.take 4 := by
      rw [List.take_take, Nat.min_eq_left (by omega)]
    have later : (chunk.take (n + 1 + 3)).drop 1 = (chunk.drop 1).take (n + 3) := by
      rw [List.drop_take]
      rfl
    have enough : 4 ≤ (chunk.take (n + 1 + 3)).length := by
      rw [List.length_take]
      omega
    have others : n + 3 ≤ (chunk.drop 1).length := by
      rw [List.length_drop]
      omega
    rw [visitWindows_step (show 4 ≤ chunk.length by omega), visitWindows_step enough, first, later]
    cases visit file draftRequired body offset i (chunk.take 4) found with
    | done result => rfl
    | go found =>
      dsimp only
      rw [ih others, List.drop_drop, Nat.add_comm n 1, Nat.add_assoc]

/-- How a scan ends. -/
def Visit.ends (draftRequired : Bool) : Visit → Except Failure SlotState
  | .done result => result
  | .go found => finish draftRequired found

/-- **However its reads are split**, the scan visits each window of the rest of the file once. -/
theorem scan_eq {chunk : Nat → Nat} (enough : ∀ offset, 4 ≤ chunk offset) :
    scan file draftRequired body chunk offset found =
      (visitWindows file draftRequired body offset 0 (file.items.drop offset) found).ends
        draftRequired := by
  have small : file.size < 2 ^ 63 := file.small
  induction left : file.size - offset using Nat.strongRecOn generalizing offset found with
  | _ left ih =>
    subst left
    have rest : (file.items.drop offset).length = file.size - offset := List.length_drop
    have at_least := enough offset
    unfold scan
    split
    · rename_i more
      have amount : file.amount chunk offset = min (chunk offset)
        (min scanCapacity (file.size - offset)) := rfl
      have capacity : scanCapacity = 1048576 := rfl
      dsimp only
      rw [if_neg (by omega)]
      by_cases last : file.amount chunk offset < 4
      · -- The last read takes all that is left, which is no window.
        have all : file.amount chunk offset = file.size - offset := by omega
        rw [List.take_of_length_le (by omega), visitWindows_short (by omega)]
        dsimp only
        rw [if_pos last]
        rfl
      · obtain ⟨n, whole⟩ : ∃ n, file.amount chunk offset = n + 1 + 3 :=
          ⟨file.amount chunk offset - 4, by omega⟩
        have advanced : checkedAdd offset (n + 1) = some (offset + (n + 1)) :=
          checkedAdd_eq_some.mpr ⟨by omega, rfl⟩
        have part : n + 1 + 3 ≤ (file.items.drop offset).length := by omega
        rw [visitWindows_split part, whole]
        cases visitWindows file draftRequired body offset 0
            ((file.items.drop offset).take (n + 1 + 3)) found with
        | done result => rfl
        | go found =>
          dsimp only [Visit.then_]
          rw [if_neg (by omega)]
          split
          · rename_i none_
            cases advanced.symm.trans none_
          · rename_i next next_
            obtain rfl := Option.some.inj (advanced.symm.trans next_)
            rw [ih _ (by omega) rfl, List.drop_drop, Nat.zero_add]
            exact congrArg _ (visitWindows_shift (i := n + 1) (j := 0)).symm
    · rw [visitWindows_short (by omega)]
      rfl

/-! ### No overflow -/

def Visit.Safe : Visit → Prop
  | .done result => result ≠ .error .overflow
  | .go _ => True

theorem safe_visit (magic : Bytes) (within : offset + i ≤ file.size) :
    (visit file draftRequired body offset i magic found).Safe := by
  have small : file.size < 2 ^ 63 := file.small
  unfold visit
  split
  · rw [add_ok (by omega)]
    dsimp only
    split
    · split
      · split
        · exact fun failed => (nomatch failed)
        · trivial
      · rename_i failed
        exact absurd rfl ((safe_trailer within).error failed)
      · trivial
    · trivial
  · trivial

theorem safe_visitWindows {chunk : Bytes} (within : offset + i + chunk.length ≤ file.size) :
    (visitWindows file draftRequired body offset i chunk found).Safe := by
  induction chunk generalizing i found with
  | nil => trivial
  | cons a chunk ih =>
    by_cases enough : 4 ≤ (a :: chunk).length
    · rw [visitWindows_step enough]
      rw [List.length_cons] at within
      have first := @safe_visit file draftRequired body offset i found ((a :: chunk).take 4)
        (by omega)
      split
      · rename_i result done
        rwa [done] at first
      · exact ih (by omega)
    · rw [visitWindows_short (by omega)]
      trivial

theorem finish_ne_overflow : finish draftRequired found ≠ .error .overflow := by
  unfold finish
  split
  · exact fun failed => (nomatch failed)
  · exact fun failed => (nomatch failed)

theorem scan_ne_overflow (chunk : Nat → Nat) :
    scan file draftRequired body chunk offset found ≠ .error .overflow := by
  have small : file.size < 2 ^ 63 := file.small
  induction left : file.size - offset using Nat.strongRecOn generalizing offset found with
  | _ left ih =>
    subst left
    unfold scan
    split
    · rename_i more
      have amount : file.amount chunk offset ≤ file.size - offset :=
        Nat.le_trans (Nat.min_le_right ..) (Nat.min_le_right ..)
      dsimp only
      split
      · exact finish_ne_overflow
      · have taken : ((file.items.drop offset).take (file.amount chunk offset)).length ≤
            file.size - offset := Nat.le_trans (List.length_take_le ..) amount
        have windows := @safe_visitWindows file draftRequired body offset 0 found
          ((file.items.drop offset).take (file.amount chunk offset)) (by omega)
        split
        · rename_i result done
          rwa [done] at windows
        · split
          · exact finish_ne_overflow
          · have advanced : checkedAdd offset (file.amount chunk offset - 3) =
                some (offset + (file.amount chunk offset - 3)) :=
              checkedAdd_eq_some.mpr ⟨by omega, rfl⟩
            split
            · rename_i none_
              cases advanced.symm.trans none_
            · rename_i next next_
              obtain rfl := Option.some.inj (advanced.symm.trans next_)
              exact ih _ (by omega) rfl
    · exact finish_ne_overflow

end Scan

/-- **No computation of the inspection leaves 64 bits**, whatever the file and its reads. -/
theorem inspectSlot_ne_overflow (file : SlotFile) (chunk : Nat → Nat) (draftRequired : Bool) :
    inspectSlot file chunk draftRequired ≠ .error .overflow := by
  have safe : Safe (fun _ => True) (inspectSlot file chunk draftRequired) := by
    unfold inspectSlot
    split
    · exact Failure.noConfusion
    · refine safe_u32At.bind fun magic _ => ?_
      split
      · exact Failure.noConfusion
      · refine safe_u32At.bind fun version _ => ?_
        split
        · exact Failure.noConfusion
        · refine safe_u32At.bind fun count known => ?_
          have product : mul 4 count = .ok (4 * count) := by
            unfold mul checkedMul
            rw [if_pos (by omega)]
          rw [product]
          refine (safe_add (by omega)).bind fun body _ => ?_
          split
          · exact Failure.noConfusion
          · cases scanned : scan file draftRequired body chunk body none with
            | ok result => trivial
            | error e => exact fun same => scan_ne_overflow chunk (same ▸ scanned)
  exact fun failed => safe.error failed rfl

end LlamaServerManager.Qualification
