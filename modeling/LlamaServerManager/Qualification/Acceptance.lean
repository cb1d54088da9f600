import LlamaServerManager.Qualification.Inspection

/-!
Which saved slot states the inspection accepts.

* `SavedState.Unambiguous` — the sections can be told from what is around them.
* `inspectSlot_encode` — the outcome of the inspection of a saved state.
* `inspected_iff` — when that is the right one.
-/

namespace LlamaServerManager.Qualification

open Lib Lib.LittleEndian Lib.Words

namespace SavedState

variable (saved : SavedState)

/-- Where the token table ends. -/
def body : Nat := 12 + 4 * saved.tokens.length

def sckpStart : Nat := saved.body + saved.main.length

def sdftStart : Nat := saved.sckpStart + (sckpCode saved.checkpoints).length

/-- Behind the token table. -/
def rest : Bytes := saved.main ++ (sckpCode saved.checkpoints ++ sdftCode saved.draft)

/-- Neither magic is there but at the start of its section. -/
def Unambiguous : Prop := ∀ position, saved.body ≤ position →
  ((saved.encode.drop position).take 4 = sckp →
    saved.checkpoints ≠ [] ∧ position = saved.sckpStart) ∧
  ((saved.encode.drop position).take 4 = sdft →
    saved.draft.isSome ∧ position = saved.sdftStart)

theorem length_header : saved.header.length = saved.body := by
  have table : (saved.tokens.flatMap fun token => bytes 4 token.toNat).length =
      4 * saved.tokens.length := by
    induction saved.tokens with
    | nil => rfl
    | cons token tokens ih =>
      rw [List.flatMap_cons, List.length_append, length_bytes, ih, List.length_cons]
      omega
  simp only [header, List.length_append, length_bytes, table, body]
  omega

theorem drop_body : saved.encode.drop saved.body = saved.rest := by
  rw [encode, ← length_header, List.drop_left]
  rfl

end SavedState

section Inspected

variable {saved : SavedState} {file : SlotFile} {draftRequired : Bool} {chunk : Nat → Nat}

theorem follows_encode (encoded : file.items = saved.encode) : Follows file 0 saved.encode :=
  ⟨Nat.zero_le _, encoded⟩

theorem follows_body (encoded : file.items = saved.encode) :
    Follows file saved.body saved.rest := by
  have whole : Follows file 0 (saved.header ++ saved.rest) := follows_encode encoded
  have after := whole.skip saved.length_header
  rwa [Nat.zero_add] at after

/-- The header of a saved state is read. -/
theorem inspectSlot_scan (encoded : file.items = saved.encode) :
    inspectSlot file chunk draftRequired =
      scan file draftRequired saved.body chunk saved.body none := by
  have parts : Follows file 0 (bytes 4 0x67677371 ++ (bytes 4 4 ++ (bytes 4 saved.tokens.length ++
      ((saved.tokens.flatMap fun token => bytes 4 token.toNat) ++ saved.rest)))) := by
    have whole := follows_encode encoded
    simpa [SavedState.encode, SavedState.header, SavedState.rest] using whole
  have atVersion := parts.skip (length_bytes 4 _)
  have atCount := atVersion.skip (length_bytes 4 _)
  have sized := (follows_body encoded).length
  have main := List.length_pos_of_ne_nil saved.main_ne
  have few := saved.few
  have body : saved.body = 12 + 4 * saved.tokens.length := rfl
  have product : mul 4 saved.tokens.length = .ok (4 * saved.tokens.length) := by
    unfold mul checkedMul
    rw [if_pos (by omega)]
  rw [SavedState.rest, List.length_append] at sized
  unfold inspectSlot
  rw [if_neg (by omega), u32At_code parts (by decide)]
  simp only [bind, Except.bind, ne_eq, not_true, if_false, u32At_code atVersion (by decide),
    u32At_code atCount few, product, add_ok (show 12 + 4 * saved.tokens.length < 2 ^ 64 by omega)]
  rw [if_neg (by omega)]
  rfl

/-- No windows of the magics: none of them is looked at. -/
theorem visitWindows_skip {body offset i n : Nat} {windows : Bytes} {found : Option SlotState}
    (free : ∀ j < n, (windows.drop j).take 4 ≠ sckp ∧ (windows.drop j).take 4 ≠ sdft) :
    visitWindows file draftRequired body offset i windows found =
      visitWindows file draftRequired body offset (i + n) (windows.drop n) found := by
  induction n generalizing i windows with
  | zero => rfl
  | succ n ih =>
    by_cases enough : 4 ≤ windows.length
    · have none_ : visit file draftRequired body offset i (windows.take 4) found = .go found := by
        have first := free 0 (Nat.succ_pos n)
        unfold visit
        exact if_neg (not_or.mpr first)
      rw [visitWindows_step enough, none_]
      dsimp only
      rw [ih fun j lt => ?_, List.drop_drop, Nat.add_comm n 1, Nat.add_assoc]
      rw [List.drop_drop, Nat.add_comm 1 j]
      exact free (j + 1) (Nat.succ_lt_succ lt)
    · rw [visitWindows_short (by omega), visitWindows_short]
      rw [List.length_drop]
      omega

theorem visit_magic {body position : Nat} {magic : Bytes} {found : Option SlotState}
    (known : magic = sckp ∨ magic = sdft) (behind : body < body + position)
    (within : body + position ≤ file.size) :
    visit file draftRequired body body position magic found =
      match trailer file draftRequired (body + position) with
      | .ok result => if magic = sckp then .done (.ok result) else .go (some result)
      | .error _ => .go found := by
  have small : file.size < 2 ^ 63 := file.small
  unfold visit
  rw [if_pos known, add_ok (by omega)]
  dsimp only
  rw [if_pos behind]
  cases read : trailer file draftRequired (body + position) with
  | ok result => rfl
  | error e =>
    have allowed : e ≠ .overflow := (safe_trailer within).error read
    cases e <;> first | rfl | exact absurd rfl allowed

/-- Something is missing of a draft that is required. -/
def SavedState.Undrafted (saved : SavedState) (draftRequired : Bool) : Prop :=
  draftRequired ∧ saved.draft.elim 0 (·.1.length) = 0

instance : Decidable (saved.Undrafted draftRequired) := inferInstanceAs (Decidable (_ ∧ _))

/-- All checkpoints are complete. -/
def SavedState.Whole (saved : SavedState) (draftRequired : Bool) : Prop :=
  ∀ checkpoint ∈ saved.checkpoints, checkpoint.Complete draftRequired

instance : Decidable (saved.Whole draftRequired) :=
  inferInstanceAs (Decidable (∀ checkpoint ∈ saved.checkpoints, _))

/-- What is left of a state without its checkpoints. -/
def SavedState.lastSection (saved : SavedState) (draftRequired : Bool) : Option SlotState :=
  if saved.Undrafted draftRequired then none
  else saved.draft.map fun both => ⟨[], both.1.length, both.2.length⟩

/-- What the inspection yields. -/
def SavedState.outcome (saved : SavedState) (draftRequired : Bool) : Except Failure SlotState :=
  if saved.checkpoints ≠ [] ∧ saved.Whole draftRequired ∧ ¬saved.Undrafted draftRequired then
    .ok saved.sizes
  else finish draftRequired (saved.lastSection draftRequired)

/-- The windows of the rest from some offset in it. -/
def windowsAt (saved : SavedState) (file : SlotFile) (draftRequired : Bool) (i : Nat)
    (found : Option SlotState) : Visit :=
  visitWindows file draftRequired saved.body saved.body i (saved.rest.drop i) found

theorem windowsAt_skip (unambiguous : saved.Unambiguous) {i n : Nat} {found : Option SlotState}
    (noSckp : ∀ j < n, saved.body + (i + j) ≠ saved.sckpStart)
    (noSdft : ∀ j < n, saved.body + (i + j) ≠ saved.sdftStart) :
    windowsAt saved file draftRequired i found =
      windowsAt saved file draftRequired (i + n) found := by
  have free : ∀ j < n, ((saved.rest.drop i).drop j).take 4 ≠ sckp ∧
      ((saved.rest.drop i).drop j).take 4 ≠ sdft := by
    intro j lt
    have magics := unambiguous (saved.body + (i + j)) (Nat.le_add_right ..)
    rw [← List.drop_drop, saved.drop_body] at magics
    rw [List.drop_drop]
    exact ⟨fun magic => noSckp j lt (magics.1 magic).2, fun magic => noSdft j lt (magics.2 magic).2⟩
  unfold windowsAt
  rw [visitWindows_skip free, List.drop_drop]

/-- A window and the others. -/
theorem windowsAt_step {i : Nat} {magic after : Bytes} {found : Option SlotState}
    (length : magic.length = 4) (here : saved.rest.drop i = magic ++ after) :
    windowsAt saved file draftRequired i found =
      match visit file draftRequired saved.body saved.body i magic found with
      | .done result => .done result
      | .go found => windowsAt saved file draftRequired (i + 1) found := by
  have enough : 4 ≤ (saved.rest.drop i).length := by
    rw [here, List.length_append]
    omega
  have window : (saved.rest.drop i).take 4 = magic := by
    rw [here, ← length, List.take_left]
  unfold windowsAt
  rewrite [visitWindows_step enough, window, List.drop_drop]
  cases visit file draftRequired saved.body saved.body i magic found <;> rfl

/-- **The first section** ends the scan if all of it is there. -/
theorem windowsAt_sckp (encoded : file.items = saved.encode) (unambiguous : saved.Unambiguous) :
    windowsAt saved file draftRequired 0 none =
      if saved.checkpoints ≠ [] ∧ saved.Whole draftRequired ∧ ¬saved.Undrafted draftRequired then
        .done (.ok saved.sizes)
      else windowsAt saved file draftRequired
        (saved.main.length + (sckpCode saved.checkpoints).length) none := by
  have sckpStart : saved.sckpStart = saved.body + saved.main.length := rfl
  have sdftStart : saved.sdftStart = saved.sckpStart + (sckpCode saved.checkpoints).length := rfl
  have main := List.length_pos_of_ne_nil saved.main_ne
  have toStart := @windowsAt_skip saved file draftRequired unambiguous 0 saved.main.length none
    (fun j lt => by omega) (fun j lt => by omega)
  rw [toStart, Nat.zero_add]
  by_cases none_ : saved.checkpoints = []
  · have empty : (sckpCode saved.checkpoints).length = 0 := by
      rw [sckpCode, if_pos none_]
      rfl
    rw [if_neg fun both => both.1 none_, empty]
    rfl
  · have here : saved.rest.drop saved.main.length =
        sckpCode saved.checkpoints ++ sdftCode saved.draft := List.drop_left
    have coded : sckpCode saved.checkpoints = sckp ++ (bytes 4 1 ++
        (bytes 4 saved.checkpoints.length ++ saved.checkpoints.flatMap (·.code))) := if_neg none_
    have follows := (follows_body encoded).advance
    have window : saved.rest.drop saved.main.length = sckp ++ ((bytes 4 1 ++
        (bytes 4 saved.checkpoints.length ++ saved.checkpoints.flatMap (·.code))) ++
          sdftCode saved.draft) := by
      rw [here, coded, List.append_assoc]
    have size : 4 ≤ (sckpCode saved.checkpoints).length := by
      rw [coded, List.length_append]
      exact Nat.le_add_right 4 _
    have toEnd := @windowsAt_skip saved file draftRequired unambiguous (saved.main.length + 1)
      ((sckpCode saved.checkpoints).length - 1) none (fun j lt => by omega) (fun j lt => by omega)
    rw [windowsAt_step rfl window, visit_magic (.inl rfl) (by omega) follows.within,
      trailer_sckp none_ saved.limited follows]
    rw [show saved.main.length + 1 + ((sckpCode saved.checkpoints).length - 1) =
      saved.main.length + (sckpCode saved.checkpoints).length by omega] at toEnd
    by_cases whole : saved.Whole draftRequired
    · by_cases undrafted : saved.Undrafted draftRequired
      · rw [if_pos (show ∀ checkpoint ∈ saved.checkpoints, _ from whole),
          if_pos (show _ ∧ _ from undrafted), if_neg fun both => both.2.2 undrafted]
        exact toEnd
      · rw [if_pos (show ∀ checkpoint ∈ saved.checkpoints, _ from whole),
          if_neg (show ¬(_ ∧ _) from undrafted), if_pos ⟨none_, whole, undrafted⟩]
        rfl
    · rw [if_neg (show ¬∀ checkpoint ∈ saved.checkpoints, _ from whole),
        if_neg fun both => whole both.2.1]
      exact toEnd

/-- **The last section** is found if it is there, and a draft in it where one is required. -/
theorem windowsAt_sdft (encoded : file.items = saved.encode) (unambiguous : saved.Unambiguous) :
    windowsAt saved file draftRequired
        (saved.main.length + (sckpCode saved.checkpoints).length) none =
      .go (saved.lastSection draftRequired) := by
  have sckpStart : saved.sckpStart = saved.body + saved.main.length := rfl
  have sdftStart : saved.sdftStart = saved.sckpStart + (sckpCode saved.checkpoints).length := rfl
  have main := List.length_pos_of_ne_nil saved.main_ne
  have here : saved.rest.drop (saved.main.length + (sckpCode saved.checkpoints).length) =
      sdftCode saved.draft := by
    rw [← List.drop_drop, SavedState.rest, List.drop_left, List.drop_left]
  have follows : Follows file (saved.body + (saved.main.length +
      (sckpCode saved.checkpoints).length)) (sdftCode saved.draft) := by
    rw [← Nat.add_assoc]
    exact (follows_body encoded).advance.advance
  cases draft : saved.draft with
  | none =>
    have none_ : saved.lastSection draftRequired = none := by
      unfold SavedState.lastSection
      rw [draft]
      split <;> rfl
    rw [draft, sdftCode] at here
    rw [none_, windowsAt, here]
    rfl
  | some both =>
    obtain ⟨payload, speculative⟩ := both
    rw [draft] at here follows
    have window : saved.rest.drop (saved.main.length + (sckpCode saved.checkpoints).length) =
      sdft ++ (bytes 4 1 ++ (blobCode payload ++ blobCode speculative)) := here
    have length := congrArg List.length here
    rw [List.length_drop] at length
    have size : 4 ≤ (sdftCode (some (payload, speculative))).length := by
      rw [sdftCode, List.length_append]
      exact Nat.le_add_right 4 _
    have toEnd : ∀ found, windowsAt saved file draftRequired
        (saved.main.length + (sckpCode saved.checkpoints).length + 1) found = .go found := by
      intro found
      rw [@windowsAt_skip saved file draftRequired unambiguous _
        ((sdftCode (some (payload, speculative))).length - 1) found (fun j lt => by omega)
        (fun j lt => by omega), windowsAt, List.drop_of_length_le (by omega)]
      rfl
    have last : saved.lastSection draftRequired =
        if draftRequired ∧ payload = [] then none
        else some ⟨[], payload.length, speculative.length⟩ := by
      have same : saved.Undrafted draftRequired ↔ draftRequired ∧ payload = [] := by
        unfold SavedState.Undrafted
        rw [draft, Option.elim_some, List.length_eq_zero_iff]
      unfold SavedState.lastSection
      by_cases undrafted : draftRequired ∧ payload = []
      · rw [if_pos (same.mpr undrafted), if_pos undrafted]
      · rw [if_neg fun missing => undrafted (same.mp missing), if_neg undrafted, draft]
        rfl
    rw [windowsAt_step rfl window, visit_magic (.inr rfl) (by omega) follows.within,
      trailer_sdft follows, last]
    by_cases undrafted : draftRequired ∧ payload = []
    · rw [if_pos undrafted, if_pos undrafted]
      exact toEnd none
    · rw [if_neg undrafted, if_neg undrafted]
      dsimp only
      rw [if_neg sckp_ne_sdft.symm]
      exact toEnd _

/-- **The outcome of the inspection** of a saved state, however its reads are split. -/
theorem inspectSlot_encode (encoded : file.items = saved.encode)
    (unambiguous : saved.Unambiguous) (enough : ∀ offset, 4 ≤ chunk offset) :
    inspectSlot file chunk draftRequired = saved.outcome draftRequired := by
  have scanned := @windowsAt_sckp saved file draftRequired encoded unambiguous
  rw [windowsAt_sdft encoded unambiguous, windowsAt, List.drop_zero] at scanned
  rw [inspectSlot_scan encoded, scan_eq enough, (follows_body encoded).rest, scanned]
  unfold SavedState.outcome
  split <;> rfl

/-! ### Complete states -/

/-- Something can be restored from every checkpoint, and from the draft where one is required. -/
def SavedState.Complete (saved : SavedState) (draftRequired : Bool) : Prop :=
  (∀ checkpoint ∈ saved.checkpoints, checkpoint.Complete draftRequired) ∧
    (draftRequired → ∃ both, saved.draft = some both ∧ both.1 ≠ [])

/-- Exactly the complete states are accepted, with what they hold. -/
def Inspected (saved : SavedState) (file : SlotFile) (chunk : Nat → Nat) (draftRequired : Bool) :
    Prop :=
  ((∃ result, inspectSlot file chunk draftRequired = .ok result) ↔
      saved.Complete draftRequired) ∧
    ∀ result, inspectSlot file chunk draftRequired = .ok result → result = saved.sizes

/-- A checkpoint is incomplete, and the draft is not missing. -/
def SavedState.Misread (saved : SavedState) (draftRequired : Bool) : Prop :=
  (∃ checkpoint ∈ saved.checkpoints, ¬checkpoint.Complete draftRequired) ∧
    (draftRequired → ∃ both, saved.draft = some both ∧ both.1 ≠ [])

theorem undrafted_iff : saved.Undrafted draftRequired ↔
    ¬(draftRequired → ∃ both, saved.draft = some both ∧ both.1 ≠ []) := by
  unfold SavedState.Undrafted
  cases saved.draft with
  | none => simp
  | some both => simp

theorem complete_iff : saved.Complete draftRequired ↔
    saved.Whole draftRequired ∧ ¬saved.Undrafted draftRequired := by
  rw [undrafted_iff, not_not]
  rfl

theorem misread_iff : saved.Misread draftRequired ↔
    ¬saved.Whole draftRequired ∧ ¬saved.Undrafted draftRequired := by
  rw [undrafted_iff, not_not]
  unfold SavedState.Misread SavedState.Whole
  simp only [not_forall, exists_prop]

/-- Without a draft that is required, nothing is accepted. -/
theorem outcome_undrafted (undrafted : saved.Undrafted draftRequired) :
    saved.outcome draftRequired = .error .noSdftPayload := by
  unfold SavedState.outcome
  rw [if_neg fun all => all.2.2 undrafted]
  unfold SavedState.lastSection finish
  rw [if_pos undrafted, undrafted.1]
  rfl

theorem outcome_complete (complete : saved.Complete draftRequired) :
    saved.outcome draftRequired = .ok saved.sizes := by
  obtain ⟨whole, drafted⟩ := complete_iff.mp complete
  unfold SavedState.outcome
  by_cases none_ : saved.checkpoints = []
  · rw [if_neg fun all => all.1 none_]
    unfold SavedState.lastSection finish SavedState.sizes
    rw [if_neg drafted, none_]
    cases draft : saved.draft with
    | some both => rfl
    | none =>
      have free : draftRequired = false := by
        unfold SavedState.Undrafted at drafted
        rw [draft] at drafted
        simpa using drafted
      rw [free]
      rfl
  · rw [if_pos ⟨none_, whole, drafted⟩]

/-- An incomplete checkpoint is passed over: something is accepted, without the checkpoints. -/
theorem outcome_misread (misread : saved.Misread draftRequired) :
    ∃ result, saved.outcome draftRequired = .ok result := by
  obtain ⟨broken, drafted⟩ := misread_iff.mp misread
  unfold SavedState.outcome
  rw [if_neg fun all => broken all.2.1]
  unfold SavedState.lastSection finish
  rw [if_neg drafted]
  cases draft : saved.draft with
  | some both => exact ⟨_, rfl⟩
  | none =>
    have free : draftRequired = false := by
      unfold SavedState.Undrafted at drafted
      rw [draft] at drafted
      simpa using drafted
    rw [free]
    exact ⟨_, rfl⟩

/-- **The inspection accepts exactly the complete states if and only if** no checkpoint
is incomplete or a required draft is missing; and whatever the file, no offset leaves 64
bits. The file may be read in chunks of any sizes from four bytes on. -/
theorem inspected_iff (encoded : file.items = saved.encode) (unambiguous : saved.Unambiguous)
    (enough : ∀ offset, 4 ≤ chunk offset) :
    (Inspected saved file chunk draftRequired ↔ ¬saved.Misread draftRequired) ∧
      ∀ (file : SlotFile) (chunk : Nat → Nat) (draftRequired : Bool),
        inspectSlot file chunk draftRequired ≠ .error .overflow := by
  refine ⟨?_, inspectSlot_ne_overflow⟩
  have run := @inspectSlot_encode saved file draftRequired chunk encoded unambiguous enough
  unfold Inspected
  rw [run]
  constructor
  · intro inspected misread
    have complete := inspected.1.mp (outcome_misread misread)
    exact (misread_iff.mp misread).1 (complete_iff.mp complete).1
  · intro notMisread
    by_cases undrafted : saved.Undrafted draftRequired
    · rw [outcome_undrafted undrafted]
      refine ⟨⟨fun ⟨_, accepted⟩ => (nomatch accepted), fun complete => ?_⟩,
        fun result accepted => (nomatch accepted)⟩
      exact ((complete_iff.mp complete).2 undrafted).elim
    · have complete : saved.Complete draftRequired := by
        refine complete_iff.mpr ⟨?_, undrafted⟩
        exact Decidable.not_not.mp fun broken => notMisread (misread_iff.mpr ⟨broken, undrafted⟩)
      rw [outcome_complete complete]
      exact ⟨⟨fun _ => complete, fun _ => ⟨_, rfl⟩⟩, fun result accepted =>
        (Except.ok.inj accepted).symm⟩

end Inspected

/-! ### A checkpoint of no tokens -/

def sampleState (tokens : UInt64) : SavedState where
  tokens := [5]
  few := by decide
  main := [7]
  main_ne := by decide
  checkpoints := [⟨tokens, 0, [1], [2], []⟩]
  limited := by simp
  draft := some ([3], [])

theorem sample_small (tokens : UInt64) : (sampleState tokens).encode.length < 2 ^ 63 := by
  simp [SavedState.encode, SavedState.header, sampleState, sckpCode, sdftCode, Checkpoint.code,
    blobCode, sckp, sdft, ascii]

def sampleFile (tokens : UInt64) : SlotFile := ⟨(sampleState tokens).encode, sample_small tokens⟩

/-- A file in which the magics stand only at the starts of the sections, as far as it goes. -/
theorem unambiguous_of_bounded {saved : SavedState}
    (within : ∀ position < saved.encode.length, saved.body ≤ position →
      ((saved.encode.drop position).take 4 = sckp →
        saved.checkpoints ≠ [] ∧ position = saved.sckpStart) ∧
      ((saved.encode.drop position).take 4 = sdft →
        saved.draft.isSome ∧ position = saved.sdftStart)) : saved.Unambiguous := by
  intro position behind
  by_cases lt : position < saved.encode.length
  · exact within position lt behind
  · rw [List.drop_of_length_le (Nat.le_of_not_lt lt)]
    exact ⟨fun magic => absurd magic (by decide), fun magic => absurd magic (by decide)⟩

theorem sample_unambiguous (tokens : UInt64) (known : tokens = 0 ∨ tokens = 1) :
    (sampleState tokens).Unambiguous := by
  refine unambiguous_of_bounded ?_
  obtain rfl | rfl := known
  · decide +kernel
  · decide +kernel

/-- The checkpoint is passed over, and the draft accepted without it. -/
theorem sample_not_inspected : (sampleState 0).Unambiguous ∧
    ¬Inspected (sampleState 0) (sampleFile 0) (fun _ => 4) true := by
  have unambiguous := sample_unambiguous 0 (.inl rfl)
  refine ⟨unambiguous, fun inspected => ?_⟩
  have run : inspectSlot (sampleFile 0) (fun _ => 4) true = .ok ⟨[], 1, 0⟩ :=
    inspectSlot_encode rfl unambiguous fun _ => Nat.le_refl 4
  have complete := (inspected.1.mp ⟨_, run⟩).1 _ (.head _)
  exact complete.1 rfl

theorem sample_inspected : Inspected (sampleState 1) (sampleFile 1) (fun _ => 4) true := by
  refine (inspected_iff rfl (sample_unambiguous 1 (.inr rfl)) fun _ => Nat.le_refl 4).1.mpr ?_
  rintro ⟨⟨checkpoint, mem, broken⟩, -⟩
  obtain rfl := List.mem_singleton.mp mem
  exact broken (by decide)

end LlamaServerManager.Qualification
