import LlamaServerManager.Gguf.Reader

/-!
The reader of GGUF metadata as a stream: what its primitive reads consume.

* `GgufReader.Valid` — the counted position is where the buffered reader is.
* `decodes_readExact`, `decodes_skipBytes` — so many bytes are consumed, or the file ends.
-/

namespace LlamaServerManager.Gguf

open Lib.Buffered Lib.Decoding Lib.LittleEndian Lib.Words

/-- A file has no more bytes than an `i64` can count. -/
structure File where
  source : Source UInt8
  small : source.items.length < 2 ^ 63

/-- The reader knows the length of its file and counts its position right. -/
structure GgufReader.Valid (file : File) (reader : GgufReader) : Prop where
  source : reader.source.source = file.source
  place : reader.source.At reader.position
  length : reader.length = file.source.items.length
  position_le : reader.position ≤ reader.length

section Reader

variable {file : File} {reader reader' : GgufReader} {wanted : Nat} {output : Bytes}

/-- What is not read yet. -/
def GgufReader.rest (reader : GgufReader) : Bytes :=
  reader.source.source.items.drop reader.position

theorem GgufReader.Valid.length_rest (valid : reader.Valid file) :
    reader.position + reader.rest.length = reader.length := by
  have bound := valid.position_le
  rw [rest, valid.source, List.length_drop, ← valid.length]
  omega

theorem GgufReader.Valid.position_lt (valid : reader.Valid file) {count : Nat}
    (fits : reader.position + count ≤ reader.length) : reader.position + count < 2 ^ 64 := by
  have small := file.small
  have length := valid.length
  omega

theorem GgufReader.valid_new :
    (GgufReader.new file.source file.source.items.length).Valid file where
  source := rfl
  place := BufReader.at_new _
  length := rfl
  position_le := Nat.zero_le _

/-- A read leaves the reader behind what it gives. -/
theorem GgufReader.Valid.read (valid : reader.Valid file) (wants : 0 < wanted) :
    (reader.read wanted).2.Valid file ∧
      reader.rest = (reader.read wanted).1 ++ (reader.read wanted).2.rest ∧
      (reader.read wanted).1.length ≤ wanted ∧
      ((reader.read wanted).1 = [] → reader.rest = []) := by
  have gives := BufReader.read_gives valid.place (show 0 < bufferCapacity by decide) wants
  have place := @BufReader.read_at _ _ _ wanted bufferCapacity valid.place
  have same := @BufReader.read_source _ reader.source wanted bufferCapacity
  unfold GgufReader.read
  cases given : reader.source.read bufferCapacity wanted with
  | mk output source =>
    rw [given] at gives place same
    dsimp only at gives place same ⊢
    obtain ⟨more, whole⟩ := gives.follows
    have length : reader.position + output.length ≤ reader.length := by
      have lengths := congrArg List.length whole
      have bound := valid.position_le
      rw [List.length_append, List.length_drop, valid.source, ← valid.length] at lengths
      omega
    have position : addU64 reader.position output.length = reader.position + output.length :=
      Nat.mod_eq_of_lt (valid.position_lt length)
    rw [position]
    refine ⟨⟨same.trans valid.source, place, valid.length, length⟩, ?_, gives.length_le,
      fun none_ => List.drop_eq_nil_of_le (gives.ends none_)⟩
    rw [rest, rest, ← List.drop_drop, same, ← whole, List.drop_left]

/-- Reading on until enough is given. -/
theorem GgufReader.Valid.readExact (valid : reader.Valid file) :
    (∀ output reader', reader.readExact wanted = some (output, reader') →
        reader'.Valid file ∧ reader.rest = output ++ reader'.rest ∧ output.length = wanted) ∧
      (wanted ≤ reader.rest.length → (reader.readExact wanted).isSome) := by
  induction wanted using Nat.strongRecOn generalizing reader with
  | _ wanted ih =>
    unfold GgufReader.readExact
    split
    · rename_i nothing
      subst nothing
      refine ⟨fun output reader' eq => ?_, fun _ => rfl⟩
      obtain ⟨rfl, rfl⟩ := Prod.mk.inj (Option.some.inj eq)
      exact ⟨valid, rfl, rfl⟩
    · rename_i wants
      have step := @GgufReader.Valid.read _ _ wanted valid (Nat.pos_of_ne_zero wants)
      split
      · rename_i reader₁ given
        rw [given] at step
        have ends : reader.rest = [] := step.2.2.2 rfl
        refine ⟨fun _ _ eq => (by cases eq), fun enough => ?_⟩
        rw [ends, List.length_nil] at enough
        omega
      · rename_i byte chunk reader₁ given
        rw [given] at step
        obtain ⟨valid₁, rest, short, -⟩ := step
        dsimp only at valid₁ rest short
        rw [List.length_cons] at short
        have ih := @ih (wanted - (chunk.length + 1)) (by omega) reader₁ valid₁
        constructor
        · intro output reader' eq
          obtain ⟨⟨more, reader₂⟩, tail, eq⟩ := Option.map_eq_some_iff.mp eq
          obtain ⟨rfl, rfl⟩ := Prod.mk.inj eq
          obtain ⟨valid₂, rest₂, length⟩ := ih.1 more reader₂ tail
          refine ⟨valid₂, ?_, ?_⟩
          · rw [rest, rest₂]
            simp
          · simp only [List.cons_append, List.length_cons, List.length_append]
            omega
        · intro enough
          rw [Option.isSome_map]
          refine ih.2 ?_
          rw [rest, List.length_append, List.length_cons] at enough
          omega

theorem GgufReader.Valid.seekRelative (valid : reader.Valid file) {count : Nat}
    (fits : reader.position + count ≤ reader.length) :
    (reader.seekRelative count).Valid file ∧
      (reader.seekRelative count).rest = reader.rest.drop count := by
  have position : addU64 reader.position count = reader.position + count :=
    Nat.mod_eq_of_lt (valid.position_lt fits)
  unfold GgufReader.seekRelative
  rw [position]
  refine ⟨⟨BufReader.seekRelative_source.trans valid.source,
    BufReader.seekRelative_at valid.place, valid.length, fits⟩, ?_⟩
  rw [rest, rest, BufReader.seekRelative_source, List.drop_drop]

end Reader

/-! ### Primitive decoders -/

def stream (file : File) : Stream State UInt8 GgufParseBudget where
  valid s := s.file.Valid file
  rest s := s.file.rest
  credit s := s.budget

/-- The errors of computations that leave 64 bits. -/
def Overflows (failure : Failure) : Prop :=
  failure = .offsetOverflow ∨ failure = .arrayLengthOverflow

/-- So many bytes, as some value. -/
def exactly {α : Type} (width : Nat) (value : Bytes → α) : Grammar UInt8 GgufParseBudget α :=
  fun budget code a budget' => code.length = width ∧ a = value code ∧ budget' = budget

/-- Nothing but a charge on the budget. -/
def charged (charge : GgufParseBudget → Except Failure GgufParseBudget) :
    Grammar UInt8 GgufParseBudget Unit :=
  fun budget code _ budget' => code = [] ∧ charge budget = .ok budget'

section Decoders

variable (file : File)

theorem decodes_readExact (wanted : Nat) :
    Decodes (stream file) Overflows (readExact wanted) (exactly wanted id) where
  sound s output s' valid run := by
    unfold readExact at run
    split at run
    · rename_i bytes reader some_
      obtain ⟨rfl, rfl⟩ := Prod.mk.inj (Except.ok.inj run)
      obtain ⟨valid', rest, length⟩ := valid.readExact.1 _ _ some_
      exact ⟨valid', bytes, rest, length, rfl, rfl⟩
    · cases run
  complete s code rest output budget valid split codes := by
    obtain ⟨length, same, rfl⟩ := codes
    have enough : wanted ≤ s.file.rest.length := by
      have whole : s.file.rest = code ++ rest := split
      rw [whole, List.length_append]
      omega
    obtain ⟨⟨bytes, reader⟩, some_⟩ := Option.isSome_iff_exists.mp (valid.readExact.2 enough)
    obtain ⟨-, follows, length'⟩ := valid.readExact.1 bytes reader some_
    obtain ⟨rfl, after⟩ := List.append_inj (follows.symm.trans split) (by omega)
    refine ⟨{ s with file := reader }, ?_, after, rfl⟩
    simp [readExact, some_, same]
  fails s e _ run := by
    unfold readExact at run
    split at run
    · cases run
    · cases run
      simp [Overflows]

theorem decodes_value {α : Type} (width : Nat) (value : Bytes → α) :
    Decodes (stream file) Overflows (do return value (← readExact width))
      (exactly width value) :=
  ((decodes_readExact file width).map value).congr fun budget code a budget' => by
    constructor
    · rintro ⟨_, ⟨length, rfl, rfl⟩, rfl⟩
      exact ⟨length, rfl, rfl⟩
    · rintro ⟨length, rfl, rfl⟩
      exact ⟨code, ⟨length, rfl, rfl⟩, rfl⟩

theorem decodes_charge {charge : GgufParseBudget → Except Failure GgufParseBudget}
    (allowed : ∀ budget e, charge budget = .error e → ¬Overflows e) :
    Decodes (stream file) Overflows
      (fun s => (charge s.budget).map fun budget => ((), { s with budget })) (charged charge) where
  sound s a s' valid run := by
    cases spent : charge s.budget with
    | error e =>
      rw [spent] at run
      cases run
    | ok budget =>
      rw [spent] at run
      cases run
      exact ⟨valid, [], rfl, rfl, spent⟩
  complete s code rest a budget valid split codes := by
    obtain ⟨rfl, spent⟩ := codes
    refine ⟨{ s with budget }, ?_, split, rfl⟩
    rw [show charge s.budget = .ok budget from spent]
    rfl
  fails s e _ run := by
    cases spent : charge s.budget with
    | error e' =>
      rw [spent] at run
      cases run
      exact allowed _ _ spent
    | ok budget =>
      rw [spent] at run
      cases run

variable {file}

theorem ensureBytesAvailable_run {α : Type} {bytes : Nat} {s : State} (valid : s.file.Valid file)
    (small : bytes < 2 ^ 63) (next : Parse α) :
    (do ensureBytesAvailable bytes; next) s =
      if s.file.length < s.file.position + bytes then .error .beyondFile else next s := by
  have bound := valid.position_le
  have length := valid.length
  have fileSmall := file.small
  have within : s.file.position + bytes < 2 ^ 64 := by omega
  change (ensureBytesAvailable bytes s >>= fun p => next p.2) = _
  simp only [ensureBytesAvailable, checkedAdd, within, if_true]
  split <;> rfl

theorem GgufReader.Valid.available {s : State} {code rest : Bytes} (valid : s.file.Valid file)
    (split : s.file.rest = code ++ rest) : s.file.position + code.length ≤ s.file.length := by
  have left := valid.length_rest
  rw [split, List.length_append] at left
  omega

variable (file)

/-- What is decoded after the check takes at least as many bytes as were asked for. -/
theorem decodes_ensure {α : Type} {bytes : Nat} {decoder : Parse α}
    {grammar : Grammar UInt8 GgufParseBudget α} (small : bytes < 2 ^ 63)
    (decodes : Decodes (stream file) Overflows decoder grammar)
    (enough : ∀ budget code a budget', grammar budget code a budget' → bytes ≤ code.length) :
    Decodes (stream file) Overflows (do ensureBytesAvailable bytes; decoder) grammar where
  sound s a s' valid run := by
    rw [ensureBytesAvailable_run valid small] at run
    split at run
    · cases run
    · exact decodes.sound s a s' valid run
  complete s code rest a budget valid split codes := by
    have available := GgufReader.Valid.available valid split
    have least := enough _ _ _ _ codes
    rw [ensureBytesAvailable_run valid small, if_neg (by omega)]
    exact decodes.complete s code rest a budget valid split codes
  fails s e valid run := by
    rw [ensureBytesAvailable_run valid small] at run
    split at run
    · cases run
      simp [Overflows]
    · exact decodes.fails s e valid run

theorem skipBytes_run {bytes : Nat} {s : State} (valid : s.file.Valid file)
    (small : bytes < 2 ^ 63) : skipBytes bytes s =
      if s.file.length < s.file.position + bytes then .error .beyondFile
      else .ok ((), { s with file := s.file.seekRelative bytes }) := by
  unfold skipBytes
  rw [ensureBytesAvailable_run valid small]
  simp only [seekRelative, small, if_true]

theorem decodes_skipBytes {bytes : Nat} (small : bytes < 2 ^ 63) :
    Decodes (stream file) Overflows (skipBytes bytes) (exactly bytes fun _ => ()) where
  sound s a s' valid run := by
    rw [skipBytes_run file valid small] at run
    split at run
    · cases run
    · rename_i fits
      obtain ⟨-, rfl⟩ := Prod.mk.inj (Except.ok.inj run)
      obtain ⟨valid', rest⟩ := valid.seekRelative (Nat.not_lt.mp fits)
      have left := valid.length_rest
      refine ⟨valid', s.file.rest.take bytes, ?_, ?_, rfl, rfl⟩
      · exact (List.take_append_drop bytes s.file.rest).symm.trans (congrArg _ rest.symm)
      · rw [List.length_take]
        omega
  complete s code rest a budget valid split codes := by
    obtain ⟨rfl, -, rfl⟩ := codes
    have available := GgufReader.Valid.available valid split
    obtain ⟨-, after⟩ := valid.seekRelative available
    refine ⟨{ s with file := s.file.seekRelative code.length }, ?_, ?_, rfl⟩
    · rw [skipBytes_run file valid small, if_neg (by omega)]
    · refine after.trans ?_
      have split : s.file.rest = code ++ rest := split
      rw [split, List.drop_left]
  fails s e valid run := by
    rw [skipBytes_run file valid small] at run
    split at run
    · cases run
      simp [Overflows]
    · cases run

end Decoders

end LlamaServerManager.Gguf
