import LlamaServerManager.Gguf.Stream
import LlamaServerManager.Lib.Except

/-!
The metadata format of GGUF: values, entries, and their codes.

* `Value`, `Entry` — what an entry holds; a scalar has as many bytes as its type.
* `Entry.encode` — the only code of an entry.
* `Entry.charge` — what an entry takes of the parser's budget.
* `decodes_skipGgufArray` — the elements of an array are skipped by their code.
-/

namespace LlamaServerManager.Gguf

open Lib.Decoding Lib.LittleEndian Lib.Words

inductive ScalarType where
  | u8 | i8 | u16 | i16 | u32 | i32 | f32 | bool | u64 | i64 | f64
deriving DecidableEq

def ScalarType.code : ScalarType → Nat
  | .u8 => 0
  | .i8 => 1
  | .u16 => 2
  | .i16 => 3
  | .u32 => 4
  | .i32 => 5
  | .f32 => 6
  | .bool => 7
  | .u64 => 10
  | .i64 => 11
  | .f64 => 12

def ScalarType.width : ScalarType → Nat
  | .u8 | .i8 | .bool => 1
  | .u16 | .i16 => 2
  | .u32 | .i32 | .f32 => 4
  | .u64 | .i64 | .f64 => 8

/-- The bytes of a scalar. -/
abbrev Raw (type : ScalarType) := { raw : Bytes // raw.length = type.width }

/-- Of a type from 0 to 12. -/
inductive Value where
  | scalar (type : ScalarType) (raw : Raw type)
  | string (raw : Bytes)
  | scalars (type : ScalarType) (items : List (Raw type))
  | strings (items : List Bytes)

structure Entry where
  key : Bytes
  value : Value

/-! ### Codes -/

def encodeString (raw : Bytes) : Bytes := bytes 8 raw.length ++ raw

def Value.valueType : Value → Nat
  | .scalar type _ => type.code
  | .string _ => 8
  | .scalars _ _ | .strings _ => 9

def Value.encode : Value → Bytes
  | .scalar _ raw => raw
  | .string raw => encodeString raw
  | .scalars type items => bytes 4 type.code ++ bytes 8 items.length ++ items.flatMap (·.val)
  | .strings items => bytes 4 8 ++ bytes 8 items.length ++ items.flatMap encodeString

def Entry.encode (entry : Entry) : Bytes :=
  encodeString entry.key ++ bytes 4 entry.value.valueType ++ entry.value.encode

/-! ### Budgets -/

/-- One charge after another. -/
def chargeAll (charge : GgufParseBudget → Nat → Except Failure GgufParseBudget)
    (budget : GgufParseBudget) (lengths : List Nat) : Except Failure GgufParseBudget :=
  lengths.foldlM charge budget

/-- How many elements an array may have. -/
def maximumItems (tags : Bool) : Nat := if tags then maxGgufTagArrayItems else maxGgufArrayItems

/-- Tags are counted with the other strings that are read. -/
def chargeElement (tags : Bool) : GgufParseBudget → Nat → Except Failure GgufParseBudget :=
  if tags then GgufParseBudget.consumeString else GgufParseBudget.consumeSkippedString

/-- What a value takes of the budget, and leaves. -/
def Value.Charges (tags : Bool) (budget : GgufParseBudget) (value : Value)
    (budget' : GgufParseBudget) : Prop :=
  match value with
  | .scalar _ _ => budget' = budget
  | .string raw => budget.consumeString raw.length = .ok budget'
  | .scalars _ items => items.length ≤ maximumItems tags ∧ budget' = budget
  | .strings items => items.length ≤ maximumItems tags ∧
      chargeAll (chargeElement tags) budget (items.map (·.length)) = .ok budget'

/-! ### Decoders -/

variable {budget budget' : GgufParseBudget}

theorem consumeString_eq_ok {len : Nat} :
    budget.consumeString len = .ok budget' ↔ len ≤ maxGgufStringBytes ∧
      budget.remainingStringItems = budget'.remainingStringItems + 1 ∧
      budget.remainingStringBytes = budget'.remainingStringBytes + len ∧
      budget.remainingSkippedStringItems = budget'.remainingSkippedStringItems := by
  obtain ⟨items, size, skipped⟩ := budget
  obtain ⟨items', size', skipped'⟩ := budget'
  unfold GgufParseBudget.consumeString
  dsimp only
  split
  · simp only [reduceCtorEq, false_iff]
    omega
  · rw [← checkedSub_eq_some, ← checkedSub_eq_some]
    cases checkedSub items 1 with
    | none => simp
    | some left =>
      cases checkedSub size len with
      | none => simp
      | some more => simp; omega

theorem consumeSkippedString_eq_ok {len : Nat} :
    budget.consumeSkippedString len = .ok budget' ↔ len ≤ maxGgufStringBytes ∧
      budget.remainingStringItems = budget'.remainingStringItems ∧
      budget.remainingStringBytes = budget'.remainingStringBytes ∧
      budget.remainingSkippedStringItems = budget'.remainingSkippedStringItems + 1 := by
  obtain ⟨items, size, skipped⟩ := budget
  obtain ⟨items', size', skipped'⟩ := budget'
  unfold GgufParseBudget.consumeSkippedString
  dsimp only
  split
  · simp only [reduceCtorEq, false_iff]
    omega
  · rw [← checkedSub_eq_some]
    cases checkedSub skipped 1 with
    | none => simp
    | some left => simp; omega

theorem consumeString_error {budget : GgufParseBudget} {len : Nat} {e : Failure}
    (failed : budget.consumeString len = .error e) : ¬Overflows e := by
  unfold GgufParseBudget.consumeString at failed
  repeat' split at failed
  all_goals cases failed
  all_goals simp [Overflows]

theorem consumeSkippedString_error {budget : GgufParseBudget} {len : Nat} {e : Failure}
    (failed : budget.consumeSkippedString len = .error e) : ¬Overflows e := by
  unfold GgufParseBudget.consumeSkippedString at failed
  repeat' split at failed
  all_goals cases failed
  all_goals simp [Overflows]

/-- A string that some charge allows. -/
def stringOf {α : Type} (charge : GgufParseBudget → Nat → Except Failure GgufParseBudget)
    (value : Bytes → α) : Grammar UInt8 GgufParseBudget α :=
  fun budget code a budget' => ∃ raw, code = encodeString raw ∧ a = value raw ∧
    charge budget raw.length = .ok budget'

section Strings

variable (file : File)

theorem decodes_readU64 :
    Decodes (stream file) Overflows readU64 (exactly 8 number) :=
  decodes_value file 8 number

theorem decodes_readU32 :
    Decodes (stream file) Overflows readU32 (exactly 4 number) :=
  decodes_value file 4 number

/-- A length, a charge for it, and so many bytes. -/
theorem decodes_stringOf {α : Type}
    {charge : GgufParseBudget → Nat → Except Failure GgufParseBudget} {value : Bytes → α}
    {body : Nat → Parse α} (limited : ∀ budget len budget', charge budget len = .ok budget' →
      len ≤ maxGgufStringBytes)
    (allowed : ∀ budget len e, charge budget len = .error e → ¬Overflows e)
    (decodes : ∀ len ≤ maxGgufStringBytes,
      Decodes (stream file) Overflows (body len) (exactly len value)) :
    Decodes (stream file) Overflows
      (do
        let len ← readU64
        (fun s => (charge s.budget len).map fun budget => ((), { s with budget }) : Parse Unit)
        body len)
      (stringOf charge value) := by
  refine ((decodes_readU64 file).bind fun len _ =>
    (decodes_charge file (fun budget e => allowed budget len e)).bind fun _ spent =>
      decodes len ?_).congr fun budget code a budget' => ?_
  · obtain ⟨_, _, _, _, spent⟩ := spent
    exact limited _ _ _ spent
  · constructor
    · rintro ⟨head, tail, len, between, rfl, ⟨length, rfl, rfl⟩, _, raw, _, between', rfl,
        ⟨rfl, spent⟩, same, rfl, rfl⟩
      have limit := limited _ _ _ spent
      refine ⟨raw, ?_, rfl, same ▸ spent⟩
      rw [encodeString, (eq_bytes_iff ?_).mpr ⟨length, same.symm⟩]
      · rfl
      · unfold maxGgufStringBytes at limit
        omega
    · rintro ⟨raw, rfl, rfl, spent⟩
      have limit := limited _ _ _ spent
      have fits : raw.length < 256 ^ 8 := by
        unfold maxGgufStringBytes at limit
        omega
      refine ⟨bytes 8 raw.length, raw, raw.length, budget, rfl,
        ⟨length_bytes _ _, (number_bytes fits).symm, rfl⟩, [], raw, (), budget', rfl,
        ⟨rfl, spent⟩, rfl, rfl, rfl⟩

theorem decodes_readGgufString : Decodes (stream file) Overflows readGgufString
    (stringOf GgufParseBudget.consumeString fromUtf8Lossy) := by
  refine decodes_stringOf file (fun _ _ _ spent => (consumeString_eq_ok.mp spent).1)
    (fun _ _ _ => consumeString_error) fun len limit =>
      decodes_ensure file ?_ (decodes_value file len fromUtf8Lossy) ?_
  · unfold maxGgufStringBytes at limit
    omega
  · rintro _ code _ _ ⟨rfl, -, -⟩
    exact Nat.le_refl _

theorem decodes_skipGgufString : Decodes (stream file) Overflows skipGgufString
    (stringOf GgufParseBudget.consumeSkippedString fun _ => ()) := by
  refine decodes_stringOf file (fun _ _ _ spent => (consumeSkippedString_eq_ok.mp spent).1)
    (fun _ _ _ => consumeSkippedString_error) fun len limit => decodes_skipBytes file ?_
  unfold maxGgufStringBytes at limit
  omega

/-- So many strings. -/
theorem loop_stringOf {α : Type}
    {charge : GgufParseBudget → Nat → Except Failure GgufParseBudget} {push : α → Bytes → α}
    {n : Nat} {start a : α} {budget budget' : GgufParseBudget} {code : Bytes} :
    Grammar.loop (fun a => stringOf charge (push a)) n start budget code a budget' ↔
      ∃ items : List Bytes, items.length = n ∧ code = items.flatMap encodeString ∧
        a = items.foldl push start ∧
        chargeAll charge budget (items.map (·.length)) = .ok budget' := by
  induction n generalizing start budget code with
  | zero =>
    constructor
    · rintro ⟨rfl, rfl, rfl⟩
      exact ⟨[], rfl, rfl, rfl, rfl⟩
    · rintro ⟨items, length, rfl, rfl, spent⟩
      obtain rfl := List.length_eq_zero_iff.mp length
      exact ⟨rfl, rfl, (Except.ok.inj spent).symm⟩
  | succ n ih =>
    constructor
    · rintro ⟨_, _, _, between, rfl, ⟨raw, rfl, rfl, spent⟩, codes⟩
      obtain ⟨items, rfl, rfl, rfl, spent'⟩ := ih.mp codes
      refine ⟨raw :: items, rfl, rfl, rfl, ?_⟩
      unfold chargeAll at spent' ⊢
      rw [List.map_cons, List.foldlM_cons, spent]
      exact spent'
    · rintro ⟨items, length, rfl, rfl, spent⟩
      obtain ⟨raw, items, rfl⟩ := List.exists_cons_of_length_eq_add_one length
      unfold chargeAll at spent
      rw [List.map_cons, List.foldlM_cons] at spent
      obtain ⟨between, first, rest⟩ := Lib.bind_eq_ok.mp spent
      exact ⟨_, _, _, between, List.flatMap_cons, ⟨raw, rfl, rfl, first⟩,
        ih.mpr ⟨items, Nat.succ.inj length, rfl, rfl, rest⟩⟩

end Strings

/-! ### Arrays -/

/-- The elements of an array of a type. -/
def elementsOf (tags : Bool) (arrayType arrayLen : Nat) (value : Value)
    (budget : GgufParseBudget) (code : Bytes) (budget' : GgufParseBudget) : Prop :=
  match value with
  | .scalars type items => arrayType = type.code ∧ items.length = arrayLen ∧
      code = items.flatMap (·.val) ∧ budget' = budget
  | .strings items => arrayType = 8 ∧ items.length = arrayLen ∧
      code = items.flatMap encodeString ∧
      chargeAll (chargeElement tags) budget (items.map (·.length)) = .ok budget'
  | _ => False

/-- Elements that are not kept. -/
def skippedElements (arrayType arrayLen : Nat) : Grammar UInt8 GgufParseBudget Unit :=
  fun budget code _ budget' =>
    ∃ value, elementsOf false arrayType arrayLen value budget code budget'

variable {code : Bytes}

/-- Bytes of the right number are elements. -/
theorem exists_scalars {type : ScalarType} {n : Nat} : code.length = n * type.width ↔
      ∃ items : List (Raw type), items.length = n ∧ code = items.flatMap (·.val) := by
  induction n generalizing code with
  | zero => simp
  | succ n ih =>
    constructor
    · intro length
      have first : (code.take type.width).length = type.width := by
        rw [List.length_take, Nat.succ_mul] at *
        omega
      have rest : (code.drop type.width).length = n * type.width := by
        rw [List.length_drop, length, Nat.succ_mul]
        omega
      obtain ⟨items, rfl, whole⟩ := ih.mp rest
      refine ⟨⟨_, first⟩ :: items, rfl, ?_⟩
      rw [List.flatMap_cons, ← whole, List.take_append_drop]
    · rintro ⟨items, length, rfl⟩
      obtain ⟨raw, items, rfl⟩ := List.exists_cons_of_length_eq_add_one length
      have rest := ih.mpr ⟨items, Nat.succ.inj length, rfl⟩
      rw [List.flatMap_cons, List.length_append, rest, raw.2, Nat.succ_mul]
      omega

theorem ScalarType.code_ne_string (type : ScalarType) : type.code ≠ 8 := by
  cases type <;> decide

theorem ScalarType.code_inj {type type' : ScalarType} (same : type.code = type'.code) :
    type = type' := by
  cases type <;> cases type' <;> first | rfl | cases same

theorem elementsOf_scalar {tags : Bool} {type : ScalarType} {arrayLen : Nat} {value : Value}
    (codes : elementsOf tags type.code arrayLen value budget code budget') :
    ∃ items : List (Raw type), value = .scalars type items ∧ items.length = arrayLen ∧
      code = items.flatMap (·.val) ∧ budget' = budget := by
  unfold elementsOf at codes
  split at codes
  · obtain ⟨same, length, rfl, rfl⟩ := codes
    obtain rfl := ScalarType.code_inj same
    exact ⟨_, rfl, length, rfl, rfl⟩
  · exact absurd codes.1 type.code_ne_string
  · exact codes.elim

theorem elementsOf_string {tags : Bool} {arrayLen : Nat} {value : Value}
    (codes : elementsOf tags 8 arrayLen value budget code budget') :
    ∃ items, value = .strings items ∧ items.length = arrayLen ∧
      code = items.flatMap encodeString ∧
      chargeAll (chargeElement tags) budget (items.map (·.length)) = .ok budget' := by
  unfold elementsOf at codes
  split at codes
  · exact absurd codes.1.symm (ScalarType.code_ne_string _)
  · exact ⟨_, rfl, codes.2⟩
  · exact codes.elim

theorem elementsOf_type {tags : Bool} {arrayType arrayLen : Nat} {value : Value}
    (codes : elementsOf tags arrayType arrayLen value budget code budget') :
    arrayType ∈ [0, 1, 2, 3, 4, 5, 6, 7, 8, 10, 11, 12] := by
  unfold elementsOf at codes
  split at codes
  · rename_i type _
    rw [codes.1]
    cases type <;> decide
  · rw [codes.1]
    decide
  · exact codes.elim

theorem skippedElements_scalar {type : ScalarType} {arrayLen : Nat} {u : Unit} :
    skippedElements type.code arrayLen budget code u budget' ↔
      exactly (arrayLen * type.width) (fun _ => ()) budget code u budget' := by
  constructor
  · rintro ⟨value, codes⟩
    obtain ⟨items, -, length, rfl, rfl⟩ := elementsOf_scalar codes
    exact ⟨exists_scalars.mpr ⟨items, length, rfl⟩, rfl, rfl⟩
  · rintro ⟨length, -, rfl⟩
    obtain ⟨items, count, rfl⟩ := exists_scalars.mp length
    exact ⟨.scalars type items, rfl, count, rfl, rfl⟩

theorem skippedElements_string {arrayLen : Nat} {u : Unit} :
    skippedElements 8 arrayLen budget code u budget' ↔
      Grammar.loop (fun u => stringOf GgufParseBudget.consumeSkippedString
        ((fun _ _ => ()) u)) arrayLen () budget code u budget' := by
  rw [loop_stringOf]
  constructor
  · rintro ⟨value, codes⟩
    obtain ⟨items, -, length, rfl, spent⟩ := elementsOf_string codes
    exact ⟨items, length, rfl, rfl, spent⟩
  · rintro ⟨items, length, rfl, -, spent⟩
    exact ⟨.strings items, rfl, length, rfl, spent⟩

section Arrays

variable (file : File)

theorem decodes_skipScaledArray (type : ScalarType) {arrayLen : Nat}
    (limit : arrayLen ≤ maxGgufArrayItems) :
    Decodes (stream file) Overflows (skipScaledArray arrayLen type.width)
      (skippedElements type.code arrayLen) := by
  have width : type.width ≤ 8 := by cases type <;> decide
  have bytes : arrayLen * type.width ≤ 10000000 * 8 := Nat.mul_le_mul limit width
  unfold skipScaledArray checkedMul
  rw [if_pos (by omega)]
  exact (decodes_skipBytes file (by omega)).congr fun _ _ _ _ => skippedElements_scalar.symm

/-- A decoder where the budget may forbid it, but then the grammar has no codes either. -/
theorem decodes_unless {α : Type} {forbids : GgufParseBudget → Prop} [DecidablePred forbids]
    {e : Failure} {decoder : Parse α} {grammar : Grammar UInt8 GgufParseBudget α}
    (allowed : ¬Overflows e) (decodes : Decodes (stream file) Overflows decoder grammar)
    (none_ : ∀ budget code a budget', grammar budget code a budget' → ¬forbids budget) :
    Decodes (stream file) Overflows
      (do if forbids (← get).budget then throw e else decoder) grammar := by
  have run : ∀ s : State, (do if forbids (← get).budget then throw e else decoder : Parse α) s =
      if forbids s.budget then .error e else decoder s := by
    intro s
    change (if forbids s.budget then throw e else decoder : Parse α) s = _
    split <;> rfl
  refine ⟨fun s a s' valid ok => ?_, fun s code rest a budget valid split codes => ?_,
    fun s e' valid failed => ?_⟩
  · rw [run] at ok
    split at ok
    · cases ok
    · exact decodes.sound s a s' valid ok
  · have permitted : ¬forbids s.budget := none_ _ _ _ _ codes
    rw [run, if_neg permitted]
    exact decodes.complete s code rest a budget valid split codes
  · rw [run] at failed
    split at failed
    · cases failed
      exact allowed
    · exact decodes.fails s e' valid failed

/-- Each of the skipped strings takes one of those that may be skipped. -/
theorem chargeAll_skipped {lengths : List Nat} {budget budget' : GgufParseBudget}
    (spent : chargeAll GgufParseBudget.consumeSkippedString budget lengths = .ok budget') :
    lengths.length ≤ budget.remainingSkippedStringItems := by
  induction lengths generalizing budget with
  | nil => exact Nat.zero_le _
  | cons len lengths ih =>
    unfold chargeAll at spent
    rw [List.foldlM_cons] at spent
    obtain ⟨between, first, rest⟩ := Lib.bind_eq_ok.mp spent
    have left := ih rest
    have taken := (consumeSkippedString_eq_ok.mp first).2.2.2
    rw [List.length_cons]
    omega

/-- **The elements of an array** are skipped by their code. -/
theorem decodes_skipGgufArray {arrayType arrayLen : Nat} (limit : arrayLen ≤ maxGgufArrayItems) :
    Decodes (stream file) Overflows (skipGgufArray arrayType arrayLen)
      (skippedElements arrayType arrayLen) := by
  have single : ∀ type : ScalarType, type.width = 1 →
      Decodes (stream file) Overflows (skipBytes arrayLen)
        (skippedElements type.code arrayLen) := by
    intro type width
    unfold maxGgufArrayItems at limit
    refine (decodes_skipBytes file (by omega)).congr fun _ _ _ _ => ?_
    rw [skippedElements_scalar, width, Nat.mul_one]
  unfold skipGgufArray
  split
  · exact single .u8 rfl
  · exact single .i8 rfl
  · exact single .bool rfl
  · exact decodes_skipScaledArray file .u16 limit
  · exact decodes_skipScaledArray file .i16 limit
  · exact decodes_skipScaledArray file .u32 limit
  · exact decodes_skipScaledArray file .i32 limit
  · exact decodes_skipScaledArray file .f32 limit
  · exact decodes_skipScaledArray file .u64 limit
  · exact decodes_skipScaledArray file .i64 limit
  · exact decodes_skipScaledArray file .f64 limit
  · have strings := (Decodes.loop (fun _ => decodes_skipGgufString file) arrayLen ()).congr
      fun _ _ _ _ => skippedElements_string.symm
    refine @decodes_unless file Unit
      (fun budget => budget.remainingSkippedStringItems < arrayLen) _ _ _ _ ?_ strings ?_
    · simp [Overflows]
    · rintro budget code _ budget' ⟨value, codes⟩ few
      obtain ⟨items, -, rfl, -, spent⟩ := elementsOf_string codes
      have enough := chargeAll_skipped spent
      rw [List.length_map] at enough
      omega
  · refine Decodes.throw ?_ fun _ _ _ _ codes => ?_
    · simp [Overflows]
    · obtain ⟨value, codes⟩ := codes
      have type := elementsOf_type codes
      simp_all

end Arrays

end LlamaServerManager.Gguf
