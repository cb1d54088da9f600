import LlamaServerManager.Gguf.Format
import LlamaServerManager.Gguf.Metadata

/-!
The parser of GGUF metadata accepts the format and nothing else.

* `valueOf` — a value of some type, as the code that each way to consume it takes.
* `Metadata.take` — what an entry adds to the metadata.
* `decodes_readEntry` — an entry is consumed by its code.
-/

namespace LlamaServerManager.Gguf

open Lib.Buffered Lib.Decoding Lib.LittleEndian Lib.Words

/-! ### Values -/

/-- A value of a type, and what is kept of it. -/
def valueOf {α : Type} (tags : Bool) (valueType : Nat) (kept : Value → α) :
    Grammar UInt8 GgufParseBudget α :=
  fun budget code a budget' => ∃ value : Value, value.valueType = valueType ∧
    code = value.encode ∧ value.Charges tags budget budget' ∧ a = kept value

section Values

variable {α : Type} {tags : Bool} {kept : Value → α} {f : Bytes → α} {a : α}
  {budget budget' : GgufParseBudget} {code : Bytes}

theorem ScalarType.code_ne_array (type : ScalarType) : type.code ≠ 9 := by
  cases type <;> simp [ScalarType.code]

theorem valueOf_scalar {type : ScalarType} (same : ∀ raw, kept (.scalar type raw) = f raw.val) :
    valueOf tags type.code kept budget code a budget' ↔
      exactly type.width f budget code a budget' := by
  constructor
  · rintro ⟨value, types, rfl, charges, rfl⟩
    cases value with
    | scalar type' raw =>
      obtain rfl := ScalarType.code_inj types
      exact ⟨raw.2, same raw, charges⟩
    | string raw => exact absurd types.symm type.code_ne_string
    | scalars type' items => exact absurd types.symm type.code_ne_array
    | strings items => exact absurd types.symm type.code_ne_array
  · rintro ⟨length, rfl, rfl⟩
    exact ⟨.scalar type ⟨code, length⟩, rfl, rfl, rfl, (same ⟨code, length⟩).symm⟩

theorem valueOf_string (same : ∀ raw, kept (.string raw) = f raw) :
    valueOf tags 8 kept budget code a budget' ↔
      stringOf GgufParseBudget.consumeString f budget code a budget' := by
  constructor
  · rintro ⟨value, types, rfl, charges, rfl⟩
    cases value with
    | scalar type raw => exact absurd types type.code_ne_string
    | string raw => exact ⟨raw, rfl, same raw, charges⟩
    | scalars type items => cases types
    | strings items => cases types
  · rintro ⟨raw, rfl, rfl, spent⟩
    exact ⟨.string raw, rfl, rfl, spent, (same raw).symm⟩

theorem Value.valueType_mem (value : Value) :
    value.valueType ∈ [0, 1, 2, 3, 4, 5, 6, 7, 8, 9, 10, 11, 12] := by
  cases value with
  | scalar type raw => cases type <;> simp [Value.valueType, ScalarType.code]
  | string raw => simp [Value.valueType]
  | scalars type items => simp [Value.valueType]
  | strings items => simp [Value.valueType]

theorem Value.valueType_lt (value : Value) : value.valueType < 256 ^ 4 := by
  have type := value.valueType_mem
  simp only [List.mem_cons, List.not_mem_nil, or_false] at type
  omega

end Values

/-! ### Arrays -/

section Arrays

variable (file : File)

/-- An array: the type and the number of its elements, and the elements. -/
theorem decodes_array {α : Type} {tags : Bool} {kept : Value → α} {tooLarge : Failure}
    {body : Nat → Nat → Parse α} (allowed : ¬Overflows tooLarge)
    (decodes : ∀ arrayType arrayLen, arrayLen ≤ maximumItems tags →
      Decodes (stream file) Overflows (body arrayType arrayLen) fun budget code a budget' =>
        ∃ value, elementsOf tags arrayType arrayLen value budget code budget' ∧ a = kept value) :
    Decodes (stream file) Overflows
      (do
        let arrayType ← readU32
        let arrayLen ← readU64
        if maximumItems tags < arrayLen then throw tooLarge else body arrayType arrayLen)
      (valueOf tags 9 kept) := by
  have limited : ∀ arrayType arrayLen,
      Decodes (stream file) Overflows
        (if maximumItems tags < arrayLen then throw tooLarge else body arrayType arrayLen)
        fun budget code a budget' => arrayLen ≤ maximumItems tags ∧
          ∃ value, elementsOf tags arrayType arrayLen value budget code budget' ∧
            a = kept value := by
    intro arrayType arrayLen
    split
    · rename_i long
      exact Decodes.throw allowed fun _ _ _ _ codes => Nat.not_lt.mpr codes.1 long
    · rename_i short
      exact (decodes arrayType arrayLen (Nat.not_lt.mp short)).congr fun _ _ _ _ =>
        ⟨fun codes => ⟨Nat.not_lt.mp short, codes⟩, fun codes => codes.2⟩
  have small : maximumItems tags < 256 ^ 8 := by
    unfold maximumItems maxGgufTagArrayItems maxGgufArrayItems
    split <;> omega
  refine ((decodes_readU32 file).bind fun arrayType _ => (decodes_readU64 file).bind
    fun arrayLen _ => limited arrayType arrayLen).congr fun budget code a budget' => ?_
  constructor
  · rintro ⟨typeCode, _, _, _, rfl, ⟨typeLength, rfl, rfl⟩, lenCode, elements, _, _, rfl,
      ⟨lenLength, rfl, rfl⟩, limit, value, codes, rfl⟩
    refine ⟨value, ?_⟩
    unfold elementsOf at codes
    split at codes
    · rename_i type items
      obtain ⟨same, length, rfl, rfl⟩ := codes
      rw [(eq_bytes_iff (by omega)).mpr ⟨lenLength, length.symm⟩,
        (eq_bytes_iff (n := type.code) (by cases type <;> decide)).mpr ⟨typeLength, same⟩]
      exact ⟨rfl, (List.append_assoc ..).symm, ⟨length ▸ limit, rfl⟩, rfl⟩
    · rename_i items
      obtain ⟨same, length, rfl, spent⟩ := codes
      rw [(eq_bytes_iff (by omega)).mpr ⟨lenLength, length.symm⟩,
        (eq_bytes_iff (n := 8) (by decide)).mpr ⟨typeLength, same⟩]
      exact ⟨rfl, (List.append_assoc ..).symm, ⟨length ▸ limit, spent⟩, rfl⟩
    · exact codes.elim
  · rintro ⟨value, array, rfl, charges, rfl⟩
    have header : ∀ {type len : Nat} {elements : Bytes}, type < 256 ^ 4 →
        len ≤ maximumItems tags → elementsOf tags type len value budget elements budget' →
        ((exactly 4 number).bind fun arrayType => (exactly 8 number).bind fun arrayLen =>
          fun budget code a budget' => arrayLen ≤ maximumItems tags ∧
            ∃ value, elementsOf tags arrayType arrayLen value budget code budget' ∧
              a = kept value) budget (bytes 4 type ++ bytes 8 len ++ elements) (kept value)
          budget' := by
      intro type len elements typeSmall limit codes
      rw [List.append_assoc]
      exact ⟨bytes 4 type, bytes 8 len ++ elements, type, budget, rfl,
        ⟨length_bytes _ _, (number_bytes typeSmall).symm, rfl⟩, bytes 8 len, elements, len, budget,
        rfl, ⟨length_bytes _ _, (number_bytes (by omega)).symm, rfl⟩, limit, value, codes, rfl⟩
    cases value with
    | scalar type raw => cases type <;> cases array
    | string raw => cases array
    | scalars type items =>
      obtain ⟨limit, rfl⟩ := charges
      exact header (by cases type <;> decide) limit ⟨rfl, rfl, rfl, rfl⟩
    | strings items =>
      obtain ⟨limit, spent⟩ := charges
      exact header (by decide) limit ⟨rfl, rfl, rfl, spent⟩

/-- **A skipped value** is consumed by its code. -/
theorem decodes_skipGgufValue (valueType : Nat) :
    Decodes (stream file) Overflows (skipGgufValue valueType)
      (valueOf false valueType fun _ => ()) := by
  have scalar : ∀ type : ScalarType, Decodes (stream file) Overflows (skipBytes type.width)
      (valueOf false type.code fun _ => ()) := by
    intro type
    have width : type.width < 2 ^ 63 := by cases type <;> decide
    exact (decodes_skipBytes file width).congr fun _ _ _ _ =>
      (valueOf_scalar fun _ => rfl).symm
  unfold skipGgufValue
  split
  · exact scalar .u8
  · exact scalar .i8
  · exact scalar .bool
  · exact scalar .u16
  · exact scalar .i16
  · exact scalar .u32
  · exact scalar .i32
  · exact scalar .f32
  · exact scalar .u64
  · exact scalar .i64
  · exact scalar .f64
  · refine ((decodes_readGgufString file).map fun _ => ()).congr fun budget code a budget' => ?_
    rw [valueOf_string (f := fun _ => ()) fun _ => rfl]
    constructor
    · rintro ⟨_, ⟨raw, rfl, -, spent⟩, -⟩
      exact ⟨raw, rfl, rfl, spent⟩
    · rintro ⟨raw, rfl, -, spent⟩
      exact ⟨_, ⟨raw, rfl, rfl, spent⟩, rfl⟩
  · refine @decodes_array file Unit false _ .arrayTooLarge _ ?_ fun arrayType arrayLen limit => ?_
    · simp [Overflows]
    · refine (decodes_skipGgufArray file limit).congr fun _ _ _ _ => ?_
      simp [skippedElements]
  · refine Decodes.throw ?_ fun _ _ _ _ codes => ?_
    · simp [Overflows]
    · obtain ⟨value, types, -⟩ := codes
      have type := value.valueType_mem
      simp_all

end Arrays

/-! ### Tags -/

def Tags.start : Tags := ⟨[], 0, 0⟩

/-- The tags of an array, if it is one of strings. -/
def Value.keptTags : Value → List Str
  | .strings items => (items.foldl Tags.push .start).values
  | _ => []

section TagArrays

variable (file : File)

theorem decodes_readTag (tags : Tags) : Decodes (stream file) Overflows (readTag tags)
    (stringOf GgufParseBudget.consumeString tags.push) := by
  refine decodes_stringOf file (fun _ _ _ spent => (consumeString_eq_ok.mp spent).1)
    (fun _ _ _ => consumeString_error) fun len limit => ?_
  have small : len < 2 ^ 63 := by
    unfold maxGgufStringBytes at limit
    omega
  refine decodes_ensure file small ?_ fun _ code _ _ ⟨length, _⟩ => Nat.le_of_eq length.symm
  split
  · exact decodes_value file len tags.push
  · rename_i left
    refine ((decodes_skipBytes file small).map fun _ =>
      { tags with index := tags.index + 1 }).congr fun budget code a budget' => ?_
    constructor
    · rintro ⟨_, ⟨length, -, rfl⟩, rfl⟩
      refine ⟨length, ?_, rfl⟩
      rw [Tags.push, length, if_neg left]
    · rintro ⟨length, rfl, rfl⟩
      refine ⟨(), ⟨length, rfl, rfl⟩, ?_⟩
      rw [Tags.push, length, if_neg left]

theorem elementsOf_tags {arrayLen : Nat} {budget budget' : GgufParseBudget} {code : Bytes}
    {values : List Str} :
    (∃ value, elementsOf true 8 arrayLen value budget code budget' ∧ values = value.keptTags) ↔
      ∃ tags, Grammar.loop (fun tags : Tags => stringOf GgufParseBudget.consumeString tags.push)
        arrayLen .start budget code tags budget' ∧ values = tags.values := by
  simp only [loop_stringOf]
  constructor
  · rintro ⟨value, codes, rfl⟩
    obtain ⟨items, rfl, length, rfl, spent⟩ := elementsOf_string codes
    exact ⟨_, ⟨items, length, rfl, rfl, spent⟩, rfl⟩
  · rintro ⟨_, ⟨items, length, rfl, rfl, spent⟩, rfl⟩
    exact ⟨.strings items, ⟨rfl, length, rfl, spent⟩, rfl⟩

/-- Elements of another type are no tags, and spend nothing. -/
theorem elementsOf_other {arrayType arrayLen : Nat} (other : arrayType ≠ 8)
    {budget budget' : GgufParseBudget} {code : Bytes} {values : List Str} :
    (∃ value, elementsOf true arrayType arrayLen value budget code budget' ∧
        values = value.keptTags) ↔
      (∃ value, elementsOf false arrayType arrayLen value budget code budget') ∧ values = [] := by
  constructor
  · rintro ⟨value, codes, rfl⟩
    cases value with
    | scalars type items => exact ⟨⟨.scalars type items, codes⟩, rfl⟩
    | strings items => exact absurd codes.1 other
    | scalar type raw => exact codes.elim
    | string raw => exact codes.elim
  · rintro ⟨⟨value, codes⟩, rfl⟩
    cases value with
    | scalars type items => exact ⟨.scalars type items, codes, rfl⟩
    | strings items => exact absurd codes.1 other
    | scalar type raw => exact codes.elim
    | string raw => exact codes.elim

/-- **The tags** are consumed by their code, those that are kept and the others. -/
theorem decodes_readGgufStringArray : Decodes (stream file) Overflows readGgufStringArray
    (valueOf true 9 Value.keptTags) := by
  refine @decodes_array file (List Str) true _ .tagArrayTooLarge _ ?_
    fun arrayType arrayLen limit => ?_
  · simp [Overflows]
  · split
    · rename_i other
      have fits : arrayLen ≤ maxGgufArrayItems := Nat.le_trans limit (by decide)
      refine ((decodes_skipGgufArray file fits).map fun _ => []).congr
        fun budget code values budget' => ?_
      rw [elementsOf_other other]
      constructor
      · rintro ⟨_, codes, same⟩
        exact ⟨codes, same⟩
      · rintro ⟨codes, same⟩
        exact ⟨(), codes, same⟩
    · rename_i strings
      obtain rfl := Decidable.not_not.mp strings
      exact ((Decodes.loop (decodes_readTag file) arrayLen .start).map Tags.values).congr
        fun _ _ _ _ => elementsOf_tags.symm

end TagArrays

/-! ### Entries -/

/-- The key as it is compared. -/
def Entry.keyLower (names : Names) (entry : Entry) : Str :=
  names.toLowercase (fromUtf8Lossy entry.key)

def isTagsKey (keyLower : Str) : Bool := keyLower = "general.tags".toList

theorem isTagsKey_iff {keyLower : Str} :
    isTagsKey keyLower = true ↔ keyLower = "general.tags".toList :=
  decide_eq_true_iff

/-- What a value adds under a key. -/
def Metadata.takeValue (names : Names) (metadata : Metadata) (key : Str) (value : Value) :
    Metadata :=
  let keyLower := names.toLowercase key
  match value with
  | .scalar .bool raw => metadata.setBool keyLower (number raw ≠ 0)
  | .string raw => metadata.setString names keyLower (fromUtf8Lossy raw)
  | .scalar .u32 raw => metadata.setU32 key keyLower (number raw)
  | .scalar .i32 raw => metadata.setI32 keyLower (signed 32 (number raw))
  | .scalar .u64 raw => metadata.setU64 keyLower (number raw)
  | .scalar .i64 raw => metadata.setI64 keyLower (signed 64 (number raw))
  | .scalar _ _ => metadata
  | value => if isTagsKey keyLower then { metadata with tags := value.keptTags } else metadata

def Metadata.take (names : Names) (metadata : Metadata) (entry : Entry) : Metadata :=
  (metadata.sawKey names (entry.keyLower names)).takeValue names (fromUtf8Lossy entry.key)
    entry.value

/-- The other types add nothing. -/
theorem Metadata.takeValue_left {names : Names} {metadata : Metadata} {key : Str} {value : Value}
    (untyped : value.valueType ∉ [4, 5, 7, 8, 10, 11])
    (untagged : ¬(value.valueType = 9 ∧ isTagsKey (names.toLowercase key) = true)) :
    metadata.takeValue names key value = metadata := by
  cases value with
  | scalar type raw =>
    cases type <;> first | rfl | exact absurd untyped (by simp [Value.valueType, ScalarType.code])
  | string raw => exact absurd untyped (by simp [Value.valueType])
  | scalars type items | strings items => exact if_neg fun tags => untagged ⟨rfl, tags⟩

/-- An array under the key of the tags. -/
theorem Metadata.takeValue_tags {names : Names} {metadata : Metadata} {key : Str} {value : Value}
    (array : value.valueType = 9) (tags : isTagsKey (names.toLowercase key) = true) :
    metadata.takeValue names key value = { metadata with tags := value.keptTags } := by
  cases value with
  | scalar type raw => exact absurd array type.code_ne_array
  | string raw => cases array
  | scalars type items | strings items => exact if_pos tags

/-- What an entry takes of the budget, and leaves. -/
def Entry.Charges (names : Names) (budget : GgufParseBudget) (entry : Entry)
    (budget' : GgufParseBudget) : Prop :=
  ∃ between, budget.consumeString entry.key.length = .ok between ∧
    entry.value.Charges (isTagsKey (entry.keyLower names)) between budget'

/-- An entry, after some metadata. -/
def entryOf (names : Names) (metadata : Metadata) : Grammar UInt8 GgufParseBudget Metadata :=
  fun budget code metadata' budget' => ∃ entry : Entry, code = entry.encode ∧
    entry.Charges names budget budget' ∧ metadata' = metadata.take names entry

section Entries

variable (file : File) (names : Names)

/-- A scalar that is kept. -/
theorem decodes_scalar {α : Type} (type : ScalarType) {decoder : Parse α} {value : Bytes → α}
    {tags : Bool} {kept : Value → Metadata} (f : α → Metadata)
    (decodes : Decodes (stream file) Overflows decoder (exactly type.width value))
    (same : ∀ raw, kept (.scalar type raw) = f (value raw.val)) :
    Decodes (stream file) Overflows (do return f (← decoder)) (valueOf tags type.code kept) :=
  (decodes.map f).congr fun budget code a budget' => by
    rw [valueOf_scalar (f := fun code => f (value code)) same]
    constructor
    · rintro ⟨_, ⟨length, rfl, rfl⟩, rfl⟩
      exact ⟨length, rfl, rfl⟩
    · rintro ⟨length, rfl, rfl⟩
      exact ⟨_, ⟨length, rfl, rfl⟩, rfl⟩

/-- A value that is not kept. -/
theorem decodes_left {tags : Bool} {valueType : Nat} {kept : Value → Metadata}
    {metadata : Metadata} (none_ : ¬(valueType = 9 ∧ tags = true))
    (same : ∀ value : Value, value.valueType = valueType → kept value = metadata) :
    Decodes (stream file) Overflows (do skipGgufValue valueType; return metadata)
      (valueOf tags valueType kept) := by
  have charges : ∀ (value : Value) (budget budget' : GgufParseBudget),
      value.valueType = valueType →
        (value.Charges false budget budget' ↔ value.Charges tags budget budget') := by
    rintro value budget budget' rfl
    cases value with
    | scalar type raw => rfl
    | string raw => rfl
    | scalars type items | strings items =>
      obtain rfl : tags = false := by simpa [Value.valueType] using none_
      rfl
  refine ((decodes_skipGgufValue file valueType).map fun _ => metadata).congr
    fun budget code a budget' => ?_
  constructor
  · rintro ⟨_, ⟨value, types, rfl, spent, -⟩, rfl⟩
    exact ⟨value, types, rfl, (charges value _ _ types).mp spent, (same value types).symm⟩
  · rintro ⟨value, types, rfl, spent, rfl⟩
    exact ⟨(), ⟨value, types, rfl, (charges value _ _ types).mpr spent, rfl⟩, same value types⟩

/-- **An entry** is consumed by its code. -/
theorem decodes_readEntry (metadata : Metadata) :
    Decodes (stream file) Overflows (readEntry names metadata) (entryOf names metadata) := by
  refine ((decodes_readGgufString file).bind fun key _ => (decodes_readU32 file).bind
    fun valueType _ => (?_ : Decodes (stream file) Overflows _
      (valueOf (isTagsKey (names.toLowercase key)) valueType
        ((metadata.sawKey names (names.toLowercase key)).takeValue names key)))).congr
    fun budget code a budget' => ?_
  · split
    · exact decodes_scalar file .bool _
        (decodes_value file 1 fun code => decide (number code ≠ 0)) fun _ => rfl
    · refine ((decodes_readGgufString file).map _).congr fun _ _ _ _ => ?_
      rw [valueOf_string fun _ => rfl]
      constructor
      · rintro ⟨_, ⟨raw, rfl, rfl, spent⟩, rfl⟩
        exact ⟨raw, rfl, rfl, spent⟩
      · rintro ⟨raw, rfl, rfl, spent⟩
        exact ⟨_, ⟨raw, rfl, rfl, spent⟩, rfl⟩
    · exact decodes_scalar file .u32 _ (decodes_readU32 file) fun _ => rfl
    · exact decodes_scalar file .i32 _
        (decodes_value file 4 fun code => signed 32 (number code)) fun _ => rfl
    · exact decodes_scalar file .u64 _ (decodes_readU64 file) fun _ => rfl
    · exact decodes_scalar file .i64 _
        (decodes_value file 8 fun code => signed 64 (number code)) fun _ => rfl
    · rename_i notBool notString notU32 notI32 notU64 notI64
      split
      · rename_i tags
        obtain ⟨rfl, tags⟩ := tags
        have tags : isTagsKey (names.toLowercase key) = true := isTagsKey_iff.mpr tags
        refine ((decodes_readGgufStringArray file).map _).congr fun _ _ _ _ => ?_
        rw [tags]
        constructor
        · rintro ⟨_, ⟨value, array, rfl, spent, rfl⟩, rfl⟩
          exact ⟨value, array, rfl, spent, (Metadata.takeValue_tags array tags).symm⟩
        · rintro ⟨value, array, rfl, spent, rfl⟩
          exact ⟨_, ⟨value, array, rfl, spent, rfl⟩, Metadata.takeValue_tags array tags⟩
      · rename_i other
        have untagged : ¬(valueType = 9 ∧ isTagsKey (names.toLowercase key) = true) :=
          fun tags => other ⟨tags.1, isTagsKey_iff.mp tags.2⟩
        refine decodes_left file untagged ?_
        rintro value rfl
        refine Metadata.takeValue_left ?_ untagged
        simp only [List.mem_cons, List.not_mem_nil, or_false]
        rintro (type | type | type | type | type | type) <;> contradiction
  · constructor
    · rintro ⟨_, _, _, _, rfl, ⟨raw, rfl, rfl, spent⟩, typeCode, _, _, _, rfl,
        ⟨length, rfl, rfl⟩, value, types, rfl, charges, rfl⟩
      refine ⟨⟨raw, value⟩, ?_, ⟨_, spent, charges⟩, rfl⟩
      rw [(eq_bytes_iff value.valueType_lt).mpr ⟨length, types.symm⟩]
      exact (List.append_assoc ..).symm
    · rintro ⟨entry, rfl, ⟨between, spent, charges⟩, rfl⟩
      exact ⟨encodeString entry.key, bytes 4 entry.value.valueType ++ entry.value.encode, _,
        between, List.append_assoc .., ⟨entry.key, rfl, rfl, spent⟩,
        bytes 4 entry.value.valueType, entry.value.encode, entry.value.valueType, between, rfl,
        ⟨length_bytes _ _, (number_bytes entry.value.valueType_lt).symm, rfl⟩,
        entry.value, rfl, rfl, charges, rfl⟩

end Entries

end LlamaServerManager.Gguf
