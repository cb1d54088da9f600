import LlamaServerManager.Gguf.Parsing

/-!
What a file may take of the parser's budget, in all.

* `GgufParseBudget.Spends` — strings that are read and strings that are skipped.
* `Within` — the limits of a file.
* `loop_entryOf` — entries within them, one after another.
-/

namespace LlamaServerManager.Gguf

open Lib.Decoding Lib.LittleEndian Lib.Words

/-! ### Strings -/

/-- What is left after some strings of these lengths were read and some skipped. -/
structure GgufParseBudget.Spends (budget : GgufParseBudget) (read skipped : List Nat)
    (budget' : GgufParseBudget) : Prop where
  strings : ∀ len ∈ read ++ skipped, len ≤ maxGgufStringBytes
  readItems : budget.remainingStringItems = budget'.remainingStringItems + read.length
  readBytes : budget.remainingStringBytes = budget'.remainingStringBytes + read.sum
  skippedItems : budget.remainingSkippedStringItems =
    budget'.remainingSkippedStringItems + skipped.length

namespace GgufParseBudget

variable {budget budget' : GgufParseBudget} {read skipped read' skipped' : List Nat}

theorem spends_nil : budget.Spends [] [] budget' ↔ budget' = budget := by
  constructor
  · intro spends
    obtain ⟨-, readItems, readBytes, skippedItems⟩ := spends
    cases budget
    cases budget'
    simp_all
  · rintro rfl
    exact ⟨by simp, rfl, rfl, rfl⟩

/-- Some strings and then others. -/
theorem spends_append : budget.Spends (read ++ read') (skipped ++ skipped') budget' ↔
    ∃ between, budget.Spends read skipped between ∧ between.Spends read' skipped' budget' := by
  constructor
  · intro spends
    obtain ⟨strings, readItems, readBytes, skippedItems⟩ := spends
    simp only [List.length_append, List.sum_append] at readItems readBytes skippedItems
    refine ⟨⟨budget'.remainingStringItems + read'.length,
      budget'.remainingStringBytes + read'.sum,
      budget'.remainingSkippedStringItems + skipped'.length⟩, ⟨?_, ?_, ?_, ?_⟩, ⟨?_, rfl, rfl, rfl⟩⟩
    · intro len mem
      refine strings len ?_
      simp only [List.mem_append] at mem ⊢
      exact mem.imp .inl .inl
    · dsimp only
      omega
    · dsimp only
      omega
    · dsimp only
      omega
    · intro len mem
      refine strings len ?_
      simp only [List.mem_append] at mem ⊢
      exact mem.imp .inr .inr
  · rintro ⟨between, first, then_⟩
    refine ⟨fun len mem => ?_, ?_, ?_, ?_⟩
    · have firstStrings := first.strings len
      have thenStrings := then_.strings len
      simp only [List.mem_append] at mem firstStrings thenStrings
      tauto
    · rw [first.readItems, then_.readItems, List.length_append]
      omega
    · rw [first.readBytes, then_.readBytes, List.sum_append]
      omega
    · rw [first.skippedItems, then_.skippedItems, List.length_append]
      omega

/-- A read string and then others. -/
theorem spends_cons {len : Nat} : budget.Spends (len :: read) skipped budget' ↔
    ∃ between, budget.Spends [len] [] between ∧ between.Spends read skipped budget' :=
  @spends_append budget budget' [len] [] read skipped

theorem consumeString_iff {len : Nat} :
    budget.consumeString len = .ok budget' ↔ budget.Spends [len] [] budget' := by
  rw [consumeString_eq_ok]
  constructor
  · rintro ⟨limit, items, size, skipped⟩
    exact ⟨by simpa using limit, items, by simpa using size, skipped⟩
  · rintro ⟨strings, items, size, skipped⟩
    exact ⟨strings len (by simp), items, by simpa using size, skipped⟩

theorem consumeSkippedString_iff {len : Nat} :
    budget.consumeSkippedString len = .ok budget' ↔ budget.Spends [] [len] budget' := by
  rw [consumeSkippedString_eq_ok]
  constructor
  · rintro ⟨limit, items, size, skipped⟩
    exact ⟨by simpa using limit, items, size, skipped⟩
  · rintro ⟨strings, items, size, skipped⟩
    exact ⟨strings len (by simp), items, size, skipped⟩

theorem chargeAll_consumeString {lengths : List Nat} :
    chargeAll consumeString budget lengths = .ok budget' ↔ budget.Spends lengths [] budget' := by
  induction lengths generalizing budget with
  | nil =>
    rw [spends_nil]
    exact ⟨fun spent => (Except.ok.inj spent).symm, fun same => congrArg _ same.symm⟩
  | cons len lengths ih =>
    unfold chargeAll at ih ⊢
    rw [List.foldlM_cons, Lib.bind_eq_ok, spends_cons]
    simp only [consumeString_iff, ih]

theorem chargeAll_consumeSkippedString {lengths : List Nat} :
    chargeAll consumeSkippedString budget lengths = .ok budget' ↔
      budget.Spends [] lengths budget' := by
  induction lengths generalizing budget with
  | nil =>
    rw [spends_nil]
    exact ⟨fun spent => (Except.ok.inj spent).symm, fun same => congrArg _ same.symm⟩
  | cons len lengths ih =>
    unfold chargeAll at ih ⊢
    have parts := @spends_append budget budget' [] [len] [] lengths
    rw [List.foldlM_cons, Lib.bind_eq_ok]
    simp only [consumeSkippedString_iff, ih]
    exact parts.symm

end GgufParseBudget

/-! ### Entries -/

/-- The lengths of the strings of a value that are read. -/
def Value.readLengths (tags : Bool) : Value → List Nat
  | .string raw => [raw.length]
  | .strings items => if tags then items.map (·.length) else []
  | _ => []

/-- The lengths of those that are skipped. -/
def Value.skippedLengths (tags : Bool) : Value → List Nat
  | .strings items => if tags then [] else items.map (·.length)
  | _ => []

/-- The elements of an array. -/
def Value.itemCount : Value → Nat
  | .scalars _ items => items.length
  | .strings items => items.length
  | _ => 0

theorem Value.charges_iff {tags : Bool} {value : Value} {budget budget' : GgufParseBudget} :
    value.Charges tags budget budget' ↔ value.itemCount ≤ maximumItems tags ∧
      budget.Spends (value.readLengths tags) (value.skippedLengths tags) budget' := by
  cases value with
  | scalar type raw => simp [Charges, itemCount, readLengths, skippedLengths,
      GgufParseBudget.spends_nil]
  | string raw => simp [Charges, itemCount, readLengths, skippedLengths,
      GgufParseBudget.consumeString_iff]
  | scalars type items => simp [Charges, itemCount, readLengths, skippedLengths,
      GgufParseBudget.spends_nil]
  | strings items =>
    cases tags with
    | false => simp [Charges, itemCount, readLengths, skippedLengths, chargeElement,
        GgufParseBudget.chargeAll_consumeSkippedString]
    | true => simp [Charges, itemCount, readLengths, skippedLengths, chargeElement,
        GgufParseBudget.chargeAll_consumeString]

namespace Entry

def isTags (names : Names) (entry : Entry) : Bool := isTagsKey (entry.keyLower names)

def readLengths (names : Names) (entry : Entry) : List Nat :=
  entry.key.length :: entry.value.readLengths (entry.isTags names)

def skippedLengths (names : Names) (entry : Entry) : List Nat :=
  entry.value.skippedLengths (entry.isTags names)

/-- An array is not too long. -/
def Short (names : Names) (entry : Entry) : Prop :=
  entry.value.itemCount ≤ maximumItems (entry.isTags names)

instance (names : Names) (entry : Entry) : Decidable (entry.Short names) :=
  inferInstanceAs (Decidable (_ ≤ _))

theorem charges_iff {names : Names} {entry : Entry} {budget budget' : GgufParseBudget} :
    entry.Charges names budget budget' ↔ entry.Short names ∧
      budget.Spends (entry.readLengths names) (entry.skippedLengths names) budget' := by
  unfold Charges Short readLengths skippedLengths
  rw [GgufParseBudget.spends_cons]
  simp only [GgufParseBudget.consumeString_iff, Value.charges_iff]
  constructor
  · rintro ⟨between, key, short, value⟩
    exact ⟨short, between, key, value⟩
  · rintro ⟨short, between, key, value⟩
    exact ⟨between, key, short, value⟩

end Entry

/-- The entries of a file take no more than the budget. -/
structure Within (names : Names) (entries : List Entry) : Prop where
  arrays : ∀ entry ∈ entries, entry.Short names
  strings : ∀ len ∈ entries.flatMap (·.readLengths names) ++
    entries.flatMap (·.skippedLengths names), len ≤ maxGgufStringBytes
  readItems : (entries.flatMap (·.readLengths names)).length ≤ maxGgufStringItems
  readBytes : (entries.flatMap (·.readLengths names)).sum ≤ maxGgufTotalStringBytes
  skippedItems : (entries.flatMap (·.skippedLengths names)).length ≤ maxGgufSkippedStringItems

/-- So many entries. -/
theorem loop_entryOf {names : Names} {n : Nat} {metadata metadata' : Metadata}
    {budget budget' : GgufParseBudget} {code : Bytes} :
    Grammar.loop (entryOf names) n metadata budget code metadata' budget' ↔
      ∃ entries : List Entry, entries.length = n ∧ code = entries.flatMap Entry.encode ∧
        metadata' = entries.foldl (Metadata.take names) metadata ∧
        (∀ entry ∈ entries, entry.Short names) ∧
        budget.Spends (entries.flatMap (·.readLengths names))
          (entries.flatMap (·.skippedLengths names)) budget' := by
  induction n generalizing metadata budget code with
  | zero =>
    constructor
    · rintro ⟨rfl, rfl, rfl⟩
      exact ⟨[], rfl, rfl, rfl, by simp, GgufParseBudget.spends_nil.mpr rfl⟩
    · rintro ⟨entries, length, rfl, rfl, -, spends⟩
      obtain rfl := List.length_eq_zero_iff.mp length
      exact ⟨rfl, rfl, GgufParseBudget.spends_nil.mp spends⟩
  | succ n ih =>
    constructor
    · rintro ⟨_, _, _, between, rfl, ⟨entry, rfl, charges, rfl⟩, codes⟩
      obtain ⟨entries, rfl, rfl, rfl, short, spends⟩ := ih.mp codes
      obtain ⟨shortFirst, first⟩ := Entry.charges_iff.mp charges
      exact ⟨entry :: entries, rfl, rfl, rfl, List.forall_mem_cons.mpr ⟨shortFirst, short⟩,
        GgufParseBudget.spends_append.mpr ⟨between, first, spends⟩⟩
    · rintro ⟨entries, length, rfl, rfl, short, spends⟩
      obtain ⟨entry, entries, rfl⟩ := List.exists_cons_of_length_eq_add_one length
      obtain ⟨shortFirst, short⟩ := List.forall_mem_cons.mp short
      obtain ⟨between, first, spends⟩ := GgufParseBudget.spends_append.mp spends
      exact ⟨entry.encode, _, _, between, List.flatMap_cons,
        ⟨entry, rfl, Entry.charges_iff.mpr ⟨shortFirst, first⟩, rfl⟩,
        ih.mpr ⟨entries, Nat.succ.inj length, rfl, rfl, short, spends⟩⟩

/-- A whole budget is enough for the entries within it. -/
theorem within_iff {names : Names} {entries : List Entry} :
    Within names entries ↔ (∀ entry ∈ entries, entry.Short names) ∧
      ∃ budget' : GgufParseBudget, GgufParseBudget.Spends {}
        (entries.flatMap (·.readLengths names)) (entries.flatMap (·.skippedLengths names))
        budget' := by
  constructor
  · rintro ⟨arrays, strings, readItems, readBytes, skippedItems⟩
    refine ⟨arrays, ⟨_, _, _⟩, strings, (Nat.sub_add_cancel readItems).symm,
      (Nat.sub_add_cancel readBytes).symm, (Nat.sub_add_cancel skippedItems).symm⟩
  · rintro ⟨arrays, budget', strings, readItems, readBytes, skippedItems⟩
    exact ⟨arrays, strings, Nat.le_of_add_left_le (Nat.le_of_eq readItems.symm),
      Nat.le_of_add_left_le (Nat.le_of_eq readBytes.symm),
      Nat.le_of_add_left_le (Nat.le_of_eq skippedItems.symm)⟩

end LlamaServerManager.Gguf
