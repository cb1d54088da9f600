import LlamaServerManager.Gguf.Acceptance
import LlamaServerManager.Lib.Assignments

/-!
Is GGUF metadata read as a map?

* `Entry.architecture`, `Entry.contextLength`, `Entry.mtpLayers`, `Entry.hasSwa` — what an entry
  assigns; a later one assigns over an earlier one.
* `readAsMap_iff` — the order does not matter if those that assign one of them agree.
-/

namespace LlamaServerManager.Gguf

open Lib Lib.Decoding Lib.LittleEndian Lib.Words
open Metadata (asU32 isSwaKey)

/-! ### Assignments -/

/-- An integer of 4 or 8 bytes. -/
def Value.integer : Value → Option Int
  | .scalar .u32 raw => some (number raw.val)
  | .scalar .i32 raw => some (signed 32 (number raw.val))
  | .scalar .u64 raw => some (number raw.val)
  | .scalar .i64 raw => some (signed 64 (number raw.val))
  | _ => none

def Value.isUnsigned : Value → Bool
  | .scalar .u32 _ | .scalar .u64 _ => true
  | _ => false

namespace Entry

variable (names : Names) (entry : Entry)

def architecture : Option Str :=
  if entry.keyLower names = "general.architecture".toList then
    match entry.value with
    | .string raw => some (fromUtf8Lossy raw)
    | _ => none
  else none

/-- Zero is only ignored where it has a sign. -/
def contextLength : Option Nat :=
  if contains (entry.keyLower names) "context_length" then
    entry.value.integer.bind fun n =>
      if entry.value.isUnsigned ∨ 0 < n then some (asU32 n) else none
  else none

def mtpLayers : Option Nat :=
  if contains (entry.keyLower names) "nextn_predict_layers" then
    entry.value.integer.bind fun n => if 0 < n then some (asU32 n) else none
  else none

def hasSwa : Option Bool :=
  if isSwaKey (entry.keyLower names) then entry.value.integer.map fun n => decide (0 < n) else none

end Entry

/-- What is assigned by the entries. -/
structure Reported where
  architecture : Option Str
  contextLength : Option Nat
  mtpLayers : Option Nat
  hasSwa : Option Bool
deriving DecidableEq

def Metadata.reported (metadata : Metadata) : Reported :=
  ⟨metadata.architecture, metadata.contextLength, metadata.mtpLayers, metadata.hasSwa⟩

def GgufMetadataSummary.reported (summary : GgufMetadataSummary) : Reported :=
  ⟨summary.architecture, summary.contextLength, summary.capabilities.mtpLayers,
    summary.capabilities.hasSwa⟩

/-- An entry assigns over what was reported. -/
def Entry.assign (names : Names) (entry : Entry) (reported : Reported) : Reported where
  architecture := (entry.architecture names).or reported.architecture
  contextLength := (entry.contextLength names).or reported.contextLength
  mtpLayers := (entry.mtpLayers names).or reported.mtpLayers
  hasSwa := (entry.hasSwa names).or reported.hasSwa

theorem asU32_number {code : Bytes} (length : code.length = 4) :
    asU32 (number code : Nat) = number code := by
  have small : number code < 256 ^ 4 := length ▸ number_lt code
  unfold asU32
  omega

section Take

variable (names : Names) (metadata : Metadata)

theorem reported_setText (keyLower value : Str) :
    (metadata.setText names keyLower value).reported = metadata.reported := by
  unfold Metadata.setText
  repeat' split
  all_goals rfl

theorem reported_setBool (keyLower : Str) (value : Bool) :
    (metadata.setBool keyLower value).reported = metadata.reported := by
  unfold Metadata.setBool
  split <;> rfl

theorem reported_setString (keyLower value : Str) :
    (metadata.setString names keyLower value).reported =
      if keyLower = "general.architecture".toList then
        { metadata.reported with architecture := some value }
      else metadata.reported := by
  change (Metadata.setText names _ keyLower value).reported = _
  rw [reported_setText]
  split <;> rfl

/-- What has no integer assigns no number. -/
theorem assign_of_none {entry : Entry} (none_ : entry.value.integer = none)
    (reported : Reported) : entry.assign names reported =
      { reported with
        architecture := (entry.architecture names).or reported.architecture } := by
  simp [Entry.assign, Entry.contextLength, Entry.mtpLayers, Entry.hasSwa, none_]

/-- What is no string is no architecture. -/
theorem architecture_of_none {entry : Entry} (none_ : entry.value.valueType ≠ 8) :
    entry.architecture names = none := by
  unfold Entry.architecture
  split
  · split
    · rename_i raw same
      rw [same] at none_
      exact absurd rfl none_
    · rfl
  · rfl

/-- Other values assign nothing. -/
theorem assign_of_other (key : Bytes) {value : Value} (integer : value.integer = none)
    (string : value.valueType ≠ 8) (reported : Reported) :
    Entry.assign names ⟨key, value⟩ reported = reported := by
  rw [assign_of_none names integer, architecture_of_none names string]
  rfl

/-- What an integer assigns. -/
theorem assign_of_integer {entry : Entry} {n : Int} (integer : entry.value.integer = some n)
    (reported : Reported) : entry.assign names reported =
      { architecture := reported.architecture
        contextLength :=
          if contains (entry.keyLower names) "context_length" ∧
              (entry.value.isUnsigned ∨ 0 < n) then some (asU32 n)
          else reported.contextLength
        mtpLayers :=
          if contains (entry.keyLower names) "nextn_predict_layers" ∧ 0 < n then some (asU32 n)
          else reported.mtpLayers
        hasSwa :=
          if isSwaKey (entry.keyLower names) then some (decide (0 < n)) else reported.hasSwa } := by
  have unnamed : entry.architecture names = none := by
    refine architecture_of_none names fun string => ?_
    cases value : entry.value with
    | string raw =>
      rw [value] at integer
      cases integer
    | scalar type raw =>
      rw [value] at string
      exact type.code_ne_string string
    | scalars type items | strings items =>
      rw [value] at string
      cases string
  unfold Entry.assign Entry.contextLength Entry.mtpLayers Entry.hasSwa
  simp only [unnamed, integer, Option.none_or, Option.bind_some, Option.map_some, Reported.mk.injEq,
    true_and]
  refine ⟨?_, ?_, ?_⟩
  · by_cases keyed : contains (entry.keyLower names) "context_length" = true <;>
      by_cases counted : entry.value.isUnsigned = true ∨ 0 < n <;> simp [keyed, counted]
  · by_cases keyed : contains (entry.keyLower names) "nextn_predict_layers" = true <;>
      by_cases positive : 0 < n <;> simp [keyed, positive]
  · by_cases keyed : isSwaKey (entry.keyLower names) = true <;> simp [keyed]

theorem reported_take (entry : Entry) :
    (metadata.take names entry).reported = entry.assign names metadata.reported := by
  obtain ⟨key, value⟩ := entry
  have saw : (metadata.sawKey names (names.toLowercase (fromUtf8Lossy key))).reported =
    metadata.reported := rfl
  rw [← saw]
  unfold Metadata.take Entry.keyLower
  generalize metadata.sawKey names (names.toLowercase (fromUtf8Lossy key)) = metadata
  dsimp only
  cases value with
  | string raw =>
    rw [assign_of_none names rfl]
    refine (reported_setString names metadata _ _).trans ?_
    unfold Entry.architecture Entry.keyLower
    split <;> rfl
  | scalars type items | strings items =>
    rw [assign_of_other names key rfl]
    · unfold Metadata.takeValue
      dsimp only
      split <;> rfl
    · exact Nat.succ_ne_self 8
  | scalar type raw =>
    cases type with
    | u32 =>
      rw [assign_of_integer names rfl, asU32_number raw.2]
      unfold Metadata.takeValue Metadata.setU32 Metadata.reported Entry.keyLower
      simp only [Value.isUnsigned, true_or, and_true, Nat.cast_pos]
    | u64 =>
      rw [assign_of_integer names rfl]
      unfold Metadata.takeValue Metadata.setU64 Metadata.reported Entry.keyLower
      simp only [Value.isUnsigned, true_or, and_true, Nat.cast_pos]
    | i32 =>
      rw [assign_of_integer names rfl]
      unfold Metadata.takeValue Metadata.setI32 Metadata.reported Entry.keyLower
      simp only [Value.isUnsigned, Bool.false_eq_true, false_or]
    | i64 =>
      rw [assign_of_integer names rfl]
      unfold Metadata.takeValue Metadata.setI64 Metadata.reported Entry.keyLower
      simp only [Value.isUnsigned, Bool.false_eq_true, false_or]
    | bool =>
      rw [assign_of_other names key rfl]
      · exact reported_setBool _ _ _
      · simp [Value.valueType, ScalarType.code]
    | u8 | i8 | u16 | i16 | f32 | f64 =>
      rw [assign_of_other names key rfl]
      · rfl
      · simp [Value.valueType, ScalarType.code]

end Take

/-- What is assigned last. -/
def reportedOf (names : Names) (entries : List Entry) : Reported where
  architecture := lastAssigned (·.architecture names) entries
  contextLength := lastAssigned (·.contextLength names) entries
  mtpLayers := lastAssigned (·.mtpLayers names) entries
  hasSwa := lastAssigned (·.hasSwa names) entries

/-- **What is reported of a file** is what its entries assign last. -/
theorem reported_summary (names : Names) (entries : List Entry) :
    ((metadataOf names entries).summary names).reported = reportedOf names entries := by
  have taken : (metadataOf names entries).reported =
      entries.foldl (fun reported entry => entry.assign names reported)
        (Metadata.start names).reported :=
    (List.foldl_hom Metadata.reported fun metadata entry =>
      (reported_take names metadata entry).symm).symm
  have part : ∀ {β : Type} (field : Reported → Option β) (f : Entry → Option β),
      (∀ (entry : Entry) (reported : Reported),
        field (entry.assign names reported) = (f entry).or (field reported)) →
      field (Metadata.start names).reported = none →
      field (metadataOf names entries).reported = lastAssigned f entries := by
    intro β field f assigns none_
    have folded : entries.foldl (fun value entry => (f entry).or value)
        (field (Metadata.start names).reported) = field (entries.foldl
          (fun reported entry => entry.assign names reported) (Metadata.start names).reported) :=
      List.foldl_hom field fun reported entry => (assigns entry reported).symm
    rw [taken, ← folded, foldl_assign, none_, Option.or_none]
  change (metadataOf names entries).reported = _
  have architecture := part Reported.architecture (·.architecture names) (fun _ _ => rfl) rfl
  have contextLength := part Reported.contextLength (·.contextLength names) (fun _ _ => rfl) rfl
  have mtpLayers := part Reported.mtpLayers (·.mtpLayers names) (fun _ _ => rfl) rfl
  have hasSwa := part Reported.hasSwa (·.hasSwa names) (fun _ _ => rfl) rfl
  generalize (metadataOf names entries).reported = reported at *
  cases reported
  subst architecture contextLength mtpLayers hasSwa
  rfl

/-! ### Permutations -/

/-- Keys are told apart whatever their case. -/
def DistinctKeys (names : Names) (entries : List Entry) : Prop :=
  (entries.map (·.keyLower names)).Nodup

instance (names : Names) (entries : List Entry) : Decidable (DistinctKeys names entries) :=
  inferInstanceAs (Decidable (List.Nodup _))

/-- What lower case leaves as it is. -/
def KeepsTail (names : Names) : Prop :=
  ∀ text, ".context_length".toList <:+ names.toLowercase (text ++ ".context_length".toList)

/-- A file whose metadata is read as a map: in any order the same is reported, and the context
length is that of the architecture. -/
structure ReadAsMap (names : Names) (file : File) (entries : List Entry) : Prop where
  permuted : ∀ (entries' : List Entry) (file' : File) (summary summary' : GgufMetadataSummary),
    entries'.Perm entries → Layout names file'.source.items entries' →
    parseGgufMetadata names file.source = .ok summary →
    parseGgufMetadata names file'.source = .ok summary' → summary'.reported = summary.reported
  contextLength : ∀ named ∈ entries, ∀ entry ∈ entries, ∀ (raw : Bytes) (n : Nat)
    (summary : GgufMetadataSummary), named.keyLower names = "general.architecture".toList →
    named.value = .string raw →
    entry.keyLower names = names.toLowercase (fromUtf8Lossy raw ++ ".context_length".toList) →
    entry.value.integer = some (n : Int) → 0 < n → n < 2 ^ 31 →
    parseGgufMetadata names file.source = .ok summary → summary.contextLength = some n

/-- Entries that assign one of the numbers assign the same. -/
structure Agreed (names : Names) (entries : List Entry) : Prop where
  contextLength : Unanimous (·.contextLength names) entries
  mtpLayers : Unanimous (·.mtpLayers names) entries
  hasSwa : Unanimous (·.hasSwa names) entries

section Permutations

variable {names : Names} {file : File} {entries entries' : List Entry}

theorem Within.perm (within : Within names entries) (perm : entries'.Perm entries) :
    Within names entries' := by
  have read := perm.flatMap_right (·.readLengths names)
  have skipped := perm.flatMap_right (·.skippedLengths names)
  refine ⟨fun entry mem => within.arrays entry (perm.mem_iff.mp mem),
    fun len mem => within.strings len ((read.append skipped).mem_iff.mp mem), ?_, ?_, ?_⟩
  · rw [read.length_eq]
    exact within.readItems
  · rw [read.sum_nat]
    exact within.readBytes
  · rw [skipped.length_eq]
    exact within.skippedItems

/-- The entries of a file may be put in any order. -/
theorem Layout.perm (layout : Layout names file.source.items entries)
    (perm : entries'.Perm entries) : ∃ file' : File, Layout names file'.source.items entries' := by
  obtain ⟨⟨header, rest, whole, length, gguf, count⟩, few, within⟩ := layout
  have same := (perm.flatMap_right Entry.encode).length_eq
  have small := file.small
  rw [whole] at small
  simp only [List.length_append] at small
  refine ⟨⟨⟨header ++ (entries'.flatMap Entry.encode ++ rest), file.source.given⟩, ?_⟩,
    ⟨header, rest, rfl, length, gguf, perm.length_eq ▸ count⟩, perm.length_eq ▸ few,
    within.perm perm⟩
  simp only [List.length_append]
  omega

theorem Layout.parse (layout : Layout names file.source.items entries) :
    parseGgufMetadata names file.source = .ok ((metadataOf names entries).summary names) :=
  parse_ok_iff.mpr ⟨entries, layout, rfl⟩

theorem Layout.reported (layout : Layout names file.source.items entries)
    {summary : GgufMetadataSummary} (parsed : parseGgufMetadata names file.source = .ok summary) :
    summary.reported = reportedOf names entries := by
  rw [layout.parse] at parsed
  rw [← Except.ok.inj parsed, reported_summary]

/-- Only one entry names the architecture. -/
theorem DistinctKeys.architecture (distinct : DistinctKeys names entries) :
    Unanimous (·.architecture names) entries := by
  have keyed : ∀ {entry : Entry} {x : Str}, entry.architecture names = some x →
      entry.keyLower names = "general.architecture".toList := by
    intro entry x assigned
    unfold Entry.architecture at assigned
    split at assigned
    · assumption
    · cases assigned
  intro a mem b mem' x y assigned assigned'
  obtain rfl := List.inj_on_of_nodup_map distinct mem mem'
    ((keyed assigned).trans (keyed assigned').symm)
  exact Option.some.inj (assigned.symm.trans assigned')

theorem Agreed.permuted (agreed : Agreed names entries) (distinct : DistinctKeys names entries)
    (perm : entries'.Perm entries) : reportedOf names entries' = reportedOf names entries := by
  unfold reportedOf
  rw [lastAssigned_perm_iff.mpr distinct.architecture entries' perm,
    lastAssigned_perm_iff.mpr agreed.contextLength entries' perm,
    lastAssigned_perm_iff.mpr agreed.mtpLayers entries' perm,
    lastAssigned_perm_iff.mpr agreed.hasSwa entries' perm]

theorem agreed_of_permuted
    (permuted : ∀ entries', entries'.Perm entries →
      reportedOf names entries' = reportedOf names entries) : Agreed names entries where
  contextLength := lastAssigned_perm_iff.mp fun entries' perm =>
    congrArg Reported.contextLength (permuted entries' perm)
  mtpLayers := lastAssigned_perm_iff.mp fun entries' perm =>
    congrArg Reported.mtpLayers (permuted entries' perm)
  hasSwa := lastAssigned_perm_iff.mp fun entries' perm =>
    congrArg Reported.hasSwa (permuted entries' perm)

/-- An entry under the key of the architecture assigns the context length. -/
theorem contextLength_of_key (keeps : KeepsTail names) {entry : Entry} {text : Str} {n : Nat}
    (key : entry.keyLower names = names.toLowercase (text ++ ".context_length".toList))
    (integer : entry.value.integer = some (n : Int)) (positive : 0 < n) (small : n < 2 ^ 31) :
    entry.contextLength names = some n := by
  have contained : contains (entry.keyLower names) "context_length" = true := by
    refine decide_eq_true ?_
    rw [key]
    exact List.IsInfix.trans (List.suffix_cons '.' "context_length".toList).isInfix
      (keeps text).isInfix
  have same : asU32 (n : Int) = n := by
    unfold asU32
    omega
  have counted : entry.value.isUnsigned = true ∨ (0 : Int) < n := .inr (by omega)
  unfold Entry.contextLength
  rw [if_pos contained, integer, Option.bind_some, if_pos counted, same]

/-- **The metadata is read as a map if and only if** the entries that assign the context
length, the layers for several tokens, or whether there is a sliding window, agree. The
parser knows these by a part of the key, so that several entries can assign one of them,
and the last one in the file wins. -/
theorem readAsMap_iff (keeps : KeepsTail names)
    (layout : Layout names file.source.items entries) (distinct : DistinctKeys names entries) :
    ReadAsMap names file entries ↔ Agreed names entries := by
  constructor
  · intro read
    refine agreed_of_permuted fun entries' perm => ?_
    obtain ⟨file', layout'⟩ := layout.perm perm
    have same := read.permuted entries' file' _ _ perm layout' layout.parse layout'.parse
    rwa [reported_summary, reported_summary] at same
  · intro agreed
    constructor
    · intro entries' file' summary summary' perm layout' parsed parsed'
      rw [layout.reported parsed, layout'.reported parsed']
      exact agreed.permuted distinct perm
    · intro named _ entry mem raw n summary _ _ key integer positive small parsed
      have assigned := contextLength_of_key keeps key integer positive small
      refine (congrArg Reported.contextLength (layout.reported parsed)).trans ?_
      exact agreed.contextLength.lastAssigned mem assigned

end Permutations

/-! ### A context length for another key -/

/-- Only ASCII letters have a lower case, and the file has no name. -/
def asciiNames : Names := ⟨List.map Char.toLower, none, fun _ => .inference, fun _ => none⟩

def ascii (text : String) : Bytes := text.toList.map fun c => UInt8.ofNat c.toNat

def u32Value (n : Nat) : Value := .scalar .u32 ⟨bytes 4 n, length_bytes 4 n⟩

def llamaEntries : List Entry :=
  [⟨ascii "general.architecture", .string (ascii "llama")⟩,
    ⟨ascii "llama.context_length", u32Value 131072⟩]

def scaledEntries : List Entry :=
  llamaEntries ++ [⟨ascii "llama.rope.scaling.original_context_length", u32Value 8192⟩]

/-- A file of some entries. -/
def itemsOf (entries : List Entry) : Bytes :=
  (magic ++ bytes 4 3 ++ bytes 8 0 ++ bytes 8 entries.length) ++
    (entries.flatMap Entry.encode ++ [])

theorem keepsTail_ascii : KeepsTail asciiNames := by
  intro text
  refine ⟨text.map Char.toLower, ?_⟩
  change _ = List.map Char.toLower (text ++ _)
  rw [List.map_append]
  rfl

theorem layout_itemsOf {names : Names} {entries : List Entry}
    (few : entries.length ≤ maxGgufMetadataItems) (within : Within names entries) :
    Layout names (itemsOf entries) entries where
  split := by
    refine ⟨_, [], rfl, ?_, rfl, ?_⟩
    · simp [magic]
    · refine number_bytes ?_
      unfold maxGgufMetadataItems at few
      omega
  few := few
  within := within

def llamaFile : File := ⟨⟨itemsOf llamaEntries, fun _ _ _ => 1⟩, by decide +kernel⟩

def scaledFile : File := ⟨⟨itemsOf scaledEntries, fun _ _ _ => 1⟩, by decide +kernel⟩

theorem layout_llama : Layout asciiNames llamaFile.source.items llamaEntries :=
  layout_itemsOf (by decide) ⟨by decide, by decide, by decide, by decide, by decide⟩

theorem layout_scaled : Layout asciiNames scaledFile.source.items scaledEntries :=
  layout_itemsOf (by decide) ⟨by decide +kernel, by decide +kernel, by decide +kernel,
    by decide +kernel, by decide +kernel⟩

/-- The trained length of a scaled model is reported instead of its own. -/
theorem scaled_not_readAsMap : Layout asciiNames scaledFile.source.items scaledEntries ∧
    DistinctKeys asciiNames scaledEntries ∧
    ¬ReadAsMap asciiNames scaledFile scaledEntries := by
  refine ⟨layout_scaled, by decide +kernel, fun read => ?_⟩
  have own := read.contextLength _ (.head _) _ (.tail _ (.head _)) (ascii "llama") 131072 _
    (by decide +kernel) rfl (by decide +kernel) (by decide +kernel) (by decide) (by decide)
    layout_scaled.parse
  have reported := congrArg Reported.contextLength (layout_scaled.reported layout_scaled.parse)
  have last : (reportedOf asciiNames scaledEntries).contextLength = some 8192 := by
    decide +kernel
  cases own.symm.trans (reported.trans last)

/-- Without the scaling it is. -/
theorem llama_readAsMap : ReadAsMap asciiNames llamaFile llamaEntries :=
  (readAsMap_iff keepsTail_ascii layout_llama (by decide +kernel)).mpr
    ⟨.of_value 131072 (by decide +kernel), .of_value 0 (by decide +kernel),
      .of_value true (by decide +kernel)⟩

end LlamaServerManager.Gguf
