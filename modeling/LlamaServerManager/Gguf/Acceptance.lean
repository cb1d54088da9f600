import LlamaServerManager.Gguf.Budget

/-!
The files that `parse_gguf_metadata` accepts, and where it is in them.

* `Layout` — a header and the entries that it announces, within the budget.
* `parseGgufMetadata_accepts` — a file is accepted if it has that layout, with what its entries say.
* `Consumes` — a read takes a code from the front, and counts it.
-/

namespace LlamaServerManager.Gguf

open Lib.Buffered Lib.Decoding Lib.LittleEndian Lib.Words

/-- A file of a header and some entries; anything may follow them. -/
structure Layout (names : Names) (items : Bytes) (entries : List Entry) : Prop where
  split : ∃ header rest, items = header ++ (entries.flatMap Entry.encode ++ rest) ∧
    header.length = 24 ∧ header.take 4 = magic ∧ number (header.drop 16) = entries.length
  few : entries.length ≤ maxGgufMetadataItems
  within : Within names entries

/-- What the entries of a file say. -/
def metadataOf (names : Names) (entries : List Entry) : Metadata :=
  entries.foldl (Metadata.take names) (.start names)

section Files

variable (names : Names) (file : File)

/-- Before anything is read. -/
def initial : State := ⟨.new file.source file.source.items.length, {}⟩

theorem initial_valid : (stream file).valid (initial file) := GgufReader.valid_new

theorem parseReader_run (s : State) : parseGgufMetadataReader names s =
    if s.file.length < 24 then .error .fileTooSmall
    else match readExact 24 s with
      | .error e => .error e
      | .ok (header, s') =>
        if header.take 4 ≠ magic then .error .notGguf
        else if maxGgufMetadataItems < number (header.drop 16) then .error .tooManyEntries
        else if (s.file.length - 24) / 12 < number (header.drop 16) then
          .error .entriesExceedFile
        else match loop (readEntry names) (number (header.drop 16)) (.start names) s' with
          | .error e => .error e
          | .ok (metadata, s'') => .ok (metadata.summary names, s'') := by
  unfold parseGgufMetadataReader
  change (if s.file.length < 24 then (throw .fileTooSmall : Parse _) else _) s = _
  split
  · rfl
  · change (readExact 24 s >>= _) = _
    cases readExact 24 s with
    | error e => rfl
    | ok p =>
      obtain ⟨header, s'⟩ := p
      change (if _ then (throw Failure.notGguf : Parse _)
        else if _ then (throw Failure.tooManyEntries : Parse _)
        else if _ then (throw Failure.entriesExceedFile : Parse _) else _) s' = _
      dsimp only
      split
      · rfl
      · split
        · rfl
        · split
          · rfl
          · change ((loop (readEntry names) _ _ : Parse Metadata) s' >>= _) = _
            cases loop (readEntry names) (number (header.drop 16)) (.start names) s' <;> rfl

theorem decodes_entries (n : Nat) (metadata : Metadata) :
    Decodes (stream file) Overflows (loop (readEntry names) n metadata)
      (Grammar.loop (entryOf names) n metadata) :=
  Decodes.loop (decodes_readEntry file names) n metadata

variable {names file}

theorem Entry.length_encode (entry : Entry) : 12 ≤ entry.encode.length := by
  unfold encode encodeString
  simp only [List.length_append, length_bytes]
  omega

theorem length_entries (entries : List Entry) :
    12 * entries.length ≤ (entries.flatMap Entry.encode).length := by
  induction entries with
  | nil => exact Nat.le_refl _
  | cons entry entries ih =>
    have first := entry.length_encode
    rw [List.flatMap_cons, List.length_append, List.length_cons]
    omega

theorem parseReader_sound {summary : GgufMetadataSummary} {s' : State}
    (run : parseGgufMetadataReader names (initial file) = .ok (summary, s')) :
    (stream file).valid s' ∧ ∃ entries, Layout names file.source.items entries ∧
      summary = (metadataOf names entries).summary names := by
  rw [parseReader_run] at run
  split at run
  · cases run
  · split at run
    · cases run
    · rename_i header s₁ first
      obtain ⟨valid₁, code, rest₁, length, rfl, credit⟩ :=
        (decodes_readExact file 24).sound _ _ _ (initial_valid file) first
      split at run
      · cases run
      · rename_i gguf
        split at run
        · cases run
        · rename_i few
          split at run
          · cases run
          · split at run
            · cases run
            · rename_i metadata s₂ entriesRun
              obtain ⟨rfl, rfl⟩ := Prod.mk.inj (Except.ok.inj run)
              obtain ⟨valid₂, _, rest₂, codes⟩ :=
                (decodes_entries names file _ _).sound _ _ _ valid₁ entriesRun
              obtain ⟨entries, count, rfl, rfl, short, spends⟩ := loop_entryOf.mp codes
              rw [credit] at spends
              refine ⟨valid₂, entries, ⟨⟨header, (stream file).rest s₂, ?_, length,
                Decidable.not_not.mp gguf, count.symm⟩, ?_, within_iff.mpr ⟨short, _, spends⟩⟩,
                rfl⟩
              · rw [← rest₂]
                exact rest₁
              · rw [count]
                exact Nat.not_lt.mp few

theorem parseReader_complete {entries : List Entry}
    (layout : Layout names file.source.items entries) :
    ∃ s', parseGgufMetadataReader names (initial file) =
      .ok ((metadataOf names entries).summary names, s') := by
  obtain ⟨⟨header, rest, whole, length, gguf, count⟩, few, within⟩ := layout
  obtain ⟨short, budget, spends⟩ := within_iff.mp within
  have size : 24 + (entries.flatMap Entry.encode).length ≤ file.source.items.length := by
    rw [whole, List.length_append, List.length_append]
    omega
  have least := length_entries entries
  obtain ⟨s₁, first, rest₁, credit⟩ := (decodes_readExact file 24).complete (initial file) header
    _ header _ (initial_valid file) whole ⟨length, rfl, rfl⟩
  obtain ⟨valid₁, -⟩ := (decodes_readExact file 24).sound _ _ _ (initial_valid file) first
  obtain ⟨s₂, entriesRun, -⟩ := (decodes_entries names file entries.length
    (.start names)).complete s₁ _ rest (metadataOf names entries) budget valid₁ rest₁
    (loop_entryOf.mpr ⟨entries, rfl, rfl, rfl, short, credit ▸ spends⟩)
  refine ⟨s₂, ?_⟩
  have known : (initial file).file.length = file.source.items.length := rfl
  rw [parseReader_run, known, if_neg (by omega), first]
  dsimp only
  rw [if_neg (fun other => other gguf), count, if_neg (Nat.not_lt.mpr few), if_neg (by omega),
    entriesRun]

/-- No computation leaves 64 bits. -/
theorem parseReader_fails {e : Failure}
    (run : parseGgufMetadataReader names (initial file) = .error e) : ¬Overflows e := by
  rw [parseReader_run] at run
  split at run
  · cases run
    simp [Overflows]
  · split at run
    · rename_i failed
      cases run
      exact (decodes_readExact file 24).fails _ _ (initial_valid file) failed
    · rename_i header s₁ first
      obtain ⟨valid₁, -⟩ := (decodes_readExact file 24).sound _ _ _ (initial_valid file) first
      split at run
      · cases run
        simp [Overflows]
      · split at run
        · cases run
          simp [Overflows]
        · split at run
          · cases run
            simp [Overflows]
          · split at run
            · rename_i failed
              cases run
              exact (decodes_entries names file _ _).fails _ _ valid₁ failed
            · cases run

theorem parse_ok_iff {summary : GgufMetadataSummary} :
    parseGgufMetadata names file.source = .ok summary ↔
      ∃ entries, Layout names file.source.items entries ∧
        summary = (metadataOf names entries).summary names := by
  constructor
  · intro run
    unfold parseGgufMetadata at run
    split at run
    · cases run
    · rename_i read
      split at run
      · cases run
      · cases run
        exact (parseReader_sound read).2
  · rintro ⟨entries, layout, rfl⟩
    obtain ⟨s', read⟩ := parseReader_complete layout
    obtain ⟨valid, -⟩ := parseReader_sound read
    have bound : s'.file.position ≤ s'.file.length := GgufReader.Valid.position_le valid
    rw [GgufReader.Valid.length valid] at bound
    unfold parseGgufMetadata
    rw [show parseGgufMetadataReader names ⟨.new file.source file.source.items.length, {}⟩ = _
      from read]
    exact if_neg (Nat.not_lt.mpr bound)

theorem parse_fails {e : Failure} (run : parseGgufMetadata names file.source = .error e) :
    ¬Overflows e := by
  unfold parseGgufMetadata at run
  split at run
  · rename_i failed
    cases run
    exact parseReader_fails failed
  · split at run
    · cases run
      simp [Overflows]
    · cases run

end Files

/-! ### Offsets -/

/-- From one true offset to another, there is a code of what is read. -/
def Consumes {α : Type} (file : File) (decoder : Parse α) (codes : α → Bytes → Prop) : Prop :=
  ∀ s a s', s.file.Valid file → decoder s = .ok (a, s') → s'.file.Valid file ∧
    ∃ code, codes a code ∧ code <+: file.source.items.drop s.file.position ∧
      s'.file.position = s.file.position + code.length

section Offsets

variable {file : File}

/-- What is not read any more is what was counted. -/
theorem GgufReader.Valid.counts {reader reader' : GgufReader} {code : Bytes}
    (valid : reader.Valid file) (valid' : reader'.Valid file)
    (follows : reader.rest = code ++ reader'.rest) :
    code <+: file.source.items.drop reader.position ∧
      reader'.position = reader.position + code.length := by
  have left := valid.length_rest
  have left' := valid'.length_rest
  constructor
  · rw [← valid.source]
    exact ⟨reader'.rest, follows.symm⟩
  · rw [follows, List.length_append, valid.length] at left
    rw [valid'.length] at left'
    omega

theorem Consumes.of_decodes {α : Type} {decoder : Parse α}
    {grammar : Grammar UInt8 GgufParseBudget α} {codes : α → Bytes → Prop}
    (decodes : Decodes (stream file) Overflows decoder grammar)
    (codesOf : ∀ budget code a budget', grammar budget code a budget' → codes a code) :
    Consumes file decoder codes := by
  intro s a s' valid run
  obtain ⟨valid', code, follows, code_⟩ := decodes.sound s a s' valid run
  exact ⟨valid', code, codesOf _ _ _ _ code_, GgufReader.Valid.counts valid valid' follows⟩

theorem Consumes.of_value {α : Type} {width : Nat} {value : Bytes → α} :
    Consumes file (do return value (← readExact width))
      fun a code => code.length = width ∧ a = value code :=
  .of_decodes (decodes_value file width value) fun _ _ _ _ codes => ⟨codes.1, codes.2.1⟩

/-- The tags that are kept take few bytes, so that one more is still counted right. -/
theorem retainedBytes_le (items : List Bytes) :
    (items.foldl Tags.push .start).retainedBytes ≤ maxGgufTagTotalBytes := by
  suffices all : ∀ tags : Tags, tags.retainedBytes ≤ maxGgufTagTotalBytes →
      (items.foldl Tags.push tags).retainedBytes ≤ maxGgufTagTotalBytes from
    all .start (Nat.zero_le _)
  induction items with
  | nil => exact fun _ bound => bound
  | cons raw items ih =>
    refine fun tags bound => ih _ ?_
    unfold Tags.push
    split
    · rename_i keeps
      simp only [Tags.keeps, Bool.and_eq_true, Option.any_eq_true] at keeps
      obtain ⟨-, total, some_, fits⟩ := keeps
      simpa [some_] using fits
    · exact bound

end Offsets

/-- Each way to consume a value consumes its code. -/
structure Branches (names : Names) (file : File) : Prop where
  reads : ∀ (reader : GgufReader) (wanted : Nat), reader.Valid file → 0 < wanted →
    (reader.read wanted).2.Valid file ∧
      (reader.read wanted).2.position = reader.position + (reader.read wanted).1.length
  bool : Consumes file readBool fun a code => code.length = 1 ∧ a = decide (number code ≠ 0)
  u32 : Consumes file readU32 fun a code => code.length = 4 ∧ a = number code
  i32 : Consumes file readI32 fun a code => code.length = 4 ∧ a = signed 32 (number code)
  u64 : Consumes file readU64 fun a code => code.length = 8 ∧ a = number code
  i64 : Consumes file readI64 fun a code => code.length = 8 ∧ a = signed 64 (number code)
  string : Consumes file readGgufString fun a code =>
    ∃ raw, code = encodeString raw ∧ a = fromUtf8Lossy raw
  tag : ∀ tags, Consumes file (readTag tags) fun a code =>
    ∃ raw, code = encodeString raw ∧ a = tags.push raw
  retained : ∀ items : List Bytes,
    (items.foldl Tags.push .start).retainedBytes ≤ maxGgufTagTotalBytes
  tags : Consumes file readGgufStringArray fun a code =>
    ∃ value : Value, value.valueType = 9 ∧ code = value.encode ∧ a = value.keptTags
  skippedString : Consumes file skipGgufString fun _ code => ∃ raw, code = encodeString raw
  skipped : ∀ valueType, Consumes file (skipGgufValue valueType) fun _ code =>
    ∃ value : Value, value.valueType = valueType ∧ code = value.encode
  entry : ∀ metadata, Consumes file (readEntry names metadata) fun a code =>
    ∃ entry : Entry, code = entry.encode ∧ a = metadata.take names entry

theorem branches (names : Names) (file : File) : Branches names file where
  reads reader wanted valid wants := by
    obtain ⟨valid', follows, -⟩ := valid.read wants
    exact ⟨valid', (valid.counts valid' follows).2⟩
  bool := .of_value
  u32 := .of_value
  i32 := .of_value
  u64 := .of_value
  i64 := .of_value
  string := .of_decodes (decodes_readGgufString file) fun _ _ _ _ ⟨raw, code, text, _⟩ =>
    ⟨raw, code, text⟩
  tag tags := .of_decodes (decodes_readTag file tags) fun _ _ _ _ ⟨raw, code, kept, _⟩ =>
    ⟨raw, code, kept⟩
  retained := retainedBytes_le
  tags := .of_decodes (decodes_readGgufStringArray file)
    fun _ _ _ _ ⟨value, array, code, _, kept⟩ => ⟨value, array, code, kept⟩
  skippedString := .of_decodes (decodes_skipGgufString file) fun _ _ _ _ ⟨raw, code, _⟩ =>
    ⟨raw, code⟩
  skipped valueType := .of_decodes (decodes_skipGgufValue file valueType)
    fun _ _ _ _ ⟨value, type, code, _⟩ => ⟨value, type, code⟩
  entry metadata := .of_decodes (decodes_readEntry file names metadata)
    fun _ _ _ _ ⟨entry, code, _, taken⟩ => ⟨entry, code, taken⟩

/-- The header and some entries. -/
def readEntries (names : Names) (n : Nat) : Parse Metadata := do
  let _ ← readExact 24
  loop (readEntry names) n (.start names)

/-- After some of the entries of a file, all of them and nothing else are read. -/
theorem readEntries_position {names : Names} {file : File} {entries : List Entry}
    (layout : Layout names file.source.items entries) {n : Nat} (some_ : n ≤ entries.length) :
    ∃ s, readEntries names n (initial file) = .ok (metadataOf names (entries.take n), s) ∧
      s.file.Valid file ∧
      s.file.position = 24 + ((entries.take n).flatMap Entry.encode).length := by
  obtain ⟨⟨header, rest, whole, length, -⟩, -, within⟩ := layout
  obtain ⟨short, budget, spends⟩ := within_iff.mp within
  have both : entries = entries.take n ++ entries.drop n := (List.take_append_drop n entries).symm
  rw [both, List.flatMap_append, List.flatMap_append] at spends
  obtain ⟨between, spends, -⟩ := GgufParseBudget.spends_append.mp spends
  rw [both, List.flatMap_append, List.append_assoc] at whole
  have decodes := (decodes_readExact file 24).bind fun _ _ =>
    decodes_entries names file n (.start names)
  obtain ⟨s, run, rest', -⟩ := decodes.complete (initial file)
    (header ++ (entries.take n).flatMap Entry.encode)
    ((entries.drop n).flatMap Entry.encode ++ rest) (metadataOf names (entries.take n)) between
    (initial_valid file) (whole.trans (List.append_assoc ..).symm)
    ⟨header, _, header, {}, rfl, ⟨length, rfl, rfl⟩, loop_entryOf.mpr ⟨entries.take n,
      List.length_take_of_le some_, rfl, rfl,
      fun entry mem => short entry (List.mem_of_mem_take mem), spends⟩⟩
  obtain ⟨valid, -⟩ := decodes.sound _ _ _ (initial_valid file) run
  refine ⟨s, run, valid, ?_⟩
  have counted := GgufReader.Valid.counts (initial_valid file) valid
    ((whole.trans (List.append_assoc ..).symm).trans (congrArg _ rest'.symm))
  rw [List.length_append, length] at counted
  exact counted.2.trans (Nat.zero_add _)

/-- **A file is accepted if it is the header of the entries that follow it, within the budget**;
these are read one after another at their true offsets, each way to read a value takes its code and
counts it, and no computation leaves 64 bits. -/
theorem parseGgufMetadata_accepts (names : Names) (file : File) :
    (∀ summary, parseGgufMetadata names file.source = .ok summary ↔
      ∃ entries, Layout names file.source.items entries ∧
        summary = (metadataOf names entries).summary names) ∧
    (∀ entries, Layout names file.source.items entries → ∀ n ≤ entries.length, ∃ s,
      readEntries names n (initial file) = .ok (metadataOf names (entries.take n), s) ∧
      s.file.Valid file ∧
      s.file.position = 24 + ((entries.take n).flatMap Entry.encode).length) ∧
    Branches names file ∧
    ∀ e, parseGgufMetadata names file.source = .error e → ¬Overflows e :=
  ⟨fun _ => parse_ok_iff, fun _ layout _ => readEntries_position layout, branches names file,
    fun _ => parse_fails⟩

end LlamaServerManager.Gguf
