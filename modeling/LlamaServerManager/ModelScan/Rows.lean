import LlamaServerManager.Gguf.Acceptance
import LlamaServerManager.ModelScan.Reports

/-!
The rows that scans leave in the inventory, and the files that they were read of.

* `Stable`, `CollisionFree` — what is assumed of the files and of the signatures.
* `Call.Rescannable` — the rows below an unchanged directory are those that its scan recorded, and
  those that are used say nothing but what their files say and what their sets lend them.
* `rowSound_of_history` — a row says what a file said that had its size and time.
-/

namespace LlamaServerManager.ModelScan

open References Lib

/-! ### The parser -/

/-- `parse_gguf_metadata` is such a parser; what is told of a name comes before what is told of the
`general.file_type`. -/
def ggufParser (toLowercase : Str → Str) (workload : Option Str → Router.ModelWorkload)
    (quantTypeFromName : Str → Option Str) (quantTypeOfFileType : Option Nat → Option Str) :
    Parser Gguf.File where
  parse name file := (Gguf.parseGgufMetadata ⟨toLowercase, some name, workload, fun fileType =>
    (quantTypeFromName name).or (quantTypeOfFileType fileType)⟩ file.source).mapError (·.message)
  quantTypeFromName
  quantType_of_name := by
    intro name file summary quantType ok named
    have parsed := eq_ok_of_mapError ok
    obtain ⟨entries, -, rfl⟩ := Gguf.parse_ok_iff.mp parsed
    simp [Gguf.Metadata.summary, named]
  complete := by
    intro name file summary ok
    have parsed := eq_ok_of_mapError ok
    obtain ⟨entries, -, rfl⟩ := Gguf.parse_ok_iff.mp parsed
    rfl

variable {Content : Type} (parser : Parser Content)

/-! ### What is assumed -/

/-- The content of a file changes only with its size or its time. -/
def Stable (calls : List (Call Content)) : Prop :=
  ∀ call ∈ calls, ∀ call' ∈ calls, ∀ dir, ∀ entry ∈ modelFiles call.files dir,
    ∀ entry' ∈ modelFiles call'.files dir, entry.name = entry'.name → entry.size = entry'.size →
      entry.mtime = entry'.mtime →
        call.files.content ⟨dir, entry.name⟩ = call'.files.content ⟨dir, entry.name⟩

/-- Trees of one signature are the same. -/
def CollisionFree (calls : List (Call Content)) : Prop :=
  ∀ call ∈ calls, ∀ call' ∈ calls, ∀ rooted ∈ call.scanned, ∀ rooted' ∈ call'.scanned,
    ∀ tree ∈ rooted.2.subtrees, ∀ tree' ∈ rooted'.2.subtrees,
      tree.signature = tree'.signature → tree = tree'

/-- Where the scan succeeds, so does the same scan with an empty inventory, and returns the same
models in some order. -/
def SameAsFresh (call : Call Content) (inventory : Inventory) : Prop :=
  ∀ models inventory', scanModels parser call inventory = .ok (models, inventory') →
    ∃ fresh inventory'', scanModels parser call .empty = .ok (fresh, inventory'') ∧
      models.Perm fresh

/-! ### Where it holds -/

/-- What a row says, whatever root it is of. -/
def InventoryModelRecord.contents (record : InventoryModelRecord) :
    FilePath × Nat × Nat × Details :=
  (record.path, record.size, record.mtime, record.details)

def below (tree : ModelDirectoryInspection) (records : List InventoryModelRecord) :
    List (FilePath × Nat × Nat × Details) :=
  (records.filter fun record => record.path.dir ∈ tree.dirs).map (·.contents)

/-- The rows below a directory are those that a scan recorded with its signature. -/
def Undisturbed (past : List (Call Content)) (tree : ModelDirectoryInspection)
    (rows : List InventoryModelRecord) : Prop :=
  ∃ earlier last later work, past = earlier ++ last :: later ∧
    last.scanWork parser (inventoryAfter parser earlier) = .ok work ∧
    (∃ record ∈ work.directoryRecords,
      record.path = tree.key ∧ record.signature = tree.signature) ∧
    (below tree rows).Perm (below tree work.records)

namespace Call

/-- A row that may be used for a file: of a directory that is visited, of the same size and time. -/
structure Uses (call : Call Content) (indexes : Indexes) (record : InventoryModelRecord)
    (dir : Dir) (entry : DirectoryEntryFingerprint) : Prop where
  visits : call.Visits dir
  listed : entry ∈ modelFiles call.files dir
  inventory : record ∈ indexes.inventory
  of : IsOf record dir entry

/-- What is asked of a call after others. -/
structure Rescannable (past : List (Call Content)) (call : Call Content) (indexes : Indexes) :
    Prop where
  undisturbed : ∀ rooted ∈ call.scanned, ∀ tree ∈ rooted.2.subtrees,
    indexes.unchanged tree.key tree.signature = true →
      Undisturbed parser past tree indexes.inventory
  /-- A file with a row can be parsed, or its name tells no quantisation. -/
  parsed : ∀ record dir entry, call.Uses indexes record dir entry → isLead record.path = false →
    (∃ summary, call.parse parser record.path = .ok summary) ∨
      parser.quantTypeFromName record.path.name = none
  /-- The row of a first shard says only what the file says, or what the set lends now. -/
  lent : ∀ record dir entry, call.Uses indexes record dir entry → isLead record.path = true →
    (parser.named record.path record.details).Sub
      ((call.own parser record.path).or (call.lends parser record.path))

end Call

/-! ### Files that did not change -/

variable {parser} {calls past : List (Call Content)} {call call' : Call Content} {dir : Dir}
  {entry : DirectoryEntryFingerprint} {record : InventoryModelRecord} {path : FilePath}
  {details : Details}

theorem own_congr (content : call.files.content path = call'.files.content path) :
    call.own parser path = call'.own parser path := by
  simp only [Call.own, Call.parse, content]

/-- What a directory settles depends on its listing. -/
theorem settledDetails_congr (stable : Stable calls) (mem : call ∈ calls) (mem' : call' ∈ calls)
    (same : listing call.files dir = listing call'.files dir)
    (listed : entry ∈ modelFiles call.files dir) :
    call.settledDetails parser ⟨dir, entry.name⟩ =
      call'.settledDetails parser ⟨dir, entry.name⟩ := by
  have files : modelFiles call.files dir = modelFiles call'.files dir := by
    simp only [modelFiles, same]
  have own : ∀ entry ∈ modelFiles call.files dir,
      call.own parser ⟨dir, entry.name⟩ = call'.own parser ⟨dir, entry.name⟩ :=
    fun entry listed => own_congr
      (stable call mem call' mem' dir entry listed entry (files ▸ listed) rfl rfl rfl)
  have models : call.readModels parser dir = call'.readModels parser dir := by
    unfold Call.readModels
    rw [← files]
    refine List.map_congr_left fun entry listed => ?_
    simp only [Call.readModel, own entry listed]
  simp only [Call.settledDetails, Call.lends, own entry listed, models]

/-! ### What the name of a file adds -/

theorem named_eq_self (sub : (parser.named path details).Sub details) :
    parser.named path details = details := by
  cases name : parser.quantTypeFromName path.name with
  | none => simp [Parser.named, name]
  | some quantType =>
    have has : details.quantType = some quantType :=
      sub.some .quantType (by simp [Parser.named, name])
    simp [Parser.named, name, ← has]

/-- A file that is parsed says itself what its name says. -/
theorem named_own (parsed : (∃ summary, call.parse parser path = .ok summary) ∨
    parser.quantTypeFromName path.name = none) :
    parser.named path (call.own parser path) = call.own parser path := by
  cases name : parser.quantTypeFromName path.name with
  | none => simp [Parser.named, name]
  | some quantType =>
    obtain ⟨summary, ok⟩ := parsed.resolve_right (by simp [name])
    have told := parser.quantType_of_name ok name
    simp [Parser.named, Call.own, ok, name, Details.ofSummary, told]

theorem own_sub_named (sub : (call.own parser path).Sub details) :
    (call.own parser path).Sub (parser.named path details) := by
  cases ok : call.parse parser path with
  | error error =>
    have unknown : call.own parser path = .unknown := by simp only [Call.own, ok]
    rw [unknown]
    exact Details.ext_fields fun is => by cases is <;> rfl
  | ok summary =>
    have own := @named_own _ parser call path (.inl ⟨summary, ok⟩)
    rw [← own]
    apply Details.ext_fields
    intro α field is
    rw [is.or]
    cases is with
    | quantType =>
      have sub := congrArg Details.quantType sub
      simp only [Details.or] at sub
      simp only [Parser.named]
      cases parser.quantTypeFromName path.name with
      | none => simpa using sub
      | some quantType => rfl
    | architecture => exact congrArg Details.architecture sub
    | contextLength => exact congrArg Details.contextLength sub
    | capabilities => exact congrArg Details.capabilities sub

/-! ### The rows of an inventory -/

/-- A row was read of a file as it was in one of the calls. -/
def RowSound (parser : Parser Content) (past : List (Call Content))
    (record : InventoryModelRecord) : Prop :=
  ∃ call ∈ past, ∃ entry ∈ modelFiles call.files record.path.dir,
    Call.IsOf record record.path.dir entry ∧ (call.own parser record.path).Sub record.details ∧
    (isLead record.path = false → record.details = call.own parser record.path)

theorem RowSound.mono (sound : RowSound parser past record)
    (sub : ∀ call ∈ past, call ∈ calls) : RowSound parser calls record := by
  obtain ⟨call, mem, rest⟩ := sound
  exact ⟨call, sub call mem, rest⟩

/-- What a scan records of a file. -/
theorem contents_of_reports {models : List ScannedModel} (reports : call.Reports parser models)
    {item : ScannedModel} (mem : item ∈ models) :
    ∃ entry ∈ modelFiles call.files item.path.dir,
      (InventoryModelRecord.fromModel item).contents =
        (⟨item.path.dir, entry.name⟩, entry.size, entry.mtime,
          call.settledDetails parser ⟨item.path.dir, entry.name⟩) := by
  obtain ⟨-, entry, listed, model, mtime⟩ := reports.sound item mem
  refine ⟨entry, listed, ?_⟩
  change (item.model.path, item.model.size, item.mtime, item.model.details) = _
  rw [mtime, model]
  rfl

/-- What a scan records is read of the files it meets. -/
theorem rowSound_fromModel {models : List ScannedModel}
    (reports : call.Reports parser models) {item : ScannedModel} (mem : item ∈ models) :
    RowSound parser [call] (.fromModel item) := by
  obtain ⟨entry, listed, contents⟩ := contents_of_reports reports mem
  simp only [InventoryModelRecord.contents, Prod.mk.injEq] at contents
  obtain ⟨path, size, mtime, details⟩ := contents
  refine ⟨call, List.mem_singleton_self _, entry, listed, ⟨path, size, mtime⟩, ?_, ?_⟩
  · rw [details, path]
    exact Details.sub_or _ _
  · intro not_lead
    rw [path] at not_lead
    rw [details, path, Call.settledDetails, Call.lends, lentTo_of_not_lead not_lead,
      Details.or_unknown]

/-- The scans of a run say what they should. -/
def History (parser : Parser Content) (past : List (Call Content)) : Prop :=
  ∀ earlier last later work, past = earlier ++ last :: later →
    last.scanWork parser (inventoryAfter parser earlier) = .ok work →
      last.Reports parser work.models

theorem inventoryAfter_concat : inventoryAfter parser (past ++ [call]) =
    call.after parser (inventoryAfter parser past) := by
  simp [inventoryAfter]

theorem mem_after {inventory : Inventory}
    (mem : record ∈ (call.after parser inventory).models.rows) :
    record ∈ inventory.models.rows ∨ ∃ work, call.scanWork parser inventory = .ok work ∧
      ∃ item ∈ work.models, record = .fromModel item := by
  unfold Call.after scanModels at mem
  cases ok : call.scanWork parser inventory with
  | error failure =>
    rw [ok] at mem
    exact .inl mem
  | ok work =>
    rw [ok] at mem
    obtain old | new := Table.mem_upsertAll (List.mem_filter.mp mem).1
    · exact .inl old
    · obtain ⟨item, found, rfl⟩ := List.mem_map.mp new
      exact .inr ⟨work, rfl, item, found, rfl⟩

theorem rowSound_of_history (history : History parser past) :
    ∀ record ∈ (inventoryAfter parser past).models.rows, RowSound parser past record := by
  induction past using List.reverseRecOn with
  | nil => exact fun record mem => absurd mem List.not_mem_nil
  | append_singleton past call ih =>
    intro record mem
    rw [inventoryAfter_concat] at mem
    obtain old | ⟨work, ok, item, found, rfl⟩ := mem_after mem
    · have before : History parser past := by
        intro earlier last later work split ok
        exact history earlier last (later ++ [call]) work (by simp [split]) ok
      exact (ih before record old).mono fun call mem => List.mem_append_left _ mem
    · exact (rowSound_fromModel (history past call [] work rfl ok) found).mono
        fun call mem => List.mem_append_right _ mem

end LlamaServerManager.ModelScan
