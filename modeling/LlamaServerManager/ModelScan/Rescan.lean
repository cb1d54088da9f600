import LlamaServerManager.ModelScan.Rows

/-!
A scan after others, against the same scan with an empty inventory.

* `usable_of_rescannable` — the rows that a scan takes are usable, if the scans before said what
  they should.
* `rescan_fresh` — a scan returns what it would return without the inventory, with any parser that
  obeys the laws of one; `gguf_rescan_fresh` — with the parser of GGUF files.
* `lent_stale` — the row of a first shard may keep what its set no longer lends.
-/

namespace LlamaServerManager.ModelScan

open References Lib

variable {Content : Type} {parser : Parser Content} {calls past : List (Call Content)}
  {call : Call Content} {dir : Dir} {entry : DirectoryEntryFingerprint}
  {record : InventoryModelRecord}

/-! ### One scan after others -/

section Step

variable {rest : List (Call Content)} {indexes : Indexes}

/-- Files as the row says are read as they were for the row. -/
theorem RowSound.uses (stable : Stable (past ++ call :: rest))
    (sound : RowSound parser past record) (uses : call.Uses indexes record dir entry) :
    (call.own parser record.path).Sub record.details ∧
      (isLead record.path = false → record.details = call.own parser record.path) := by
  obtain ⟨call', mem, entry', listed', of', least, whole⟩ := sound
  have path := uses.of.path
  have name : entry'.name = entry.name := by
    rw [of'.path, FilePath.mk.injEq] at path
    exact path.2
  have dir : record.path.dir = dir := by rw [path]
  rw [dir] at listed' of'
  have content := stable call' (List.mem_append_left _ mem) call
    (List.mem_append_right _ List.mem_cons_self) _ entry' listed' entry uses.listed name
    (of'.size.symm.trans uses.of.size) (of'.mtime.symm.trans uses.of.mtime)
  rw [name, ← path] at content
  rw [own_congr content] at least whole
  exact ⟨least, whole⟩

theorem mem_below {tree : ModelDirectoryInspection} {records : List InventoryModelRecord}
    {contents : FilePath × Nat × Nat × Details} : contents ∈ below tree records ↔
      ∃ record ∈ records, record.path.dir ∈ tree.dirs ∧ record.contents = contents := by
  simp [below, and_assoc]

/-- A scan that recorded a directory met the same tree, and met it as it is now. -/
theorem recorded_tree (free : CollisionFree (past ++ call :: rest)) {earlier later : List _}
    {last : Call Content} {work : ModelScanWork} (split : past = earlier ++ last :: later)
    (ok : last.scanWork parser (inventoryAfter parser earlier) = .ok work)
    {tree : ModelDirectoryInspection} {rooted : Dir × ModelDirectoryInspection}
    (mem : rooted ∈ call.scanned) (under : tree ∈ rooted.2.subtrees)
    (recorded : ∃ record ∈ work.directoryRecords,
      record.path = tree.key ∧ record.signature = tree.signature) :
    ∃ rooted' ∈ last.scanned, tree ∈ rooted'.2.subtrees := by
  obtain ⟨_, -, -, records⟩ := Call.scanWork_ok ok
  obtain ⟨record, mem', -, signature⟩ := recorded
  obtain ⟨rooted', scanned, tree', under', rfl⟩ := records record mem'
  have lastMem : last ∈ past ++ call :: rest := by simp [split]
  have callMem : call ∈ past ++ call :: rest := by simp
  have same : tree' = tree :=
    free last lastMem call callMem rooted' scanned rooted mem tree' under' tree under signature
  exact ⟨rooted', scanned, same ▸ under'⟩

theorem usable_of_rescannable (stable : Stable (past ++ call :: rest))
    (free : CollisionFree (past ++ call :: rest)) (history : History parser past)
    (rescannable : call.Rescannable parser past
      (call.loadModelScanIndexes (inventoryAfter parser past))) :
    call.Usable parser (call.loadModelScanIndexes (inventoryAfter parser past)) := by
  set indexes := call.loadModelScanIndexes (inventoryAfter parser past)
  have sound : ∀ record ∈ indexes.inventory, RowSound parser past record := by
    intro record mem
    apply rowSound_of_history history
    exact (List.mem_filter.mp ((call.order_perm _).mem_iff.mp mem)).1
  have least : ∀ record dir entry, call.Uses indexes record dir entry →
      (call.own parser record.path).Sub (parser.named record.path record.details) :=
    fun record dir entry uses =>
      own_sub_named ((sound record uses.inventory).uses stable uses).1
  have most : ∀ record dir entry, call.Uses indexes record dir entry →
      (parser.named record.path record.details).Sub (call.settledDetails parser record.path) := by
    intro record dir entry uses
    cases lead : isLead record.path with
    | true => exact rescannable.lent record dir entry uses lead
    | false =>
      rw [((sound record uses.inventory).uses stable uses).2 lead,
        named_own (rescannable.parsed record dir entry uses lead)]
      exact Details.sub_or _ _
  refine ⟨?_, ?_, ?_, ?_⟩
  · have rows := (inventoryAfter parser past).models.nodup
    have filtered := rows.sublist (List.filter_sublist (p := fun record =>
      call.files.isFile record.path) |>.map InventoryModelRecord.path)
    exact ((call.order_perm _).map _).nodup_iff.mpr filtered
  · intro rooted mem subtree ⟨top, topMem, unchanged, under⟩
    obtain ⟨earlier, last, later, work, split, ok, recorded, same⟩ :=
      rescannable.undisturbed rooted mem top topMem unchanged
    obtain ⟨rooted', mem', topMem'⟩ := recorded_tree free split ok mem topMem recorded
    have reports := history earlier last later work split ok
    have under' : subtree ∈ rooted'.2.subtrees :=
      ModelDirectoryInspection.subtrees_trans under topMem'
    have listing : listing call.files subtree.key = listing last.files subtree.key :=
      (Call.entries_of_mem_scanned mem
        (ModelDirectoryInspection.subtrees_trans under topMem)).symm.trans
        (Call.entries_of_mem_scanned mem' under')
    have files : modelFiles call.files subtree.key = modelFiles last.files subtree.key := by
      simp only [modelFiles, listing]
    have visits : call.Visits subtree.key := ⟨rooted, mem, List.mem_map_of_mem
      (ModelDirectoryInspection.subtrees_trans under topMem)⟩
    have visits' : last.Visits subtree.key := ⟨rooted', mem', List.mem_map_of_mem under'⟩
    have below : subtree.key ∈ top.dirs := List.mem_map_of_mem under
    have settled : ∀ entry ∈ modelFiles call.files subtree.key,
        call.settledDetails parser ⟨subtree.key, entry.name⟩ =
          last.settledDetails parser ⟨subtree.key, entry.name⟩ :=
      fun entry listed => settledDetails_congr stable (by simp) (by simp [split]) listing listed
    constructor
    · intro record inventory here
      have contents : record.contents ∈ ModelScan.below top work.records :=
        same.mem_iff.mp (mem_below.mpr ⟨record, inventory, here ▸ below, rfl⟩)
      obtain ⟨_, isRecord, -, contents⟩ := mem_below.mp contents
      obtain ⟨item, found, rfl⟩ := List.mem_map.mp isRecord
      obtain ⟨entry, listed, eq⟩ := contents_of_reports reports found
      rw [contents] at eq
      simp only [InventoryModelRecord.contents, Prod.mk.injEq] at eq
      obtain ⟨path, size, mtime, details⟩ := eq
      have dir : item.path.dir = subtree.key := by rw [← here, path]
      rw [dir] at path details listed
      rw [← files] at listed
      have of : Call.IsOf record subtree.key entry := ⟨path, size, mtime⟩
      have now : record.details = call.settledDetails parser record.path := by
        rw [details, path, settled entry listed]
      have named := most record _ entry ⟨visits, listed, inventory, of⟩
      rw [← now] at named ⊢
      exact ⟨entry, listed, of, named_eq_self named⟩
    · intro entry listed
      obtain ⟨item, found, path⟩ := reports.complete _ visits' entry (files ▸ listed)
      have contents : (InventoryModelRecord.fromModel item).contents ∈
          ModelScan.below top indexes.inventory := by
        refine same.mem_iff.mpr (mem_below.mpr ⟨_, List.mem_map_of_mem found, ?_, rfl⟩)
        change item.path.dir ∈ _
        rw [path]
        exact below
      obtain ⟨record, inventory, -, contents⟩ := mem_below.mp contents
      exact ⟨record, inventory, (congrArg Prod.fst contents).trans path⟩
  · exact fun dir visits entry listed record inventory of =>
      least record dir entry ⟨visits, listed, inventory, of⟩
  · exact fun dir visits entry listed record inventory of =>
      most record dir entry ⟨visits, listed, inventory, of⟩

/-- Without rows there is nothing to be asked. -/
theorem usable_empty : call.Usable parser (call.loadModelScanIndexes .empty) := by
  have rows : (call.loadModelScanIndexes .empty).inventory = [] :=
    List.Perm.eq_nil (call.order_perm [])
  have unchanged : ∀ key signature,
      (call.loadModelScanIndexes .empty).unchanged key signature = false := fun _ _ => rfl
  refine ⟨?_, ?_, ?_, ?_⟩
  · rw [rows]
    exact List.nodup_nil
  · rintro rooted - subtree ⟨top, -, taken, -⟩
    rw [unchanged] at taken
    cases taken
  all_goals
    intro dir visits entry listed record mem
    rw [rows] at mem
    cases mem

/-- Of a first scan nothing is asked. -/
theorem rescannable_nil :
    call.Rescannable parser [] (call.loadModelScanIndexes (inventoryAfter parser [])) := by
  have rows : (call.loadModelScanIndexes .empty).inventory = [] :=
    List.Perm.eq_nil (call.order_perm [])
  have unused : ∀ record dir entry,
      ¬call.Uses (call.loadModelScanIndexes .empty) record dir entry :=
    fun record dir entry uses => List.not_mem_nil (rows ▸ uses.inventory)
  refine ⟨?_, fun record dir entry uses => absurd uses (unused record dir entry),
    fun record dir entry uses => absurd uses (unused record dir entry)⟩
  intro rooted mem tree under unchanged
  cases unchanged

end Step

/-! ### A run -/

theorem history_of_run (stable : Stable calls) (free : CollisionFree calls)
    (rescannable : ∀ past call rest, calls = past ++ call :: rest → call.Rescannable parser past
      (call.loadModelScanIndexes (inventoryAfter parser past)))
    {n : Nat} {rest : List (Call Content)} (length : past.length = n)
    (split : calls = past ++ rest) : History parser past := by
  induction n using Nat.strong_induction_on generalizing past rest with
  | h n ih =>
    intro earlier last later work within ok
    have shorter : earlier.length < n := by
      rw [← length, within, List.length_append, List.length_cons]
      omega
    have split' : calls = earlier ++ last :: (later ++ rest) := by rw [split, within]; simp
    have history : History parser earlier := ih _ shorter rfl split'
    rw [split'] at stable free
    have usable := usable_of_rescannable stable free history (rescannable _ _ _ split')
    obtain ⟨roots, scans, models, -⟩ := Call.scanWork_ok ok
    rw [models]
    exact Call.reports_of_usable scans usable

theorem Call.Reports.settled_of_mem {models models' : List ScannedModel}
    (reports : call.Reports parser models) (reports' : call.Reports parser models')
    {item : ScannedModel} (mem : item ∈ models) :
    ∃ item' ∈ models', item'.model = item.model := by
  obtain ⟨visits, entry, listed, model, -⟩ := reports.sound item mem
  obtain ⟨item', mem', path⟩ := reports'.complete _ visits entry listed
  obtain ⟨-, entry', listed', model', -⟩ := reports'.sound item' mem'
  rw [path] at listed' model'
  have name : entry'.name = entry.name := by
    have paths : item'.path = ⟨item.path.dir, entry'.name⟩ := by
      rw [ScannedModel.path, model']
      rfl
    rw [path, FilePath.mk.injEq] at paths
    exact paths.2.symm
  have same : entry' = entry := Call.eq_of_name listed' listed name
  exact ⟨item', mem', by rw [model', model, same]⟩

/-- Two reports of a call are of the same models. -/
theorem Call.Reports.perm {models models' : List ScannedModel}
    (reports : call.Reports parser models) (reports' : call.Reports parser models') :
    (models.map (·.model)).Perm (models'.map (·.model)) := by
  have nodup : ∀ {models}, call.Reports parser models → (models.map (·.model)).Nodup := by
    intro models reports
    apply List.Nodup.of_map ModelInfo.path
    rw [List.map_map]
    exact reports.nodup
  rw [List.perm_ext_iff_of_nodup (nodup reports) (nodup reports')]
  intro model
  constructor
  · intro mem
    obtain ⟨item, found, rfl⟩ := List.mem_map.mp mem
    obtain ⟨item', mem', same⟩ := reports.settled_of_mem reports' found
    exact List.mem_map.mpr ⟨item', mem', same⟩
  · intro mem
    obtain ⟨item, found, rfl⟩ := List.mem_map.mp mem
    obtain ⟨item', mem', same⟩ := reports'.settled_of_mem reports found
    exact List.mem_map.mpr ⟨item', mem', same⟩

/-- The two scans report the same models: the rows in use are as good as reading the files. -/
theorem sameAsFresh_of_rescannable (stable : Stable calls) (free : CollisionFree calls)
    (rescannable : ∀ past call rest, calls = past ++ call :: rest → call.Rescannable parser past
      (call.loadModelScanIndexes (inventoryAfter parser past)))
    {rest : List (Call Content)} (split : calls = past ++ call :: rest) :
    SameAsFresh parser call (inventoryAfter parser past) := by
  intro models inventory' scan
  unfold scanModels at scan
  cases ok : call.scanWork parser (inventoryAfter parser past) with
  | error failure =>
    rw [ok] at scan
    cases scan
  | ok work =>
    rw [ok] at scan
    obtain ⟨rfl, -⟩ := Prod.mk.inj (Except.ok.inj scan)
    have history := history_of_run stable free rescannable rfl split
    have usable : call.Usable parser (call.loadModelScanIndexes (inventoryAfter parser past)) := by
      have rescannable := rescannable past call rest split
      rw [split] at stable free
      exact usable_of_rescannable stable free history rescannable
    obtain ⟨roots, scans, eq, -⟩ := Call.scanWork_ok ok
    have reports := Call.reports_of_usable scans usable
    have reports' := Call.reports_of_usable scans (@usable_empty _ parser call)
    have nothing : call.markedModels parser (call.loadModelScanIndexes .empty) roots = [] →
        work.models = [] := by
      intro nothing
      rw [eq]
      have perm := reports.perm reports'
      rw [nothing] at perm
      exact List.map_eq_nil_iff.mp perm.eq_nil
    obtain ⟨work', ok', eq'⟩ := Call.scanWork_succeeds scans ok nothing
    refine ⟨work'.models.map (·.model), applyModelScan .empty work', ?_, ?_⟩
    · unfold scanModels
      rw [ok']
      rfl
    · rw [eq, eq']
      exact reports.perm reports'

/-- **A scan after others returns what it returns with an empty inventory**, if of the directories
that it takes whole the rows are those recorded with them, the rows that it uses are of files that
can be parsed (or whose names tell no quantisation), and first shards are lent now what their rows
were lent. -/
theorem rescan_fresh (parser : Parser Content) (calls : List (Call Content))
    (stable : Stable calls) (free : CollisionFree calls)
    (rescannable : ∀ past call rest, calls = past ++ call :: rest → call.Rescannable parser past
      (call.loadModelScanIndexes (inventoryAfter parser past)))
    (past : List (Call Content)) (call : Call Content) (rest : List (Call Content))
    (split : calls = past ++ call :: rest) :
    SameAsFresh parser call (inventoryAfter parser past) :=
  sameAsFresh_of_rescannable stable free rescannable split

/-- So do scans that read the files with `parse_gguf_metadata`, whose answers obey the laws of a
parser (`ggufParser`) whatever is told of names, file types and architectures. -/
theorem gguf_rescan_fresh (toLowercase : Str → Str)
    (workload : Option Str → Router.ModelWorkload) (quantTypeFromName : Str → Option Str)
    (quantTypeOfFileType : Option Nat → Option Str) (calls : List (Call Gguf.File))
    (stable : Stable calls) (free : CollisionFree calls)
    (rescannable : ∀ past call rest, calls = past ++ call :: rest →
      call.Rescannable (ggufParser toLowercase workload quantTypeFromName quantTypeOfFileType) past
        (call.loadModelScanIndexes (inventoryAfter
          (ggufParser toLowercase workload quantTypeFromName quantTypeOfFileType) past)))
    (past : List (Call Gguf.File)) (call : Call Gguf.File) (rest : List (Call Gguf.File))
    (split : calls = past ++ call :: rest) :
    SameAsFresh (ggufParser toLowercase workload quantTypeFromName quantTypeOfFileType) call
      (inventoryAfter (ggufParser toLowercase workload quantTypeFromName quantTypeOfFileType)
        past) :=
  sameAsFresh_of_rescannable stable free rescannable split

/-! ### Two shards -/

/-- A file is described by its architecture, if it tells one. -/
def shardParser : Parser (Option Str) where
  parse _ architecture := .ok {
    architecture
    contextLength := none
    quantType := none
    capabilities := {
      metadataComplete := true
      isEmbeddingModel := some false
      isRerankerModel := some false
      hasBuiltinMtp := false
      mtpLayers := none
      hasSwa := none
      isVisionModel := false
      visionStatus := some "unknown"
      visionEvidence := []
      visionFamily := none
      isMmproj := false
      projectorFamily := none
      projectorType := none
      modelName := none
      modelBasename := none
      modelRepo := none
      baseModelName := none
      baseModelRepo := none
      tags := [] } }
  quantTypeFromName _ := none
  quantType_of_name _ told := nomatch told
  complete ok := by cases ok; rfl

def modelsDir : Dir := ["models".toList]

def firstShard : DirectoryEntryFingerprint := ⟨"m-00001-of-00002.gguf".toList, .file, 100, 1⟩

def secondShard : DirectoryEntryFingerprint := ⟨"m-00002-of-00002.gguf".toList, .file, 200, 1⟩

theorem readable_map_ok (entries : List DirectoryEntryFingerprint) :
    readable (entries.map .ok) = entries := by
  unfold readable
  rw [List.filterMap_map]
  exact List.filterMap_some

/-- One directory; only the second shard tells the architecture. -/
def shardFiles (entries : List DirectoryEntryFingerprint)
    (nodup : (entries.map (·.name)).Nodup) : Files (Option Str) where
  pathExists dir := dir = modelsDir
  isDir dir := dir = modelsDir
  isFile path := path.dir = modelsDir && path.name ∈ entries.map (·.name)
  readDir dir := if dir = modelsDir then .ok (entries.map .ok) else .error "not found"
  nodup := by
    intro dir read ok
    split at ok
    · cases ok
      rwa [readable_map_ok]
    · cases ok
  content path := if path.name = secondShard.name then some "llama".toList else none

def shardScan (entries : List DirectoryEntryFingerprint) (nodup : (entries.map (·.name)).Nodup) :
    Call (Option Str) where
  files := shardFiles entries nodup
  paths := ["/models".toList]
  resolve _ := modelsDir
  defaultPath := ["data".toList, "models".toList]
  requireAuthorizedModelRoot := .ok
  order records := records
  order_perm _ := .refl _

def scanBoth : Call (Option Str) := shardScan [firstShard, secondShard] (by decide)

def scanFirst : Call (Option Str) := shardScan [firstShard] (by decide)

def shardTree (entries : List DirectoryEntryFingerprint) : ModelDirectoryInspection :=
  .mk modelsDir (treeSignature modelsDir (Engines.stableHash (entries.map (·.part))) []) entries []

theorem inspectEntry_file {inspect : Option (Dir → Inspected)} (file : entry.fileType = .file) :
    inspectEntry inspect dir entry = ([], []) := by
  unfold inspectEntry
  rw [file]

theorem scanned_shardScan {entries : List DirectoryEntryFingerprint}
    {nodup : (entries.map (·.name)).Nodup} (sorted : sortedEntries (entries.map .ok) = entries)
    (files : ∀ entry ∈ entries, entry.fileType = .file) :
    (shardScan entries nodup).scanned = [(modelsDir, shardTree entries)] := by
  have children : childrenOf (some (inspectModelTreeInner (shardFiles entries nodup) 31))
      modelsDir entries = [] := by
    unfold childrenOf
    rw [List.flatMap_eq_nil_iff]
    intro entry mem
    rw [inspectEntry_file (files entry mem)]
  have read : (shardFiles entries nodup).readDir modelsDir = .ok (entries.map .ok) := by
    simp [shardFiles]
  have list : listing (shardFiles entries nodup) modelsDir = entries := by
    simp only [listing, read, sorted]
  obtain ⟨warnings, inspected⟩ := inspectDirectory_of_read
    (some (inspectModelTreeInner (shardFiles entries nodup) 31)) read
  rw [list, children] at inspected
  have tree : (shardScan entries nodup).rootTree modelsDir = some (shardTree entries) := by
    unfold Call.rootTree
    change (if (decide (modelsDir = modelsDir) && decide (modelsDir = modelsDir)) = true then
      (inspectModelTree (shardFiles entries nodup) modelsDir).toOption.map (·.1) else none) = _
    rw [show inspectModelTree (shardFiles entries nodup) modelsDir = _ from inspected]
    rfl
  have roots : (shardScan entries nodup).roots = .ok [modelsDir] := rfl
  rw [Call.scanned_eq roots]
  simp [Call.trees, tree]

theorem scanned_scanBoth :
    scanBoth.scanned = [(modelsDir, shardTree [firstShard, secondShard])] :=
  scanned_shardScan (by decide +kernel) (by decide)

theorem scanned_scanFirst : scanFirst.scanned = [(modelsDir, shardTree [firstShard])] :=
  scanned_shardScan (by decide +kernel) (by decide)

theorem stable_shardScan : Stable [scanBoth, scanFirst] := by
  intro call mem call' mem' dir entry _ entry' _ _ _ _
  have content : ∀ call ∈ [scanBoth, scanFirst], call.files.content =
      fun path => if path.name = secondShard.name then some "llama".toList else none := by
    intro call mem
    simp only [List.mem_cons, List.not_mem_nil, or_false] at mem
    obtain rfl | rfl := mem <;> rfl
  rw [content call mem, content call' mem']

theorem collisionFree_shardScan : CollisionFree [scanBoth, scanFirst] := by
  have trees : ∀ call ∈ [scanBoth, scanFirst], ∀ rooted ∈ call.scanned,
      ∀ tree ∈ rooted.2.subtrees,
        tree = shardTree [firstShard, secondShard] ∨ tree = shardTree [firstShard] := by
    intro call mem rooted scanned tree under
    simp only [List.mem_cons, List.not_mem_nil, or_false] at mem
    obtain rfl | rfl := mem
    · rw [scanned_scanBoth, List.mem_singleton] at scanned
      subst scanned
      exact .inl (List.mem_singleton.mp under)
    · rw [scanned_scanFirst, List.mem_singleton] at scanned
      subst scanned
      exact .inr (List.mem_singleton.mp under)
  have differ : (shardTree [firstShard, secondShard]).signature ≠
      (shardTree [firstShard]).signature := by decide +kernel
  intro call mem call' mem' rooted scanned rooted' scanned' tree under tree' under' same
  obtain rfl | rfl := trees call mem rooted scanned tree under <;>
    obtain rfl | rfl := trees call' mem' rooted' scanned' tree' under'
  · rfl
  · exact absurd same differ
  · exact absurd same.symm differ
  · rfl

/-- The first shard keeps what the second one lent it, after that is gone. -/
theorem lent_stale : Stable [scanBoth, scanFirst] ∧ CollisionFree [scanBoth, scanFirst] ∧
    ¬SameAsFresh shardParser scanFirst (inventoryAfter shardParser [scanBoth]) := by
  refine ⟨stable_shardScan, collisionFree_shardScan, fun same => ?_⟩
  have again : (scanModels shardParser scanFirst (inventoryAfter shardParser [scanBoth])).map
      (fun result => result.1.map (·.details.architecture)) = .ok [some "llama".toList] := by
    decide +kernel
  have first : (scanModels shardParser scanFirst .empty).map
      (fun result => result.1.map (·.details.architecture)) = .ok [none] := by
    decide +kernel
  cases ok : scanModels shardParser scanFirst (inventoryAfter shardParser [scanBoth]) with
  | error failure =>
    rw [ok] at again
    cases again
  | ok result =>
    obtain ⟨fresh, inventory, ok', perm⟩ := same result.1 result.2 ok
    rw [ok] at again
    rw [ok'] at first
    have again : result.1.map (·.details.architecture) = [some "llama".toList] :=
      Except.ok.inj again
    have first : fresh.map (·.details.architecture) = [none] := Except.ok.inj first
    have perm := perm.map (·.details.architecture)
    rw [again, first] at perm
    exact absurd (perm.mem_iff.mp List.mem_cons_self) (by simp)

def firstPath : FilePath := ⟨modelsDir, firstShard.name⟩

def secondPath : FilePath := ⟨modelsDir, secondShard.name⟩

/-- The first row tells what the second file told. -/
theorem rows_scanBoth :
    (scanBoth.loadModelScanIndexes (inventoryAfter shardParser [scanBoth])).inventory =
      [⟨firstPath, modelsDir, 100, 1, scanBoth.own shardParser secondPath, false⟩,
        ⟨secondPath, modelsDir, 200, 1, scanBoth.own shardParser secondPath, true⟩] := by
  decide +kernel

theorem undisturbed_scanBoth : Undisturbed shardParser [scanBoth]
    (shardTree [firstShard, secondShard])
    (scanBoth.loadModelScanIndexes (inventoryAfter shardParser [scanBoth])).inventory := by
  rw [rows_scanBoth]
  have recorded : (scanBoth.scanWork shardParser .empty).map (fun work =>
      (work.directoryRecords, below (shardTree [firstShard, secondShard]) work.records)) =
        .ok ([⟨modelsDir, modelsDir, (shardTree [firstShard, secondShard]).signature⟩],
          [(firstPath, 100, 1, scanBoth.own shardParser secondPath),
            (secondPath, 200, 1, scanBoth.own shardParser secondPath)]) := by
    decide +kernel
  cases ok : scanBoth.scanWork shardParser .empty with
  | error failure =>
    rw [ok] at recorded
    cases recorded
  | ok work =>
    rw [ok] at recorded
    obtain ⟨directories, rows⟩ := Prod.mk.inj (Except.ok.inj recorded)
    refine ⟨[], scanBoth, [], work, rfl, ok, ?_, ?_⟩
    · rw [directories]
      exact ⟨_, List.mem_singleton_self _, rfl, rfl⟩
    · rw [rows]
      exact .refl _

/-- Where nothing changes, the second scan takes the directory whole. -/
theorem rescannable_scanBoth : ∀ past call rest, [scanBoth, scanBoth] = past ++ call :: rest →
    call.Rescannable shardParser past
      (call.loadModelScanIndexes (inventoryAfter shardParser past)) := by
  intro past call rest split
  cases past with
  | nil => exact rescannable_nil
  | cons first past =>
    obtain ⟨rfl, later⟩ := List.cons.inj split
    cases past with
    | nil =>
      obtain ⟨rfl, -⟩ := List.cons.inj later
      refine ⟨?_, fun record dir entry uses _ => .inr rfl, ?_⟩
      · intro rooted scanned tree under _
        rw [scanned_scanBoth, List.mem_singleton] at scanned
        subst scanned
        rw [List.mem_singleton.mp under]
        exact undisturbed_scanBoth
      · intro record dir entry uses lead
        have mem := uses.inventory
        rw [rows_scanBoth, List.mem_cons, List.mem_singleton] at mem
        obtain rfl | rfl := mem
        · change Details.or _ _ = _
          decide +kernel
        · exact absurd lead (by decide)
    | cons second past =>
      obtain ⟨-, later⟩ := List.cons.inj later
      cases past <;> cases later

theorem rescan_scanBoth :
    SameAsFresh shardParser scanBoth (inventoryAfter shardParser [scanBoth]) := by
  have among : ∀ call ∈ [scanBoth, scanBoth], call ∈ [scanBoth, scanFirst] := by simp
  exact rescan_fresh shardParser [scanBoth, scanBoth]
    (fun call mem call' mem' => stable_shardScan call (among call mem) call' (among call' mem'))
    (fun call mem call' mem' =>
      collisionFree_shardScan call (among call mem) call' (among call' mem'))
    rescannable_scanBoth [scanBoth] scanBoth [] rfl

end LlamaServerManager.ModelScan
