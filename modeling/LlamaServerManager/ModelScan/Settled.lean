import LlamaServerManager.ModelScan.Visits

/-!
What a scan should say of the files it meets, and when the rows of an inventory make it say that.

* `Call.settled` — what a file tells, with what its set lends to it.
* `Call.Usable` — the rows that a scan takes tell no less than their files and no more than their
  sets; of a directory that is taken whole they tell all of it.
* `Call.OffersAll` — what a visit then offers: each file of its directory, with what can be told
  of it (`Call.offersAll`).
-/

namespace LlamaServerManager.ModelScan

open References Lib

def modelFiles {Content : Type} (files : Files Content) (dir : Dir) :
    List DirectoryEntryFingerprint :=
  (listing files dir).filter isModelFile

namespace Call

variable {Content : Type} (parser : Parser Content) (call : Call Content)

/-- A model as its file tells it. -/
def readModel (dir : Dir) (entry : DirectoryEntryFingerprint) : ModelInfo :=
  ⟨⟨dir, entry.name⟩, entry.size, call.own parser ⟨dir, entry.name⟩, false⟩

def readModels (dir : Dir) : List ModelInfo :=
  (modelFiles call.files dir).map (call.readModel parser dir)

/-- What its set lends to a file, by what the files of the set tell. -/
def lends (path : FilePath) : Details := lentTo (call.readModels parser path.dir) path

def settledDetails (path : FilePath) : Details := (call.own parser path).or (call.lends parser path)

def settled (dir : Dir) (entry : DirectoryEntryFingerprint) : ModelInfo :=
  ⟨⟨dir, entry.name⟩, entry.size, call.settledDetails parser ⟨dir, entry.name⟩,
    isShardName ⟨dir, entry.name⟩⟩

/-- The trees that the call scans, with their roots. -/
def scanned : List (Dir × ModelDirectoryInspection) :=
  match call.roots with
  | .error _ => []
  | .ok roots => call.trees roots

def Visits (dir : Dir) : Prop := ∃ rooted ∈ call.scanned, dir ∈ rooted.2.dirs

/-- A row is of a file of that name, size and time. -/
structure IsOf (record : InventoryModelRecord) (dir : Dir) (entry : DirectoryEntryFingerprint) :
    Prop where
  path : record.path = ⟨dir, entry.name⟩
  size : record.size = entry.size
  mtime : record.mtime = entry.mtime

structure Usable (indexes : Indexes) : Prop where
  nodup : (indexes.inventory.map (·.path)).Nodup
  /-- Where a directory is taken whole, its rows are its files, and tell what there is. -/
  whole : ∀ rooted ∈ call.scanned, ∀ subtree, Reused indexes rooted.2 subtree →
    (∀ record ∈ indexes.inventory, record.path.dir = subtree.key →
      ∃ entry ∈ modelFiles call.files subtree.key, IsOf record subtree.key entry ∧
        parser.named record.path record.details = call.settledDetails parser record.path) ∧
    ∀ entry ∈ modelFiles call.files subtree.key,
      ∃ record ∈ indexes.inventory, record.path = ⟨subtree.key, entry.name⟩
  least : ∀ dir, call.Visits dir → ∀ entry ∈ modelFiles call.files dir,
    ∀ record ∈ indexes.inventory, IsOf record dir entry →
      (call.own parser record.path).Sub (parser.named record.path record.details)
  most : ∀ dir, call.Visits dir → ∀ entry ∈ modelFiles call.files dir,
    ∀ record ∈ indexes.inventory, IsOf record dir entry →
      (parser.named record.path record.details).Sub (call.settledDetails parser record.path)

variable {parser call} {indexes : Indexes} {dir : Dir} {entry entry' : DirectoryEntryFingerprint}

theorem nodup_modelFiles : ((modelFiles call.files dir).map (·.name)).Nodup :=
  (nodup_listing call.files dir).sublist (List.filter_sublist.map _)

theorem eq_of_name (mem : entry ∈ modelFiles call.files dir)
    (mem' : entry' ∈ modelFiles call.files dir) (name : entry.name = entry'.name) :
    entry = entry' :=
  List.inj_on_of_nodup_map nodup_modelFiles mem mem' name

theorem paths_readModels : (call.readModels parser dir).map (·.path) =
    (modelFiles call.files dir).map fun entry => ⟨dir, entry.name⟩ := by
  unfold readModels
  rw [List.map_map]
  rfl

theorem nodup_readModels : ((call.readModels parser dir).map (·.path)).Nodup := by
  rw [paths_readModels]
  have inj : Function.Injective (FilePath.mk dir) := fun _ _ same => (FilePath.mk.inj same).2
  have nodup : (((modelFiles call.files dir).map (·.name)).map (FilePath.mk dir)).Nodup :=
    nodup_modelFiles.map inj
  rwa [List.map_map] at nodup

/-! ### What one directory offers -/

variable (parser call) in
/-- An offer, after the parser. -/
structure Offered (item : ScannedModel) (dir : Dir) (entry : DirectoryEntryFingerprint) : Prop where
  path : item.path = ⟨dir, entry.name⟩
  size : item.model.size = entry.size
  mtime : item.mtime = entry.mtime
  least : (call.own parser item.path).Sub (call.parseFresh parser item).model.details
  most : (call.parseFresh parser item).model.details.Sub (call.settledDetails parser item.path)

@[simp] theorem parseFresh_path (item : ScannedModel) :
    (call.parseFresh parser item).path = item.path := by
  unfold parseFresh
  split <;> rfl

@[simp] theorem parseFresh_size (item : ScannedModel) :
    (call.parseFresh parser item).model.size = item.model.size := by
  unfold parseFresh
  split <;> rfl

@[simp] theorem parseFresh_mtime (item : ScannedModel) :
    (call.parseFresh parser item).mtime = item.mtime := by
  unfold parseFresh
  split <;> rfl

/-- A file that is left to the parser. -/
theorem offered_unread {scanRootKey : Dir} :
    Offered parser call
      ⟨⟨⟨dir, entry.name⟩, entry.size, .unknown, false⟩, scanRootKey, entry.mtime, true⟩
      dir entry := by
  refine ⟨rfl, rfl, rfl, ?_, ?_⟩
  · exact Details.Sub.refl _
  · exact Details.sub_or _ _

theorem offered_visitedModel {scanRootKey : Dir} (usable : call.Usable parser indexes)
    (visits : call.Visits dir) (mem : entry ∈ modelFiles call.files dir) :
    Offered parser call
      (visitedModel parser indexes scanRootKey dir entry) dir entry := by
  unfold visitedModel
  dsimp only
  split
  · rename_i record found
    have path : record.path = ⟨dir, entry.name⟩ := by simpa using List.find?_some found
    split
    · rename_i same
      have of : IsOf record dir entry := ⟨path, same.2, same.1⟩
      have least := usable.least dir visits entry mem record (List.mem_of_find?_eq_some found) of
      have most := usable.most dir visits entry mem record (List.mem_of_find?_eq_some found) of
      obtain ⟨_, _, _, _, _, _⟩ := record
      cases path
      exact ⟨rfl, rfl, rfl, least, most⟩
    · exact offered_unread
  · exact offered_unread

theorem offered_reusedModel {record : InventoryModelRecord} {scanRootKey : Dir}
    (of : IsOf record dir entry)
    (details : parser.named record.path record.details = call.settledDetails parser record.path) :
    Offered parser call (reusedModel parser scanRootKey record) dir entry := by
  refine ⟨of.path, of.size, of.mtime, ?_, ?_⟩
  · change (call.own parser record.path).Sub (parser.named record.path record.details)
    rw [details]
    exact Details.sub_or _ _
  · change (parser.named record.path record.details).Sub (call.settledDetails parser record.path)
    rw [details]
    exact Details.Sub.refl _

variable (parser call) in
/-- A visit offers each model file of its directory once, with what can be told of it. -/
structure OffersAll (indexes : Indexes) (visit : Visit) : Prop where
  nodup : ((visit.offers parser indexes).map (·.path)).Nodup
  offered : ∀ item ∈ visit.offers parser indexes,
    ∃ entry ∈ modelFiles call.files visit.tree.key,
      Offered parser call item visit.tree.key entry
  all : ∀ entry ∈ modelFiles call.files visit.tree.key,
    ⟨visit.tree.key, entry.name⟩ ∈ (visit.offers parser indexes).map (·.path)
  ordered : (visit.offers parser indexes).map (·.path) =
      (call.readModels parser visit.tree.key).map (·.path) ∨
    ∀ item ∈ visit.offers parser indexes,
      (call.parseFresh parser item).model.details = call.settledDetails parser item.path

theorem offersAll_of_reused (usable : call.Usable parser indexes) {visit : Visit}
    (taken : visit.reused = true) {rooted : Dir × ModelDirectoryInspection}
    (mem : rooted ∈ call.scanned) (reused : Reused indexes rooted.2 visit.tree) :
    OffersAll parser call indexes visit := by
  obtain ⟨rows, files⟩ := usable.whole rooted mem visit.tree reused
  have offers : visit.offers parser indexes =
      (indexes.cachedByParent visit.tree.key).map (reusedModel parser visit.scanRootKey) := by
    simp [Visit.offers, taken]
  have paths : (visit.offers parser indexes).map (·.path) =
      (indexes.cachedByParent visit.tree.key).map (·.path) := by
    rw [offers, List.map_map]
    rfl
  have mem_cached : ∀ record, record ∈ indexes.cachedByParent visit.tree.key ↔
      record ∈ indexes.inventory ∧ record.path.dir = visit.tree.key := by
    simp [Indexes.cachedByParent]
  refine ⟨?_, ?_, ?_, .inr ?_⟩
  · rw [paths]
    exact usable.nodup.sublist (List.filter_sublist.map _)
  · intro item mem
    rw [offers] at mem
    obtain ⟨record, cached, rfl⟩ := List.mem_map.mp mem
    obtain ⟨inventory, here⟩ := (mem_cached record).mp cached
    obtain ⟨entry, listed, of, details⟩ := rows record inventory here
    exact ⟨entry, listed, offered_reusedModel of details⟩
  · intro entry listed
    obtain ⟨record, mem, path⟩ := files entry listed
    rw [paths, ← path]
    exact List.mem_map_of_mem ((mem_cached record).mpr ⟨mem, by rw [path]⟩)
  · intro item mem
    rw [offers] at mem
    obtain ⟨record, cached, rfl⟩ := List.mem_map.mp mem
    obtain ⟨inventory, here⟩ := (mem_cached record).mp cached
    obtain ⟨entry, -, -, details⟩ := rows record inventory here
    exact details

theorem path_visitedModel {scanRootKey : Dir} :
    (visitedModel parser indexes scanRootKey dir entry).path = ⟨dir, entry.name⟩ := by
  unfold visitedModel
  dsimp only
  split
  · split <;> rfl
  · rfl

theorem offersAll_of_read (usable : call.Usable parser indexes) {visit : Visit}
    (read : visit.reused = false) (visits : call.Visits visit.tree.key)
    (entries : visit.tree.entries = listing call.files visit.tree.key) :
    OffersAll parser call indexes visit := by
  have offers : visit.offers parser indexes = (modelFiles call.files visit.tree.key).map
      (visitedModel parser indexes visit.scanRootKey visit.tree.key) := by
    simp [Visit.offers, read, entries, modelFiles]
  have paths : (visit.offers parser indexes).map (·.path) =
      (call.readModels parser visit.tree.key).map (·.path) := by
    rw [offers, List.map_map, paths_readModels]
    exact List.map_congr_left fun entry _ => path_visitedModel
  refine ⟨?_, ?_, ?_, .inl paths⟩
  · rw [paths]
    exact nodup_readModels
  · intro item mem
    rw [offers] at mem
    obtain ⟨entry, listed, rfl⟩ := List.mem_map.mp mem
    exact ⟨entry, listed, offered_visitedModel usable visits listed⟩
  · intro entry listed
    rw [paths, paths_readModels]
    exact List.mem_map.mpr ⟨entry, listed, rfl⟩

/-! ### Where the trees come from -/

theorem inspected_of_mem_scanned {rooted : Dir × ModelDirectoryInspection}
    (mem : rooted ∈ call.scanned) : ∃ warnings,
      inspectModelTree call.files rooted.1 = .ok (rooted.2, warnings) := by
  unfold scanned at mem
  cases roots : call.roots with
  | error error =>
    rw [roots] at mem
    cases mem
  | ok roots' =>
    rw [roots] at mem
    obtain ⟨root, -, tree⟩ := List.mem_filterMap.mp mem
    obtain ⟨tree, scanned, rfl⟩ := Option.map_eq_some_iff.mp tree
    unfold rootTree at scanned
    split at scanned
    · cases inspected : inspectModelTree call.files root with
      | error error =>
        rw [inspected] at scanned
        cases scanned
      | ok found =>
        rw [inspected] at scanned
        cases scanned
        exact ⟨found.2, rfl⟩
    · cases scanned

theorem entries_of_mem_scanned {rooted : Dir × ModelDirectoryInspection}
    {subtree : ModelDirectoryInspection} (mem : rooted ∈ call.scanned)
    (below : subtree ∈ rooted.2.subtrees) : subtree.entries = listing call.files subtree.key := by
  obtain ⟨warnings, inspected⟩ := inspected_of_mem_scanned mem
  exact entries_of_inspected inspected below

section Roots

variable {roots : List Dir} (scans : call.roots = .ok roots)

include scans

theorem scanned_eq : call.scanned = call.trees roots := by
  simp only [scanned, scans]

theorem mem_visitsOf {visit : Visit} (mem : visit ∈ call.visitsOf indexes roots) :
    ∃ rooted ∈ call.scanned, visit ∈ ModelScan.visits indexes rooted.1 false rooted.2 := by
  rw [scanned_eq scans]
  exact List.mem_flatMap.mp mem

theorem visits_iff (indexes : Indexes) : call.Visits dir ↔
    ∃ visit ∈ call.visitsOf indexes roots, visit.tree.key = dir := by
  unfold Visits visitsOf
  rw [scanned_eq scans]
  constructor
  · rintro ⟨rooted, mem, below⟩
    obtain ⟨subtree, under, rfl⟩ := List.mem_map.mp below
    rw [← visits_trees indexes rooted.1 false] at under
    obtain ⟨visit, mem', rfl⟩ := List.mem_map.mp under
    exact ⟨visit, List.mem_flatMap.mpr ⟨rooted, mem, mem'⟩, rfl⟩
  · rintro ⟨visit, mem, rfl⟩
    obtain ⟨rooted, mem, mem'⟩ := List.mem_flatMap.mp mem
    refine ⟨rooted, mem, List.mem_map.mpr ⟨visit.tree, ?_, rfl⟩⟩
    rw [← visits_trees indexes rooted.1 false]
    exact List.mem_map_of_mem mem'

theorem offersAll (usable : call.Usable parser indexes) {visit : Visit}
    (mem : visit ∈ call.visitsOf indexes roots) :
    OffersAll parser call indexes visit := by
  have visits : call.Visits visit.tree.key :=
    (visits_iff scans indexes).mpr ⟨visit, mem, rfl⟩
  obtain ⟨rooted, scanned, mem⟩ := mem_visitsOf scans mem
  have below : visit.tree ∈ rooted.2.subtrees := by
    rw [← visits_trees indexes rooted.1 false]
    exact List.mem_map_of_mem mem
  cases taken : visit.reused with
  | true =>
    obtain above | reused := reused_of_mem_visits mem taken
    · cases above
    · exact offersAll_of_reused usable taken scanned reused
  | false => exact offersAll_of_read usable taken visits (entries_of_mem_scanned scanned below)

end Roots

theorem OffersAll.refines {visit : Visit}
    (all : OffersAll parser call indexes visit) :
    Refines ((visit.offers parser indexes).map fun item => (call.parseFresh parser item).model)
      (call.readModels parser visit.tree.key) := by
  have paths : ((visit.offers parser indexes).map fun item =>
      (call.parseFresh parser item).model).map (·.path) =
        (visit.offers parser indexes).map (·.path) := by
    rw [List.map_map]
    exact List.map_congr_left fun item _ => parseFresh_path item
  have same : ∀ item ∈ visit.offers parser indexes,
      ∀ model' ∈ call.readModels parser visit.tree.key,
        (call.parseFresh parser item).model.path = model'.path →
          model'.path = item.path ∧ model'.details = call.own parser item.path ∧
            item.path.dir = visit.tree.key := by
    intro item mem model' mem' path
    rw [show (call.parseFresh parser item).model.path = item.path from parseFresh_path item] at path
    obtain ⟨entry, -, rfl⟩ := List.mem_map.mp mem'
    exact ⟨path.symm, by rw [path]; rfl, by rw [path]; rfl⟩
  have settles : ∀ item ∈ visit.offers parser indexes, item.path.dir = visit.tree.key →
      (call.own parser item.path).or (lentTo (call.readModels parser visit.tree.key) item.path) =
        call.settledDetails parser item.path := by
    intro item _ dir
    rw [← dir]
    rfl
  refine ⟨?_, nodup_readModels, ?_, ?_, ?_⟩
  · rw [paths, List.perm_ext_iff_of_nodup all.nodup nodup_readModels]
    intro path
    rw [paths_readModels]
    constructor
    · intro mem
      obtain ⟨item, offer, rfl⟩ := List.mem_map.mp mem
      obtain ⟨entry, listed, offered⟩ := all.offered item offer
      exact List.mem_map.mpr ⟨entry, listed, offered.path.symm⟩
    · intro mem
      obtain ⟨entry, listed, rfl⟩ := List.mem_map.mp mem
      exact all.all entry listed
  · intro model mem model' mem' path
    obtain ⟨item, offer, rfl⟩ := List.mem_map.mp mem
    obtain ⟨entry, listed, offered⟩ := all.offered item offer
    rw [(same item offer model' mem' path).2.1]
    exact offered.least
  · intro model mem model' mem' path
    obtain ⟨item, offer, rfl⟩ := List.mem_map.mp mem
    obtain ⟨entry, listed, offered⟩ := all.offered item offer
    obtain ⟨path', own, dir⟩ := same item offer model' mem' path
    rw [own, path', settles item offer dir]
    exact offered.most
  · rw [paths]
    refine all.ordered.imp_right fun settled => ?_
    intro model mem model' mem' path
    obtain ⟨item, offer, rfl⟩ := List.mem_map.mp mem
    obtain ⟨path', own, dir⟩ := same item offer model' mem' path
    rw [own, path', settles item offer dir]
    exact settled item offer

end Call

end LlamaServerManager.ModelScan
