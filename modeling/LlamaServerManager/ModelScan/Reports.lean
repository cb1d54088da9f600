import LlamaServerManager.ModelScan.Settled

/-!
What a scan says with the rows of an inventory that is usable, and whether it succeeds.

* `Call.Reports` — the models are the files of the directories that were visited, as they are.
* `Call.reports_of_usable` — a scan says that.
* `Call.scanWork_succeeds` — success depends on the inventory only through there being any models.
-/

namespace LlamaServerManager.ModelScan

open References Lib

namespace Call

variable {Content : Type} (parser : Parser Content) (call : Call Content)

/-- The models of a scan are the model files in the directories it visits, as they are. -/
structure Reports (models : List ScannedModel) : Prop where
  sound : ∀ item ∈ models, call.Visits item.path.dir ∧
    ∃ entry ∈ modelFiles call.files item.path.dir,
      item.model = call.settled parser item.path.dir entry ∧ item.mtime = entry.mtime
  complete : ∀ dir, call.Visits dir → ∀ entry ∈ modelFiles call.files dir,
    ∃ item ∈ models, item.path = ⟨dir, entry.name⟩
  nodup : (models.map (·.path)).Nodup

variable {parser call} {indexes : Indexes} {dir : Dir} {entry : DirectoryEntryFingerprint}

/-! ### A scan -/

theorem dir_of_mem_offers {visit : Visit}
    (all : OffersAll parser call indexes visit) {item : ScannedModel}
    (mem : item ∈ visit.offers parser indexes) : item.path.dir = visit.tree.key := by
  obtain ⟨entry, -, offered⟩ := all.offered item mem
  rw [offered.path]

/-- What is offered of a directory is offered by its visits. -/
theorem filter_offersOf {visits : List Visit}
    (all : ∀ visit ∈ visits, OffersAll parser call indexes visit) :
    (offersOf parser indexes visits).filter (fun item => item.path.dir = dir) =
      offersOf parser indexes (visits.filter fun visit => visit.tree.key = dir) := by
  induction visits with
  | nil => rfl
  | cons visit visits ih =>
    have dirs : ∀ item ∈ visit.offers parser indexes, item.path.dir = visit.tree.key :=
      fun item mem => dir_of_mem_offers (all visit List.mem_cons_self) mem
    rw [offersOf_cons, List.filter_append,
      ih fun visit mem => all visit (List.mem_cons_of_mem _ mem)]
    by_cases here : visit.tree.key = dir
    · rw [List.filter_cons_of_pos (by simpa using here), offersOf_cons,
        List.filter_eq_self.mpr fun item mem => by simpa [dirs item mem] using here]
    · rw [List.filter_cons_of_neg (by simpa using here),
        List.filter_eq_nil_iff.mpr fun item mem => by simpa [dirs item mem] using here,
        List.nil_append]

/-- Of a directory, what its first visit offers is taken, and that is all of it. -/
theorem filter_distinct_offersOf {visits : List Visit}
    (all : ∀ visit ∈ visits, OffersAll parser call indexes visit)
    (visited : ∃ visit ∈ visits, visit.tree.key = dir) :
    ∃ visit ∈ visits, visit.tree.key = dir ∧
      (distinct ScannedModel.path (offersOf parser indexes visits)).filter
        (fun item => item.path.dir = dir) = visit.offers parser indexes := by
  have dirs : (distinct ScannedModel.path (offersOf parser indexes visits)).filter
      (fun item => item.path.dir = dir) = distinct ScannedModel.path
        ((offersOf parser indexes visits).filter fun item => item.path.dir = dir) :=
    filter_distinct fun path : FilePath => decide (path.dir = dir)
  rw [dirs, filter_offersOf all]
  cases here : visits.filter fun visit => visit.tree.key = dir with
  | nil =>
    obtain ⟨visit, mem, key⟩ := visited
    exact absurd key (by simpa using List.filter_eq_nil_iff.mp here visit mem)
  | cons first others =>
    have of : ∀ visit ∈ first :: others, visit ∈ visits ∧ visit.tree.key = dir := by
      intro visit mem
      rw [← here, List.mem_filter, decide_eq_true_eq] at mem
      exact mem
    obtain ⟨mem, key⟩ := of first List.mem_cons_self
    refine ⟨first, mem, key, ?_⟩
    rw [offersOf_cons]
    apply distinct_append (all first mem).nodup
    intro item offered
    obtain ⟨visit, later, offer⟩ := List.mem_flatMap.mp offered
    obtain ⟨mem', key'⟩ := of visit (List.mem_cons_of_mem _ later)
    obtain ⟨entry, listed, offered⟩ := (all visit mem').offered item offer
    rw [offered.path, key', ← key]
    exact (all first mem).all entry (by rwa [key, ← key'])

variable (parser call) in
/-- What a scan returns of the models that were found: parsed, then marked. -/
def marked (items : List ScannedModel) : List ScannedModel :=
  let parsed := items.map (call.parseFresh parser)
  parsed.map fun item => { item with model := markModel (parsed.map (·.model)) item.model }

theorem mem_marked {items : List ScannedModel} {result : ScannedModel}
    (mem : result ∈ call.marked parser items) : ∃ item ∈ items,
      result.mtime = item.mtime ∧
      result.model = markModel (items.map fun item => (call.parseFresh parser item).model)
        (call.parseFresh parser item).model := by
  unfold marked at mem
  obtain ⟨_, isParsed, rfl⟩ := List.mem_map.mp mem
  obtain ⟨item, isItem, rfl⟩ := List.mem_map.mp isParsed
  refine ⟨item, isItem, parseFresh_mtime item, ?_⟩
  rw [List.map_map]
  rfl

theorem paths_marked (items : List ScannedModel) :
    (call.marked parser items).map (·.path) = items.map (·.path) := by
  unfold marked
  rw [List.map_map, List.map_map]
  refine List.map_congr_left fun item _ => ?_
  simp only [Function.comp_apply, markModel_eq]
  exact parseFresh_path item

/-- A model of a directory that was visited. -/
theorem model_eq_settled {items : List ScannedModel} {visit : Visit}
    (all : OffersAll parser call indexes visit)
    (here : items.filter (fun item => item.path.dir = visit.tree.key) =
      visit.offers parser indexes) {item : ScannedModel}
    (mem : item ∈ visit.offers parser indexes) :
    ∃ entry ∈ modelFiles call.files visit.tree.key, item.mtime = entry.mtime ∧
      markModel (items.map fun item => (call.parseFresh parser item).model)
        (call.parseFresh parser item).model = call.settled parser visit.tree.key entry := by
  obtain ⟨entry, listed, offered⟩ := all.offered item mem
  have path : (call.parseFresh parser item).model.path = ⟨visit.tree.key, entry.name⟩ :=
    (parseFresh_path item).trans offered.path
  refine ⟨entry, listed, offered.mtime, ?_⟩
  have group : (items.map fun item => (call.parseFresh parser item).model).filter
      (fun model => model.path.dir = visit.tree.key) =
        (visit.offers parser indexes).map fun item => (call.parseFresh parser item).model := by
    rw [List.filter_map, ← here]
    congr 1
    refine List.filter_congr fun item _ => ?_
    rw [← @parseFresh_path _ parser call item]
    rfl
  have lent := all.refines.details_or_lentTo (List.mem_map_of_mem mem)
    (List.mem_map_of_mem (f := call.readModel parser visit.tree.key) listed) path
  have size : (call.parseFresh parser item).model.size = entry.size :=
    (parseFresh_size item).trans offered.size
  rw [path, ← group] at lent
  rw [markModel_eq, ← lentTo_filter, path, size]
  unfold settled
  rw [ModelInfo.mk.injEq]
  exact ⟨rfl, rfl, lent, rfl⟩

/-- What the roots give, marked. -/
def markedModels (parser : Parser Content) (call : Call Content) (indexes : Indexes)
    (roots : List Dir) : List ScannedModel :=
  call.marked parser
    (distinct ScannedModel.path (offersOf parser indexes (call.visitsOf indexes roots)))

/-- **With rows that say enough and not too much, a scan says what it should.** -/
theorem reports_of_usable {roots : List Dir} (scans : call.roots = .ok roots)
    (usable : call.Usable parser indexes) :
    Reports parser call (call.markedModels parser indexes roots) := by
  have all : ∀ visit ∈ call.visitsOf indexes roots, OffersAll parser call indexes visit :=
    fun visit mem => offersAll scans usable mem
  unfold markedModels
  refine ⟨?_, ?_, ?_⟩
  · intro result mem
    obtain ⟨item, mem, mtime, model⟩ := mem_marked mem
    obtain ⟨visit, visited, offer⟩ := List.mem_flatMap.mp (mem_of_mem_distinct mem)
    obtain ⟨first, mem', key, here⟩ := filter_distinct_offersOf all
      ⟨visit, visited, (dir_of_mem_offers (all visit visited) offer).symm⟩
    have offer : item ∈ first.offers parser indexes := by
      rw [← here, List.mem_filter, decide_eq_true_eq]
      exact ⟨mem, rfl⟩
    rw [← key] at here
    obtain ⟨entry, listed, mtime', settled⟩ := model_eq_settled (all first mem') here offer
    rw [settled] at model
    have dir : result.path.dir = first.tree.key := by rw [ScannedModel.path, model]; rfl
    rw [dir]
    exact ⟨(visits_iff scans _).mpr ⟨first, mem', rfl⟩, entry, listed, model, mtime.trans mtime'⟩
  · intro dir visits entry listed
    obtain ⟨first, mem, key, here⟩ := filter_distinct_offersOf all
      ((visits_iff scans indexes).mp visits)
    obtain ⟨item, offer, path⟩ := List.mem_map.mp ((all first mem).all entry (by rwa [key]))
    rw [← here] at offer
    have marked := List.mem_map_of_mem (f := ScannedModel.path) (List.mem_filter.mp offer).1
    rw [← @paths_marked _ parser call] at marked
    obtain ⟨result, mem, same⟩ := List.mem_map.mp marked
    exact ⟨result, mem, by rw [same, path, key]⟩
  · rw [paths_marked]
    exact nodup_distinct

/-! ### Success -/

section Success

variable (parser call)

def allWarnings (progress : Progress) : List ScanWarning :=
  progress.warnings ++ progress.work.models.filterMap (call.parseWarning parser)

theorem finish_eq (progress : Progress) : call.finish parser progress =
    if progress.fatalErrors ≠ [] then .error (.fatal progress.fatalErrors)
    else if call.marked parser progress.work.models = [] ∧
        call.allWarnings parser progress ≠ [] then
      .error (.noModels (call.allWarnings parser progress))
    else .ok ⟨call.marked parser progress.work.models, progress.work.directoryRecords,
      progress.scanRootKeys, call.allWarnings parser progress⟩ := by
  unfold finish
  split
  · rfl
  · dsimp only
    split
    · rename_i nothing
      exact (if_pos nothing).symm
    · rename_i something
      exact (if_neg something).symm

theorem scanWork_eq (inventory : Inventory) {roots : List Dir} (scans : call.roots = .ok roots) :
    call.scanWork parser inventory = call.finish parser (roots.foldl
      (call.scanRoot parser (call.loadModelScanIndexes inventory)) .empty) := by
  unfold scanWork
  rw [scans]

theorem marked_foldl_scanRoot (roots : List Dir) :
    call.marked parser (roots.foldl (call.scanRoot parser indexes) .empty).work.models =
      call.markedModels parser indexes roots := by
  rw [models_foldl_scanRoot]
  rfl

variable {parser call}

/-- What a scan returns, and what it records, where it succeeds. -/
theorem scanWork_ok {inventory : Inventory} {work : ModelScanWork}
    (ok : call.scanWork parser inventory = .ok work) :
    ∃ roots, call.roots = .ok roots ∧
      work.models = call.markedModels parser (call.loadModelScanIndexes inventory) roots ∧
      ∀ record ∈ work.directoryRecords,
        ∃ rooted ∈ call.scanned, IsRecordOf rooted.1 rooted.2 record := by
  cases scans : call.roots with
  | error error =>
    unfold scanWork at ok
    rw [scans] at ok
    cases ok
  | ok roots =>
    rw [scanWork_eq parser call inventory scans, finish_eq] at ok
    split at ok
    · cases ok
    · split at ok
      · cases ok
      · cases ok
        refine ⟨roots, rfl, marked_foldl_scanRoot parser call roots, ?_⟩
        intro record mem
        rw [scanned_eq scans]
        exact (mem_records_foldl_scanRoot mem).resolve_left List.not_mem_nil

/-- Success does not depend on the inventory, except through there being any models. -/
theorem scanWork_succeeds {inventory inventory' : Inventory} {work : ModelScanWork}
    {roots : List Dir} (scans : call.roots = .ok roots)
    (ok : call.scanWork parser inventory = .ok work)
    (same : call.markedModels parser (call.loadModelScanIndexes inventory') roots = [] →
      work.models = []) :
    ∃ work', call.scanWork parser inventory' = .ok work' ∧
      work'.models = call.markedModels parser (call.loadModelScanIndexes inventory') roots := by
  rw [scanWork_eq parser call inventory scans, finish_eq] at ok
  rw [scanWork_eq parser call inventory' scans, finish_eq]
  simp only [fatalErrors_foldl_scanRoot, marked_foldl_scanRoot] at ok ⊢
  split at ok
  · cases ok
  · rename_i notFatal
    rw [if_neg notFatal]
    split at ok
    · cases ok
    · rename_i something
      cases ok
      rw [if_neg ?_]
      · exact ⟨_, rfl, rfl⟩
      · rintro ⟨nothing, warned⟩
        have empty : ∀ indexes, call.markedModels parser indexes roots = [] →
            (roots.foldl (call.scanRoot parser indexes) .empty).work.models = [] := by
          intro indexes nothing
          rw [← marked_foldl_scanRoot] at nothing
          simpa [marked] using nothing
        have warnings : ∀ indexes, call.markedModels parser indexes roots = [] →
            call.allWarnings parser (roots.foldl (call.scanRoot parser indexes) .empty) =
              roots.flatMap call.emptyWarnings := by
          intro indexes nothing
          unfold allWarnings
          rw [warnings_foldl_scanRoot (empty indexes nothing), empty indexes nothing]
          simp [Progress.empty]
        rw [warnings _ nothing] at warned
        exact something ⟨same nothing, by rwa [warnings _ (same nothing)]⟩

end Success

end Call

end LlamaServerManager.ModelScan
