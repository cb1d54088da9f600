import LlamaServerManager.ModelScan.Scan

/-!
A scan as the directories that it visits: each offers models, from the inventory or from its files,
and of those that have one path the first is taken.

* `Visit` — a directory of a tree, and whether it is taken from the inventory.
* `models_foldl_scanRoot` — what the roots give is the first of each path that the visits offer.
* `mem_records_foldl_scanRoot` — a directory record is of a tree that was scanned.
-/

namespace LlamaServerManager.ModelScan

open References Lib

structure Visit where
  scanRootKey : Dir
  tree : ModelDirectoryInspection
  reused : Bool

section Trees

variable (indexes : Indexes) (scanRootKey : Dir)

mutual

/-- What is under a directory that is taken from the inventory is taken from there too. -/
def visits (reused : Bool) : ModelDirectoryInspection → List Visit
  | .mk key signature entries children =>
    let reused := reused || indexes.unchanged key signature
    ⟨scanRootKey, .mk key signature entries children, reused⟩ :: visitsOfAll reused children

def visitsOfAll (reused : Bool) : List ModelDirectoryInspection → List Visit
  | [] => []
  | tree :: trees => visits reused tree ++ visitsOfAll reused trees

end

mutual

theorem visits_trees (reused : Bool) :
    ∀ tree, (visits indexes scanRootKey reused tree).map (·.tree) = tree.subtrees
  | .mk key signature entries children => by
    simp only [visits, ModelDirectoryInspection.subtrees, List.map_cons]
    rw [visitsOfAll_trees]

theorem visitsOfAll_trees (reused : Bool) :
    ∀ trees, (visitsOfAll indexes scanRootKey reused trees).map (·.tree) =
      ModelDirectoryInspection.subtreesOfAll trees
  | [] => rfl
  | tree :: trees => by
    simp only [visitsOfAll, ModelDirectoryInspection.subtreesOfAll, List.map_append]
    rw [visits_trees, visitsOfAll_trees]

end

variable {indexes scanRootKey}

/-- A directory is taken from the inventory because of one above it, or of itself. -/
def Reused (indexes : Indexes) (tree subtree : ModelDirectoryInspection) : Prop :=
  ∃ top ∈ tree.subtrees, indexes.unchanged top.key top.signature = true ∧ subtree ∈ top.subtrees

mutual

theorem reused_of_mem_visits {reused : Bool} {visit : Visit} :
    ∀ {tree}, visit ∈ visits indexes scanRootKey reused tree → visit.reused = true →
      reused = true ∨ Reused indexes tree visit.tree
  | .mk key signature entries children, mem, taken => by
    simp only [visits, List.mem_cons] at mem
    obtain rfl | mem := mem
    · simp only [Bool.or_eq_true] at taken
      exact taken.imp_right fun unchanged =>
        ⟨_, ModelDirectoryInspection.mem_subtrees_self _, unchanged,
          ModelDirectoryInspection.mem_subtrees_self _⟩
    · have under : visit.tree ∈ ModelDirectoryInspection.subtreesOfAll children := by
        rw [← visitsOfAll_trees indexes scanRootKey (reused || indexes.unchanged key signature)]
        exact List.mem_map_of_mem mem
      obtain above | ⟨child, childMem, top, topMem, unchanged, below⟩ :=
        reused_of_mem_visitsOfAll mem taken
      · rw [Bool.or_eq_true] at above
        exact above.imp_right fun unchanged =>
          ⟨_, ModelDirectoryInspection.mem_subtrees_self _, unchanged,
            List.mem_cons_of_mem _ under⟩
      · exact .inr ⟨top, List.mem_cons_of_mem _
          (ModelDirectoryInspection.mem_subtreesOfAll.mpr ⟨child, childMem, topMem⟩),
          unchanged, below⟩

theorem reused_of_mem_visitsOfAll {reused : Bool} {visit : Visit} :
    ∀ {trees}, visit ∈ visitsOfAll indexes scanRootKey reused trees → visit.reused = true →
      reused = true ∨ ∃ tree ∈ trees, Reused indexes tree visit.tree
  | [], mem, _ => absurd mem List.not_mem_nil
  | tree :: trees, mem, taken => by
    simp only [visitsOfAll, List.mem_append] at mem
    obtain mem | mem := mem
    · exact (reused_of_mem_visits mem taken).imp_right fun reused =>
        ⟨tree, List.mem_cons_self, reused⟩
    · exact (reused_of_mem_visitsOfAll mem taken).imp_right fun ⟨tree, mem, reused⟩ =>
        ⟨tree, List.mem_cons_of_mem _ mem, reused⟩

end

end Trees

/-! ### What the visits offer -/

section Offers

variable {Content : Type} (parser : Parser Content) (indexes : Indexes)

def Visit.offers (visit : Visit) : List ScannedModel :=
  if visit.reused then
    (indexes.cachedByParent visit.tree.key).map (reusedModel parser visit.scanRootKey)
  else
    (visit.tree.entries.filter isModelFile).map
      (visitedModel parser indexes visit.scanRootKey visit.tree.key)

def offersOf (visits : List Visit) : List ScannedModel :=
  visits.flatMap (Visit.offers parser indexes)

variable {parser indexes} {scanRootKey : Dir}

theorem models_foldl_push (work : Traversal) (items : List ScannedModel) :
    (items.foldl Traversal.push work).models =
      items.foldl (keepNew ScannedModel.path) work.models := by
  induction items generalizing work with
  | nil => rfl
  | cons item items ih => exact ih _

theorem directoryRecords_foldl_push (work : Traversal) (items : List ScannedModel) :
    (items.foldl Traversal.push work).directoryRecords = work.directoryRecords := by
  induction items generalizing work with
  | nil => rfl
  | cons item items ih => exact ih _

theorem offersOf_cons (visit : Visit) (visits : List Visit) :
    offersOf parser indexes (visit :: visits) =
      visit.offers parser indexes ++ offersOf parser indexes visits := List.flatMap_cons

theorem offersOf_append (visits visits' : List Visit) :
    offersOf parser indexes (visits ++ visits') =
      offersOf parser indexes visits ++ offersOf parser indexes visits' := List.flatMap_append

mutual

theorem models_reuse (work : Traversal) :
    ∀ tree, (reuseCachedModelsForTree parser indexes scanRootKey work tree).models =
      (offersOf parser indexes (visits indexes scanRootKey true tree)).foldl
        (keepNew ScannedModel.path) work.models
  | .mk key signature entries children => by
    simp only [reuseCachedModelsForTree, visits, Bool.true_or]
    rw [models_reuseAll, models_foldl_push, offersOf_cons, List.foldl_append]
    rfl

theorem models_reuseAll (work : Traversal) :
    ∀ trees, (reuseCachedModelsForTrees parser indexes scanRootKey work trees).models =
      (offersOf parser indexes (visitsOfAll indexes scanRootKey true trees)).foldl
        (keepNew ScannedModel.path) work.models
  | [] => rfl
  | tree :: trees => by
    simp only [reuseCachedModelsForTrees, visitsOfAll]
    rw [models_reuseAll, models_reuse, offersOf_append, List.foldl_append]

end

mutual

theorem models_scan (work : Traversal) :
    ∀ tree, (scanModelDirectoryIncremental parser indexes scanRootKey work tree).models =
      (offersOf parser indexes (visits indexes scanRootKey false tree)).foldl
        (keepNew ScannedModel.path) work.models
  | .mk key signature entries children => by
    cases unchanged : indexes.unchanged key signature with
    | true =>
      simp only [scanModelDirectoryIncremental, unchanged, if_true]
      rw [models_reuse]
      simp only [visits, unchanged, Bool.or_true]
    | false =>
      simp only [scanModelDirectoryIncremental, unchanged, visits, Bool.or_false, if_false,
        Bool.false_eq_true, Traversal.note]
      rw [models_scanAll, models_foldl_push, offersOf_cons, List.foldl_append]
      rfl

theorem models_scanAll (work : Traversal) :
    ∀ trees, (scanModelDirectoriesIncremental parser indexes scanRootKey work trees).models =
      (offersOf parser indexes (visitsOfAll indexes scanRootKey false trees)).foldl
        (keepNew ScannedModel.path) work.models
  | [] => rfl
  | tree :: trees => by
    simp only [scanModelDirectoriesIncremental, visitsOfAll]
    rw [models_scanAll, models_scan, offersOf_append, List.foldl_append]

end

/-! ### The directories that are recorded -/

/-- A record of a directory of a tree. -/
def IsRecordOf (scanRootKey : Dir) (tree : ModelDirectoryInspection)
    (record : InventoryDirectoryRecord) : Prop :=
  ∃ subtree ∈ tree.subtrees, record = ⟨subtree.key, scanRootKey, subtree.signature⟩

variable {record : InventoryDirectoryRecord}

theorem IsRecordOf.child {key : Dir} {signature : Str} {entries : List DirectoryEntryFingerprint}
    {children : List ModelDirectoryInspection}
    (child : ∃ tree ∈ children, IsRecordOf scanRootKey tree record) :
    IsRecordOf scanRootKey (.mk key signature entries children) record := by
  obtain ⟨tree, mem, subtree, below, eq⟩ := child
  exact ⟨subtree, List.mem_cons_of_mem _
    (ModelDirectoryInspection.mem_subtreesOfAll.mpr ⟨tree, mem, below⟩), eq⟩

mutual

theorem mem_records_reuse {work : Traversal} :
    ∀ {tree}, record ∈
        (reuseCachedModelsForTree parser indexes scanRootKey work tree).directoryRecords →
      record ∈ work.directoryRecords ∨ IsRecordOf scanRootKey tree record
  | .mk key signature entries children, mem => by
    simp only [reuseCachedModelsForTree] at mem
    obtain mem | child := mem_records_reuseAll mem
    · rw [directoryRecords_foldl_push] at mem
      exact (List.mem_append.mp mem).imp_right fun mem =>
        ⟨_, ModelDirectoryInspection.mem_subtrees_self _, List.mem_singleton.mp mem⟩
    · exact .inr (.child child)

theorem mem_records_reuseAll {work : Traversal} :
    ∀ {trees}, record ∈
        (reuseCachedModelsForTrees parser indexes scanRootKey work trees).directoryRecords →
      record ∈ work.directoryRecords ∨ ∃ tree ∈ trees, IsRecordOf scanRootKey tree record
  | [], mem => .inl mem
  | tree :: trees, mem => by
    simp only [reuseCachedModelsForTrees] at mem
    obtain mem | ⟨tree', mem', of⟩ := mem_records_reuseAll mem
    · exact (mem_records_reuse mem).imp_right fun of => ⟨tree, List.mem_cons_self, of⟩
    · exact .inr ⟨tree', List.mem_cons_of_mem _ mem', of⟩

end

mutual

theorem mem_records_scan {work : Traversal} :
    ∀ {tree}, record ∈
        (scanModelDirectoryIncremental parser indexes scanRootKey work tree).directoryRecords →
      record ∈ work.directoryRecords ∨ IsRecordOf scanRootKey tree record
  | .mk key signature entries children, mem => by
    simp only [scanModelDirectoryIncremental] at mem
    split at mem
    · exact mem_records_reuse mem
    · obtain mem | mem := List.mem_append.mp mem
      · obtain mem | child := mem_records_scanAll mem
        · rw [directoryRecords_foldl_push] at mem
          exact .inl mem
        · exact .inr (.child child)
      · exact .inr ⟨_, ModelDirectoryInspection.mem_subtrees_self _, List.mem_singleton.mp mem⟩

theorem mem_records_scanAll {work : Traversal} :
    ∀ {trees}, record ∈
        (scanModelDirectoriesIncremental parser indexes scanRootKey work trees).directoryRecords →
      record ∈ work.directoryRecords ∨ ∃ tree ∈ trees, IsRecordOf scanRootKey tree record
  | [], mem => .inl mem
  | tree :: trees, mem => by
    simp only [scanModelDirectoriesIncremental] at mem
    obtain mem | ⟨tree', mem', of⟩ := mem_records_scanAll mem
    · exact (mem_records_scan mem).imp_right fun of => ⟨tree, List.mem_cons_self, of⟩
    · exact .inr ⟨tree', List.mem_cons_of_mem _ mem', of⟩

end

end Offers

/-! ### The roots -/

namespace Call

variable {Content : Type} (parser : Parser Content) (call : Call Content) (indexes : Indexes)

/-- The tree of a root, where that can be scanned. -/
def rootTree (root : Dir) : Option ModelDirectoryInspection :=
  if call.files.pathExists root && call.files.isDir root then
    (inspectModelTree call.files root).toOption.map (·.1)
  else none

/-- The roots that are scanned, with their trees. -/
def trees (roots : List Dir) : List (Dir × ModelDirectoryInspection) :=
  roots.filterMap fun root => (call.rootTree root).map fun tree => (root, tree)

def visitsOf (roots : List Dir) : List Visit :=
  (call.trees roots).flatMap fun rooted => visits indexes rooted.1 false rooted.2

/-- What goes wrong with a root does not depend on the inventory. -/
def rootErrors (root : Dir) : List FatalError :=
  if call.files.pathExists root = false then
    if root = call.defaultPath then [] else [.missing root]
  else if call.files.isDir root = false then [.notDirectory root]
  else match inspectModelTree call.files root with
    | .error error => [.unread root error]
    | .ok _ => []

/-- The warnings of a root that adds no model. -/
def emptyWarnings (root : Dir) : List ScanWarning :=
  if call.files.pathExists root = false ∨ call.files.isDir root = false then []
  else match inspectModelTree call.files root with
    | .error _ => []
    | .ok (_, warnings) => warnings ++ [.noModels root]

variable {parser call indexes} {progress : Progress} {root : Dir} {roots : List Dir}

theorem work_scanRoot : (call.scanRoot parser indexes progress root).work =
    match call.rootTree root with
    | none => progress.work
    | some tree => scanModelDirectoryIncremental parser indexes root progress.work tree := by
  unfold scanRoot rootTree
  cases call.files.pathExists root with
  | false => by_cases isDefault : root = call.defaultPath <;> simp [isDefault]
  | true =>
    cases call.files.isDir root with
    | false => simp
    | true => cases inspectModelTree call.files root <;> simp [Except.toOption]

theorem fatalErrors_scanRoot : (call.scanRoot parser indexes progress root).fatalErrors =
    progress.fatalErrors ++ call.rootErrors root := by
  unfold scanRoot rootErrors
  cases call.files.pathExists root with
  | false => by_cases isDefault : root = call.defaultPath <;> simp [isDefault]
  | true =>
    cases call.files.isDir root with
    | false => simp
    | true => cases inspectModelTree call.files root <;> simp

theorem warnings_scanRoot
    (nothing : (call.scanRoot parser indexes progress root).work.models = []) :
    (call.scanRoot parser indexes progress root).warnings =
      progress.warnings ++ call.emptyWarnings root := by
  revert nothing
  unfold scanRoot emptyWarnings
  cases call.files.pathExists root with
  | false => by_cases isDefault : root = call.defaultPath <;> simp [isDefault]
  | true =>
    cases call.files.isDir root with
    | false => simp
    | true =>
      cases inspectModelTree call.files root with
      | error error => simp
      | ok inspected =>
        intro nothing
        simp only [Bool.true_eq_false, if_false] at nothing ⊢
        simp [nothing]

theorem models_scanRoot : (call.scanRoot parser indexes progress root).work.models =
    (offersOf parser indexes (call.visitsOf indexes [root])).foldl (keepNew ScannedModel.path)
      progress.work.models := by
  rw [work_scanRoot]
  cases scanned : call.rootTree root with
  | none => simp [visitsOf, trees, scanned, offersOf]
  | some tree => simp [visitsOf, trees, scanned, models_scan]

theorem visitsOf_cons (root : Dir) (roots : List Dir) : call.visitsOf indexes (root :: roots) =
    call.visitsOf indexes [root] ++ call.visitsOf indexes roots := by
  unfold visitsOf trees
  rw [← List.flatMap_append, ← List.filterMap_append]
  rfl

theorem models_foldl_scanRoot :
    (roots.foldl (call.scanRoot parser indexes) progress).work.models =
      (offersOf parser indexes (call.visitsOf indexes roots)).foldl (keepNew ScannedModel.path)
        progress.work.models := by
  induction roots generalizing progress with
  | nil => rfl
  | cons root roots ih =>
    rw [List.foldl_cons, ih, models_scanRoot, visitsOf_cons root roots, offersOf_append,
      List.foldl_append]

theorem fatalErrors_foldl_scanRoot :
    (roots.foldl (call.scanRoot parser indexes) progress).fatalErrors =
      progress.fatalErrors ++ roots.flatMap call.rootErrors := by
  induction roots generalizing progress with
  | nil => simp
  | cons root roots ih =>
    rw [List.foldl_cons, ih, fatalErrors_scanRoot, List.append_assoc, List.flatMap_cons]

/-- Where no model was found, the inventory has no part in the warnings. -/
theorem warnings_foldl_scanRoot
    (nothing : (roots.foldl (call.scanRoot parser indexes) progress).work.models = []) :
    (roots.foldl (call.scanRoot parser indexes) progress).warnings =
      progress.warnings ++ roots.flatMap call.emptyWarnings := by
  induction roots generalizing progress with
  | nil => simp
  | cons root roots ih =>
    rw [List.foldl_cons] at nothing ⊢
    have before : (call.scanRoot parser indexes progress root).work.models = [] := by
      rw [models_foldl_scanRoot] at nothing
      exact eq_nil_of_foldl_keepNew nothing
    rw [ih nothing, warnings_scanRoot before, List.append_assoc, List.flatMap_cons]

theorem mem_records_foldl_scanRoot {record : InventoryDirectoryRecord}
    (mem : record ∈ (roots.foldl (call.scanRoot parser indexes) progress).work.directoryRecords) :
    record ∈ progress.work.directoryRecords ∨
      ∃ rooted ∈ call.trees roots, IsRecordOf rooted.1 rooted.2 record := by
  induction roots generalizing progress with
  | nil => exact .inl mem
  | cons root roots ih =>
    rw [List.foldl_cons] at mem
    obtain mem | ⟨rooted, of, is⟩ := ih mem
    · rw [work_scanRoot] at mem
      cases scanned : call.rootTree root with
      | none =>
        rw [scanned] at mem
        exact .inl mem
      | some tree =>
        rw [scanned] at mem
        exact (mem_records_scan mem).imp_right fun is =>
          ⟨(root, tree),
            List.mem_filterMap.mpr ⟨root, List.mem_cons_self, by rw [scanned]; rfl⟩, is⟩
    · refine .inr ⟨rooted, ?_, is⟩
      obtain ⟨root', mem', eq⟩ := List.mem_filterMap.mp of
      exact List.mem_filterMap.mpr ⟨root', List.mem_cons_of_mem _ mem', eq⟩

end Call

end LlamaServerManager.ModelScan
