import LlamaServerManager.Engines.Tree

/-!
What the model scanner reads of a root (`inspect_model_tree` of `commands/scanner.rs`).

A path is the names from the root of the file system on. The scanner starts at canonical paths and
follows no link, so what it meets has no other path, and none is met twice under one root.

* `Files` — the file system while a scan runs.
* `inspectModelTree` — the directories under a root, with their signatures.
* `listing` — the entries of a directory, whatever tree it is met in.
-/

namespace LlamaServerManager.ModelScan

open References

abbrev Dir := List Str

structure FilePath where
  dir : Dir
  name : Str
deriving DecidableEq, Repr

/-- Of the entry itself, not of what a link leads to. -/
inductive FileType where
  | dir
  | file
  | symlink
  | other
deriving DecidableEq, Repr

/-- The size and the time (in ns) are 0 where they are not known. -/
structure DirectoryEntryFingerprint where
  name : Str
  fileType : FileType
  size : Nat
  mtime : Nat
deriving DecidableEq, Repr

/-- The entries of a `read_dir` that can be read. -/
def readable (entries : List (Except String DirectoryEntryFingerprint)) :
    List DirectoryEntryFingerprint :=
  entries.filterMap Except.toOption

/-- The file system during one scan. -/
structure Files (Content : Type) where
  pathExists : Dir → Bool
  isDir : Dir → Bool
  /-- `Path::is_file`, through links. -/
  isFile : FilePath → Bool
  readDir : Dir → Except String (List (Except String DirectoryEntryFingerprint))
  nodup : ∀ {dir entries}, readDir dir = .ok entries → ((readable entries).map (·.name)).Nodup
  content : FilePath → Content

inductive ScanWarning where
  | entry (dir : Dir) (error : String)
  | symlink (path : FilePath)
  | tooDeep (path : FilePath)
  | notScanned (path : FilePath) (error : String)
  | noModels (root : Dir)
  | notParsed (path : FilePath) (error : String)
deriving DecidableEq, Repr

/-! ### One directory -/

/-- `Path::extension`, or nothing. -/
def extension (name : Str) : Str :=
  match Lib.Text.rsplitOnce ['.'] name with
  | some (stem, tail) => if stem = [] then [] else tail
  | none => []

def DirectoryEntryFingerprint.part (entry : DirectoryEntryFingerprint) : Str :=
  ['|'].intercalate [
    entry.name,
    match entry.fileType with
      | .dir => ['d']
      | .file => ['f']
      | _ => ['o'],
    if entry.fileType = .symlink then ['l'] else ['-'],
    (toString entry.size).toList,
    (toString entry.mtime).toList,
    extension entry.name]

structure DirectoryFingerprint where
  signature : Str
  entries : List DirectoryEntryFingerprint

/-- An entry that cannot be read. -/
def entryWarning (dir : Dir) :
    Except String DirectoryEntryFingerprint → Option ScanWarning
  | .ok _ => none
  | .error error => some (.entry dir error)

def sortedEntries (entries : List (Except String DirectoryEntryFingerprint)) :
    List DirectoryEntryFingerprint :=
  (readable entries).insertionSort fun a b => a.name ≤ b.name

section Inspect

variable {Content : Type} (files : Files Content)

def readDirectoryFingerprint (dir : Dir) :
    Except String (DirectoryFingerprint × List ScanWarning) := do
  let entries ← files.readDir dir
  let sorted := sortedEntries entries
  return (⟨Engines.stableHash (sorted.map (·.part)), sorted⟩, entries.filterMap (entryWarning dir))

/-! ### Trees -/

inductive ModelDirectoryInspection where
  | mk (key : Dir) (signature : Str) (entries : List DirectoryEntryFingerprint)
      (children : List ModelDirectoryInspection)

namespace ModelDirectoryInspection

def key : ModelDirectoryInspection → Dir
  | mk key .. => key

def signature : ModelDirectoryInspection → Str
  | mk _ signature .. => signature

def entries : ModelDirectoryInspection → List DirectoryEntryFingerprint
  | mk _ _ entries _ => entries

end ModelDirectoryInspection

/-- As `path_identity_key` has it, where paths are not folded. -/
def dirText (dir : Dir) : Str := dir.flatMap ('/' :: ·)

def treeSignature (key : Dir) (signature : Str) (children : List ModelDirectoryInspection) : Str :=
  let parts := ["model-tree-signature-v2".toList,
      "dir|".toList ++ dirText key ++ '|' :: signature] ++
    children.map fun child => "child|".toList ++ dirText child.key ++ '|' :: child.signature
  Engines.stableHash (parts.insertionSort (· ≤ ·))

abbrev Inspected := Except String (ModelDirectoryInspection × List ScanWarning)

/-- An entry of a directory: what is under it, if directories may be entered. -/
def inspectEntry (inspect : Option (Dir → Inspected)) (dir : Dir)
    (entry : DirectoryEntryFingerprint) : List ModelDirectoryInspection × List ScanWarning :=
  match entry.fileType with
  | .symlink => ([], [.symlink ⟨dir, entry.name⟩])
  | .dir =>
    match inspect with
    | none => ([], [.tooDeep ⟨dir, entry.name⟩])
    | some inspect =>
      match inspect (dir ++ [entry.name]) with
      | .ok (child, warnings) => ([child], warnings)
      | .error error => ([], [.notScanned ⟨dir, entry.name⟩ error])
  | _ => ([], [])

def inspectDirectory (inspect : Option (Dir → Inspected)) (dir : Dir) : Inspected := do
  let (fingerprint, warnings) ← readDirectoryFingerprint files dir
  let notes := fingerprint.entries.map (inspectEntry inspect dir)
  let children := notes.flatMap (·.1)
  return (.mk dir (treeSignature dir fingerprint.signature children) fingerprint.entries children,
    warnings ++ notes.flatMap (·.2))

/-- To a depth that is left. -/
def inspectModelTreeInner : Nat → Dir → Inspected
  | 0 => inspectDirectory files none
  | left + 1 => inspectDirectory files (some (inspectModelTreeInner left))

def maxModelScanDepth : Nat := 32

def inspectModelTree (root : Dir) : Inspected :=
  inspectModelTreeInner files maxModelScanDepth root

end Inspect

/-! ### The directories of a tree -/

namespace ModelDirectoryInspection

mutual

/-- A tree and those in it. -/
def subtrees : ModelDirectoryInspection → List ModelDirectoryInspection
  | .mk key signature entries children =>
    .mk key signature entries children :: subtreesOfAll children

def subtreesOfAll : List ModelDirectoryInspection → List ModelDirectoryInspection
  | [] => []
  | tree :: trees => subtrees tree ++ subtreesOfAll trees

end

theorem mem_subtreesOfAll {trees : List ModelDirectoryInspection}
    {subtree : ModelDirectoryInspection} :
    subtree ∈ subtreesOfAll trees ↔ ∃ tree ∈ trees, subtree ∈ tree.subtrees := by
  induction trees with
  | nil => simp [subtreesOfAll]
  | cons tree trees ih => simp [subtreesOfAll, ih]

theorem mem_subtrees_self (tree : ModelDirectoryInspection) : tree ∈ tree.subtrees := by
  cases tree
  exact List.mem_cons_self

mutual

theorem subtrees_trans {top subtree : ModelDirectoryInspection} (below : subtree ∈ top.subtrees) :
    ∀ {tree}, top ∈ subtrees tree → subtree ∈ subtrees tree
  | .mk key signature entries children, mem => by
    obtain rfl | mem := List.mem_cons.mp mem
    · exact below
    · exact List.mem_cons_of_mem _ (subtreesOfAll_trans below mem)

theorem subtreesOfAll_trans {top subtree : ModelDirectoryInspection}
    (below : subtree ∈ top.subtrees) :
    ∀ {trees}, top ∈ subtreesOfAll trees → subtree ∈ subtreesOfAll trees
  | [], mem => absurd mem List.not_mem_nil
  | tree :: trees, mem => by
    simp only [subtreesOfAll, List.mem_append] at mem ⊢
    exact mem.imp (subtrees_trans below) (subtreesOfAll_trans below)

end

/-- The directories of a tree. -/
def dirs (tree : ModelDirectoryInspection) : List Dir := tree.subtrees.map (·.key)

end ModelDirectoryInspection

section Listing

variable {Content : Type} (files : Files Content)

/-- The entries of a directory as they are, none where it cannot be read. -/
def listing (dir : Dir) : List DirectoryEntryFingerprint :=
  match files.readDir dir with
  | .ok entries => sortedEntries entries
  | .error _ => []

theorem nodup_listing (dir : Dir) : ((listing files dir).map (·.name)).Nodup := by
  unfold listing
  split
  · rename_i entries read
    exact ((List.perm_insertionSort _ _).map _).nodup_iff.mpr (files.nodup read)
  · exact List.nodup_nil

variable {files}

/-- The trees under the entries of a directory. -/
def childrenOf (inspect : Option (Dir → Inspected)) (dir : Dir)
    (entries : List DirectoryEntryFingerprint) : List ModelDirectoryInspection :=
  entries.flatMap fun entry => (inspectEntry inspect dir entry).1

theorem inspectDirectory_of_read (inspect : Option (Dir → Inspected)) {dir : Dir}
    {entries : List (Except String DirectoryEntryFingerprint)}
    (read : files.readDir dir = .ok entries) :
    ∃ warnings, inspectDirectory files inspect dir =
      .ok (.mk dir
        (treeSignature dir (Engines.stableHash ((listing files dir).map (·.part)))
          (childrenOf inspect dir (listing files dir)))
        (listing files dir) (childrenOf inspect dir (listing files dir)), warnings) := by
  have list : listing files dir = sortedEntries entries := by simp only [listing, read]
  unfold inspectDirectory readDirectoryFingerprint childrenOf
  rw [read, list, ← List.flatMap_map]
  exact ⟨_, rfl⟩

theorem inspectDirectory_ok {inspect : Option (Dir → Inspected)} {dir : Dir}
    {tree : ModelDirectoryInspection} {warnings : List ScanWarning}
    (ok : inspectDirectory files inspect dir = .ok (tree, warnings)) :
    ∃ signature, tree = .mk dir signature (listing files dir)
      (childrenOf inspect dir (listing files dir)) := by
  cases read : files.readDir dir with
  | error error =>
    unfold inspectDirectory readDirectoryFingerprint at ok
    rw [read] at ok
    cases ok
  | ok entries =>
    obtain ⟨_, inspected⟩ := inspectDirectory_of_read inspect read
    rw [inspected] at ok
    cases ok
    exact ⟨_, rfl⟩

/-- What is under an entry was inspected there. -/
theorem mem_inspectEntry {inspect : Option (Dir → Inspected)} {dir : Dir}
    {entry : DirectoryEntryFingerprint} {child : ModelDirectoryInspection}
    (mem : child ∈ (inspectEntry inspect dir entry).1) :
    ∃ inner dir' warnings, inspect = some inner ∧ inner dir' = .ok (child, warnings) := by
  unfold inspectEntry at mem
  split at mem
  · exact absurd mem List.not_mem_nil
  · split at mem
    · exact absurd mem List.not_mem_nil
    · rename_i inner
      split at mem
      · rename_i tree warnings inspected
        rw [List.mem_singleton.mp mem]
        exact ⟨inner, _, warnings, rfl, inspected⟩
      · exact absurd mem List.not_mem_nil
  · exact absurd mem List.not_mem_nil

/-- **A directory has the same entries in whatever tree it is met.** -/
theorem entries_of_inspected {left : Nat} {dir : Dir} {tree subtree : ModelDirectoryInspection}
    {warnings : List ScanWarning}
    (ok : inspectModelTreeInner files left dir = .ok (tree, warnings))
    (mem : subtree ∈ tree.subtrees) : subtree.entries = listing files subtree.key := by
  induction left generalizing dir tree warnings with
  | zero =>
    obtain ⟨signature, rfl⟩ := inspectDirectory_ok ok
    obtain rfl | mem := List.mem_cons.mp mem
    · rfl
    · obtain ⟨child, mem, -⟩ := ModelDirectoryInspection.mem_subtreesOfAll.mp mem
      obtain ⟨entry, -, mem⟩ := List.mem_flatMap.mp mem
      obtain ⟨_, _, _, none_, -⟩ := mem_inspectEntry mem
      cases none_
  | succ left ih =>
    obtain ⟨signature, rfl⟩ := inspectDirectory_ok ok
    obtain rfl | mem := List.mem_cons.mp mem
    · rfl
    · obtain ⟨child, childMem, mem⟩ := ModelDirectoryInspection.mem_subtreesOfAll.mp mem
      obtain ⟨entry, -, childMem⟩ := List.mem_flatMap.mp childMem
      obtain ⟨_, _, _, inner, inspected⟩ := mem_inspectEntry childMem
      cases inner
      exact ih inspected mem

end Listing

end LlamaServerManager.ModelScan
