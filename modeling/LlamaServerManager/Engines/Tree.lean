import LlamaServerManager.References.Paths
import Mathlib.Data.Char
import Mathlib.Data.List.Lex
import Mathlib.Data.List.Sort

/-!
What the engine scanner reads of a directory (`inspect_engine_tree` and `build_engine_info` of
`commands/scanner.rs`): the executables under a root, and a signature of the tree.

* `Files` — the file system while a scan runs.
* `inspectEngineTree` — the executables in the order they are found, and the signature.
-/

namespace LlamaServerManager.Engines

open References

/-- An entry of `read_dir`, as far as it can be read. -/
inductive DirEntry where
  | failed
  | untyped (path : Str)
  | typed (path : Str) (isDir isSymlink : Bool)
deriving DecidableEq, Repr

/-- The file system during one scan. -/
structure Files extends Host where
  isDir : Str → Bool
  /-- Since the epoch, where there is such a time. -/
  modifiedNs : Str → Option Nat
  readDir : Str → Except String (List DirEntry)
  /-- The order of `PathBuf`. -/
  pathLe : Str → Str → Bool
  /-- `utils::detect_backend`. -/
  detectBackend : Str → Str
  /-- `utils::get_data_dir`. -/
  dataDir : Str

namespace Files

variable (files : Files)

/-- `canonical_key`. -/
def canonicalKey (path : Str) : Str := files.resolved path

/-- `Path::is_file`. -/
def isFile (path : Str) : Bool :=
  match files.metadata path with
  | .ok metadata => metadata.isFile
  | .error _ => false

/-- `Path::exists`. -/
def pathExists (path : Str) : Bool :=
  match files.metadata path with
  | .ok _ => true
  | .error _ => false

/-- `file_mtime`, in seconds. -/
def fileMtime (path : Str) : Nat := (files.modifiedNs path).getD 0 / 1000000000

end Files

/-! ### Signatures -/

/-- One byte of the FNV-1a hash. -/
def hashByte (hash : UInt64) (byte : UInt8) : UInt64 := (hash ^^^ byte.toUInt64) * 0x100000001b3

/-- One part, and its end. -/
def hashPart (hash : UInt64) (part : Str) : UInt64 :=
  ((part.flatMap String.utf8EncodeChar).foldl hashByte hash ^^^ 0xff) * 0x100000001b3

/-- `{hash:016x}`. -/
def hex16 (value : Nat) : Str :=
  let digits := Nat.toDigits 16 value
  List.replicate (16 - digits.length) '0' ++ digits

def stableHash (parts : List Str) : Str :=
  hex16 (parts.foldl hashPart 0xcbf29ce484222325).toNat

/-! ### Trees -/

structure EngineTreeInspection where
  signature : Str
  /-- The directory and the executable. -/
  executables : List (Str × Str)
deriving DecidableEq, Repr

/-- What the traversal has so far. -/
structure Inspecting where
  signatureParts : List Str
  executables : List (Str × Str)
  visited : List Str

def maxEngineScanDepth : Nat := 8

section Inspect

variable (files : Files) (canonicalRoot : Str)

def executableNames : List Str :=
  if files.windows then ["llama-server.exe".toList, "gufo.exe".toList]
  else ["llama-server".toList, "gufo".toList]

/-- One name in one directory. -/
def noteExecutable (dir : Str) (tree : Inspecting) (name : Str) : Inspecting :=
  let exe := files.join dir name
  match files.metadata exe with
  | .error _ => tree
  | .ok metadata =>
    if metadata.isFile then
      let canonicalExe := files.resolved exe
      if pathIsWithin files.toHost canonicalExe canonicalRoot then
        { tree with
          signatureParts := tree.signatureParts ++ ["exe|".toList ++
            files.canonicalKey canonicalExe ++ '|' :: (toString metadata.len).toList ++
            '|' :: (toString ((files.modifiedNs exe).getD 0)).toList]
          executables := tree.executables ++ [(dir, exe)] }
      else tree
    else tree

/-- One entry of a directory: its part of the signature, and the child that it is. -/
def noteEntry (identity : Str) : DirEntry → List Str × List Str
  | .failed => (["entry-error|".toList ++ identity], [])
  | .untyped path => (["type-error|".toList ++ pathIdentityKey files.toHost path], [])
  | .typed path isDir isSymlink =>
    if isDir && !isSymlink then
      (["child|".toList ++ files.enginePathIdentity path], [path])
    else ([], [])

/-- A directory and what is under it, to a depth that is left; the stack of pending directories
holds the children of each directory in order, above what was there before. -/
def inspectDirectory : Nat → Nat → Inspecting → Str → Except String Inspecting
  | left, depth, tree, dir => do
    let canonicalDir := files.resolved dir
    if pathIdentityKey files.toHost canonicalDir ≠ pathIdentityKey files.toHost canonicalRoot &&
        !pathIsWithin files.toHost canonicalDir canonicalRoot then
      return tree
    let identity := pathIdentityKey files.toHost canonicalDir
    if identity ∈ tree.visited then
      return tree
    let tree := { tree with
      visited := identity :: tree.visited
      signatureParts := tree.signatureParts ++ ["dir|".toList ++ identity] }
    let tree := (executableNames files).foldl (noteExecutable files canonicalRoot dir) tree
    match left with
    | 0 => return tree
    | left + 1 =>
      match files.readDir dir with
      | .error error =>
        if depth = 0 then throw ("failed to read " ++ String.ofList dir ++ ": " ++ error)
        else return { tree with
          signatureParts := tree.signatureParts ++ ["unreadable|".toList ++ identity] }
      | .ok entries =>
        let notes := entries.map (noteEntry files identity)
        let tree := { tree with signatureParts := tree.signatureParts ++ notes.flatMap (·.1) }
        let children := (notes.flatMap (·.2)).insertionSort fun a b => files.pathLe a b = true
        children.foldlM (inspectDirectory left (depth + 1)) tree

def inspectEngineTree (root : Str) (maxDepth : Nat) : Except String EngineTreeInspection := do
  let tree ← inspectDirectory files (files.resolved root) maxDepth 0
    { signatureParts := ["engine-tree-signature-v3-gufo".toList], executables := [], visited := [] }
    root
  return {
    signature := stableHash (tree.signatureParts.insertionSort (· ≤ ·))
    executables := tree.executables }

end Inspect

/-! ### Engines -/

inductive EngineKind where
  | llamaCpp
  | gufo
deriving DecidableEq, Repr

section Engine

variable (files : Files)

/-- `EngineKind::for_executable`. -/
def engineKind (path : Str) : EngineKind :=
  match files.fileName path with
  | none => .llamaCpp
  | some name =>
    if name.map Char.toLower = "gufo.exe".toList ∨ name = "gufo".toList then .gufo else .llamaCpp

/-- An engine is its directory; a Gufo one is its executable. -/
def engineId (dir exe : Str) : Str :=
  files.canonicalKey (if engineKind files exe = .gufo then exe else dir)

/-- `EngineInfo`, without the capabilities and the name the user gave. -/
structure EngineInfo where
  kind : EngineKind
  id : Str
  name : Str
  dir : Str
  exe : Str
  version : Str
  backend : Str
deriving DecidableEq, Repr

def buildEngineInfo (dir exe : Str) : EngineInfo :=
  let name := (files.fileName dir).getD "llama-server".toList
  let backend := files.detectBackend dir
  let named := name ++ " (".toList ++ backend ++ ")".toList
  let kind := engineKind files exe
  { kind
    id := engineId files dir exe
    name := if kind = .gufo then "Gufo — ".toList ++ named else named
    dir
    exe
    version := name
    backend }

end Engine

end LlamaServerManager.Engines
