import LlamaServerManager.Lib.Crash
import LlamaServerManager.Lib.Machine
import Mathlib.Logic.Function.Basic

/-!
The ownership ledger of the downloads (`commands/download_ownership.rs`) and the
directory it speaks of (`commands/download_directory.rs`).

A directory maps names to files, and a file has the identity it was created
with (`file_identity`: inode and birth time, never reused). The operations are
programs whose calls are the file-system steps that change something: the
process can die before each of them. The ledger is one file that `atomic_write`
replaces as a whole. Reads take no step, since a crash at a read leaves what a
crash at the next step leaves.
-/

namespace LlamaServerManager.Downloads

open Lib
open Lib.Prog (view effect lift require raise attempt)

abbrev Task := String

/-- A name in the directory: a given one, or one with a new UUID in it. -/
inductive Entry where
  | leaf (name : String)
  | scratch (n : Nat)
  deriving DecidableEq, Repr

structure File where
  identity : Nat
  content : List UInt8
  deriving DecidableEq, Repr

/-- Of each task, the identities it owns at each name. -/
abbrev Ownership := Task → Entry → Option (List Nat)

structure Disk where
  dir : Entry → Option File
  ledger : Ownership
  nextIdentity : Nat
  nextScratch : Nat
  /-- History: the task that created the identity; other programs' files have none. -/
  creator : Nat → Option Task

abbrev Own := Prog Disk String

/-! ### File-system steps -/

namespace Disk

variable (d : Disk)

/-- A file of the task comes to be at `path`. -/
def create (task : Option Task) (path : Entry) (content : List UInt8) : Disk :=
  { d with
    dir := Function.update d.dir path (some { identity := d.nextIdentity, content })
    nextIdentity := d.nextIdentity + 1
    creator := Function.update d.creator d.nextIdentity task }

def setContent (path : Entry) (content : List UInt8) : Disk :=
  { d with dir := Function.update d.dir path ((d.dir path).map ({ · with content })) }

def unlink (path : Entry) : Disk := { d with dir := Function.update d.dir path none }

/-- `rename` -/
def move (source destination : Entry) : Disk :=
  { d with dir := Function.update (Function.update d.dir source none) destination (d.dir source) }

/-- `hard_link` -/
def link (source destination : Entry) : Disk :=
  { d with dir := Function.update d.dir destination (d.dir source) }

/-- A new UUID is used. -/
def drawScratch : Disk := { d with nextScratch := d.nextScratch + 1 }

def writeLedger (ledger : Ownership) : Disk := { d with ledger }

variable {d} {path source destination p : Entry}

theorem create_dir (task : Option Task) (content : List UInt8) :
    (d.create task path content).dir p =
      if p = path then some { identity := d.nextIdentity, content } else d.dir p :=
  Function.update_apply ..

theorem create_creator (task : Option Task) (content : List UInt8) (i : Nat) :
    (d.create task path content).creator i =
      if i = d.nextIdentity then task else d.creator i :=
  Function.update_apply ..

theorem setContent_dir (content : List UInt8) :
    (d.setContent path content).dir p =
      if p = path then (d.dir path).map ({ · with content }) else d.dir p :=
  Function.update_apply ..

theorem unlink_dir : (d.unlink path).dir p = if p = path then none else d.dir p :=
  Function.update_apply ..

theorem move_dir :
    (d.move source destination).dir p =
      if p = destination then d.dir source else if p = source then none else d.dir p := by
  show Function.update (Function.update d.dir source none) destination (d.dir source) p = _
  rw [Function.update_apply, Function.update_apply]

end Disk

/-! ### The ledger -/

/-- `records.entry(task).or_default().insert(path, identities)` -/
def insert (records : Ownership) (task : Task) (path : Entry) (identities : List Nat) : Ownership :=
  Function.update records task (Function.update (records task) path (some identities))

/-- `matches_identity` -/
def matchesIdentity (records : Ownership) (task : Task) (dir : Entry → Option File)
    (path : Entry) : Bool :=
  match records task path, dir path with
  | some expected, some file => expected.contains file.identity
  | _, _ => false

/-- `owns_in_directory` -/
def Disk.owns (d : Disk) (task : Task) (path : Entry) : Bool :=
  matchesIdentity d.ledger task d.dir path

/-- `instances_referencing_models` for one path. -/
abbrev References := Entry → Except String (List String)

def checkReferences (references : References) (path : Entry) : Except String Unit :=
  match references path with
  | .error error => .error error
  | .ok [] => .ok ()
  | .ok names => .error ("模型仍被实例引用，不能覆盖或删除: " ++ ", ".intercalate names)

def occupiedMessage : String := "下载目标已存在且不属于此任务，拒绝覆盖"

/-- `open_file` finds that the file exists. -/
def foreignMessage : String := "下载临时文件不属于此任务或无法创建: File exists"

def notFound : String := "No such file or directory"

def record (task : Task) (paths : List (Entry × Nat)) : Own Unit := do
  let records ← view Disk.ledger
  effect (·.writeLedger
    (paths.foldl (fun records (file, identity) => insert records task file [identity]) records))

/-- `prepare_replace` -/
def prepareReplace (records : Ownership) (task : Task) (dir : Entry → Option File)
    (source destination : Entry) : Except String Ownership :=
  match dir destination, dir source with
  | some occupant, some incoming =>
    if matchesIdentity records task dir destination then
      .ok (insert records task destination [occupant.identity, incoming.identity])
    else .error occupiedMessage
  | some _, none =>
    if matchesIdentity records task dir destination then .error notFound
    else .error occupiedMessage
  | none, some incoming => .ok (insert records task destination [incoming.identity])
  | none, none => .error notFound

/-! ### The operations -/

/-- `remove_owned`: the file is moved aside before its identity is checked. -/
def removeOwned (path : Entry) (expected : List Nat) : Own Unit := do
  let isolated ← view fun d => Entry.scratch d.nextScratch
  let present ← view fun d => (d.dir path).isSome
  require present notFound
  effect fun d => (d.move path isolated).drawScratch
  let owned ← view fun d => (d.dir isolated).any fun file => expected.contains file.identity
  if owned then effect (·.unlink isolated)
  else do
    let free ← view fun d => (d.dir path).isNone
    require free "File exists"
    effect (·.link isolated path)
    effect (·.unlink isolated)
    raise "download artifact identity changed; deletion refused"

/-- The loop of `claim` over the files it needs, with the ones it has created. -/
def createFiles (task : Task) :
    List Entry → List (Entry × Nat) → Own (List (Entry × Nat) × Except String Unit)
  | [], created => pure (created, .ok ())
  | path :: rest, created => do
    let present ← view fun d => (d.dir path).isSome
    let owned ← view fun d => d.owns task path
    if present then
      if owned then createFiles task rest created
      else pure (created, .error foreignMessage)
    else do
      let identity ← view Disk.nextIdentity
      effect (·.create (some task) path [])
      createFiles task rest (created ++ [(path, identity)])

/-- The clean-up of `claim`, whose errors are dropped. -/
def removeCreated : List (Entry × Nat) → Own Unit
  | [] => pure ()
  | (path, identity) :: rest => do
    let _ ← attempt (removeOwned path [identity])
    removeCreated rest

/-- `claim` once its loop has ended. -/
def finishClaim (task : Task) : List (Entry × Nat) × Except String Unit → Own Unit
  | (created, .ok ()) => Prog.onError (record task created) (removeCreated created)
  | (created, .error error) => do
    removeCreated created
    raise error

def claim (references : References) (task : Task) (finalPath temp metadata : Entry) : Own Unit := do
  lift (checkReferences references finalPath)
  let present ← view fun d => (d.dir finalPath).isSome
  let owned ← view fun d => d.owns task finalPath
  require (present → owned) occupiedMessage
  createFiles task [temp, metadata] [] >>= finishClaim task

def replace (references : References) (task : Task) (source destination : Entry) : Own Unit := do
  lift (checkReferences references destination)
  let records ← view fun d => prepareReplace d.ledger task d.dir source destination
  let records ← lift records
  effect (·.writeLedger records)
  effect (·.move source destination)

/-- `remove_in_directory` -/
def remove (references : References) (task : Task) (path : Entry) : Own Unit := do
  let owned ← view fun d => d.owns task path
  if owned then do
    lift (checkReferences references path)
    let expected ← view fun d => (d.ledger task path).getD []
    removeOwned path expected
  else pure ()

/-- `open_partial`; the result is the identity of the file that is open. -/
def openPartial (task : Task) (path : Entry) (append : Bool) : Own Nat := do
  let found ← view fun d => d.dir path
  match found with
  | some file => do
    let expected ← view fun d => d.ledger task path
    match expected with
    | none => raise "下载临时文件没有原生所有权记录"
    | some expected => do
      require (expected.contains file.identity)
        "download artifact identity changed; write refused"
      if append then pure file.identity
      else do
        effect (·.setContent path [])
        pure file.identity
  | none => do
    let identity ← view Disk.nextIdentity
    effect (·.create (some task) path [])
    effect fun d => d.writeLedger (insert d.ledger task path [identity])
    pure identity

/-- `stage_write`; the result is the name it has written. -/
def stageWrite (task : Task) (content : List UInt8) : Own Entry := do
  let scratch ← view fun d => Entry.scratch d.nextScratch
  effect fun d => (d.create (some task) scratch []).drawScratch
  effect (·.setContent scratch content)
  pure scratch

/-! ### Runs -/

/-- The operations of a task. Only `replace` is given a name with a UUID. -/
inductive Act where
  | claim (references : References) (finalPath temp metadata : String)
  | openPartial (path : String) (append : Bool)
  | stageWrite (content : List UInt8)
  | replace (references : References) (source : Entry) (destination : String)
  | remove (references : References) (path : String)
  | record (paths : List (String × Nat))

/-- What the operation leaves when the process dies at the given step of it. -/
def Act.perform (task : Task) (crash : Option Nat) (d : Disk) : Act → Disk
  | .claim references finalPath temp metadata =>
    (Downloads.claim references task (.leaf finalPath) (.leaf temp) (.leaf metadata)).final
      (Prog.crashAt crash) d
  | .openPartial path append =>
    (Downloads.openPartial task (.leaf path) append).final (Prog.crashAt crash) d
  | .stageWrite content => (Downloads.stageWrite task content).final (Prog.crashAt crash) d
  | .replace references source destination =>
    (Downloads.replace references task source (.leaf destination)).final (Prog.crashAt crash) d
  | .remove references path =>
    (Downloads.remove references task (.leaf path)).final (Prog.crashAt crash) d
  | .record paths =>
    (Downloads.record task (paths.map fun (path, identity) => (.leaf path, identity))).final
      (Prog.crashAt crash) d

/-- The name exists only once its UUID is drawn. -/
def Disk.Named (d : Disk) : Entry → Bool
  | .leaf _ => true
  | .scratch n => decide (n < d.nextScratch)

inductive Step where
  | own (task : Task) (act : Act) (crash : Option Nat)
  /-- another program creates or replaces a file -/
  | write (path : Entry) (content : List UInt8)
  /-- another program deletes a file -/
  | delete (path : Entry)

def Disk.next (d : Disk) : Step → Option Disk
  | .own task act crash => some (act.perform task crash d)
  | .write path content => if d.Named path then some (d.create none path content) else none
  | .delete path => if d.Named path then some (d.unlink path) else none

/-- The files before the first download, with identities that no later file gets. -/
structure Start where
  files : String → Option File
  nextIdentity : Nat
  fresh : ∀ name file, files name = some file → file.identity < nextIdentity

def Start.disk (start : Start) : Disk where
  dir
    | .leaf name => start.files name
    | .scratch _ => none
  ledger := fun _ _ => none
  nextIdentity := start.nextIdentity
  nextScratch := 0
  creator := fun _ => none

def machine (start : Start) : Machine Disk Step where
  init := start.disk
  next := Disk.next

end LlamaServerManager.Downloads
