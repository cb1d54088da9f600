import LlamaServerManager.Checkpoint.Manifest
import LlamaServerManager.Lib.Crash
import LlamaServerManager.Lib.Files

/-!
The dynamic lookup-cache generations of `lookup_cache_store.rs`: two pointers,
`latest.json` and `previous.json`, to payloads `<uuid>.bin` in one directory.

A run works on a private copy of a payload (`prepare`) and publishes it when the
process has ended (`commit`, `finish`). These are programs over the directory
whose every call can fail or be the last one; a call of `atomic_write` is one
step. What a pointer names is a function of the directory (`validGeneration`).
The store reads it with `valid_generation`, which takes any I/O error for no
valid generation and goes on: which of these reads fail is part of the `Setting`
(`glance`), since no failure of theirs ends a run.
-/

namespace LlamaServerManager.LookupCache

open Lib

abbrev Bytes := List UInt8

/-- The entries of the private directory. -/
abbrev Dir := String → Option Node

abbrev Store := Prog Dir String

def maxBytes : Nat := 256 * 1024 * 1024

structure Generation where
  id : String
  sha256 : String
  bytes : Nat
deriving DecidableEq, Repr

/-- The functions of `sha2` and `serde_json` the store calls. -/
structure Codec where
  /-- `Sha256::digest`, 32 bytes. -/
  digest : Bytes → Bytes
  encode : Generation → Option Bytes
  decode : Bytes → Option Generation

/-- What the store relies on of these functions. A character of a JSON string takes at
most six bytes. -/
structure Codec.Lawful (c : Codec) : Prop where
  digest_length : ∀ bytes, (c.digest bytes).length = 32
  roundtrip : ∀ g bytes, c.encode g = some bytes → c.decode bytes = some g
  short : ∀ g bytes, c.encode g = some bytes →
    bytes.length ≤ 6 * (g.id.length + g.sha256.length) + 64

def Codec.sha256 (c : Codec) (bytes : Bytes) : String :=
  String.ofList ((c.digest bytes).flatMap Checkpoint.hexByte)

/-! ### Records -/

/-- `i32::from_le_bytes`. -/
def int32 (bytes : Bytes) : Int :=
  let n : Nat := bytes.foldr (fun b n => b.toNat + 256 * n) 0
  if n < 2 ^ 31 then n else (n : Int) - 2 ^ 32

/-- The token pairs of one record, and what follows them. -/
def validatePairs : Nat → Bytes → Except String Bytes
  | 0, rest => .ok rest
  | count + 1, rest =>
    if rest.length < 8 then .error "truncated token pair"
    else if int32 (rest.take 4) < 0 ∨ int32 ((rest.drop 4).take 4) ≤ 0 then
      .error "invalid token/count"
    else validatePairs count (rest.drop 8)

/-- The loop over the records; every record has a header of 20 bytes, which bounds
their number. -/
def validateRecords : Nat → Bytes → Except String Unit
  | _, [] => .ok ()
  | 0, _ :: _ => .error "truncated n-gram header"
  | fuel + 1, bytes =>
    if bytes.length < 20 then .error "truncated n-gram header"
    else
      let header := bytes.take 20
      let rest := bytes.drop 20
      let count := int32 (header.drop 16)
      if count ≤ 0 ∨ (rest.length / 8 : Nat) < count then .error "invalid n-gram count"
      else if int32 (header.take 4) < -1 ∨ int32 ((header.drop 4).take 4) < -1 ∨
          int32 ((header.drop 8).take 4) < -1 ∨ int32 ((header.drop 12).take 4) < -1 then
        .error "invalid prefix token"
      else
        match validatePairs count.toNat rest with
        | .error error => .error error
        | .ok rest => validateRecords fuel rest

def readFile (name : String) (dir : Dir) : Except String Bytes :=
  match dir name with
  | some (.file bytes) => .ok bytes
  | some _ => .error "not a regular file"
  | none => .error "No such file or directory"

def validateBytes (c : Codec) (bytes : Bytes) : Except String (Nat × String) :=
  if bytes.length = 0 ∨ maxBytes < bytes.length then .error "empty or oversized dynamic cache"
  else
    match validateRecords bytes.length bytes with
    | .error error => .error error
    | .ok _ => .ok (bytes.length, c.sha256 bytes)

def validate (c : Codec) (name : String) (dir : Dir) : Except String (Nat × String) :=
  match readFile name dir with
  | .error error => .error error
  | .ok bytes => validateBytes c bytes

/-! ### Pointers -/

def isHex (c : Char) : Bool :=
  ('0' ≤ c && c ≤ '9') || ('a' ≤ c && c ≤ 'f') || ('A' ≤ c && c ≤ 'F')

def hyphenated (cs : List Char) : Bool :=
  cs.length == 36 && cs.zipIdx.all fun (c, i) =>
    if i = 8 ∨ i = 13 ∨ i = 18 ∨ i = 23 then c == '-' else isHex c

/-- `Uuid::parse_str` succeeds: the simple, hyphenated, braced and URN forms. -/
def parseUuid (s : String) : Bool :=
  let cs := s.toList
  (cs.length == 32 && cs.all isHex) || hyphenated cs ||
    (cs.length == 38 && cs.head? == some '\x7b' && cs.getLast? == some '\x7d' &&
      hyphenated (cs.drop 1).dropLast) ||
    (cs.take 9 == ['u', 'r', 'n', ':', 'u', 'u', 'i', 'd', ':'] && hyphenated (cs.drop 9))

def binName (id : String) : String := id ++ ".bin"

def generationPath (generation : Generation) : Option String :=
  if parseUuid generation.id then some (binName generation.id) else none

/-- The payload of a valid generation the pointer names. -/
def validGeneration (c : Codec) (name : String) (dir : Dir) : Option String :=
  match readFile name dir with
  | .error _ => none
  | .ok bytes =>
    if 4096 < bytes.length then none
    else do
      let generation ← c.decode bytes
      let path ← generationPath generation
      match validate c path dir with
      | .error _ => none
      | .ok (size, hash) =>
        if size = generation.bytes ∧ hash = generation.sha256 then some path else none

def latest : String := "latest.json"
def previous : String := "previous.json"

/-! ### Calls -/

/-- A system call that does not change the directory. -/
def touch : Store Unit := Prog.read (fun _ => .ok ()) "input/output error"

def inspect {α : Type} (f : Dir → Except String α) : Store α :=
  Prog.read f "input/output error"

/-- A call that puts a file in place, unless the name is taken by what is no file. -/
def put (name : String) (bytes : Bytes) (dir : Dir) : Except String Dir :=
  match dir name with
  | some .dir => .error "is a directory"
  | _ => .ok (Function.update dir name (some (.file bytes)))

def atomicWrite (name : String) (bytes : Bytes) : Store Unit :=
  Prog.call (put name bytes) "input/output error" id

def remove (name : String) (dir : Dir) : Except String Dir :=
  match dir name with
  | none => .error "No such file or directory"
  | some .dir => .error "is a directory"
  | some _ => .ok (Function.update dir name none)

/-- `let _ = fs::remove_file(..)`. -/
def removeFile (name : String) : Store Unit := do
  let _ ← Prog.attempt (Prog.call (remove name) "input/output error" id)

/-- Where the store calls `valid_generation`: before it rotates the pointers, for each pointer
when it collects, and for each pointer when a run is prepared. -/
inductive Reading where
  | rotation
  | newest
  | rollback
  | resumed
  | fallback
deriving DecidableEq, Repr

/-- What a run depends on besides its arguments: what a write that stops half-way
leaves, the order in which the directory lists its entries, and which calls of
`valid_generation` meet an I/O error, at the pointer or at the payload it names
(a call that is not made meets none). -/
structure Setting where
  codec : Codec
  torn : Bytes
  entries : List String
  fails : Reading → Bool

/-- A call of `valid_generation`: a read that fails counts as no valid generation. -/
def glance (env : Setting) (reading : Reading) (name : String) : Store (Option String) :=
  Prog.look fun dir => if env.fails reading then none else validGeneration env.codec name dir

/-- Create a file that is not there. -/
def createNew (name : String) (dir : Dir) : Except String Dir :=
  match dir name with
  | none => .ok (Function.update dir name (some (.file [])))
  | some _ => .error "File exists"

/-- The part of `copy_candidate` after the destination is created. -/
def fill (env : Setting) (input : Bytes) (destination : String) : Store Unit := do
  touch
  Prog.call (put destination (input.take (maxBytes + 1))) "input/output error"
    fun dir => Function.update dir destination (some (.file env.torn))
  Prog.require (input.length ≤ maxBytes) "dynamic cache grew beyond allocation bound"
  touch

/-- `copy_candidate`, from what `source` reads. -/
def copyCandidate (env : Setting) (source : Dir → Except String Bytes) (destination : String) :
    Store Unit := do
  let input ← inspect source
  Prog.call (createNew destination) "input/output error" id
  Prog.onError (fill env input destination) (removeFile destination)

/-! ### Runs -/

structure Run where
  work : String
  before : Option String
deriving DecidableEq, Repr

inductive Source where
  | payload (name : String)
  | seed
deriving DecidableEq, Repr

/-- Where `prepare` takes the content from: the newest generation, else the one
before, else the seed, if there is one. -/
def prepareSource (env : Setting) (seed : Option Bytes) : Store (Option Source) := do
  match ← glance env .resumed latest with
  | some path => return some (.payload path)
  | none =>
    match ← glance env .fallback previous with
    | some path => return some (.payload path)
    | none => return if seed.isSome then some .seed else none

def readSource (seed : Option Bytes) : Source → Dir → Except String Bytes
  | .payload name, dir => readFile name dir
  | .seed, _ => match seed with
    | some bytes => .ok bytes
    | none => .error "No such file or directory"

/-- `Run::prepare`; `free` unless another run holds the lock file. -/
def prepare (env : Setting) (seed : Option Bytes) (free : Bool) (uuid : String) : Store Run := do
  touch
  touch
  touch
  Prog.require (free = true) "dynamic cache is owned by another running instance"
  let work := "work-" ++ binName uuid
  let source ← prepareSource env seed
  Prog.onError
    (match source with
    | some source => do
      let bytes ← inspect (readSource seed source)
      let (_, hash) ← Prog.lift (validateBytes env.codec bytes)
      copyCandidate env (readSource seed source) work
      let (_, copied) ← inspect (validate env.codec work)
      Prog.require (copied = hash) "dynamic seed changed during copy"
      return ⟨work, some hash⟩
    | none => do
      Prog.call (put work []) "input/output error" id
      return ⟨work, none⟩)
    (removeFile work)

/-- The two writes of the pointers. -/
def publish (env : Setting) (manifest : Bytes) : Store Unit := do
  -- Do not rotate a corrupt newest generation over a still-valid fallback.
  let valid ← glance env .rotation latest
  if valid.isSome then do
    let old ← inspect (readFile latest)
    atomicWrite previous old
  atomicWrite latest manifest

/-- The extension of the name is `bin`, and its stem a UUID. -/
def isPayloadName (name : String) : Bool :=
  let cs := name.toList
  let stem := cs.take (cs.length - 4)
  cs.drop (cs.length - 4) == ['.', 'b', 'i', 'n'] && !stem.isEmpty && parseUuid (String.ofList stem)

/-- The removals of the garbage collection. -/
def collect (retained : List String) : List String → Store Unit
  | [] => pure ()
  | name :: rest => do
    if isPayloadName name ∧ name ∉ retained then
      removeFile name
    collect retained rest

/-- Keep both committed generations, as far as they can be read now. -/
def garbageCollect (env : Setting) : Store Unit := do
  let newest ← glance env .newest latest
  let rollback ← glance env .rollback previous
  let names ← inspect fun dir => .ok (env.entries.filter fun name => (dir name).isSome)
  collect (newest.toList ++ rollback.toList) names

/-- `Run::commit`, where `uuid` names the new payload. -/
def commit (env : Setting) (run : Run) (uuid : String) : Store String := do
  let (bytes, hash) ← inspect (validate env.codec run.work)
  if run.before = some hash then return "unchanged_flush_unverified"
  else do
    let path := binName uuid
    copyCandidate env (readFile run.work) path
    Prog.onError
      (do
        let copied ← inspect (validate env.codec path)
        Prog.require (copied = (bytes, hash)) "candidate changed during commit"
        let manifest ← Prog.lift
          ((env.codec.encode ⟨uuid, hash, bytes⟩).elim (.error "manifest serialization") .ok)
        publish env manifest)
      (removeFile path)
    -- From this point the pointer owns the payload, even if the collection fails.
    garbageCollect env
    return "candidate_committed_flush_unverified"

/-- `Run::finish`, with the drop of the run; `record` is the JSON of the outcome. -/
def finish (env : Setting) (run : Run) (uuid : String) (cleanExit : Bool) (record : Bytes) :
    Store (Except String String) := do
  let result ←
    if cleanExit then Prog.attempt (commit env run uuid)
    else pure (.error "forced or abnormal exit; previous generation retained")
  let _ ← Prog.attempt (atomicWrite "last-result.json" record)
  removeFile run.work
  return result

end LlamaServerManager.LookupCache
