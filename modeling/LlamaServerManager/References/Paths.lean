import LlamaServerManager.Lib.Text

/-!
Paths and the files behind them, as the model scanner sees them:
`path_utils.rs`, the shard names of `model_artifacts.rs` and what both take from
the operating system (`Host`).

A path is its text. What `std` computes of a path differs between Windows and
the other systems, so `Host` carries it; what the repository computes itself is
defined here for both (`windows` is `cfg!(windows)`).
-/

namespace LlamaServerManager.References

open Lib.Text

abbrev Str := List Char

/-- What `std::fs::metadata` says of a file. -/
structure Metadata where
  isFile : Bool
  len : Nat

/-- The operating system: path arithmetic of `std::path`, and the file system
at the moment of the check. A failure is its text. -/
structure Host where
  windows : Bool
  /-- `str::to_lowercase`, over Unicode. -/
  toLowercase : Str → Str
  /-- `std::fs::canonicalize`, `none` where it fails. -/
  canonicalize : Str → Option Str
  /-- A canonical path is canonical. -/
  canonicalize_canonicalize : ∀ {path real},
    canonicalize path = some real → canonicalize real = some real
  isAbsolute : Str → Bool
  join : Str → Str → Str
  parent : Str → Option Str
  fileName : Str → Option Str
  /-- The directory that relative paths are read from. -/
  workingDirectory : Str
  /-- `std::env::current_dir` can fail all the same. -/
  currentDirFault : Option String
  metadata : Str → Except String Metadata
  readToString : Str → Except String Str

/-! ### `path_utils.rs` -/

/-- Windows path texts: `/` for `\`, without the verbatim mark. -/
def windowsText (raw : Str) : Str :=
  let value := (trimChars raw).map fun c => if c = '\\' then '/' else c
  let lower := value.map Char.toLower
  if "//?/unc/".toList.isPrefixOf lower then "//".toList ++ value.drop 8
  else if "//?/".toList.isPrefixOf lower then value.drop 4
  else value

/-- The second and third byte are `:/`, so the first character is one byte. -/
def isDriveRooted : Str → Bool
  | c :: ':' :: '/' :: _ => c.toNat < 128
  | _ => false

/-- One segment of `normalize_path_text`; the segments kept are in reverse. -/
def normalizeSegment (rooted : Bool) (protectedSegments : Nat) (segments : List Str)
    (segment : Str) : List Str :=
  if segment = [] ∨ segment = ['.'] then segments
  else if segment = ['.', '.'] then
    if segments.length > protectedSegments ∧ segments.head? ≠ some ['.', '.'] then segments.tail
    else if !rooted then segment :: segments
    else segments
  else segment :: segments

def normalizePathText (host : Host) (raw : Str) : Str :=
  let value := if host.windows then windowsText raw else trimChars raw
  let isUnc := host.windows && ['/', '/'].isPrefixOf value
  let isDriveRooted := host.windows && isDriveRooted value
  let isPosixRooted := !isUnc && !isDriveRooted && ['/'].isPrefixOf value
  let cut := if isUnc then 2 else if isDriveRooted then 3 else if isPosixRooted then 1 else 0
  let prefix_ := value.take cut
  let segments := ((value.drop cut).splitOn '/').foldl
    (normalizeSegment (cut ≠ 0) (if isUnc then 2 else 0)) []
  let joined := ['/'].intercalate segments.reverse
  let normalized :=
    if joined = [] then prefix_
    else if prefix_ = [] ∨ prefix_.getLast? = some '/' then prefix_ ++ joined
    else prefix_ ++ '/' :: joined
  let normalized := if normalized = [] ∧ trimChars raw ≠ [] then ['.'] else normalized
  if host.windows then host.toLowercase normalized else normalized

def pathIdentityKey (host : Host) (path : Str) : Str := normalizePathText host path

/-- `path_is_within`. -/
def pathIsWithin (host : Host) (candidate root : Str) : Bool :=
  let candidate := normalizePathText host candidate
  let root := normalizePathText host root
  if root = [] then false
  else if root = ['.'] then
    candidate = ['.'] || !(candidate = [] || candidate = ['.', '.'] ||
      ['.', '.', '/'].isPrefixOf candidate || ['/'].isPrefixOf candidate ||
      isDriveRooted candidate)
  else if candidate = root then true
  else if root.getLast? = some '/' then root.isPrefixOf candidate
  else (root ++ ['/']).isPrefixOf candidate

/-! ### `canonicalize(..).unwrap_or(..)` -/

namespace Host

variable (host : Host)

/-- The canonical path, or the path itself where there is none. -/
def resolved (path : Str) : Str := (host.canonicalize path).getD path

/-- `engine_path_identity`. -/
def enginePathIdentity (path : Str) : Str := pathIdentityKey host (host.resolved path)

/-- The path from the working directory, where it is relative. -/
def fullPath (path : Str) : Str :=
  if host.isAbsolute path then path else host.join host.workingDirectory path

/-- `std::env::current_dir`. -/
def currentDir : Except String Str :=
  match host.currentDirFault with
  | some fault => .error fault
  | none => .ok host.workingDirectory

@[simp] theorem resolved_resolved (path : Str) :
    host.resolved (host.resolved path) = host.resolved path := by
  unfold resolved
  cases real : host.canonicalize path with
  | none => simp [real]
  | some real' => simp [host.canonicalize_canonicalize real]

@[simp] theorem enginePathIdentity_resolved (path : Str) :
    host.enginePathIdentity (host.resolved path) = host.enginePathIdentity path := by
  simp [enginePathIdentity]

end Host

/-! ### `model_artifacts.rs` -/

structure ModelShardDescriptor where
  base : Str
  index : Nat
  total : Nat
  deriving DecidableEq, Repr

def gguf : Str := ['.', 'g', 'g', 'u', 'f']

/-- `to_ascii_lowercase().ends_with(".gguf")`. -/
def endsWithGguf (text : Str) : Bool := gguf.isSuffixOf (text.map Char.toLower)

def isAsciiDigit (c : Char) : Bool := 48 ≤ c.toNat && c.toNat ≤ 57

/-- `parse::<u32>` of digits; five of them fit. -/
def parseDigits (digits : Str) : Nat :=
  digits.foldl (fun n c => 10 * n + (c.toNat - 48)) 0

def parseModelShardName (name : Str) : Option ModelShardDescriptor := do
  if !endsWithGguf name then none
  let stem := name.take (name.length - 5)
  let (withIndex, totalText) ← rsplitOnce ['-', 'o', 'f', '-'] stem
  let (base, indexText) ← rsplitOnce ['-'] withIndex
  if base = [] || indexText.length ≠ 5 || totalText.length ≠ 5 ||
      !indexText.all isAsciiDigit || !totalText.all isAsciiDigit then none
  let index := parseDigits indexText
  let total := parseDigits totalText
  if total ≤ 1 || index = 0 || index > total then none
  some { base, index, total }

example : parseModelShardName "Qwen-00002-of-00003.gguf".toList =
    some { base := "Qwen".toList, index := 2, total := 3 } := by decide

end LlamaServerManager.References
