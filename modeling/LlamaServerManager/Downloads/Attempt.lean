import LlamaServerManager.Downloads.ContentRange
import LlamaServerManager.Downloads.Ownership

/-!
One attempt at a file: `download_single_file` of `commands/download.rs`, over the operations of
`Ownership`. The server is a function of the request, so a program says what an attempt does
whatever the answer is; flags and cuts of the connection are part of what it answers.

A chunk is written as a whole or not at all: a write that a crash tears is a shorter chunk before
the crash.
-/

namespace LlamaServerManager.Downloads

open Lib
open Lib.Prog (view effect attempt)

abbrev Bytes := List UInt8

/-- What decisions are made on, and the sizes that are shown. -/
structure DownloadArtifactState where
  expectedSize : Nat
  downloadedSize : Nat
  etag : Option Str
  lastModified : Option Str
deriving DecidableEq, Repr

/-! ### The exchange -/

/-- `Range: bytes={resumeFrom}-` where that is not 0. -/
structure Request where
  resumeFrom : Nat
  ifRange : Option Str
deriving DecidableEq, Repr

/-- How the body ends after its chunks; the flags are seen between two of them. -/
inductive Ending where
  | complete
  | failed (error : String)
  | idle
  | cancelled
  | paused
deriving DecidableEq, Repr

structure Response where
  status : Nat
  headers : Headers
  chunks : List Bytes
  ending : Ending
deriving DecidableEq, Repr

inductive Exchange where
  /-- A flag is set before the request is sent. -/
  | cancelled
  | paused
  | failed (error : String)
  | timedOut
  | answered (response : Response)
deriving DecidableEq, Repr

/-- How an attempt ends. -/
inductive Finished where
  | completed
  | error (message : String) (retryable : Bool)
  | cancelled
  | paused
deriving DecidableEq, Repr

/-! ### The files of an attempt -/

/-- A task, the name of its file, and the JSON of its state. -/
structure Target where
  task : Task
  fileName : String
  encode : DownloadArtifactState → Bytes
  decode : Bytes → Option DownloadArtifactState

namespace Target

variable (target : Target) (references : References)

/-! `build_download_paths` and `artifact_state_path` -/

def finalPath : Entry := .leaf target.fileName

def temp : Entry := .leaf (target.fileName ++ ".part")

def metadata : Entry := .leaf (target.fileName ++ ".part.json")

def loadArtifactState (d : Disk) : Option DownloadArtifactState :=
  (d.dir target.metadata).bind fun file => target.decode file.content

/-- The size of the partial file, 0 where there is none. -/
def partSize (d : Disk) : Nat := ((d.dir target.temp).map fun file => file.content.length).getD 0

def saveArtifactState (state : DownloadArtifactState) : Own Unit := do
  let scratch ← stageWrite target.task (target.encode state)
  let replaced ← attempt (replace references target.task scratch target.metadata)
  match replaced with
  | .ok () => pure ()
  | .error _ => effect (·.unlink scratch)

def cleanupArtifactState : Own Unit := do
  let _ ← attempt (remove references target.task target.temp)
  let _ ← attempt (remove references target.task target.metadata)
  pure ()

/-- `write_all` to the open file. -/
def append (chunk : Bytes) (d : Disk) : Disk :=
  d.setContent target.temp (((d.dir target.temp).map (·.content)).getD [] ++ chunk)

end Target

/-! ### The attempt -/

/-- `If-Range`: the strong entity tag, or else the date. -/
def ifRange (artifact : Option DownloadArtifactState) : Option Str :=
  artifact.bind fun state =>
    let strong := state.etag.filter fun etag =>
      !"W/".toList.isPrefixOf (etag.dropWhile Lib.Text.isWhitespace)
    strong.or state.lastModified

def isSuccess (status : Nat) : Bool := 200 ≤ status && status < 300

def isRetryableError (status : Nat) : Bool := status = 429 || 500 ≤ status

def statusMessage (status : Nat) : String :=
  if status = 404 then "文件不存在 / File not found"
  else if status = 403 then "访问被拒绝 / Access denied"
  else if status = 429 then "请求过于频繁，请稍后重试 / Too many requests, please retry later"
  else s!"HTTP {status}"

/-- Both sides have the validator, and they differ. -/
def changed (now before : Option Str) : Bool := now.isSome && before.isSome && now ≠ before

section Attempt

variable (target : Target) (references : References) (fileSize : Nat)

/-- The flags are set before the request. -/
def endEarly (artifact : Option DownloadArtifactState) (resumeFrom : Nat) : Own Finished := do
  target.cleanupArtifactState references
  target.saveArtifactState references
    ⟨fileSize, resumeFrom, artifact.bind (·.etag), artifact.bind (·.lastModified)⟩
  target.cleanupArtifactState references
  return .cancelled

/-- The answer is 416; the partial file may be the whole one. -/
def answerUnsatisfied (headers : Headers) : Own Finished := do
  let partSize ← view target.partSize
  let remoteSize := (responseContentRange headers).bind (·.total)
  if unsatisfiedRangeIsComplete partSize fileSize remoteSize then
    let replaced ← attempt (replace references target.task target.temp target.finalPath)
    match replaced with
    | .error error => return .error error true
    | .ok () =>
      target.cleanupArtifactState references
      return .completed
  else if fileSize < partSize || remoteSize.any (· ≠ fileSize) then
    effect (·.unlink target.temp)
    target.cleanupArtifactState references
    match remoteSize.filter (· ≠ fileSize) with
    | some remote =>
      return .error s!"Remote object size changed from {fileSize} to {remote} bytes" true
    | none => return .error "Download corrupted: part file is larger than expected" true
  else
    target.saveArtifactState references ⟨fileSize, 0, headers.etag, headers.lastModified⟩
    return .error "Resume offset is outside the remote object; restart the download" true

/-- The chunks, one after another. -/
def writeChunks : List Bytes → Own Unit
  | [] => pure ()
  | chunk :: chunks => do
    effect (target.append chunk)
    writeChunks chunks

/-- The body has ended: is all of it there? -/
def finishDownload (headers : Headers) (total downloaded : Nat) : Own Finished := do
  let actualSize ← view target.partSize
  let authoritativeSize := authoritativeDownloadSize total fileSize
  if 0 < authoritativeSize ∧ actualSize ≠ authoritativeSize then
    target.saveArtifactState references
      ⟨authoritativeSize, actualSize, headers.etag, headers.lastModified⟩
    return .error
      s!"Download ended at {actualSize} bytes, expected {authoritativeSize} bytes" true
  else
    let replaced ← attempt (replace references target.task target.temp target.finalPath)
    match replaced with
    | .error error =>
      target.saveArtifactState references ⟨total, downloaded, headers.etag, headers.lastModified⟩
      return .error s!"Failed to finalize download: {error}" false
    | .ok () =>
      target.cleanupArtifactState references
      return .completed

/-- The body of the answer, after what is there already. -/
def receive (response : Response) (isPartial : Bool) (resumeFrom : Nat) : Own Finished := do
  let total := responseTotalSize response.headers resumeFrom fileSize
  let etag := response.headers.etag
  let lastModified := response.headers.lastModified
  let opened ← attempt (openPartial target.task target.temp isPartial)
  match opened with
  | .error error =>
    target.saveArtifactState references ⟨total, resumeFrom, etag, lastModified⟩
    return .error error false
  | .ok _ =>
    writeChunks target response.chunks
    let downloaded := resumeFrom + response.chunks.flatten.length
    match response.ending with
    | .complete => finishDownload target references fileSize response.headers total downloaded
    | .failed error =>
      target.saveArtifactState references ⟨total, downloaded, etag, lastModified⟩
      return .error error true
    | .idle => return .error "Download connection was idle for 60 seconds" true
    | .cancelled =>
      target.cleanupArtifactState references
      return .cancelled
    | .paused =>
      target.saveArtifactState references ⟨total, downloaded, etag, lastModified⟩
      return .paused

/-- The answer is a success: does it go on with what is there? -/
def answerSuccess (artifact : Option DownloadArtifactState) (resumeFrom : Nat)
    (response : Response) : Own Finished := do
  let isPartial := response.status = 206
  let valid := if isPartial then validatePartialResponse response.headers resumeFrom fileSize
    else .ok ()
  match valid with
  | .error error =>
    effect (·.unlink target.temp)
    target.cleanupArtifactState references
    return .error error true
  | .ok () =>
    let present ← view fun d => (d.dir target.temp).isSome
    if artifact.any (fun old => changed response.headers.etag old.etag ||
        changed response.headers.lastModified old.lastModified) && present then
      target.cleanupArtifactState references
      return .error "Remote object changed during resume; restarting from byte zero" true
    else
      receive target references fileSize response isPartial (if isPartial then resumeFrom else 0)

def answer (artifact : Option DownloadArtifactState) (resumeFrom : Nat) (response : Response) :
    Own Finished := do
  target.saveArtifactState references
    ⟨fileSize, resumeFrom, response.headers.etag, response.headers.lastModified⟩
  if response.status = 416 then answerUnsatisfied target references fileSize response.headers
  else if !isSuccess response.status then
    target.saveArtifactState references
      ⟨fileSize, resumeFrom, response.headers.etag, response.headers.lastModified⟩
    return .error (statusMessage response.status) (isRetryableError response.status)
  else answerSuccess target references fileSize artifact resumeFrom response

def downloadSingleFile (server : Request → Exchange) : Own Finished := do
  let claimed ← attempt
    (claim references target.task target.finalPath target.temp target.metadata)
  match claimed with
  | .error error => return .error error false
  | .ok () =>
    let artifact ← view target.loadArtifactState
    let resumeFrom ← view target.partSize
    match server ⟨resumeFrom, if 0 < resumeFrom then ifRange artifact else none⟩ with
    | .cancelled => endEarly target references fileSize artifact resumeFrom
    | .paused => return .paused
    | .failed error =>
      target.saveArtifactState references
        ⟨fileSize, resumeFrom, artifact.bind (·.etag), artifact.bind (·.lastModified)⟩
      return .error error true
    | .timedOut => return .error "Timed out waiting for download response headers" true
    | .answered response => answer target references fileSize artifact resumeFrom response

end Attempt

end LlamaServerManager.Downloads
