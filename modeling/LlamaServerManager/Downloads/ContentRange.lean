import LlamaServerManager.Launch.Address
import Mathlib.Algebra.Group.Nat.Defs

/-!
What a download reads in the headers of an answer: `parse_content_range` and the checks over it, of
`commands/download.rs`.
-/

namespace LlamaServerManager.Downloads

open Lib.Text

abbrev Str := List Char

/-- `parse::<u64>()`: digits, after a plus sign or not. -/
def parseU64 (text : Str) : Option Nat :=
  let digits := if text.head? = some '+' then text.tail else text
  if digits = [] ∨ digits.any (fun c => !c.isDigit) ∨ 2 ^ 64 ≤ Launch.digitsValue 10 digits then
    none
  else some (Launch.digitsValue 10 digits)

def saturatingAdd (a b : Nat) : Nat := min (a + b) (2 ^ 64 - 1)

structure ParsedContentRange where
  start : Option Nat
  last : Option Nat
  total : Option Nat
deriving DecidableEq, Repr

def parseContentRange (value : Str) : Option ParsedContentRange := do
  let value := trimChars value
  if !"bytes ".toList.isPrefixOf value then none else
    let (range, total) ← splitOnce ['/'] (value.drop 6)
    let total ← if total = ['*'] then some none else (parseU64 total).map some
    if range = ['*'] then
      return { start := none, last := none, total }
    else
      let (start, last) ← splitOnce ['-'] range
      let start ← parseU64 start
      let last ← parseU64 last
      if last < start then none else return { start := some start, last := some last, total }

example : parseContentRange "bytes 5-9/10".toList = some ⟨some 5, some 9, some 10⟩ := by decide
example : parseContentRange "bytes */10".toList = some ⟨none, none, some 10⟩ := by decide

/-- The headers that are texts. -/
structure Headers where
  etag : Option Str
  lastModified : Option Str
  contentRange : Option Str
  contentLength : Option Str
deriving DecidableEq, Repr

def responseContentRange (headers : Headers) : Option ParsedContentRange :=
  headers.contentRange.bind parseContentRange

def declaredLength (headers : Headers) : Option Nat := headers.contentLength.bind parseU64

def responseTotalSize (headers : Headers) (resumeFrom fallbackSize : Nat) : Nat :=
  match if 0 < resumeFrom then (responseContentRange headers).bind (·.total) else none with
  | some total => total
  | none => ((declaredLength headers).map (saturatingAdd · resumeFrom)).getD fallbackSize

def authoritativeDownloadSize (responseTotal catalogSize : Nat) : Nat :=
  if 0 < responseTotal then responseTotal else catalogSize

/-- The part of `validate_partial_response` that the total size is asked in. -/
def validateTotal (last expectedTotal : Nat) : Option Nat → Except String Unit
  | none => .ok ()
  | some total =>
    if 0 < expectedTotal ∧ total ≠ expectedTotal then
      .error s!"remote object size changed from {expectedTotal} to {total} bytes"
    else if total ≤ last then
      .error s!"206 response ends at byte {last}, outside total size {total}"
    else .ok ()

def validatePartialResponse (headers : Headers) (expectedStart expectedTotal : Nat) :
    Except String Unit :=
  match responseContentRange headers with
  | none => .error "206 response is missing a valid Content-Range header"
  | some ⟨some start, some last, total⟩ =>
    if start ≠ expectedStart then
      .error s!"206 response starts at byte {start}, expected {expectedStart}"
    else do
      validateTotal last expectedTotal total
      match declaredLength headers with
      | some length =>
        if length ≠ saturatingAdd (last - start) 1 then
          .error s!"206 response length is {length}, expected {saturatingAdd (last - start) 1}"
        else .ok ()
      | none => .ok ()
  | some _ => .error "206 response contains an unsatisfied Content-Range"

def unsatisfiedRangeIsComplete (partSize expectedSize : Nat) (remoteSize : Option Nat) : Bool :=
  0 < expectedSize && partSize = expectedSize && remoteSize = some expectedSize

theorem start_of_valid {headers : Headers} {expectedStart expectedTotal : Nat}
    (valid : validatePartialResponse headers expectedStart expectedTotal = .ok ()) :
    ∃ last total, responseContentRange headers = some ⟨some expectedStart, some last, total⟩ := by
  unfold validatePartialResponse at valid
  split at valid
  · cases valid
  · rename_i start last total found
    split at valid
    · cases valid
    · rename_i same
      rw [not_not] at same
      exact ⟨last, total, same ▸ found⟩
  · cases valid

end LlamaServerManager.Downloads
