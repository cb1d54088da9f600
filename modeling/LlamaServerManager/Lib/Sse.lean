import LlamaServerManager.Lib.Text

/-!
Server-sent events as a reader of an event stream understands them. The stream
is cut into lines, a line is a field, a blank line dispatches what the fields
before it gathered. A reader sees the events, and beside them the comments and
the reconnection times, in their order.
-/

namespace LlamaServerManager.Lib.Sse

abbrev Line := List Char

/-! ### The lines of a stream -/

/-- CR LF, LF and CR end a line; a last line without its end is none. -/
def linesFrom (current : Line) : List Char → List Line
  | [] => []
  | '\r' :: '\n' :: cs => current :: linesFrom [] cs
  | '\r' :: cs => current :: linesFrom [] cs
  | '\n' :: cs => current :: linesFrom [] cs
  | c :: cs => linesFrom (current ++ [c]) cs

/-- The byte order mark. -/
def bom : Char := Char.ofNat 0xFEFF

/-- A stream may begin with a byte order mark. -/
def stripBom : List Char → List Char
  | [] => []
  | c :: cs => if c = bom then cs else c :: cs

def linesOf (stream : List Char) : List Line := linesFrom [] (stripBom stream)

/-- Each line with its end. -/
def emit (lines : List Line) : List Char := lines.flatMap fun line => line ++ ['\n']

/-- A line holds no end of a line. -/
def IsLine (line : Line) : Prop := ∀ c ∈ line, c ≠ '\r' ∧ c ≠ '\n'

instance : DecidablePred IsLine := fun line => List.decidableBAll _ line

theorem linesFrom_cons {current : Line} {c : Char} {cs : List Char} (cr : c ≠ '\r')
    (lf : c ≠ '\n') : linesFrom current (c :: cs) = linesFrom (current ++ [c]) cs := by
  rw [linesFrom]
  · exact fun _ h => absurd h cr
  · exact fun h => absurd h cr
  · exact fun h => absurd h lf

theorem linesFrom_line {line : Line} (isLine : IsLine line) (current : Line) (rest : List Char) :
    linesFrom current (line ++ '\n' :: rest) = (current ++ line) :: linesFrom [] rest := by
  induction line generalizing current with
  | nil => simp [linesFrom]
  | cons c line ih =>
    obtain ⟨cr, lf⟩ := isLine c (by simp)
    rw [List.cons_append, linesFrom_cons cr lf, ih fun d mem => isLine d (by simp [mem])]
    simp

variable {lines : List Line}

theorem linesFrom_emit (areLines : ∀ line ∈ lines, IsLine line) :
    linesFrom [] (emit lines) = lines := by
  induction lines with
  | nil => rfl
  | cons line lines ih =>
    have first := linesFrom_line (areLines line (by simp)) [] (emit lines)
    simp only [emit, List.flatMap_cons, List.append_assoc, List.singleton_append] at first ih ⊢
    rw [first, ih fun l mem => areLines l (by simp [mem])]
    rfl

/-- The first character of a stream is no byte order mark. -/
def Unmarked (lines : List Line) : Prop := ∀ line ∈ lines.head?, ∀ c ∈ line.head?, c ≠ bom

theorem stripBom_emit (unmarked : Unmarked lines) : stripBom (emit lines) = emit lines := by
  cases lines with
  | nil => rfl
  | cons line lines =>
    cases line with
    | nil => rfl
    | cons c line =>
      have differs : c ≠ bom := unmarked (c :: line) rfl c rfl
      simp [emit, stripBom, differs]

/-- **A stream of lines is cut into them.** -/
theorem linesOf_emit (areLines : ∀ line ∈ lines, IsLine line) (unmarked : Unmarked lines) :
    linesOf (emit lines) = lines := by
  unfold linesOf
  rw [stripBom_emit unmarked, linesFrom_emit areLines]

/-! ### Fields -/

inductive Field where
  | blank
  | comment (text : Line)
  | data (value : Line)
  | event (value : Line)
  | id (value : Line)
  | retry (milliseconds : Nat)
  | ignored
deriving DecidableEq, Repr

/-- One space after the colon belongs to no value. -/
def dropSpace : Line → Line
  | ' ' :: value => value
  | value => value

/-- A line without a colon is a name with an empty value. -/
def nameAndValue (line : Line) : Line × Line :=
  match Text.splitOnce [':'] line with
  | none => (line, [])
  | some (name, value) => (name, dropSpace value)

def dataName : Line := ['d', 'a', 't', 'a']

/-- An id with a NUL and a reconnection time that is not of digits are ignored. -/
def namedField (name value : Line) : Field :=
  if name = dataName then .data value
  else if name = "event".toList then .event value
  else if name = "id".toList then if Char.ofNat 0 ∈ value then .ignored else .id value
  else if name = "retry".toList then
    if value ≠ [] ∧ value.all Char.isDigit then
      .retry (value.foldl (fun n c => 10 * n + (c.toNat - '0'.toNat)) 0)
    else .ignored
  else .ignored

def field : Line → Field
  | [] => .blank
  | ':' :: text => .comment text
  | line => let (name, value) := nameAndValue line; namedField name value

/-- What begins with the name of a data field and a colon is one. -/
theorem field_data (rest : Line) : field (dataName ++ ':' :: rest) = .data (dropSpace rest) := by
  have cut : nameAndValue (dataName ++ ':' :: rest) = (dataName, dropSpace rest) := by
    rw [nameAndValue, Text.splitOnce_singleton rest (by decide)]
  show (let (name, value) := nameAndValue (dataName ++ ':' :: rest); namedField name value) = _
  rw [cut]
  rfl

/-- A data field is a bare name, or its value follows the colon. -/
theorem data_of_field {line value : Line} (isData : field line = .data value) :
    (line = dataName ∧ value = []) ∨
      ∃ rest, line = dataName ++ ':' :: rest ∧ value = dropSpace rest := by
  have named : ∀ name found, namedField name found = .data value →
      name = dataName ∧ found = value := by
    intro name found h
    unfold namedField at h
    split at h
    · rename_i same
      exact ⟨same, by simpa using h⟩
    · repeat' split at h
      all_goals cases h
  unfold field at isData
  split at isData
  · cases isData
  · cases isData
  · cases cut : Text.splitOnce [':'] line with
    | none =>
      simp only [nameAndValue, cut] at isData
      obtain ⟨rfl, rfl⟩ := named _ _ isData
      exact .inl ⟨rfl, rfl⟩
    | some parts =>
      obtain ⟨name, rest⟩ := parts
      simp only [nameAndValue, cut] at isData
      obtain ⟨rfl, rfl⟩ := named _ _ isData
      exact .inr ⟨rest, Text.eq_of_splitOnce cut, rfl⟩

/-! ### Reading -/

structure Event where
  type : Line
  data : Line
  lastEventId : Line
deriving DecidableEq, Repr

/-- What a stream gives its reader. -/
inductive Output where
  | event (e : Event)
  | comment (text : Line)
  | retry (milliseconds : Nat)
deriving DecidableEq, Repr

/-- What the fields since the last dispatch gathered, and the last id. -/
structure Reader where
  data : List Line := []
  type : Line := []
  lastEventId : Line := []
deriving DecidableEq, Repr

def defaultType : Line := "message".toList

namespace Reader

/-- The next reader after a dispatch. -/
def reset (r : Reader) : Reader := { r with data := [], type := [] }

def pending (r : Reader) : Event where
  type := if r.type = [] then defaultType else r.type
  data := ['\n'].intercalate r.data
  lastEventId := r.lastEventId

/-- Without data there is nothing to dispatch. -/
def dispatch (r : Reader) : List Output := if r.data = [] then [] else [.event r.pending]

theorem dispatch_single (value type id : Line) :
    dispatch ⟨[value], type, id⟩ =
      [.event ⟨if type = [] then defaultType else type, value, id⟩] := by
  simp [dispatch, pending, List.intercalate]

def step (r : Reader) : Field → Reader × List Output
  | .blank => (r.reset, r.dispatch)
  | .comment text => (r, [.comment text])
  | .data value => ({ r with data := r.data ++ [value] }, [])
  | .event value => ({ r with type := value }, [])
  | .id value => ({ r with lastEventId := value }, [])
  | .retry milliseconds => (r, [.retry milliseconds])
  | .ignored => (r, [])

def read (r : Reader) : List Line → List Output
  | [] => []
  | line :: lines => (r.step (field line)).2 ++ (r.step (field line)).1.read lines

end Reader

/-- What gathered when the stream ends is not dispatched. -/
def parse (stream : List Char) : List Output := Reader.read {} (linesOf stream)

/-- No event gathers a second data line; `seen` tells of the one that is gathering. -/
def singleData (seen : Bool) : List Line → Bool
  | [] => true
  | line :: lines =>
    match field line with
    | .blank => singleData false lines
    | .data _ => !seen && singleData true lines
    | _ => singleData seen lines

/-! ### Relays

A relay that works line by line on data lines alone: it hides the line or
changes its value. -/

structure Relays (hidden : Line → Bool) (change : Line → Line) (relay : Line → Line) : Prop where
  /-- What is no data passes as it is. -/
  other : ∀ line, (∀ value, field line ≠ .data value) → relay line = line
  hides : ∀ line value, field line = .data value → hidden value → field (relay line) = .blank
  changes : ∀ line value, field line = .data value → ¬ hidden value →
    field (relay line) = .data (change value)

/-- What a relay does to an event. -/
def relayOutput (hidden : Line → Bool) (change : Line → Line) : Output → Option Output
  | .event e => if hidden e.data then none else some (.event { e with data := change e.data })
  | output => some output

/-- The readers on both sides of a relay. Behind it nothing gathers for a hidden event, whose
name is lost with the line that was hidden. -/
inductive Alike (hidden : Line → Bool) (change : Line → Line) : Reader → Reader → Prop where
  | empty {type id : Line} : Alike hidden change ⟨[], type, id⟩ ⟨[], type, id⟩
  | shown {value type id : Line} : ¬ hidden value →
      Alike hidden change ⟨[value], type, id⟩ ⟨[change value], type, id⟩
  | hid {value type other id : Line} : hidden value →
      Alike hidden change ⟨[value], type, id⟩ ⟨[], other, id⟩

variable {hidden : Line → Bool} {change relay : Line → Line} {r r' : Reader}

/-- A field that is neither blank nor data is read alike. -/
theorem Alike.step_other (alike : Alike hidden change r r') {f : Field} (notBlank : f ≠ .blank)
    (notData : ∀ value, f ≠ .data value) :
    Alike hidden change (r.step f).1 (r'.step f).1 ∧ (r.step f).1.data = r.data ∧
      (r'.step f).2 = (r.step f).2.filterMap (relayOutput hidden change) := by
  cases f with
  | blank => exact absurd rfl notBlank
  | data value => exact absurd rfl (notData value)
  | comment text => exact ⟨alike, rfl, rfl⟩
  | retry milliseconds => exact ⟨alike, rfl, rfl⟩
  | ignored => exact ⟨alike, rfl, rfl⟩
  | event value =>
    refine ⟨?_, rfl, rfl⟩
    cases alike with
    | empty => exact .empty
    | shown h => exact .shown h
    | hid h => exact .hid h
  | id value =>
    refine ⟨?_, rfl, rfl⟩
    cases alike with
    | empty => exact .empty
    | shown h => exact .shown h
    | hid h => exact .hid h

/-- At a blank line both readers dispatch, or the one behind the relay has nothing to. -/
theorem Alike.step_blank (alike : Alike hidden change r r') :
    Alike hidden change (r.step .blank).1 (r'.step .blank).1 ∧
      (r'.step .blank).2 = (r.step .blank).2.filterMap (relayOutput hidden change) := by
  cases alike with
  | empty => exact ⟨.empty, rfl⟩
  | shown shown =>
    refine ⟨.empty, ?_⟩
    simp [Reader.step, Reader.dispatch_single, relayOutput, shown]
  | hid hid =>
    refine ⟨.empty, ?_⟩
    simp only [Reader.step, Reader.dispatch_single]
    simp [Reader.dispatch, relayOutput, hid]

/-- The first data line of an event. -/
theorem Alike.step_data (relays : Relays hidden change relay) (alike : Alike hidden change r r')
    (none : r.data = []) {line value : Line} (isData : field line = .data value) :
    Alike hidden change (r.step (field line)).1 (r'.step (field (relay line))).1 ∧
      (r.step (field line)).2 = [] ∧ (r'.step (field (relay line))).2 = [] := by
  cases alike with
  | shown _ => cases none
  | hid _ => cases none
  | empty =>
    by_cases hid : hidden value
    · rw [isData, relays.hides line value isData hid]
      exact ⟨.hid hid, rfl, rfl⟩
    · rw [isData, relays.changes line value isData hid]
      exact ⟨.shown hid, rfl, rfl⟩

theorem read_relay (relays : Relays hidden change relay) (alike : Alike hidden change r r')
    (single : singleData (!r.data.isEmpty) lines) :
    r'.read (lines.map relay) = (r.read lines).filterMap (relayOutput hidden change) := by
  induction lines generalizing r r' with
  | nil => rfl
  | cons line lines ih =>
    simp only [List.map_cons, Reader.read, List.filterMap_append]
    unfold singleData at single
    by_cases isData : ∃ value, field line = .data value
    · obtain ⟨value, isData⟩ := isData
      simp only [isData, Bool.and_eq_true, Bool.not_not, List.isEmpty_iff] at single
      obtain ⟨next, silent, silent'⟩ := alike.step_data relays single.1 isData
      rw [silent, silent', ih next (by simpa [Reader.step, isData, single.1] using single.2)]
      rfl
    · have notData : ∀ value, field line ≠ .data value := fun value h => isData ⟨value, h⟩
      rw [relays.other line notData]
      by_cases blank : field line = .blank
      · simp only [blank] at single ⊢
        obtain ⟨next, same⟩ := alike.step_blank
        rw [same, ih next (by simpa [Reader.step, Reader.reset] using single)]
      · obtain ⟨next, gathered, same⟩ := alike.step_other blank notData
        have single : singleData (!r.data.isEmpty) lines := by
          cases f : field line <;> simp_all
        rw [same, ih next (by rw [gathered]; exact single)]

/-- **A relay of single lines is one of events**, where no event has two data lines. -/
theorem parse_relay (relays : Relays hidden change relay) (areLines : ∀ line ∈ lines, IsLine line)
    (areLines' : ∀ line ∈ lines, IsLine (relay line)) (unmarked : Unmarked lines)
    (unmarked' : Unmarked (lines.map relay)) (single : singleData false lines) :
    parse (emit (lines.map relay)) =
      (parse (emit lines)).filterMap (relayOutput hidden change) := by
  unfold parse
  rw [linesOf_emit areLines unmarked, linesOf_emit (by simpa using areLines') unmarked']
  exact read_relay relays .empty single

end LlamaServerManager.Lib.Sse
