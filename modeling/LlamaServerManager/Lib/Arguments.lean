import Mathlib.Data.List.Basic

/-!
How a C program of Windows reads its command line: blanks divide it, quotes join, `\"` is a quote,
and backslashes are themselves elsewhere. Of `2n` backslashes before a quote `n` stay and the quote
opens or closes; of `2n + 1`, `n` and the quote stay. Two quotes in a quoted part are one. The name
of the program is read without the rule for backslashes.

* `Reads` — in the mode, the text is read to the end of the word, that is to a blank or the end.
* `words_of_reads` — words that are read one by one, with blanks between them.
-/

namespace LlamaServerManager.Lib.Arguments

abbrev Str := List Char

def blank (c : Char) : Bool := c = ' ' || c = '\t'

/-- Where a reader stands: what it has of the word, and the backslashes after that. -/
inductive Mode where
  | between
  | plain (slashes : Nat) (read : Str)
  | quoted (slashes : Nat) (read : Str)
  /-- After a quote that may close, or be the first of two. -/
  | closed (read : Str)
deriving DecidableEq, Repr

def backslashes (n : Nat) : Str := List.replicate n '\\'

/-- The next mode, and the word that ends. -/
def plainNext (slashes : Nat) (read : Str) (c : Char) : Mode × List Str :=
  if c = '\\' then (.plain (slashes + 1) read, [])
  else if c = '"' then
    if slashes % 2 = 0 then (.quoted 0 (read ++ backslashes (slashes / 2)), [])
    else (.plain 0 (read ++ backslashes (slashes / 2) ++ ['"']), [])
  else if blank c then (.between, [read ++ backslashes slashes])
  else (.plain 0 (read ++ backslashes slashes ++ [c]), [])

def quotedNext (slashes : Nat) (read : Str) (c : Char) : Mode :=
  if c = '\\' then .quoted (slashes + 1) read
  else if c = '"' then
    if slashes % 2 = 0 then .closed (read ++ backslashes (slashes / 2))
    else .quoted 0 (read ++ backslashes (slashes / 2) ++ ['"'])
  else .quoted 0 (read ++ backslashes slashes ++ [c])

def Mode.next : Mode → Char → Mode × List Str
  | .between, c => if blank c then (.between, []) else plainNext 0 [] c
  | .plain slashes read, c => plainNext slashes read c
  | .quoted slashes read, c => (quotedNext slashes read c, [])
  | .closed read, c => if c = '"' then (.quoted 0 (read ++ ['"']), []) else plainNext 0 read c

def Mode.finish : Mode → List Str
  | .between => []
  | .plain slashes read | .quoted slashes read => [read ++ backslashes slashes]
  | .closed read => [read]

def words : Mode → Str → List Str
  | mode, [] => mode.finish
  | mode, c :: text => (mode.next c).2 ++ words (mode.next c).1 text

/-- The name of the program, and what comes after the blank that ends it. -/
def readProgram : Bool → Str → Str × Str
  | _, [] => ([], [])
  | quoted, c :: text =>
    if c = '"' then readProgram (!quoted) text
    else if !quoted && blank c then ([], text)
    else ((c :: (readProgram quoted text).1), (readProgram quoted text).2)

def splitCommandLine (line : Str) : Str × List Str :=
  ((readProgram false line).1, words .between (readProgram false line).2)

example : splitCommandLine "\"C:\\a b\\e.exe\" x \"y\\\\\" \"\\\"\" \"\"".toList =
    ("C:\\a b\\e.exe".toList, ["x".toList, "y\\".toList, "\"".toList, []]) := by decide

/-! ### Words -/

/-- What comes after a word. -/
def Ends (rest : Str) : Prop := ∀ c ∈ rest.head?, blank c = true

/-- The text is read as the word, up to what comes after it. -/
def Reads (mode : Mode) (text word : Str) : Prop :=
  ∀ rest, Ends rest → words mode (text ++ rest) = word :: words .between rest

theorem Ends.nil : Ends [] := nofun

theorem Ends.cons {c : Char} (white : blank c = true) (rest : Str) : Ends (c :: rest) := by
  intro d same
  obtain rfl := Option.some.inj same
  exact white

theorem words_cons (mode : Mode) (c : Char) (text : Str) :
    words mode (c :: text) = (mode.next c).2 ++ words (mode.next c).1 text := rfl

theorem blank_ne {c : Char} (white : blank c = true) : c ≠ '\\' ∧ c ≠ '"' := by
  unfold blank at white
  rcases Bool.or_eq_true_iff.mp white with same | same
  · rw [of_decide_eq_true same]
    decide
  · rw [of_decide_eq_true same]
    decide

theorem plainNext_blank {c : Char} (white : blank c = true) (slashes : Nat) (read : Str) :
    plainNext slashes read c = (.between, [read ++ backslashes slashes]) := by
  obtain ⟨slash, quote⟩ := blank_ne white
  rw [plainNext, if_neg slash, if_neg quote, if_pos white]

theorem words_between_blank {c : Char} (white : blank c = true) (text : Str) :
    words .between (c :: text) = words .between text := by
  rw [words_cons, Mode.next, if_pos white]
  rfl

/-- A word ends at a blank and at the end. -/
theorem reads_plain (slashes : Nat) (read : Str) :
    Reads (.plain slashes read) [] (read ++ backslashes slashes) := by
  rintro (_ | ⟨c, rest⟩) ends
  · rfl
  · have white := ends c rfl
    rw [List.nil_append, words_cons, Mode.next, plainNext_blank white, words_between_blank white]
    rfl

theorem reads_closed (read : Str) : Reads (.closed read) [] read := by
  rintro (_ | ⟨c, rest⟩) ends
  · rfl
  · have white := ends c rfl
    rw [List.nil_append, words_cons, Mode.next, if_neg (blank_ne white).2, plainNext_blank white,
      words_between_blank white, backslashes, List.replicate_zero, List.append_nil]
    rfl

/-- A character that ends no word. -/
theorem Reads.cons {mode n : Mode} {c : Char} {text word : Str} (step : mode.next c = (n, []))
    (reads : Reads n text word) : Reads mode (c :: text) word := by
  intro rest ends
  rw [List.cons_append, words_cons, step]
  exact reads rest ends

/-- A run of backslashes in a quoted part. -/
theorem Reads.slashes {read text word : Str} {k n : Nat}
    (reads : Reads (.quoted (k + n) read) text word) :
    Reads (.quoted k read) (backslashes n ++ text) word := by
  induction n generalizing k with
  | zero => exact reads
  | succ n ih =>
    refine Reads.cons (n := .quoted (k + 1) read) rfl (ih ?_)
    rwa [Nat.add_right_comm, Nat.add_assoc]

/-- Words are read one by one. -/
theorem words_of_reads {encode : Str → Str} (reads : ∀ word, Reads .between (encode word) word)
    (list : List Str) :
    words .between (List.flatMap (fun word => ' ' :: encode word) list) = list := by
  induction list with
  | nil => rfl
  | cons word list ih =>
    have ends : Ends (List.flatMap (fun word => ' ' :: encode word) list) := by
      cases list with
      | nil => exact .nil
      | cons other list => exact .cons rfl _
    rw [List.flatMap_cons, List.cons_append, words_between_blank rfl, reads word _ ends, ih]

end LlamaServerManager.Lib.Arguments
