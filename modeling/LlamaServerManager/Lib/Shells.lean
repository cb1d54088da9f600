import LlamaServerManager.Lib.Text
import Mathlib.Algebra.GroupWithZero.Nat

/-!
How two shells read a line, as far as it is made of quoted words. What would expand, run or
redirect ends the reading.

* `posixWords` — the words of a POSIX shell.
* `powershellTokens` — the arguments of a PowerShell command, and what is not a string in
  single quotes.
* `quotes_tokens` — every quote of a line is accounted for by its tokens.
-/

namespace LlamaServerManager.Lib.Shells

abbrev Str := List Char

/-! ### POSIX -/

/-- The place of a POSIX reader: between words, or in a word that has been read so far. -/
inductive Mode where
  | outside
  | word (read : Str)
  | escaped (read : Str)
  | single (read : Str)
  | double (read : Str)
  | doubleEscaped (read : Str)
deriving DecidableEq, Repr

def blank (c : Char) : Bool := c == ' ' || c == '\t'

/-- The characters that are not always themselves when they are not quoted. -/
def active (c : Char) : Bool :=
  ['|', '&', ';', '<', '>', '(', ')', '$', '\x60', '\n', '*', '?', '[', ']', '#', '~', '=', '%',
    '!', '\x7b', '\x7d'].contains c

/-- A character in a word, outside quotes. -/
def unquoted (read : Str) (c : Char) : Option Mode :=
  if c = '\x27' then some (.single read)
  else if c = '\x22' then some (.double read)
  else if c = '\x5c' then some (.escaped read)
  else if active c then none
  else some (.word (read ++ [c]))

/-- A character in double quotes, after a backslash. -/
def doubleEscape (read : Str) (c : Char) : Str :=
  if c = '$' ∨ c = '\x60' ∨ c = '\x22' ∨ c = '\x5c' then read ++ [c]
  else if c = '\n' then read
  else read ++ ['\x5c', c]

def posixLoop : Mode → Str → Option (List Str)
  | .outside, [] => some []
  | .word read, [] => some [read]
  | _, [] => none
  | .outside, c :: cs =>
    if blank c then posixLoop .outside cs
    else (unquoted [] c).bind fun mode => posixLoop mode cs
  | .word read, c :: cs =>
    if blank c then (posixLoop .outside cs).map (read :: ·)
    else (unquoted read c).bind fun mode => posixLoop mode cs
  | .escaped read, c :: cs => posixLoop (.word (if c = '\n' then read else read ++ [c])) cs
  | .single read, c :: cs =>
    if c = '\x27' then posixLoop (.word read) cs else posixLoop (.single (read ++ [c])) cs
  | .double read, c :: cs =>
    if c = '\x22' then posixLoop (.word read) cs
    else if c = '\x5c' then posixLoop (.doubleEscaped read) cs
    else if c = '$' ∨ c = '\x60' then none
    else posixLoop (.double (read ++ [c])) cs
  | .doubleEscaped read, c :: cs => posixLoop (.double (doubleEscape read c)) cs

/-- The words of a line; `none` where it has more than quoted and plain words. -/
def posixWords (text : Str) : Option (List Str) := posixLoop .outside text

/-! ### PowerShell -/

/-- The characters that open and close a single-quoted string. -/
def singleQuotes : List Char := ['\x27', '\u2018', '\u2019', '\u201A', '\u201B']

def isSingleQuote (c : Char) : Bool := singleQuotes.contains c

/-- White space between the arguments of a command; the end of a line ends the command. -/
def space (c : Char) : Bool := Text.isWhitespace c && c != '\n' && c != '\r'

/-- What PowerShell reads in the place of an argument. -/
inductive Token where
  /-- A string in single quotes. -/
  | literal (value : Str)
  /-- A string that is not closed. -/
  | unterminated (value : Str)
  /-- Anything else, up to the end. -/
  | code (text : Str)
deriving DecidableEq, Repr

/-- The place of a PowerShell reader; `closing` has seen a quote in a string. -/
inductive Place where
  | between
  | string (read : Str)
  | closing (read : Str)

/-- Two quotes in a row are a quote in the string, one closes it. -/
def powershellLoop : Place → Str → List Token
  | .between, [] => []
  | .between, c :: cs =>
    if space c then powershellLoop .between cs
    else if isSingleQuote c then powershellLoop (.string []) cs
    else [.code (c :: cs)]
  | .string read, [] => [.unterminated read]
  | .string read, c :: cs =>
    if isSingleQuote c then powershellLoop (.closing read) cs
    else powershellLoop (.string (read ++ [c])) cs
  | .closing read, [] => [.literal read]
  | .closing read, c :: cs =>
    if isSingleQuote c then powershellLoop (.string (read ++ [c])) cs
    else .literal read :: if space c then powershellLoop .between cs else [.code (c :: cs)]

def powershellTokens (text : Str) : List Token := powershellLoop .between text

/-- The quotes of a text. -/
def quotes (text : Str) : Nat := text.countP isSingleQuote

@[simp] theorem quotes_nil : quotes [] = 0 := rfl

@[simp] theorem quotes_append (a b : Str) : quotes (a ++ b) = quotes a + quotes b :=
  List.countP_append

@[simp] theorem quotes_singleton (c : Char) :
    quotes [c] = if isSingleQuote c then 1 else 0 := by
  simp [quotes, List.countP_cons]

theorem quotes_cons (c : Char) (text : Str) :
    quotes (c :: text) = (if isSingleQuote c then 1 else 0) + quotes text := by
  simp [quotes, List.countP_cons, Nat.add_comm]

/-- The quotes that a token is made of. -/
def Token.quotes : Token → Nat
  | .literal value => 2 + 2 * Shells.quotes value
  | .unterminated value => 1 + 2 * Shells.quotes value
  | .code text => Shells.quotes text

/-- The quotes that have been read of the string. -/
def Place.quotes : Place → Nat
  | .between => 0
  | .string read => 1 + 2 * Shells.quotes read
  | .closing read => 2 + 2 * Shells.quotes read

theorem space_not_quote {c : Char} (white : space c = true) : isSingleQuote c = false := by
  cases quote : isSingleQuote c with
  | false => rfl
  | true =>
    have listed : c ∈ singleQuotes := by simpa [isSingleQuote] using quote
    have all : singleQuotes.all (fun c => !space c) = true := rfl
    simpa [white] using List.all_eq_true.mp all c listed

/-- Every quote is accounted for. -/
theorem quotes_tokens (place : Place) (text : Str) :
    ((powershellLoop place text).map Token.quotes).sum = place.quotes + quotes text := by
  induction text generalizing place with
  | nil => cases place <;> simp [powershellLoop, Token.quotes, Place.quotes]
  | cons c text ih =>
    rw [quotes_cons]
    cases place with
    | between =>
      unfold powershellLoop
      by_cases white : space c = true
      · simp [white, space_not_quote white, ih]
      · by_cases quote : isSingleQuote c = true
        · simp [white, quote, ih, Place.quotes]
        · simp [white, quote, Token.quotes, Place.quotes, quotes_cons]
    | string read =>
      unfold powershellLoop
      by_cases quote : isSingleQuote c = true
      · simp only [quote, if_true, ih, Place.quotes]
        omega
      · simp [quote, ih, Place.quotes]
    | closing read =>
      unfold powershellLoop
      by_cases quote : isSingleQuote c = true
      · simp only [quote, if_true, ih, Place.quotes, quotes_append, quotes_singleton]
        omega
      · by_cases white : space c = true
        · simp [quote, white, ih, Token.quotes, Place.quotes]
        · simp [quote, white, Token.quotes, Place.quotes, quotes_cons]

end LlamaServerManager.Lib.Shells
