import LlamaServerManager.Lib.Shells

/-!
The launch command as the user copies it into a shell (`store/commandFormatting.ts`).

* `exportShellCommand` — the arguments, quoted for one shell.
* `exportShellCommand_reproduces` — which arguments the shell then reads.
* `typographic_quote_runs` — a file name that PowerShell runs.
-/

namespace LlamaServerManager.Frontend

open Lib.Shells

inductive ExportShell where
  | powershell
  | posix
deriving DecidableEq, Repr

/-- `arg.replace(/'/g, by)`. -/
def replaceQuote (by_ : Str) (arg : Str) : Str :=
  arg.flatMap fun c => if c = '\x27' then by_ else [c]

def quote (shell : ExportShell) (arg : Str) : Str :=
  match shell with
  | .powershell => '\x27' :: replaceQuote ['\x27', '\x27'] arg ++ ['\x27']
  | .posix => '\x27' :: replaceQuote ['\x27', '\x22', '\x27', '\x22', '\x27'] arg ++ ['\x27']

/-- What stands before the command: it checks the version, keeps empty arguments and embedded
quotes, and calls. -/
def standardMode : Str :=
  ("& \x7b if ($PSVersionTable.PSVersion -lt [version]'7.3') \x7b throw 'PowerShell 7.3+ required' "
    ++ "\x7d; $PSNativeCommandArgumentPassing = 'Standard'; & ").toList

def exportShellCommand (args : List Str) (shell : ExportShell) : Except String Str :=
  if args = [] ∨ ∃ arg ∈ args, '\x00' ∈ arg then .error "Invalid command argument"
  else
    let command := [' '].intercalate (args.map (quote shell))
    match shell with
    | .powershell => .ok (standardMode ++ command ++ [' ', '\x7d'])
    | .posix => .ok command

/-! ### POSIX -/

theorem posixLoop_replaceQuote (arg read rest : Str) :
    posixLoop (.single read)
        (replaceQuote ['\x27', '\x22', '\x27', '\x22', '\x27'] arg ++ rest) =
      posixLoop (.single (read ++ arg)) rest := by
  induction arg generalizing read with
  | nil => simp [replaceQuote]
  | cons c arg ih =>
    unfold replaceQuote at ih ⊢
    by_cases same : c = '\x27'
    · -- out of the single quotes, the quote in double quotes, and back
      subst same
      simp [posixLoop, unquoted, blank, ih]
    · simp [same, posixLoop, ih]

/-- The literal of an argument is one word. -/
theorem posixLoop_quote (arg rest : Str) :
    posixLoop .outside (quote .posix arg ++ rest) = posixLoop (.word arg) rest := by
  have opened : posixLoop .outside (quote .posix arg ++ rest) = posixLoop (.single [])
      (replaceQuote ['\x27', '\x22', '\x27', '\x22', '\x27'] arg ++ '\x27' :: rest) := by
    simp [quote, posixLoop, blank, unquoted]
  rw [opened, posixLoop_replaceQuote, List.nil_append, posixLoop, if_pos rfl]

theorem posixWords_intercalate {args : List Str} (nonempty : args ≠ []) :
    posixWords ([' '].intercalate (args.map (quote .posix))) = some args := by
  unfold posixWords
  induction args with
  | nil => exact absurd rfl nonempty
  | cons arg args ih =>
    cases args with
    | nil =>
      rw [List.map_singleton, List.intercalate_singleton, ← List.append_nil (quote .posix arg),
        posixLoop_quote]
      rfl
    | cons next args =>
      rw [List.map_cons, List.map_cons, List.intercalate_cons_cons, List.append_assoc,
        posixLoop_quote, List.singleton_append, posixLoop, if_pos (by rfl)]
      have later := ih (List.cons_ne_nil next args)
      rw [List.map_cons] at later
      rw [later]
      rfl

/-! ### PowerShell -/

/-- The arguments of the call that the block makes: literals, up to the end of the block. -/
def literalArguments : List Token → Option (List Str)
  | [.code text] => if text = ['\x7d'] then some [] else none
  | .literal value :: tokens => (literalArguments tokens).map (value :: ·)
  | _ => none

/-- What the exported line invokes, if it is a call with literals and nothing else. -/
def powershellInvocation (text : Str) : Option (List Str) :=
  if standardMode.isPrefixOf text then
    literalArguments (powershellTokens (text.drop standardMode.length))
  else none

/-- A quote that PowerShell knows and the export does not. -/
def typographic (c : Char) : Bool := isSingleQuote c && c != '\x27'

theorem literalArguments_iff {tokens : List Token} {args : List Str} :
    literalArguments tokens = some args ↔ tokens = args.map .literal ++ [.code ['\x7d']] := by
  fun_induction literalArguments tokens generalizing args with
  | case1 =>
    cases args with
    | nil => simp
    | cons arg args => simp
  | case2 text other =>
    cases args with
    | nil => simpa using other
    | cons arg args => simp
  | case3 value tokens ih =>
    cases args with
    | nil => simp
    | cons arg args =>
      rw [List.map_cons, List.cons_append, List.cons.injEq, ← ih]
      simp [and_comm]
  | case4 tokens notCode notLiteral =>
    cases args with
    | nil => simpa using fun same => notCode _ same
    | cons arg args => simpa using fun same => notLiteral _ _ same

theorem powershellLoop_replaceQuote {arg : Str} (read rest : Str)
    (plain : ∀ c ∈ arg, typographic c = false) :
    powershellLoop (.string read) (replaceQuote ['\x27', '\x27'] arg ++ rest) =
      powershellLoop (.string (read ++ arg)) rest := by
  induction arg generalizing read with
  | nil => simp [replaceQuote]
  | cons c arg ih =>
    obtain ⟨first, others⟩ := List.forall_mem_cons.mp plain
    unfold replaceQuote at ih ⊢
    by_cases same : c = '\x27'
    · subst same
      have known : isSingleQuote '\x27' = true := rfl
      simp [powershellLoop, known, ih _ others]
    · have other : isSingleQuote c = false := by simpa [typographic, same] using first
      simp [same, powershellLoop, other, ih _ others]

theorem quotes_replaceQuote (arg : Str) :
    quotes (replaceQuote ['\x27', '\x27'] arg) + arg.countP typographic = 2 * quotes arg := by
  induction arg with
  | nil => rfl
  | cons c arg ih =>
    unfold replaceQuote at ih ⊢
    rw [List.flatMap_cons, quotes_append, List.countP_cons, quotes_cons c arg]
    by_cases same : c = '\x27'
    · subst same
      have known : isSingleQuote '\x27' = true := rfl
      simp only [if_true, quotes_cons, known, quotes_nil, typographic]
      simp
      omega
    · cases other : isSingleQuote c with
      | false =>
        simp only [same, if_false, quotes_singleton, typographic, other]
        simpa using ih
      | true =>
        have typed : (c != '\x27') = true := by simpa using same
        simp only [same, if_false, quotes_singleton, typographic, other, typed]
        simp
        omega

/-- An argument without other quotes is one literal. -/
theorem powershellLoop_quote {arg : Str} (rest : Str) (plain : ∀ c ∈ arg, typographic c = false) :
    powershellLoop .between (quote .powershell arg ++ ' ' :: rest) =
      .literal arg :: powershellLoop .between rest := by
  have known : isSingleQuote '\x27' = true := rfl
  have opens : space '\x27' = false := rfl
  have separates : isSingleQuote ' ' = false := rfl
  have white : space ' ' = true := rfl
  have opened : powershellLoop .between (quote .powershell arg ++ ' ' :: rest) =
      powershellLoop (.string [])
        (replaceQuote ['\x27', '\x27'] arg ++ '\x27' :: ' ' :: rest) := by
    simp [quote, powershellLoop, opens, known]
  rw [opened, powershellLoop_replaceQuote _ _ plain]
  simp [powershellLoop, known, separates, white]

theorem powershellTokens_intercalate {args : List Str} (nonempty : args ≠ [])
    (plain : ∀ arg ∈ args, ∀ c ∈ arg, typographic c = false) :
    powershellTokens ([' '].intercalate (args.map (quote .powershell)) ++ [' ', '\x7d']) =
      args.map .literal ++ [.code ['\x7d']] := by
  unfold powershellTokens
  induction args with
  | nil => exact absurd rfl nonempty
  | cons arg args ih =>
    obtain ⟨first, others⟩ := List.forall_mem_cons.mp plain
    cases args with
    | nil =>
      rw [List.map_singleton, List.intercalate_singleton, powershellLoop_quote _ first]
      rfl
    | cons next args =>
      have later := ih (List.cons_ne_nil next args) others
      rw [List.map_cons] at later
      rw [List.map_cons, List.map_cons, List.intercalate_cons_cons, List.append_assoc,
        List.append_assoc, List.singleton_append, powershellLoop_quote _ first, later]
      rfl

/-- The quotes of the command, but for the literals' own. -/
theorem quotes_intercalate (args : List Str) :
    quotes ([' '].intercalate (args.map (quote .powershell))) +
        (args.map (·.countP typographic)).sum =
      ((args.map Token.literal).map Token.quotes).sum := by
  have known : isSingleQuote '\x27' = true := rfl
  have separates : isSingleQuote ' ' = false := rfl
  have own (arg : Str) : quotes (quote .powershell arg) + arg.countP typographic =
      2 + 2 * quotes arg := by
    have inner := quotes_replaceQuote arg
    simp only [quote, List.cons_append, quotes_cons, quotes_append, known, if_true, quotes_nil]
    omega
  induction args with
  | nil => rfl
  | cons arg args ih =>
    have first := own arg
    cases args with
    | nil => simpa [List.intercalate_singleton, Token.quotes] using first
    | cons next args =>
      rw [List.map_cons (f := quote .powershell)] at ih
      rw [List.map_cons, List.map_cons, List.intercalate_cons_cons, quotes_append, quotes_append,
        quotes_singleton, separates]
      simp only [List.map_cons, List.sum_cons, Token.quotes] at ih ⊢
      simp only [Bool.false_eq_true, if_false]
      omega

/-- Where the call has exactly these literals, no argument has another quote. -/
theorem plain_of_tokens {args : List Str}
    (read : powershellTokens ([' '].intercalate (args.map (quote .powershell)) ++ [' ', '\x7d']) =
      args.map .literal ++ [.code ['\x7d']]) :
    ∀ arg ∈ args, ∀ c ∈ arg, typographic c = false := by
  have counted := quotes_tokens .between
    ([' '].intercalate (args.map (quote .powershell)) ++ [' ', '\x7d'])
  have close : quotes [' ', '\x7d'] = 0 := rfl
  rw [show powershellLoop .between _ = _ from read, List.map_append, List.sum_append,
    quotes_append, close] at counted
  have command := quotes_intercalate args
  have last : ([Token.code ['\x7d']].map Token.quotes).sum = 0 := rfl
  simp only [last, Place.quotes] at counted
  have none : (args.map (·.countP typographic)).sum = 0 := by omega
  intro arg mem c typed
  have zero : arg.countP typographic = 0 :=
    List.sum_eq_zero_iff_forall_eq_nat.mp none _ (List.mem_map.mpr ⟨arg, mem, rfl⟩)
  simpa using List.countP_eq_zero.mp zero c typed

/-! ### Both shells -/

/-- **The exported command in a shell.** A POSIX shell reads the arguments as they are;
PowerShell invokes the command with them exactly if none of them has one of its other
quotes. The readers of both shells are given apart from the formatting (`Lib.Shells`). -/
theorem exportShellCommand_reproduces {args : List Str} (nonempty : args ≠ [])
    (text : ∀ arg ∈ args, '\x00' ∉ arg) :
    (∃ command, exportShellCommand args .posix = .ok command ∧
      posixWords command = some args) ∧
    ∃ command, exportShellCommand args .powershell = .ok command ∧
      (powershellInvocation command = some args ↔
        ∀ arg ∈ args, ∀ c ∈ arg, typographic c = false) := by
  have passes : ¬(args = [] ∨ ∃ arg ∈ args, '\x00' ∈ arg) := by
    rintro (none | ⟨arg, mem, nul⟩)
    · exact nonempty none
    · exact text arg mem nul
  constructor
  · exact ⟨_, if_neg passes, posixWords_intercalate nonempty⟩
  · refine ⟨_, if_neg passes, ?_⟩
    have begins : standardMode.isPrefixOf (standardMode ++
        ([' '].intercalate (args.map (quote .powershell)) ++ [' ', '\x7d'])) = true :=
      List.isPrefixOf_iff_prefix.mpr (List.prefix_append _ _)
    rw [powershellInvocation, List.append_assoc, if_pos begins, List.drop_left,
      literalArguments_iff]
    exact ⟨plain_of_tokens, powershellTokens_intercalate nonempty⟩

/-- A path with a space and a quote, and an empty argument. -/
def quotedArguments : List Str := [['m', 'y', ' ', 'm', '\x27', 's'], []]

theorem exportShellCommand_reproduces_quoted :
    ∃ command, exportShellCommand quotedArguments .powershell = .ok command ∧
      powershellInvocation command = some quotedArguments := by
  have nonempty : quotedArguments ≠ [] := List.cons_ne_nil _ _
  obtain ⟨-, command, exported, read⟩ :=
    exportShellCommand_reproduces nonempty (by simp [quotedArguments])
  refine ⟨command, exported, read.mpr ?_⟩
  have none : quotedArguments.all (fun arg => arg.all fun c => !typographic c) = true := rfl
  simpa using none

/-- A file name with a typographic apostrophe. -/
def typographicName : Str :=
  ['x', '\u2019', ' ', '\x7d', ';', ' ', 'c', 'a', 'l', 'c', ' ', '#']

/-- What follows the apostrophe is run. -/
theorem typographic_quote_runs :
    ∃ command, exportShellCommand [typographicName] .powershell = .ok command ∧
      powershellTokens (command.drop standardMode.length) =
        [.literal ['x'], .code "\x7d; calc #' \x7d".toList] ∧
      powershellInvocation command ≠ some [typographicName] := by
  have exported : exportShellCommand [typographicName] .powershell =
      .ok (standardMode ++ [' '].intercalate ([typographicName].map (quote .powershell)) ++
        [' ', '\x7d']) := by
    simp [exportShellCommand, typographicName]
  refine ⟨_, exported, ?_, fun same => ?_⟩
  · rw [List.append_assoc, List.drop_left]
    rfl
  · obtain ⟨-, command, exported', read⟩ :=
      exportShellCommand_reproduces (List.cons_ne_nil typographicName [])
        (by simp [typographicName])
    rw [exported, Except.ok.injEq] at exported'
    subst exported'
    have typed : typographic '\u2019' = true := rfl
    have plain := read.mp same _ List.mem_cons_self '\u2019' (by simp [typographicName])
    rw [typed] at plain
    cases plain

end LlamaServerManager.Frontend
