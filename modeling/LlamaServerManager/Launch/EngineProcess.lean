import LlamaServerManager.Lib.Arguments
import LlamaServerManager.Lib.KeyedLocks

/-!
The processes of engines (`engine_process.rs`).

* `commandLine` — on Windows, one text for all arguments, which the runtime of the engine takes
  apart again (`splitCommandLine_commandLine`).
* `terminationLocks` — a lock for each process, for who stops it or saves its slots
  (`terminationLocks_exclusive`).
-/

namespace LlamaServerManager.Launch

open Lib Lib.Arguments

/-- The loop of `quote` and what follows it. -/
def quoteLoop : Nat → Str → Str
  | slashes, [] => backslashes (slashes * 2) ++ ['"']
  | slashes, c :: arg =>
    if c = '\\' then quoteLoop (slashes + 1) arg
    else backslashes (if c = '"' then slashes * 2 + 1 else slashes) ++ c :: quoteLoop 0 arg

def quote (arg : Str) : Str :=
  if arg ≠ [] ∧ !arg.any (fun c => c = ' ' || c = '\t' || c = '"') then arg
  else '"' :: quoteLoop 0 arg

example : quote "/C".toList = "/C".toList := by decide
example : quote "a\"b".toList = "\"a\\\"b\"".toList := by decide

/-- No text with a NUL goes to the system. -/
def wide (text : Str) : Option Str := if '\x00' ∈ text then none else some text

/-- The second argument of `CreateProcessW`. -/
def commandLine (program : Str) (args : List Str) : Option Str :=
  wide (List.intercalate [' '] ((program :: args).map quote))

/-! ### Arguments -/

/-- The backslashes of a quoted part are doubled where a quote follows. -/
theorem reads_quoteLoop (arg read : Str) (slashes : Nat) :
    Reads (.quoted 0 read) (quoteLoop slashes arg) (read ++ backslashes slashes ++ arg) := by
  induction arg generalizing read slashes with
  | nil =>
    refine Reads.slashes (Reads.cons (n := .closed (read ++ backslashes slashes)) ?_ ?_)
    · simp [Mode.next, quotedNext]
    · rw [List.append_nil]
      exact reads_closed _
  | cons c arg ih =>
    by_cases slash : c = '\\'
    · have longer : read ++ backslashes slashes ++ c :: arg =
          read ++ backslashes (slashes + 1) ++ arg := by
        simp [slash, backslashes, List.replicate_succ']
      rw [quoteLoop, if_pos slash, longer]
      exact ih read (slashes + 1)
    · rw [quoteLoop, if_neg slash]
      have kept : read ++ backslashes slashes ++ c :: arg =
          (read ++ backslashes slashes ++ [c]) ++ backslashes 0 ++ arg := by simp [backslashes]
      rw [kept]
      refine Reads.slashes (Reads.cons ?_ (ih (read ++ backslashes slashes ++ [c]) 0))
      by_cases quoted : c = '"'
      · -- one more than twice the backslashes: half of them stay, and the quote
        have odd : (0 + (slashes * 2 + 1)) % 2 ≠ 0 := by omega
        have half : (0 + (slashes * 2 + 1)) / 2 = slashes := by omega
        rw [if_pos quoted, Mode.next, quotedNext, if_neg slash, if_pos quoted, if_neg odd, half,
          quoted]
      · rw [if_neg quoted, Mode.next, quotedNext, if_neg slash, if_neg quoted, Nat.zero_add]

/-- Where there is no blank and no quote, backslashes are themselves. -/
theorem reads_bare (arg read : Str) (slashes : Nat)
    (bare : ∀ c ∈ arg, blank c = false ∧ c ≠ '"') :
    Reads (.plain slashes read) arg (read ++ backslashes slashes ++ arg) := by
  induction arg generalizing read slashes with
  | nil =>
    rw [List.append_nil]
    exact reads_plain slashes read
  | cons c arg ih =>
    obtain ⟨⟨black, other⟩, more⟩ := List.forall_mem_cons.mp bare
    by_cases slash : c = '\\'
    · have longer : read ++ backslashes slashes ++ c :: arg =
          read ++ backslashes (slashes + 1) ++ arg := by
        simp [slash, backslashes, List.replicate_succ']
      rw [longer]
      refine Reads.cons ?_ (ih read (slashes + 1) more)
      rw [Mode.next, plainNext, if_pos slash]
    · have kept : read ++ backslashes slashes ++ c :: arg =
          (read ++ backslashes slashes ++ [c]) ++ backslashes 0 ++ arg := by simp [backslashes]
      rw [kept]
      refine Reads.cons ?_ (ih (read ++ backslashes slashes ++ [c]) 0 more)
      rw [Mode.next, plainNext, if_neg slash, if_neg other, black, if_neg Bool.false_ne_true]

/-- The arguments that are not quoted. -/
def Bare (arg : Str) : Prop := ∀ c ∈ arg, blank c = false ∧ c ≠ '"'

theorem bare_of_plain {arg : Str}
    (plain : (!arg.any fun c => c = ' ' || c = '\t' || c = '"') = true) : Bare arg := by
  intro c mem
  have none_ : arg.any (fun c => c = ' ' || c = '\t' || c = '"') = false := by simpa using plain
  have black := List.any_eq_false.mp none_ c mem
  simp only [Bool.or_eq_true, decide_eq_true_eq, not_or] at black
  exact ⟨by simp [blank, black.1.1, black.1.2], black.2⟩

theorem reads_quote (arg : Str) : Reads .between (quote arg) arg := by
  unfold quote
  split
  · rename_i plain
    obtain ⟨nonempty, plain⟩ := plain
    have bare := bare_of_plain plain
    obtain ⟨c, rest, rfl⟩ := List.exists_cons_of_ne_nil nonempty
    have black := (bare c List.mem_cons_self).1
    intro more ends
    have same : words .between (c :: rest ++ more) = words (.plain 0 []) (c :: rest ++ more) := by
      rw [List.cons_append, words_cons, words_cons, Mode.next, black, if_neg Bool.false_ne_true,
        Mode.next]
    rw [same]
    exact reads_bare (c :: rest) [] 0 bare more ends
  · exact Reads.cons rfl (reads_quoteLoop arg [] 0)

/-! ### The program -/

theorem quoteLoop_plain {arg : Str} (noQuote : '"' ∉ arg) (slashes : Nat)
    (ends : arg.getLast? ≠ some '\\') (here : arg = [] → slashes = 0) :
    quoteLoop slashes arg = backslashes slashes ++ arg ++ ['"'] := by
  induction arg generalizing slashes with
  | nil => simp [quoteLoop, here rfl, backslashes]
  | cons c arg ih =>
    obtain ⟨other, more⟩ := not_or.mp (List.mem_cons.not.mp noQuote)
    by_cases slash : c = '\\'
    · have there : arg ≠ [] := by
        rintro rfl
        exact ends (by rw [slash]; rfl)
      have last : arg.getLast? ≠ some '\\' := by
        rwa [List.getLast?_cons_of_ne_nil there] at ends
      rw [quoteLoop, if_pos slash, ih more _ last (fun empty => absurd empty there)]
      simp [slash, backslashes, List.replicate_succ']
    · have last : arg.getLast? ≠ some '\\' := by
        intro same
        have there : arg ≠ [] := by rintro rfl; cases same
        exact ends (by rwa [List.getLast?_cons_of_ne_nil there])
      rw [quoteLoop, if_neg slash, if_neg (Ne.symm other), ih more 0 last fun _ => rfl]
      simp [backslashes]

theorem readProgram_quoted {text : Str} (noQuote : '"' ∉ text) (rest : Str) :
    readProgram true (text ++ '"' :: rest) =
      (text ++ (readProgram false rest).1, (readProgram false rest).2) := by
  induction text with
  | nil => simp [readProgram]
  | cons c text ih =>
    obtain ⟨other, more⟩ := not_or.mp (List.mem_cons.not.mp noQuote)
    simp [readProgram, Ne.symm other, ih more]

theorem readProgram_bare {text : Str} (bare : Bare text) (rest : Str) :
    readProgram false (text ++ rest) =
      (text ++ (readProgram false rest).1, (readProgram false rest).2) := by
  induction text with
  | nil => rfl
  | cons c text ih =>
    obtain ⟨⟨black, other⟩, more⟩ := List.forall_mem_cons.mp bare
    simp [readProgram, other, black, ih more]

theorem readProgram_quote {program : Str} (noQuote : '"' ∉ program)
    (ends : program.getLast? ≠ some '\\') (rest : Str) :
    readProgram false (quote program ++ rest) =
      (program ++ (readProgram false rest).1, (readProgram false rest).2) := by
  unfold quote
  split
  · rename_i plain
    exact readProgram_bare (bare_of_plain plain.2) rest
  · rw [quoteLoop_plain noQuote 0 ends fun _ => rfl]
    simp only [backslashes, List.replicate_zero, List.nil_append, List.cons_append,
      List.append_assoc]
    exact readProgram_quoted noQuote rest

/-! ### The line -/

theorem intercalate_cons (first : Str) (more : List Str) :
    List.intercalate [' '] (first :: more) =
      first ++ List.flatMap (fun text => ' ' :: text) more := by
  induction more generalizing first with
  | nil => simp [List.intercalate]
  | cons second more ih => simp [List.intercalate_cons_cons, ih]

/-- **The engine gets the arguments it was given.** Whatever blanks, quotes and backslashes they
have, a command line that is formed is taken apart into them. A program is the path of a file: there
are no quotes in it, and no backslash at its end. -/
theorem splitCommandLine_commandLine (program : Str) (args : List Str) (line : Str)
    (formed : commandLine program args = some line) (noQuote : '"' ∉ program)
    (ends : program.getLast? ≠ some '\\') : splitCommandLine line = (program, args) := by
  unfold commandLine wide at formed
  split at formed
  · cases formed
  · obtain rfl := Option.some.inj formed
    have read := words_of_reads reads_quote args
    rw [List.map_cons, intercalate_cons, List.flatMap_map]
    unfold splitCommandLine
    rw [readProgram_quote noQuote ends]
    cases args with
    | nil => simp [readProgram, words, Mode.finish]
    | cons arg args =>
      rw [List.flatMap_cons, List.cons_append, words_between_blank rfl] at read
      rw [List.flatMap_cons, List.cons_append]
      simp [readProgram, blank, read]

/-- A directory with a blank and a backslash at its end, and a prompt with quotes. -/
theorem splitCommandLine_sample :
    splitCommandLine "\"C:\\a b\\e.exe\" \"d e\\\\\" \"say \\\"hi\\\"\" \"\"".toList =
      ("C:\\a b\\e.exe".toList, ["d e\\".toList, "say \"hi\"".toList, []]) :=
  splitCommandLine_commandLine _ _ _ (by decide) (by decide) (by decide)

/-! ### Termination -/

/-- The table of `termination_lock`, and who refers to its locks. -/
def terminationLocks : Machine (KeyedLocks.State Nat) (KeyedLocks.Step Nat) :=
  KeyedLocks.machine Nat

/-- **One operation at a time works on a process**, and it waits (or, of `try_lock`,
gives up) only while another works on the same one; however the table is cleaned in
between. An entry is dropped only when nobody refers to it, so that two callers never
get two locks for one process. -/
theorem terminationLocks_exclusive (s : KeyedLocks.State Nat)
    (reached : terminationLocks.Reachable s) :
    (s.holders.map (·.key)).Nodup ∧
    ∀ index (handle : KeyedLocks.Handle Nat), s.handles[index]? = some handle →
      ((terminationLocks.next s (.lock index)).isSome ↔ handle.key ∉ s.holders.map (·.key)) :=
  ⟨KeyedLocks.exclusive reached, fun _ _ found => KeyedLocks.lock_enabled_iff reached found⟩

/-- A process is to be stopped while its slots are saved; the operation on another process is
over. -/
theorem terminationLocks_sample :
    ∃ s, terminationLocks.run terminationLocks.init
        [.get 7, .lock 0, .retain, .get 7, .get 8, .lock 2, .unlock 2, .drop 2] = some s ∧
      (terminationLocks.next s (.lock 1)).isSome = false ∧ (s.holders.map (·.key)).Nodup := by
  refine ⟨_, rfl, ?_⟩
  have reached : terminationLocks.Reachable _ :=
    ⟨[.get 7, .lock 0, .retain, .get 7, .get 8, .lock 2, .unlock 2, .drop 2], rfl⟩
  obtain ⟨nodup, enabled⟩ := terminationLocks_exclusive _ reached
  refine ⟨Bool.eq_false_iff.mpr ?_, nodup⟩
  exact (enabled 1 _ rfl).not.mpr (not_not.mpr (by decide))

end LlamaServerManager.Launch
