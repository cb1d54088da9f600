import LlamaServerManager.Launch.CommandLine

/-!
The gate on custom arguments that a checkpoint passes (`checkpoint.rs`): the only flags
reviewed for a saved KV state are the three spellings of the lazy mode. The scanner reads
the tokens from the left; `Settings` is the grammar that it decides
(`checkpointCustomArgumentBlockers_eq_nil`).
-/

namespace LlamaServerManager.Checkpoint.CustomArguments

open Lib.Text Launch

def checkpointSafeLazyFlags : List Str :=
  ["--lazy-mode".toList, "-lzm".toList, "--tensor-read-lazy".toList]

def malformedBlocker : Str := "<malformed-custom-arguments>".toList

def positionalBlocker : Str := "<positional-argument>".toList

def pushCustomArgumentBlocker (blockers : List Str) (blocker : Str) : List Str :=
  if blockers.any (· == blocker) then blockers else blockers ++ [blocker]

def looksLikeFlag (token : Str) : Bool :=
  token.head? == some '-' && (token.dropWhile (· == '-')).any Char.isAlpha

/-- `str::to_ascii_lowercase` of the trimmed text. -/
def normalizeMode (text : Str) : Str := (trimChars text).map Char.toLower

def lazyModes : List Str := ["auto".toList, "on".toList, "off".toList]

/-- The value blocks the checkpoint: it is no mode, or not the mode set already. -/
def modeBlocks (structured : Str) (observed : Option Str) (normalized : Option Str) : Bool :=
  let valid := normalized.any lazyModes.contains
  let conflictsWithStructured := valid && !structured.isEmpty && normalized != some structured
  let conflictsWithCustom := valid && observed.any fun mode => normalized != some mode
  !valid || conflictsWithStructured || conflictsWithCustom

/-- A token split at its first `=`. -/
def splitFlag (token : Str) : Str × Option Str :=
  match splitOnce ['='] token with
  | some (flag, value) => (flag, some value)
  | none => (token, none)

/-- The tokens left after a flag and the value it may have taken. -/
def afterValue (consumedNext : Bool) (rest : List Str) : List Str :=
  if consumedNext then rest.tail else rest

theorem afterValue_length_le (consumedNext : Bool) (rest : List Str) :
    (afterValue consumedNext rest).length ≤ rest.length := by
  cases consumedNext <;> simp [afterValue]

/-- The loop of `checkpoint_custom_argument_blockers` over the tokens left. -/
def scan (structured : Str) (blockers : List Str) (observed : Option Str)
    (pendingUnknownValue : Bool) : List Str → List Str
  | [] => blockers
  | token :: rest =>
    let (flag, inlineValue) := splitFlag token
    if flag ∈ checkpointSafeLazyFlags then
      let consumedNext := inlineValue.isNone && rest.head?.any fun next => !looksLikeFlag next
      let value := if consumedNext then rest.head? else inlineValue
      let normalized := value.map normalizeMode
      if modeBlocks structured observed normalized then
        scan structured (pushCustomArgumentBlocker blockers flag) observed false
          (afterValue consumedNext rest)
      else
        scan structured blockers (observed.or normalized) false (afterValue consumedNext rest)
    else if looksLikeFlag flag then
      scan structured (pushCustomArgumentBlocker blockers flag) observed inlineValue.isNone rest
    else if pendingUnknownValue then scan structured blockers observed false rest
    else scan structured (pushCustomArgumentBlocker blockers positionalBlocker) observed false rest
termination_by tokens => tokens.length
decreasing_by
  all_goals
    first
    | exact Nat.lt_succ_of_le (afterValue_length_le _ _)
    | exact Nat.lt_succ_self _

/-- The tokens of all rows, and whether a row could not be split. -/
def rowTokens : List Str → List Str × Bool
  | [] => ([], false)
  | row :: rows =>
    let (tokens, malformed) := rowTokens rows
    match splitCommandLineChecked row with
    | .ok parsed => (parsed ++ tokens, malformed)
    | .error _ => (tokens, true)

def checkpointCustomArgumentBlockers (config : InstanceConfig) : List Str :=
  let (tokens, malformed) := rowTokens config.customArgs
  let blockers := if malformed then pushCustomArgumentBlocker [] malformedBlocker else []
  scan (normalizeMode config.lazyMode) blockers none false tokens

/-! ### The grammar -/

/-- A sequence of lazy-mode settings, and their values: `flag=value`, or a flag and a
token that does not look like one. -/
inductive Settings : List Str → List Str → Prop
  | nil : Settings [] []
  | inline {flag value : Str} {tokens values : List Str}
      (safe : flag ∈ checkpointSafeLazyFlags) (rest : Settings tokens values) :
      Settings ((flag ++ '=' :: value) :: tokens) (value :: values)
  | separate {flag value : Str} {tokens values : List Str}
      (safe : flag ∈ checkpointSafeLazyFlags) (plain : looksLikeFlag value = false)
      (rest : Settings tokens values) : Settings (flag :: value :: tokens) (value :: values)

/-- The values, one after another, set the mode that is set already or the first one. -/
def Accepted (structured : Str) : Option Str → List Str → Prop
  | _, [] => True
  | observed, value :: values =>
    modeBlocks structured observed (some (normalizeMode value)) = false ∧
      Accepted structured (observed.or (some (normalizeMode value))) values

theorem safe_free {flag : Str} (safe : flag ∈ checkpointSafeLazyFlags) : '=' ∉ flag := by
  revert flag
  decide

theorem splitFlag_inline {flag : Str} (value : Str) (safe : flag ∈ checkpointSafeLazyFlags) :
    splitFlag (flag ++ '=' :: value) = (flag, some value) := by
  rw [splitFlag, splitOnce_singleton value (safe_free safe)]

theorem splitFlag_safe {flag : Str} (safe : flag ∈ checkpointSafeLazyFlags) :
    splitFlag flag = (flag, none) := by
  rw [splitFlag, splitOnce_eq_none (safe_free safe)]

theorem eq_of_splitFlag_some {token flag value : Str}
    (cut : splitFlag token = (flag, some value)) : token = flag ++ '=' :: value := by
  unfold splitFlag at cut
  split at cut
  · rename_i name text once
    obtain ⟨rfl, rfl⟩ : name = flag ∧ text = value := by simpa using cut
    exact eq_of_splitOnce once
  · simp at cut

theorem eq_of_splitFlag_none {token flag : Str} (cut : splitFlag token = (flag, none)) :
    flag = token := by
  unfold splitFlag at cut
  split at cut
  · simp at cut
  · exact (Prod.mk.inj cut).1.symm

/-- The first token of settings names a reviewed flag. -/
theorem Settings.head_safe {token : Str} {rest values : List Str}
    (settings : Settings (token :: rest) values) :
    (splitFlag token).1 ∈ checkpointSafeLazyFlags := by
  cases settings with
  | inline safe _ =>
    rw [splitFlag_inline _ safe]
    exact safe
  | separate safe _ _ =>
    rw [splitFlag_safe safe]
    exact safe

theorem pushCustomArgumentBlocker_ne_nil (blockers : List Str) (blocker : Str) :
    pushCustomArgumentBlocker blockers blocker ≠ [] := by
  unfold pushCustomArgumentBlocker
  split
  · rintro rfl
    simp at *
  · simp

/-- A blocker stays. -/
theorem scan_ne_nil {structured : Str} {blockers : List Str} {observed : Option Str}
    {pending : Bool} {tokens : List Str} (blocked : blockers ≠ []) :
    scan structured blockers observed pending tokens ≠ [] := by
  fun_induction scan structured blockers observed pending tokens with
  | case1 => exact blocked
  | case2 _ _ _ _ _ _ _ _ _ _ _ _ _ ih => exact ih (pushCustomArgumentBlocker_ne_nil _ _)
  | case3 _ _ _ _ _ _ _ _ _ _ _ _ _ ih => exact ih blocked
  | case4 _ _ _ _ _ _ _ _ _ _ ih => exact ih (pushCustomArgumentBlocker_ne_nil _ _)
  | case5 =>
    rename_i ih
    exact ih blocked
  | case6 =>
    rename_i ih
    exact ih (pushCustomArgumentBlocker_ne_nil _ _)

/-- What a reviewed flag takes as its value, and the settings that begin with it. -/
theorem settings_cons_iff {token flag : Str} {inlineValue : Option Str} {rest values : List Str}
    (cut : splitFlag token = (flag, inlineValue)) (safe : flag ∈ checkpointSafeLazyFlags) :
    let consumedNext := inlineValue.isNone && rest.head?.any fun next => !looksLikeFlag next
    Settings (token :: rest) values ↔
      ∃ value more, (if consumedNext then rest.head? else inlineValue) = some value ∧
        values = value :: more ∧ Settings (afterValue consumedNext rest) more := by
  intro consumedNext
  constructor
  · intro settings
    cases settings with
    | @inline flag' value _ more safe' tail =>
      obtain ⟨rfl, rfl⟩ : flag' = flag ∧ some value = inlineValue := by
        simpa [splitFlag_inline value safe'] using cut
      exact ⟨value, more, rfl, rfl, tail⟩
    | @separate flag' value tokens more safe' plain tail =>
      obtain ⟨rfl, rfl⟩ : token = flag ∧ none = inlineValue := by
        simpa [splitFlag_safe safe'] using cut
      have consumed : consumedNext = true := by simp [consumedNext, plain]
      exact ⟨value, more, by simp [consumed], rfl, by simpa [afterValue, consumed] using tail⟩
  · rintro ⟨value, more, taken, rfl, tail⟩
    cases inlineValue with
    | some given =>
      obtain rfl : given = value := by simpa [consumedNext] using taken
      have stays : consumedNext = false := rfl
      rw [stays] at tail
      rw [eq_of_splitFlag_some cut]
      exact .inline safe tail
    | none =>
      obtain rfl := eq_of_splitFlag_none cut
      cases rest with
      | nil => simp at taken
      | cons next rest =>
        cases plain : looksLikeFlag next with
        | true => simp [consumedNext, plain] at taken
        | false =>
          have consumed : consumedNext = true := by simp [consumedNext, plain]
          obtain rfl : next = value := by simpa [consumed] using taken
          rw [consumed] at tail
          exact .separate safe plain tail

theorem modeBlocks_none (structured : Str) (observed : Option Str) :
    modeBlocks structured observed none = true := rfl

/-- **The scanner decides the grammar.** -/
theorem scan_eq_nil_iff {structured : Str} {observed : Option Str} {tokens : List Str} :
    scan structured [] observed false tokens = [] ↔
      ∃ values, Settings tokens values ∧ Accepted structured observed values := by
  generalize noBlocker : ([] : List Str) = blockers
  generalize nonePending : false = pending
  fun_induction scan structured blockers observed pending tokens with
  | case1 =>
    subst noBlocker
    exact ⟨fun _ => ⟨[], .nil, trivial⟩, fun _ => rfl⟩
  | case2 blockers observed pending token rest flag inlineValue cut safe consumedNext value
      normalized blocks =>
    subst noBlocker
    constructor
    · intro passes
      exact absurd passes (scan_ne_nil (pushCustomArgumentBlocker_ne_nil _ _))
    · rintro ⟨values, settings, accepted⟩
      obtain ⟨given, more, taken, rfl, -⟩ := (settings_cons_iff cut safe).mp settings
      have same : normalized = some (normalizeMode given) := congrArg (·.map normalizeMode) taken
      have passes := accepted.1
      rw [← same, blocks] at passes
      cases passes
  | case3 blockers observed pending token rest flag inlineValue cut safe consumedNext value
      normalized passes ih =>
    subst noBlocker
    rw [ih rfl rfl]
    constructor
    · rintro ⟨more, settings, accepted⟩
      cases taken : value with
      | none =>
        have missing : normalized = none := congrArg (·.map normalizeMode) taken
        rw [missing] at passes
        exact absurd (modeBlocks_none _ _) passes
      | some given =>
        have same : normalized = some (normalizeMode given) := congrArg (·.map normalizeMode) taken
        refine ⟨given :: more,
          (settings_cons_iff cut safe).mpr ⟨given, more, taken, rfl, settings⟩, ?_, ?_⟩
        · simpa [same] using passes
        · rw [← same]
          exact accepted
    · rintro ⟨values, settings, accepted⟩
      obtain ⟨given, more, taken, rfl, tail⟩ := (settings_cons_iff cut safe).mp settings
      have same : normalized = some (normalizeMode given) := congrArg (·.map normalizeMode) taken
      refine ⟨more, tail, ?_⟩
      rw [same]
      exact accepted.2
  | case4 blockers observed pending token rest flag inlineValue cut unsafe_ isFlag ih =>
    subst noBlocker
    constructor
    · intro passes
      exact absurd passes (scan_ne_nil (pushCustomArgumentBlocker_ne_nil _ _))
    · rintro ⟨values, settings, -⟩
      have safe := settings.head_safe
      rw [cut] at safe
      exact absurd safe unsafe_
  | case5 => cases nonePending
  | case6 blockers observed pending token rest flag inlineValue cut unsafe_ notFlag _ ih =>
    subst noBlocker
    constructor
    · intro passes
      exact absurd passes (scan_ne_nil (pushCustomArgumentBlocker_ne_nil _ _))
    · rintro ⟨values, settings, -⟩
      have safe := settings.head_safe
      rw [cut] at safe
      exact absurd safe unsafe_

/-- One mode that all values set: that of the structured field, where it has one. -/
def OneMode (structured : Str) (values : List Str) : Prop :=
  ∃ mode, ∀ value ∈ values,
    normalizeMode value = mode ∧ mode ∈ lazyModes ∧ (structured ≠ [] → mode = structured)

theorem modeBlocks_eq_false_iff {structured mode : Str} {observed : Option Str} :
    modeBlocks structured observed (some mode) = false ↔
      mode ∈ lazyModes ∧ (structured ≠ [] → mode = structured) ∧
        ∀ other, observed = some other → mode = other := by
  unfold modeBlocks
  by_cases valid : mode ∈ lazyModes
  · cases observed <;> simp [valid]
  · simp [valid]

theorem accepted_some_iff {structured mode : Str} {values : List Str}
    (valid : mode ∈ lazyModes) (agrees : structured ≠ [] → mode = structured) :
    Accepted structured (some mode) values ↔ ∀ value ∈ values, normalizeMode value = mode := by
  induction values with
  | nil => simp [Accepted]
  | cons value values ih =>
    simp only [Accepted, Option.some_or, ih, modeBlocks_eq_false_iff, List.forall_mem_cons]
    refine and_congr_left fun _ => ⟨fun h => h.2.2 _ rfl, ?_⟩
    rintro rfl
    exact ⟨valid, agrees, fun _ same => Option.some.inj same⟩

theorem accepted_none_iff {structured : Str} {values : List Str} :
    Accepted structured none values ↔ OneMode structured values := by
  cases values with
  | nil => exact ⟨fun _ => ⟨[], by simp⟩, fun _ => trivial⟩
  | cons value values =>
    simp only [Accepted, Option.none_or, modeBlocks_eq_false_iff]
    constructor
    · rintro ⟨⟨valid, agrees, -⟩, rest⟩
      refine ⟨normalizeMode value, List.forall_mem_cons.mpr ⟨⟨rfl, valid, agrees⟩, ?_⟩⟩
      exact fun other at_ => ⟨(accepted_some_iff valid agrees).mp rest other at_, valid, agrees⟩
    · rintro ⟨mode, all⟩
      obtain ⟨⟨rfl, valid, agrees⟩, rest⟩ := List.forall_mem_cons.mp all
      refine ⟨⟨valid, agrees, fun _ none_ => (nomatch none_)⟩, ?_⟩
      exact (accepted_some_iff valid agrees).mpr fun other at_ => (rest other at_).1

/-! ### The rows -/

/-- Every row splits, into these tokens. -/
def Splits (rows : List Str) (parsed : List (List Str)) : Prop :=
  List.Forall₂ (fun row tokens => splitCommandLineChecked row = .ok tokens) rows parsed

theorem rowTokens_eq {rows : List Str} {parsed : List (List Str)} (splits : Splits rows parsed) :
    rowTokens rows = (parsed.flatten, false) := by
  induction splits with
  | nil => rfl
  | cons first _ ih => simp [rowTokens, first, ih]

theorem splits_of_rowTokens {rows : List Str} (whole : (rowTokens rows).2 = false) :
    ∃ parsed, Splits rows parsed := by
  induction rows with
  | nil => exact ⟨[], .nil⟩
  | cons row rows ih =>
    unfold rowTokens at whole
    cases split : splitCommandLineChecked row with
    | error fault => simp [split] at whole
    | ok tokens =>
      obtain ⟨parsed, splits⟩ := ih (by simpa [split] using whole)
      exact ⟨tokens :: parsed, .cons split splits⟩

/-- **The custom-argument gate**: no blocker exactly when every row splits and the
tokens are lazy-mode settings of one mode. The grammar on the right is given on its own
(`Settings`), over argument lists of any length, and not by the scan. -/
theorem checkpointCustomArgumentBlockers_eq_nil (config : InstanceConfig) :
    checkpointCustomArgumentBlockers config = [] ↔
      ∃ parsed values, Splits config.customArgs parsed ∧ Settings parsed.flatten values ∧
        OneMode (normalizeMode config.lazyMode) values := by
  unfold checkpointCustomArgumentBlockers
  constructor
  · intro passes
    cases malformed : (rowTokens config.customArgs).2 with
    | true =>
      simp only [malformed, ↓reduceIte] at passes
      exact absurd passes (scan_ne_nil (pushCustomArgumentBlocker_ne_nil _ _))
    | false =>
      obtain ⟨parsed, splits⟩ := splits_of_rowTokens malformed
      simp only [rowTokens_eq splits, Bool.false_eq_true, ↓reduceIte, scan_eq_nil_iff] at passes
      obtain ⟨values, settings, accepted⟩ := passes
      exact ⟨parsed, values, splits, settings, accepted_none_iff.mp accepted⟩
  · rintro ⟨parsed, values, splits, settings, one⟩
    simp only [rowTokens_eq splits, Bool.false_eq_true, ↓reduceIte, scan_eq_nil_iff]
    exact ⟨values, settings, accepted_none_iff.mpr one⟩

end LlamaServerManager.Checkpoint.CustomArguments
