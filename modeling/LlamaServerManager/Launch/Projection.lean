import LlamaServerManager.Launch.CommandLine

/-!
The projection of a launch command on an engine whose flags are not all known
(`command_for_capabilities` of `commands/engine_capabilities.rs`).

* `Stable` — groups that are read again as they are, whichever of them are dropped.
* `commandForCapabilities_groups` — the projection keeps whole groups.
-/

namespace LlamaServerManager.Launch

open Lib.Text

/-- The fields of an engine's capabilities that the projection reads. -/
structure EngineCapabilities where
  status : String
  supportedFlags : List Str
deriving DecidableEq, Repr

/-- The flags of `preserve_in_conservative_mode`. -/
def conservativeFlags : List Str :=
  ["-m", "--model", "--host", "--port", "--embedding", "--reranking", "--pooling", "--api-key",
    "--api-key-file", "--ssl-key-file", "--ssl-cert-file", "--offline", "--no-ui"]
  |>.map String.toList

def preserveInConservativeMode (flag : Str) : Bool := flag ∈ conservativeFlags

/-- The flags that a partial probe found. -/
def recognizedFlags (capabilities : Option EngineCapabilities) : List Str :=
  ((capabilities.filter (·.status = "partial")).map (·.supportedFlags)).getD []

def retain (capabilities : Option EngineCapabilities) (group : CommandArgumentGroup) : Bool :=
  preserveInConservativeMode group.flag || (recognizedFlags capabilities).contains group.flag

def commandForCapabilities (command : List Str) (capabilities : Option EngineCapabilities) :
    List Str :=
  match command with
  | [] => []
  | executable :: arguments =>
    if capabilities.any (·.status = "detected") then executable :: arguments
    else executable ::
      ((commandArgumentGroups (executable :: arguments)).filter (retain capabilities)).flatMap
        (·.tokens)

theorem retain_iff {capabilities : Option EngineCapabilities} {group : CommandArgumentGroup} :
    retain capabilities group = true ↔ group.flag ∈ conservativeFlags ∨
      ∃ found ∈ capabilities, found.status = "partial" ∧ group.flag ∈ found.supportedFlags := by
  unfold retain preserveInConservativeMode recognizedFlags
  cases capabilities with
  | none => simp
  | some found => by_cases status : found.status = "partial" <;> simp [Option.filter, status]

/-! ### Groups that are read again -/

/-- Nothing follows, or a flag. -/
def Headed (tokens : List Str) : Prop := ∀ next ∈ tokens.head?, (commandFlag next).isSome

/-- The tokens of the group are its flag and all its values, whatever flag follows. -/
structure Complete (group : CommandArgumentGroup) (token : Str) (values : List Str) : Prop where
  tokens : group.tokens = token :: values
  flag : commandFlag token = some group.flag
  count : ∀ rest, Headed rest → valueCount token group.flag (values ++ rest) = values.length

/-- The command ends before all values of the flag. -/
structure Truncated (group : CommandArgumentGroup) (token : Str) (values : List Str) : Prop where
  tokens : group.tokens = token :: values
  flag : commandFlag token = some group.flag
  count : values.length < valueCount token group.flag values

/-- Only the last group may be truncated. -/
inductive Stable : List CommandArgumentGroup → Prop where
  | nil : Stable []
  | cons {group groups token values} : Complete group token values → Stable groups →
      Stable (group :: groups)
  | last {group token values} : Truncated group token values → Stable [group]

/-- Dropping groups leaves the others stable. -/
theorem Stable.filter {groups : List CommandArgumentGroup} (stable : Stable groups)
    (keep : CommandArgumentGroup → Bool) : Stable (groups.filter keep) := by
  induction stable with
  | nil => exact .nil
  | @cons group groups token values complete _ ih =>
    cases kept : keep group with
    | true => simpa [kept] using .cons complete ih
    | false => simpa [kept] using ih
  | @last group token values truncated =>
    cases kept : keep group with
    | true => simpa [kept] using .last truncated
    | false => simpa [kept] using .nil

theorem Stable.headed {groups : List CommandArgumentGroup} (stable : Stable groups) :
    Headed (groups.flatMap (·.tokens)) := by
  intro next first
  cases stable with
  | nil => cases first
  | cons complete _ =>
    rw [List.flatMap_cons, complete.tokens] at first
    obtain rfl := Option.some.inj first
    simp [complete.flag]
  | last truncated =>
    rw [List.flatMap_cons, truncated.tokens] at first
    obtain rfl := Option.some.inj first
    simp [truncated.flag]

/-- Stable groups are read again as they are. -/
theorem Stable.argumentGroups {groups : List CommandArgumentGroup} (stable : Stable groups) :
    argumentGroups (groups.flatMap (·.tokens)) = groups := by
  induction stable with
  | nil => simp [Launch.argumentGroups]
  | @cons group groups token values complete stable ih =>
    have count := complete.count _ stable.headed
    rw [List.flatMap_cons, complete.tokens, List.cons_append, Launch.argumentGroups, complete.flag]
    simp only [count, List.take_left, List.drop_left, ih]
    rw [← complete.tokens]
  | @last group token values truncated =>
    have short := Nat.le_of_lt truncated.count
    rw [List.flatMap_cons, List.flatMap_nil, List.append_nil, truncated.tokens,
      Launch.argumentGroups, truncated.flag]
    simp only [List.take_of_length_le short, List.drop_of_length_le short, Launch.argumentGroups]
    rw [← truncated.tokens]

/-- A flag has as many values whatever flag follows them. -/
theorem valueCount_take {token flag : Str} {rest : List Str}
    (enough : valueCount token flag rest ≤ rest.length) (after : List Str) (headed : Headed after) :
    valueCount token flag (rest.take (valueCount token flag rest) ++ after) =
      (rest.take (valueCount token flag rest)).length := by
  rw [List.length_take, Nat.min_eq_left enough]
  unfold valueCount at enough ⊢
  by_cases inline_ : '=' ∈ token
  · simp [inline_]
  · simp only [inline_, if_false]
    cases known : knownFlagValueCount flag with
    | some count => rfl
    | none =>
      cases rest with
      | nil =>
        cases after with
        | nil => rfl
        | cons next after =>
          have isFlag := headed next rfl
          cases named : commandFlag next with
          | none => simp [named] at isFlag
          | some flag => simp [named]
      | cons value rest =>
        cases named : commandFlag value with
        | none => simp [named]
        | some flag =>
          simp only [List.head?_cons, Option.any_some, named, Option.isNone_some,
            Bool.false_eq_true, if_false, List.take_zero, List.nil_append]
          cases after with
          | nil => rfl
          | cons next after =>
            have isFlag := headed next rfl
            cases named : commandFlag next with
            | none => simp [named] at isFlag
            | some flag => simp [named]

theorem stable_argumentGroups (tokens : List Str) : Stable (argumentGroups tokens) := by
  fun_induction argumentGroups tokens with
  | case1 => exact .nil
  | case2 token rest noFlag ih => exact ih
  | case3 token rest flag named ih =>
    by_cases enough : valueCount token flag rest ≤ rest.length
    · exact .cons ⟨rfl, named, valueCount_take enough⟩ ih
    · have short := Nat.le_of_lt (Nat.lt_of_not_le enough)
      have last : argumentGroups (rest.drop (valueCount token flag rest)) = [] := by
        rw [List.drop_of_length_le short, argumentGroups]
      rw [last]
      refine .last ⟨rfl, named, ?_⟩
      rw [List.take_of_length_le short]
      exact Nat.lt_of_not_le enough

/-! ### The projection -/

section Projection

variable {capabilities : Option EngineCapabilities}

theorem commandForCapabilities_eq (undetected : ∀ found ∈ capabilities, found.status ≠ "detected")
    (command : List Str) :
    commandForCapabilities command capabilities = command.take 1 ++
      ((commandArgumentGroups command).filter (retain capabilities)).flatMap (·.tokens) := by
  cases command with
  | nil => simp [commandForCapabilities, commandArgumentGroups, argumentGroups]
  | cons executable arguments =>
    have status : (capabilities.any fun found => decide (found.status = "detected")) = false := by
      cases capabilities with
      | none => rfl
      | some found => simpa using undetected found rfl
    simp [commandForCapabilities, status]

/-- **The projection keeps whole groups**, those of the conservative flags and of the flags
that a partial probe found. What it keeps is read again as the same groups, so that no value of
a dropped flag becomes a flag or a value of another. -/
theorem commandForCapabilities_groups
    (undetected : ∀ found ∈ capabilities, found.status ≠ "detected") (command : List Str) :
    commandForCapabilities command capabilities = command.take 1 ++
      ((commandArgumentGroups command).filter (retain capabilities)).flatMap (·.tokens) ∧
    (∀ group, retain capabilities group = true ↔ group.flag ∈ conservativeFlags ∨
      ∃ found ∈ capabilities, found.status = "partial" ∧ group.flag ∈ found.supportedFlags) ∧
    commandArgumentGroups (commandForCapabilities command capabilities) =
      (commandArgumentGroups command).filter (retain capabilities) ∧
    commandForCapabilities (commandForCapabilities command capabilities) capabilities =
      commandForCapabilities command capabilities := by
  have projected := commandForCapabilities_eq undetected command
  have again : commandArgumentGroups (commandForCapabilities command capabilities) =
      (commandArgumentGroups command).filter (retain capabilities) := by
    rw [projected]
    cases command with
    | nil => simp [commandArgumentGroups, argumentGroups]
    | cons executable arguments =>
      exact ((stable_argumentGroups arguments).filter _).argumentGroups
  refine ⟨projected, fun _ => retain_iff, again, ?_⟩
  have head : (commandForCapabilities command capabilities).take 1 = command.take 1 := by
    rw [projected]
    cases command with
    | nil => simp [commandArgumentGroups, argumentGroups]
    | cons executable arguments => rfl
  rw [commandForCapabilities_eq undetected, again, head, List.filter_filter, projected]
  simp

/-- An engine that is known to have `--metrics`. -/
def partlyProbed : EngineCapabilities := ⟨"partial", ["--metrics".toList]⟩

/-- An unknown flag is dropped with its value; a flag that lacks its value stays last. -/
theorem commandForCapabilities_groups_partly :
    commandArgumentGroups (commandForCapabilities
      (["llama-server", "--metrics", "--mystery", "8080", "--port"].map String.toList)
      (some partlyProbed)) =
    (commandArgumentGroups
      (["llama-server", "--metrics", "--mystery", "8080", "--port"].map String.toList)).filter
      (retain (some partlyProbed)) := by
  refine (commandForCapabilities_groups ?_ _).2.2.1
  rintro _ ⟨⟩
  decide

end Projection

end LlamaServerManager.Launch
