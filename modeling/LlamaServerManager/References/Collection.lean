import LlamaServerManager.References.Reading
import LlamaServerManager.Lib.Except

/-!
What a collection of references holds once it is complete.

Each insertion adds the readings of its value and takes nothing away. The loop
over preset files keeps that every preset known is read or on the stack, and that
what was read is held in full (`Progress`); with the stack empty every reachable
preset has been read (`preset_collected`). The names under which presets are
looked for are those that the configuration and the presets give (`Closed`).
-/

namespace LlamaServerManager.References

open Lib Lib.Text

namespace ModelArtifactReferences

/-- The references of a kind. -/
def of (references : ModelArtifactReferences) : ModelArgumentKind → List Str
  | .exactPath => references.exactPaths
  | .modelDirectory => references.modelDirectories
  | .presetFile => references.presetFiles

/-- One collection holds all of the other. -/
def Within (a b : ModelArtifactReferences) : Prop := ∀ kind, a.of kind ⊆ b.of kind

theorem Within.refl (a : ModelArtifactReferences) : a.Within a := fun _ _ mem => mem

theorem Within.trans {a b c : ModelArtifactReferences} (ab : a.Within b) (bc : b.Within c) :
    a.Within c := fun kind _ mem => bc kind (ab kind mem)

/-- The collection holds the readings of a value of that kind. -/
def Holds (references : ModelArtifactReferences) (kind : ModelArgumentKind)
    (readings : List Str) : Prop := readings ⊆ references.of kind

theorem Holds.within {a b : ModelArtifactReferences} {kind : ModelArgumentKind}
    {readings : List Str} (holds : a.Holds kind readings) (within : a.Within b) :
    b.Holds kind readings := fun _ mem => within kind (holds mem)

end ModelArtifactReferences

open ModelArtifactReferences

/-! ### Insertions -/

@[simp] theorem mem_insertPossibleGgufPath {references : List Str} {value text : Str} :
    text ∈ insertPossibleGgufPath references value ↔
      text ∈ ggufReadings value ∨ text ∈ references := by
  simp [insertPossibleGgufPath]

section Presets

variable (host : Host)

/-- What `insert_path_with_working_directory` inserts. -/
def pathReadings (value : Str) : List Str :=
  if unquote value = [] then [] else [unquote value, host.fullPath (unquote value)]

theorem mem_insertPathWithWorkingDirectory {references : List Str} {value text : Str} :
    text ∈ insertPathWithWorkingDirectory host references value ↔
      text ∈ pathReadings host value ∨ text ∈ references := by
  unfold insertPathWithWorkingDirectory pathReadings Host.fullPath
  by_cases blank : unquote value = []
  · simp [blank]
  · by_cases rooted : host.isAbsolute (unquote value)
    · simp [blank, rooted]
    · simp only [blank, rooted, if_false, Bool.false_eq_true, SortedSet.mem_insert,
        List.mem_cons, List.not_mem_nil, or_false]
      exact or_left_comm.trans or_assoc.symm

theorem mem_insertGgufPathsWithWorkingDirectory {references : List Str} {value text : Str} :
    text ∈ insertGgufPathsWithWorkingDirectory host references value ↔
      text ∈ (ggufReadings value).flatMap (pathReadings host) ∨ text ∈ references := by
  have folded : ∀ (values held : List Str),
      text ∈ values.foldl (insertPathWithWorkingDirectory host) held ↔
        text ∈ values.flatMap (pathReadings host) ∨ text ∈ held := by
    intro values
    induction values with
    | nil => simp
    | cons first values ih =>
      intro held
      rw [List.foldl_cons, ih, mem_insertPathWithWorkingDirectory, List.flatMap_cons,
        List.mem_append]
      exact or_left_comm.trans or_assoc.symm
  unfold insertGgufPathsWithWorkingDirectory
  rw [folded]
  simp

/-- What the value of a preset key is read as. -/
def entryReadings (kind : ModelArgumentKind) (value : Str) : List Str :=
  match kind with
  | .exactPath => (ggufReadings value).flatMap (pathReadings host)
  | .modelDirectory | .presetFile => pathReadings host value

/-- What the value of an argument is read as. -/
def argumentReadings (kind : ModelArgumentKind) (value : Str) : List Str :=
  match kind with
  | .exactPath => ggufReadings value
  | .modelDirectory | .presetFile => [trimChars value]

variable {host}

theorem insertPresetEntry_spec {path : Str} {number : Nat} {key value : Str}
    {references after : ModelArtifactReferences}
    (ok : insertPresetEntry host path number references key value = .ok after) :
    references.Within after ∧
      (∀ kind, presetArgumentKind key = some kind →
        after.Holds kind (entryReadings host kind value)) ∧
      ∀ text ∈ after.presetFiles, text ∈ references.presetFiles ∨
        presetArgumentKind key = some .presetFile ∧ text ∈ pathReadings host value := by
  -- the reading of any `.gguf` only adds
  have first : ∀ mentioned : ModelArtifactReferences,
      mentioned = (if containsText gguf (value.map Char.toLower) then
        { references with
          exactPaths := insertGgufPathsWithWorkingDirectory host references.exactPaths value }
        else references) → references.Within mentioned := by
    rintro _ rfl kind text mem
    split
    · cases kind with
      | exactPath => exact (mem_insertGgufPathsWithWorkingDirectory host).mpr (.inr mem)
      | modelDirectory => exact mem
      | presetFile => exact mem
    · exact mem
  unfold insertPresetEntry at ok
  generalize mentionedEq : (if containsText gguf (value.map Char.toLower) then
    { references with
      exactPaths := insertGgufPathsWithWorkingDirectory host references.exactPaths value }
    else references) = mentioned at ok
  have within := first mentioned mentionedEq.symm
  have same : mentioned.presetFiles = references.presetFiles := by
    rw [← mentionedEq]
    split <;> rfl
  cases known : presetArgumentKind key with
  | none =>
    simp only [known, Except.ok.injEq] at ok
    subst ok
    exact ⟨within, fun kind none => (by cases none), fun text mem => .inl (same ▸ mem)⟩
  | some kind =>
    by_cases blank : value = []
    · simp [known, blank] at ok
    · simp only [known, blank, if_false] at ok
      -- the field of the kind gets the readings, the others stay
      suffices adds : ∀ other text, text ∈ after.of other ↔
          other = kind ∧ text ∈ entryReadings host kind value ∨ text ∈ mentioned.of other by
        refine ⟨within.trans fun other text mem => (adds other text).mpr (.inr mem), ?_, ?_⟩
        · rintro kind' ⟨⟩
          exact fun text mem => (adds kind text).mpr (.inl ⟨rfl, mem⟩)
        · intro text mem
          rcases (adds .presetFile text).mp mem with ⟨rfl, new⟩ | old
          · exact .inr ⟨rfl, new⟩
          · exact .inl (same ▸ old)
      intro other text
      cases kind <;> obtain rfl := Except.ok.inj ok <;> cases other <;>
        simp [of, entryReadings, mem_insertGgufPathsWithWorkingDirectory,
          mem_insertPathWithWorkingDirectory]

theorem mem_insertArgument {references : ModelArtifactReferences} {kind other : ModelArgumentKind}
    {value text : Str} :
    text ∈ (insertArgument references kind value).of other ↔
      other = kind ∧ text ∈ argumentReadings kind value ∨ text ∈ references.of other := by
  cases kind <;> cases other <;> simp [insertArgument, of, argumentReadings]

theorem within_insertArgument (references : ModelArtifactReferences) (kind : ModelArgumentKind)
    (value : Str) : references.Within (insertArgument references kind value) :=
  fun _ _ mem => mem_insertArgument.mpr (.inr mem)

theorem insertArgument_holds (references : ModelArtifactReferences) (kind : ModelArgumentKind)
    (value : Str) :
    (insertArgument references kind value).Holds kind (argumentReadings kind value) :=
  fun _ mem => mem_insertArgument.mpr (.inl ⟨rfl, mem⟩)

theorem within_insertToken (references : ModelArtifactReferences) (token : Str) :
    references.Within (insertToken references token) := by
  intro kind text mem
  unfold insertToken
  split
  · cases kind with
    | exactPath => exact mem_insertPossibleGgufPath.mpr (.inr mem)
    | modelDirectory => exact mem
    | presetFile => exact mem
  · exact mem

end Presets

/-! ### Arguments -/

variable {kind : ModelArgumentKind}

theorem modelArgumentKind_shape {flag : Str} (known : modelArgumentKind flag = some kind) :
    flag.head? = some '-' ∧ '=' ∉ flag := by
  have exact_ : ∀ flag ∈ exactPathFlags, flag.head? = some '-' ∧ '=' ∉ flag := by decide
  unfold modelArgumentKind at known
  split at known
  · rename_i mem
    exact exact_ flag mem
  · split at known
    · rename_i same
      subst same
      decide
    · split at known
      · rename_i same
        subst same
        decide
      · cases known

/-- The option at the head of the tokens, or one behind it. -/
theorem OptionValue.head_or_tail {token value : Str} {tokens : List Str}
    (option : OptionValue (token :: tokens) kind value) :
    (∃ flag, modelArgumentKind flag = some kind ∧ token.head? = some '-' ∧
      (flagAndValue token = (flag, none) ∧ tokens.head? = some value ∨
        flagAndValue token = (flag, some value))) ∨
      OptionValue tokens kind value := by
  obtain ⟨before, flag, after, known, shape⟩ := option
  obtain ⟨dash, free⟩ := modelArgumentKind_shape known
  cases before with
  | nil =>
    left
    refine ⟨flag, known, ?_⟩
    rcases shape with shape | shape
    · obtain ⟨rfl, rfl⟩ := List.cons.inj shape
      exact ⟨dash, .inl ⟨by simp [flagAndValue, splitOnce_eq_none free], rfl⟩⟩
    · obtain ⟨rfl, rfl⟩ := List.cons.inj shape
      refine ⟨by simp [dash], .inr ?_⟩
      simp [flagAndValue, splitOnce_singleton _ free]
  | cons first before =>
    right
    refine ⟨before, flag, after, known, ?_⟩
    exact shape.imp (fun shape => (List.cons.inj shape).2) fun shape => (List.cons.inj shape).2

/-- A token that does not begin with `-` is no option. -/
theorem OptionValue.tail {token value : Str} {tokens : List Str}
    (option : OptionValue (token :: tokens) kind value) (plain : ¬ token.head? = some '-') :
    OptionValue tokens kind value := by
  rcases option.head_or_tail with ⟨_, _, dash, _⟩ | tail
  · exact absurd dash plain
  · exact tail

/-- An option behind a token. -/
theorem OptionValue.cons {value : Str} {tokens : List Str} (option : OptionValue tokens kind value)
    (token : Str) :
    OptionValue (token :: tokens) kind value := by
  obtain ⟨before, flag, after, known, shape⟩ := option
  exact ⟨token :: before, flag, after, known, shape.imp (congrArg _) (congrArg _)⟩

theorem flagAndValue_some {token flag value : Str}
    (split : flagAndValue token = (flag, some value)) : token = flag ++ '=' :: value := by
  unfold flagAndValue at split
  cases found : splitOnce ['='] token with
  | none => simp [found] at split
  | some parts =>
    obtain ⟨rfl, rfl⟩ : parts.1 = flag ∧ parts.2 = value := by simpa [found] using split
    exact eq_of_splitOnce found

theorem flagAndValue_none {token flag : Str} (split : flagAndValue token = (flag, none)) :
    token = flag := by
  unfold flagAndValue at split
  cases found : splitOnce ['='] token with
  | none => simpa [found] using split
  | some parts => simp [found] at split

/-- What reading arguments makes of the references: nothing is taken away, the
value of every option is held, and the presets that are new are those of options. -/
structure ReadsOptions (references : ModelArtifactReferences) (tokens : List Str)
    (after : ModelArtifactReferences) : Prop where
  within : references.Within after
  holds : ∀ kind value, OptionValue tokens kind value →
    after.Holds kind (argumentReadings kind value)
  presets : ∀ text ∈ after.presetFiles, text ∈ references.presetFiles ∨
    ∃ value, OptionValue tokens .presetFile value ∧ text = trimChars value

namespace ReadsOptions

variable {references after : ModelArtifactReferences} {token : Str} {all tokens : List Str}

theorem presets_of_insertToken {text : Str}
    (mem : text ∈ (insertToken references token).presetFiles) :
    text ∈ references.presetFiles := by
  unfold insertToken at mem
  split at mem <;> exact mem

/-- A token that is no option. -/
theorem plain (reads : ReadsOptions (insertToken references token) tokens after)
    (behind : ∀ kind value, OptionValue (token :: tokens) kind value →
      OptionValue tokens kind value) : ReadsOptions references (token :: tokens) after where
  within := (within_insertToken references token).trans reads.within
  holds kind value option := reads.holds kind value (behind kind value option)
  presets text mem := (reads.presets text mem).imp presets_of_insertToken
    fun ⟨value, option, same⟩ => ⟨value, option.cons token, same⟩

/-- An option, and what is behind it. -/
theorem option {kind : ModelArgumentKind} {value : Str}
    (reads : ReadsOptions (insertArgument (insertToken references token) kind value) tokens after)
    (here : OptionValue all kind value)
    (split : ∀ kind' value', OptionValue all kind' value' →
      kind' = kind ∧ value' = value ∨ OptionValue tokens kind' value')
    (behind : ∀ value, OptionValue tokens .presetFile value → OptionValue all .presetFile value) :
    ReadsOptions references all after := by
  refine ⟨((within_insertToken references token).trans (within_insertArgument _ _ _)).trans
    reads.within, fun kind' value' option => ?_, fun text mem => ?_⟩
  · rcases split kind' value' option with ⟨rfl, rfl⟩ | option
    · exact (insertArgument_holds _ _ _).within reads.within
    · exact reads.holds kind' value' option
  · rcases reads.presets text mem with old | ⟨value', option, same⟩
    · have held : text ∈ (insertArgument (insertToken references token) kind value).of
          .presetFile := old
      rcases mem_insertArgument.mp held with ⟨rfl, new⟩ | old
      · exact .inr ⟨value, here, List.mem_singleton.mp new⟩
      · exact .inl (presets_of_insertToken old)
    · exact .inr ⟨value', behind value' option, same⟩

end ReadsOptions

/-- **Reading arguments reads every option, and nothing but options.** -/
theorem collectModelArgumentReferences_spec {source : String}
    {references after : ModelArtifactReferences} {tokens : List Str}
    (ok : collectModelArgumentReferences source references tokens = .ok after) :
    ReadsOptions references tokens after := by
  fun_induction collectModelArgumentReferences source references tokens with
  | case1 references =>
    obtain rfl := Except.ok.inj ok
    refine ⟨.refl _, ?_, fun _ mem => .inl mem⟩
    rintro kind value ⟨before, flag, rest, _, shape | shape⟩ <;> simp at shape
  | case2 references token read flag inlineValue isFlag tokens unknown ih =>
    refine (ih ok).plain fun kind value option => ?_
    rcases option.head_or_tail with ⟨flag', known, _, here⟩ | tail
    · -- the token at hand is no model argument
      have same : flag' = flag := by
        rcases here with ⟨here, _⟩ | here <;> simpa [here] using congrArg Prod.fst isFlag
      simp [same, unknown] at known
    · exact tail
  | case3 => cases ok
  | case4 references token read flag kind value tokens known _ isFlag ih =>
    refine (ih ok).option
      ⟨[], flag, tokens, known, .inr (congrArg (· :: tokens) (flagAndValue_some isFlag))⟩
      (fun kind' value' option => ?_) fun _ option => option.cons token
    rcases option.head_or_tail with ⟨flag', known', _, ⟨here, _⟩ | here⟩ | tail
    · simp [here] at isFlag
    · obtain ⟨rfl, rfl⟩ : flag' = flag ∧ value' = value := by simpa [here] using isFlag
      exact .inl ⟨Option.some.inj (known'.symm.trans known), rfl⟩
    · exact .inr tail
  | case5 => cases ok
  | case6 => cases ok
  | case7 references token read flag kind value tokens known plain isFlag ih =>
    refine (ih ok).option
      ⟨[], flag, tokens, known,
        .inl (congrArg (· :: value :: tokens) (flagAndValue_none isFlag))⟩
      (fun kind' value' option => ?_) fun _ option => (option.cons value).cons token
    rcases option.head_or_tail with ⟨flag', known', _, ⟨here, next⟩ | here⟩ | tail
    · obtain rfl : flag' = flag := by simpa [here] using isFlag
      exact .inl ⟨Option.some.inj (known'.symm.trans known), by simpa using next.symm⟩
    · simp [here] at isFlag
    · exact .inr (tail.tail plain)

/-! ### Preset files -/

section Files

variable {host : Host}

/-- What a line says does not depend on where it stands. -/
theorem presetLine_moved {path line : Str} {number : Nat} {entry : Option (Str × Str)}
    (other : Str) (other' : Nat) (ok : presetLine path number line = .ok entry) :
    presetLine other other' line = .ok entry := by
  unfold presetLine at ok ⊢
  cases trimmed : trimChars line with
  | nil => simpa [trimmed] using ok
  | cons first rest =>
    simp only [trimmed] at ok ⊢
    split_ifs at ok ⊢ with comment title
    · exact ok
    · cases close : splitOnce [']'] rest with
      | none => simp [close] at ok
      | some parts =>
        simp only [close] at ok ⊢
        split_ifs at ok ⊢
        exact ok
    · cases equals : splitOnce ['='] (first :: rest) with
      | none => simp [equals] at ok
      | some parts =>
        simp only [equals] at ok ⊢
        split_ifs at ok ⊢
        exact ok

/-- The collection holds what the contents of a preset say. -/
def HoldsEntries (host : Host) (references : ModelArtifactReferences) (lines : List Str) : Prop :=
  ∀ line ∈ lines, ∀ path number key value,
    presetLine path number line = .ok (some (key, value)) →
      ∀ kind, presetArgumentKind key = some kind →
        references.Holds kind (entryReadings host kind value)

theorem readPresetLines_spec {path : Str} {number : Nat} {lines : List Str}
    {references after : ModelArtifactReferences}
    (ok : readPresetLines host path references number lines = .ok after) :
    references.Within after ∧ HoldsEntries host after lines ∧
      ∀ text ∈ after.presetFiles, text ∈ references.presetFiles ∨
        ∃ line ∈ lines, ∃ number key value, presetLine path number line = .ok (some (key, value)) ∧
          presetArgumentKind key = some .presetFile ∧ text ∈ pathReadings host value := by
  induction lines generalizing references number with
  | nil =>
    obtain rfl := Except.ok.inj ok
    exact ⟨.refl _, fun _ mem => absurd mem List.not_mem_nil, fun _ mem => .inl mem⟩
  | cons line lines ih =>
    have later : ∀ {references : ModelArtifactReferences} {text : Str},
        (text ∈ references.presetFiles ∨ ∃ line ∈ lines, ∃ number key value,
          presetLine path number line = .ok (some (key, value)) ∧
            presetArgumentKind key = some .presetFile ∧ text ∈ pathReadings host value) →
        text ∈ references.presetFiles ∨ ∃ other ∈ line :: lines, ∃ number key value,
          presetLine path number other = .ok (some (key, value)) ∧
            presetArgumentKind key = some .presetFile ∧ text ∈ pathReadings host value :=
      fun named => named.imp_right fun ⟨other, mem, entry⟩ =>
        ⟨other, List.mem_cons_of_mem _ mem, entry⟩
    unfold readPresetLines at ok
    cases parsed : presetLine path number line with
    | error fault => simp [parsed, bind, Except.bind] at ok
    | ok entry =>
      cases entry with
      | none =>
        obtain ⟨within, holds, named⟩ := ih (by simpa [parsed, bind, Except.bind] using ok)
        refine ⟨within, fun other mem path' number' key value entry => ?_,
          fun text mem => later (named text mem)⟩
        rcases List.mem_cons.mp mem with rfl | mem
        · simp [presetLine_moved path number entry] at parsed
        · exact holds other mem path' number' key value entry
      | some entry =>
        obtain ⟨key, value⟩ := entry
        cases inserted : insertPresetEntry host path number references key value with
        | error fault => simp [parsed, inserted, bind, Except.bind] at ok
        | ok next =>
          obtain ⟨within, holds, named⟩ :=
            ih (by simpa [parsed, inserted, bind, Except.bind] using ok)
          obtain ⟨first, entryHolds, entryNamed⟩ := insertPresetEntry_spec inserted
          refine ⟨first.trans within, fun other mem path' number' key' value' entry => ?_, ?_⟩
          · rcases List.mem_cons.mp mem with rfl | mem
            · have same := presetLine_moved path number entry
              obtain ⟨rfl, rfl⟩ : key = key' ∧ value = value' := by simpa [parsed] using same
              exact fun kind known => (entryHolds kind known).within within
            · exact holds other mem path' number' key' value' entry
          · intro text mem
            rcases later (named text mem) with old | new
            · exact (entryNamed text old).imp_right fun ⟨known, read⟩ =>
                ⟨line, List.mem_cons_self, number, key, value, parsed, known, read⟩
            · exact .inr new

/-- The file is a readable preset, and the collection holds what it says. -/
structure Collected (host : Host) (references : ModelArtifactReferences) (path contents : Str) :
    Prop where
  metadata : ∃ metadata, host.metadata path = .ok metadata ∧ metadata.isFile ∧
    metadata.len ≤ maxModelPresetBytes
  read : host.readToString path = .ok contents
  holds : HoldsEntries host references (linesOf (normalizeNewlines contents))

theorem Collected.within {a b : ModelArtifactReferences} {path contents : Str}
    (collected : Collected host a path contents) (within : a.Within b) :
    Collected host b path contents :=
  { collected with
    holds := fun line mem path number key value entry kind known =>
      (collected.holds line mem path number key value entry kind known).within within }

theorem collectReferencesFromModelPreset_spec {path : Str} {len : Nat}
    {references after : ModelArtifactReferences}
    (ok : collectReferencesFromModelPreset host references path = .ok (after, len)) :
    references.Within after ∧ ∃ contents, Collected host after path contents ∧
      ∀ text ∈ after.presetFiles, text ∈ references.presetFiles ∨
        ∃ key value, PresetEntry path contents key value ∧
          presetArgumentKind key = some .presetFile ∧ text ∈ pathReadings host value := by
  unfold collectReferencesFromModelPreset at ok
  cases found : host.metadata path with
  | error fault => simp [found] at ok
  | ok metadata =>
    simp only [found] at ok
    split at ok
    · cases ok
    · rename_i isFile
      split at ok
      · cases ok
      · rename_i small
        cases read : host.readToString path with
        | error fault => simp [read] at ok
        | ok contents =>
          cases lines : readPresetLines host path references 1
              (linesOf (normalizeNewlines contents)) with
          | error fault => simp [read, lines, bind, Except.bind] at ok
          | ok collected =>
            obtain ⟨rfl, _⟩ : collected = after ∧ metadata.len = len := by
              simpa [read, lines, bind, Except.bind] using ok
            obtain ⟨within, holds, named⟩ := readPresetLines_spec lines
            refine ⟨within, contents, ⟨⟨metadata, found, by simpa using isFile,
              by simpa using small⟩, read, holds⟩, fun text mem => ?_⟩
            exact (named text mem).imp_right fun ⟨line, mem, number, key, value, parsed, known,
              read⟩ => ⟨key, value, ⟨line, mem, number, parsed⟩, known, read⟩

/-! ### The loop over preset files -/

/-- Every reference to a preset is queued, what is queued is on the stack or
visited, and what was visited is held. All names are names of presets. -/
structure Progress (host : Host) (named : Str → Prop) (collecting : Collecting) : Prop where
  names : ∀ name ∈ collecting.references.presetFiles, named name
  stack : ∀ name ∈ collecting.pending, named name
  queued : collecting.references.presetFiles ⊆ collecting.queued
  pending : ∀ path ∈ collecting.queued, path ∈ collecting.pending ∨
    host.enginePathIdentity (presetFile host path) ∈ collecting.visited
  visited : ∀ identity ∈ collecting.visited, ∃ name contents, named name ∧
    host.enginePathIdentity (presetFile host name) = identity ∧
      Collected host collecting.references (presetFile host name) contents

/-- The names are closed under what the presets of these names say. -/
def Closed (host : Host) (named : Str → Prop) : Prop :=
  ∀ name contents key value, named name →
    host.readToString (presetFile host name) = .ok contents →
    PresetEntry (presetFile host name) contents key value →
    presetArgumentKind key = some .presetFile → ∀ text ∈ pathReadings host value, named text

/-- What the queueing of new references keeps of a state, and adds to it. -/
structure Queues (before after : Collecting) (nested : List Str) : Prop where
  references : after.references = before.references
  visited : after.visited = before.visited
  queued : ∀ path, path ∈ after.queued ↔ path ∈ nested ∨ path ∈ before.queued
  pending : ∀ path ∈ after.queued, path ∈ after.pending ∨ path ∈ before.queued
  stack : ∀ path ∈ after.pending, path ∈ nested ∨ path ∈ before.pending
  kept : before.pending ⊆ after.pending

theorem Collecting.queue_queues (collecting : Collecting) (nested : Str) :
    Queues collecting (collecting.queue nested) [nested] := by
  unfold Collecting.queue
  split
  · rename_i known
    exact ⟨rfl, rfl, by simpa using known, fun _ mem => .inr mem, fun _ mem => .inr mem,
      fun _ mem => mem⟩
  · refine ⟨rfl, rfl, by simp, ?_, by simp, fun _ mem => List.mem_cons_of_mem _ mem⟩
    intro path mem
    rcases SortedSet.mem_insert.mp mem with rfl | mem
    · exact .inl List.mem_cons_self
    · exact .inr mem

theorem queueAll_queues (nested : List Str) (collecting : Collecting) :
    Queues collecting (nested.foldl Collecting.queue collecting) nested := by
  induction nested generalizing collecting with
  | nil =>
    exact ⟨rfl, rfl, by simp, fun _ mem => .inr mem, fun _ mem => .inr mem, fun _ mem => mem⟩
  | cons first nested ih =>
    have one := collecting.queue_queues first
    have rest := ih (collecting.queue first)
    refine ⟨rest.references.trans one.references, rest.visited.trans one.visited, ?_, ?_, ?_,
      fun _ mem => rest.kept (one.kept mem)⟩
    · intro path
      rw [List.foldl_cons, rest.queued, one.queued, List.mem_singleton, List.mem_cons]
      tauto
    · intro path mem
      rcases rest.pending path mem with pending | queued
      · exact .inl pending
      · exact (one.pending path queued).imp_left fun pending => rest.kept pending
    · intro path mem
      rcases rest.stack path mem with new | mem
      · exact .inl (List.mem_cons_of_mem _ new)
      · exact (one.stack path mem).imp_left fun new => by simp [List.mem_singleton.mp new]

variable {named : Str → Prop}

variable {collecting : Collecting}

/-- What is known is on the rest of the stack or visited. -/
theorem Progress.passes {rest : List Str} (progress : Progress host named collecting)
    (left : collecting.unvisited host = rest) :
    ∀ path ∈ collecting.queued, path ∈ rest ∨
      host.enginePathIdentity (presetFile host path) ∈ collecting.visited := by
  intro path queued
  rcases progress.pending path queued with pending | visited
  · rw [← List.takeWhile_append_dropWhile (p := fun path =>
      decide (host.enginePathIdentity (presetFile host path) ∈ collecting.visited))
      (l := collecting.pending)] at pending
    rcases List.mem_append.mp pending with passed | kept
    · exact .inr (by simpa using List.mem_takeWhile_imp passed)
    · exact .inl (left ▸ kept)
  · exact .inr visited

/-- With the stack empty, every known preset is held. -/
theorem Progress.done (progress : Progress host named collecting)
    (empty : collecting.unvisited host = []) :
    ∀ path ∈ collecting.references.presetFiles, ∃ name contents, named name ∧
      host.enginePathIdentity (presetFile host name) =
        host.enginePathIdentity (presetFile host path) ∧
        Collected host collecting.references (presetFile host name) contents := by
  intro path mem
  rcases progress.passes empty path (progress.queued mem) with pending | visited
  · exact absurd pending List.not_mem_nil
  · exact progress.visited _ visited

/-- Reading the next file keeps the progress. -/
theorem Progress.visit {path : Str} {pending : List Str} {references : ModelArtifactReferences}
    {len : Nat} (totalBytes : Nat) (closed : Closed host named)
    (progress : Progress host named collecting) (next : collecting.unvisited host = path :: pending)
    (read : collectReferencesFromModelPreset host collecting.references
      (presetFile host path) = .ok (references, len)) :
    Progress host named
      (collecting.visit host (presetFile host path) pending references totalBytes) := by
  obtain ⟨within, contents, collected, said⟩ := collectReferencesFromModelPreset_spec read
  have onStack : path :: pending ⊆ collecting.pending :=
    next ▸ (List.dropWhile_suffix _).subset
  have known : named path := progress.stack path (onStack List.mem_cons_self)
  have names : ∀ name ∈ references.presetFiles, named name := by
    intro name mem
    rcases said name mem with old | ⟨key, value, entry, isPreset, readAs⟩
    · exact progress.names name old
    · exact closed path contents key value known collected.read entry isPreset name readAs
  have queues := queueAll_queues references.presetFiles
    { references, pending, queued := collecting.queued
      visited := SortedSet.insert (host.enginePathIdentity (presetFile host path))
        collecting.visited
      totalBytes }
  unfold Collecting.visit
  constructor
  · rw [queues.references]
    exact names
  · intro name mem
    rcases queues.stack name mem with new | old
    · exact names name new
    · exact progress.stack name (onStack (List.mem_cons_of_mem _ old))
  · intro nested mem
    rw [queues.references] at mem
    exact (queues.queued nested).mpr (.inl mem)
  · intro nested mem
    rw [queues.visited]
    rcases queues.pending nested mem with pending | queued
    · exact .inl pending
    · rcases progress.passes next nested queued with left | visited
      · rcases List.mem_cons.mp left with rfl | left
        · exact .inr (SortedSet.mem_insert.mpr (.inl rfl))
        · exact .inl (queues.kept left)
      · exact .inr (SortedSet.mem_insert.mpr (.inr visited))
  · intro identity mem
    rw [queues.visited] at mem
    rw [queues.references]
    rcases SortedSet.mem_insert.mp mem with rfl | mem
    · exact ⟨path, contents, known, rfl, collected⟩
    · obtain ⟨name, contents, known, same, earlier⟩ := progress.visited identity mem
      exact ⟨name, contents, known, same, earlier.within within⟩

/-- **The loop over preset files holds what every known preset says.** -/
theorem collectPending_spec {left : Nat} {after : ModelArtifactReferences}
    (closed : Closed host named) (progress : Progress host named collecting)
    (ok : collectPending host left collecting = .ok after) :
    collecting.references.Within after ∧ ∀ path ∈ after.presetFiles, ∃ name contents, named name ∧
      host.enginePathIdentity (presetFile host name) =
        host.enginePathIdentity (presetFile host path) ∧
        Collected host after (presetFile host name) contents := by
  fun_induction collectPending host left collecting with
  | case1 collecting empty =>
    obtain rfl := Except.ok.inj ok
    exact ⟨.refl _, progress.done empty⟩
  | case2 => cases ok
  | case3 left collecting empty =>
    obtain rfl := Except.ok.inj ok
    exact ⟨.refl _, progress.done empty⟩
  | case4 left collecting path pending next resolved ih =>
    obtain ⟨⟨references, len⟩, read, ok⟩ := bind_eq_ok.mp ok
    simp only at ok
    split at ok
    · cases ok
    · split at ok
      · cases ok
      · obtain ⟨within, holds⟩ := ih references len (progress.visit _ closed next read) ok
        have visited : (collecting.visit host resolved pending references
            (collecting.totalBytes + len)).references = references :=
          (queueAll_queues _ _).references
        rw [visited] at within
        exact ⟨(collectReferencesFromModelPreset_spec read).1.trans within, holds⟩

theorem collectModelPresetReferences_spec {references after : ModelArtifactReferences}
    (closed : Closed host named) (names : ∀ name ∈ references.presetFiles, named name)
    (ok : collectModelPresetReferences host references = .ok after) :
    references.Within after ∧ ∀ path ∈ after.presetFiles, ∃ name contents, named name ∧
      host.enginePathIdentity (presetFile host name) =
        host.enginePathIdentity (presetFile host path) ∧
        Collected host after (presetFile host name) contents := by
  unfold collectModelPresetReferences at ok
  split at ok
  · rename_i none
    obtain rfl := Except.ok.inj ok
    exact ⟨.refl _, fun path mem => absurd (none ▸ mem) List.not_mem_nil⟩
  · split at ok
    · cases ok
    · have start : Progress host named
          { references
            pending := references.presetFiles.reverse
            queued := references.presetFiles
            visited := []
            totalBytes := 0 } :=
        ⟨names, fun name mem => names name (List.mem_reverse.mp mem), fun _ mem => mem,
          fun _ mem => .inl (List.mem_reverse.mpr mem),
          fun _ mem => absurd mem List.not_mem_nil⟩
      exact collectPending_spec closed start ok

end Files

end LlamaServerManager.References
