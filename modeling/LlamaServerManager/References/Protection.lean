import LlamaServerManager.References.Collection

/-!
Which users of a model `instances_referencing_models` names.

A configuration's collection is complete (`Complete`): it holds the readings of
every value the configuration leads to. A legible path is among them, so a
legible use of a target makes the collection match it (`legibleUse_matches`).
What is not legible can be passed over: an apostrophe in a list hides what
follows it, and a bare name is not looked at in the working directory.
-/

namespace LlamaServerManager.References

open Lib Lib.Text ModelArtifactReferences

/-! ### A configuration's collection -/

/-- The collection holds all that the configuration leads to. -/
structure Complete (host : Host) (instance_ : InstanceConfig)
    (references : ModelArtifactReferences) : Prop where
  fields : ∀ value ∈ [instance_.modelPath, instance_.draftModelPath, instance_.mmprojPath,
    instance_.loraPath, instance_.loraScaled], references.Holds .exactPath (ggufReadings value)
  modelsDir : trimChars instance_.modelsDir ≠ [] →
    trimChars instance_.modelsDir ∈ references.modelDirectories
  modelsPreset : trimChars instance_.modelsPreset ≠ [] →
    trimChars instance_.modelsPreset ∈ references.presetFiles
  options : ∀ tokens, IsArguments instance_ tokens → ∀ kind value, OptionValue tokens kind value →
    references.Holds kind (argumentReadings kind value)
  presets : ∀ path ∈ references.presetFiles, ∃ name contents, PresetNamed host instance_ name ∧
    host.enginePathIdentity (presetFile host name) =
      host.enginePathIdentity (presetFile host path) ∧
      Collected host references (presetFile host name) contents

theorem fieldReferences_exactPaths (instance_ : InstanceConfig) :
    ∀ value ∈ [instance_.modelPath, instance_.draftModelPath, instance_.mmprojPath,
      instance_.loraPath, instance_.loraScaled],
      (fieldReferences instance_).Holds .exactPath (ggufReadings value) := by
  have folded : ∀ (values held : List Str), ∀ value ∈ values, ∀ text ∈ ggufReadings value,
      text ∈ values.foldl insertPossibleGgufPath held := by
    have kept : ∀ (values held : List Str), held ⊆ values.foldl insertPossibleGgufPath held := by
      intro values
      induction values with
      | nil => exact fun held _ mem => mem
      | cons first values ih =>
        exact fun held _ mem => ih _ (mem_insertPossibleGgufPath.mpr (.inr mem))
    intro values
    induction values with
    | nil => exact fun _ _ mem => absurd mem List.not_mem_nil
    | cons first values ih =>
      intro held value mem text read
      rcases List.mem_cons.mp mem with rfl | mem
      · exact kept values _ (mem_insertPossibleGgufPath.mpr (.inl read))
      · exact ih _ value mem text read
  exact fun value mem text read => folded _ [] value mem text read

/-- The tokens of a configuration are read. -/
theorem collectCustomArgs_spec {instance_ : InstanceConfig}
    {references after : ModelArtifactReferences}
    (ok : collectCustomArgs references instance_ = .ok after) :
    ∃ tokens, customTokens instance_ = .ok tokens ∧ ReadsOptions references tokens after := by
  obtain ⟨tokens, split, collected⟩ := bind_eq_ok.mp ok
  exact ⟨tokens, split, collectModelArgumentReferences_spec collected⟩

theorem collectManualCommand_spec {instance_ : InstanceConfig}
    {references after : ModelArtifactReferences}
    (ok : collectManualCommand references instance_ = .ok after) :
    trimChars instance_.manualCommand = [] ∧ after = references ∨
      trimChars instance_.manualCommand ≠ [] ∧
        ∃ tokens, manualTokens instance_ = .ok tokens ∧ ReadsOptions references tokens after := by
  unfold collectManualCommand at ok
  split at ok
  · rename_i blank
    exact .inl ⟨blank, (Except.ok.inj ok).symm⟩
  · rename_i present
    obtain ⟨tokens, split, collected⟩ := bind_eq_ok.mp ok
    exact .inr ⟨present, tokens, split, collectModelArgumentReferences_spec collected⟩

section Configuration

variable {host : Host} {instance_ : InstanceConfig} {references : ModelArtifactReferences}

/-! Every preset that is looked for has a name that the configuration or a preset gives. -/

theorem fieldReferences_named :
    ∀ name ∈ (fieldReferences instance_).presetFiles, PresetNamed host instance_ name := by
  intro name mem
  by_cases blank : trimChars instance_.modelsPreset = []
  · simp [fieldReferences, blank] at mem
  · obtain rfl : name = trimChars instance_.modelsPreset := by
      simpa [fieldReferences, blank] using mem
    exact .field blank

theorem ReadsOptions.named {after : ModelArtifactReferences} {tokens : List Str}
    (reads : ReadsOptions references tokens after) (arguments : IsArguments instance_ tokens)
    (named : ∀ name ∈ references.presetFiles, PresetNamed host instance_ name) :
    ∀ name ∈ after.presetFiles, PresetNamed host instance_ name := by
  intro name mem
  rcases reads.presets name mem with old | ⟨value, option, rfl⟩
  · exact named name old
  · exact .option arguments option

theorem presetNamed_closed : Closed host (PresetNamed host instance_) := by
  intro name contents key value named read entry isPreset text mem
  unfold pathReadings at mem
  split at mem
  · exact absurd mem List.not_mem_nil
  · rename_i present
    exact .nested named read entry isPreset present mem

/-- **A collection that is read without a fault is complete.** -/
theorem modelArtifactReferences_complete
    (ok : modelArtifactReferences host instance_ = .ok references) :
    Complete host instance_ references ∧ (∃ tokens, customTokens instance_ = .ok tokens) ∧
      (trimChars instance_.manualCommand ≠ [] → ∃ tokens, manualTokens instance_ = .ok tokens) := by
  obtain ⟨custom, readCustom, ok⟩ := bind_eq_ok.mp ok
  obtain ⟨manual, readManual, readPresets⟩ := bind_eq_ok.mp ok
  obtain ⟨customSplit, isCustom, ofCustom⟩ := collectCustomArgs_spec readCustom
  have named : ∀ name ∈ custom.presetFiles, PresetNamed host instance_ name :=
    ofCustom.named (.inl isCustom) fieldReferences_named
  -- the manual command, where there is one
  obtain ⟨fromCustom, named, ofManual⟩ : custom.Within manual ∧
      (∀ name ∈ manual.presetFiles, PresetNamed host instance_ name) ∧
      (trimChars instance_.manualCommand ≠ [] →
        ∃ tokens, manualTokens instance_ = .ok tokens ∧ ReadsOptions custom tokens manual) := by
    rcases collectManualCommand_spec readManual with ⟨blank, rfl⟩ | ⟨present, tokens, split, reads⟩
    · exact ⟨.refl _, named, fun present => absurd blank present⟩
    · exact ⟨reads.within, reads.named (.inr ⟨present, split⟩) named,
        fun _ => ⟨tokens, split, reads⟩⟩
  obtain ⟨fromManual, presets⟩ :=
    collectModelPresetReferences_spec presetNamed_closed named readPresets
  have fromCustom := fromCustom.trans fromManual
  have fromFields := ofCustom.within.trans fromCustom
  refine ⟨⟨?_, ?_, ?_, ?_, presets⟩, ⟨_, isCustom⟩, fun present => ?_⟩
  · exact fun value mem => (fieldReferences_exactPaths instance_ value mem).within fromFields
  · intro present
    exact fromFields .modelDirectory (by simp [of, fieldReferences, present])
  · intro present
    exact fromFields .presetFile (by simp [of, fieldReferences, present])
  · rintro tokens (same | ⟨present, same⟩) kind value option
    · obtain rfl := Except.ok.inj (isCustom.symm.trans same)
      exact (ofCustom.holds kind value option).within fromCustom
    · obtain ⟨manualSplit, isManual, reads⟩ := ofManual present
      obtain rfl := Except.ok.inj (isManual.symm.trans same)
      exact (reads.holds kind value option).within fromManual
  · obtain ⟨manualSplit, isManual, _⟩ := ofManual present
    exact ⟨manualSplit, isManual⟩

namespace Complete

variable (complete : Complete host instance_ references)

include complete

/-- **Every reachable preset was read, through some name of its identity.** -/
theorem preset_collected (files : OneFilePerIdentity host instance_) {path : Str}
    (reached : PresetReached host instance_ path) :
    ∃ name contents, PresetNamed host instance_ name ∧
      host.enginePathIdentity (presetFile host name) = host.enginePathIdentity path ∧
        Collected host references (presetFile host name) contents := by
  induction reached with
  | field present => exact complete.presets _ (complete.modelsPreset present)
  | option arguments option =>
    exact complete.presets _ (complete.options _ arguments _ _ option (by simp [argumentReadings]))
  | nested reached read entry isPreset present ih =>
    rename_i path contents key value
    obtain ⟨name, contents', named, same, collected⟩ := ih
    obtain rfl := files _ reached name named _ _ same read collected.read
    obtain ⟨line, mem, number, parsed⟩ := entry
    refine complete.presets _ (collected.holds line mem _ number _ _ parsed _ isPreset ?_)
    simp [entryReadings, pathReadings, present]

/-- A value of a reachable preset is held. -/
theorem entry_held (files : OneFilePerIdentity host instance_) {path contents key value : Str}
    {kind : ModelArgumentKind} (reached : PresetReached host instance_ path)
    (read : host.readToString path = .ok contents) (entry : PresetEntry path contents key value)
    (known : presetArgumentKind key = some kind) :
    references.Holds kind (entryReadings host kind value) := by
  obtain ⟨name, contents', named, same, collected⟩ := complete.preset_collected files reached
  obtain rfl := files _ reached name named _ _ same read collected.read
  obtain ⟨line, mem, number, parsed⟩ := entry
  exact collected.holds line mem _ number _ _ parsed _ known

/-- A reading of a value is held as it is looked at. -/
theorem value_held (files : OneFilePerIdentity host instance_) {preset : Bool} {value path : Str}
    (isValue : ModelValue host instance_ preset value) (read : path ∈ ggufReadings value)
    (bare : unquote path = path) (nonempty : path ≠ []) :
    lookedAt host preset path ∈ references.exactPaths := by
  cases isValue with
  | loraScaled => exact complete.fields _ (by simp) read
  | option arguments option => exact complete.options _ arguments _ _ option read
  | preset reached contents entry known =>
    apply complete.entry_held files reached contents entry known
    refine List.mem_flatMap.mpr ⟨path, read, ?_⟩
    simp [pathReadings, bare, nonempty, lookedAt]

/-- **A legible path is held as it is looked at.** -/
theorem mention_held (files : OneFilePerIdentity host instance_) {mention : Mention}
    (mentions : Mentions host instance_ mention) (legible : Legible mention) :
    lookedAt host mention.preset mention.path ∈ references.exactPaths := by
  cases mentions with
  | field model mem =>
    have mem := List.mem_append_left [instance_.loraScaled] mem
    exact complete.fields _ mem (whole_read model legible.begins)
  | listed isValue formed text =>
    rename_i preset value before listed after
    have model := (formed listed (List.mem_append_right _ List.mem_cons_self)).path
    have bare := model.unquote_self legible.begins
    refine complete.value_held files isValue ?_ bare model.ne_nil
    rcases legible.apart with alone | ⟨free, even⟩
    · obtain rfl : value = listed.path := alone
      exact whole_read model legible.begins
    · rw [text]
      exact listed_read formed legible.begins free even

theorem directory_held (files : OneFilePerIdentity host instance_) {preset : Bool}
    {directory : Str} (isDirectory : ModelsDirectory host instance_ preset directory) :
    lookedAt host preset directory ∈ references.modelDirectories := by
  cases isDirectory with
  | field present => exact complete.modelsDir present
  | option arguments option =>
    exact complete.options _ arguments _ _ option (by simp [argumentReadings, lookedAt])
  | preset reached contents entry known present =>
    apply complete.entry_held files reached contents entry known
    simp [entryReadings, pathReadings, present, lookedAt]

end Complete

/-! ### Matching -/

theorem sameShardSet_of_inShardSet {target path : Str} (shard : InShardSet host target path) :
    sameShardSet host path (host.resolved target) = true := by
  obtain ⟨left, right, leftDir, rightDir, isLeft, isRight, inLeft, inRight, base, total, dir⟩ :=
    shard
  simp [sameShardSet, isLeft, isRight, inLeft, inRight, base, total, dir]

/-- **A legible use of a target makes a complete collection match it.** -/
theorem legibleUse_matches {target : Str} (complete : Complete host instance_ references)
    (files : OneFilePerIdentity host instance_) (uses : LegibleUse host instance_ target) :
    modelReferenceMatchesTarget host references target = true := by
  simp only [modelReferenceMatchesTarget, Bool.or_eq_true, List.any_eq_true]
  cases uses with
  | model mentions legible means =>
    refine .inl ⟨_, complete.mention_held files mentions legible, ?_⟩
    rcases means with same | shard
    · exact .inl (by simpa using same)
    · exact .inr (sameShardSet_of_inShardSet shard)
  | directory isDirectory within =>
    exact .inr ⟨_, complete.directory_held files isDirectory, within⟩

theorem referencesAnyTarget_spec {targets : List Str} {referenced : Bool}
    (ok : referencesAnyTarget host targets instance_ = .ok referenced) :
    (OneFilePerIdentity host instance_ → ReadInFull host instance_) ∧
      (OneFilePerIdentity host instance_ →
        (∃ target ∈ targets, LegibleUse host instance_ target) → referenced = true) := by
  obtain ⟨references, read, answer⟩ := bind_eq_ok.mp ok
  obtain ⟨complete, custom, manual⟩ := modelArtifactReferences_complete read
  obtain rfl := Except.ok.inj answer
  refine ⟨fun files => ⟨custom, manual, fun path reached => ?_⟩, ?_⟩
  · obtain ⟨name, contents, _, same, ⟨metadata, found, isFile, small⟩, read, _⟩ :=
      complete.preset_collected files reached
    exact ⟨presetFile host name, metadata, contents, same, found, isFile, small, read⟩
  · rintro files ⟨target, mem, uses⟩
    exact List.any_eq_true.mpr ⟨target, mem, legibleUse_matches complete files uses⟩

end Configuration

/-! ### All configurations -/

section Names

variable {host : Host} {targets names after : List Str}

theorem collectInstances_spec {instances : List (Str × InstanceConfig)}
    (ok : collectInstances host targets names instances = .ok after) :
    names ⊆ after ∧ ∀ entry ∈ instances, ∃ referenced,
      referencesAnyTarget host targets entry.2 = .ok referenced ∧
        (referenced = true → entry.2.name ∈ after) := by
  induction instances generalizing names with
  | nil =>
    obtain rfl := Except.ok.inj ok
    exact ⟨fun _ mem => mem, fun _ mem => absurd mem List.not_mem_nil⟩
  | cons entry instances ih =>
    obtain ⟨id, instance_⟩ := entry
    obtain ⟨referenced, asked, rest⟩ := bind_eq_ok.mp ok
    obtain ⟨kept, named⟩ := ih rest
    refine ⟨fun name mem => kept ?_, fun entry mem => ?_⟩
    · split
      · exact SortedSet.subset_insert _ _ mem
      · exact mem
    · rcases List.mem_cons.mp mem with rfl | mem
      · refine ⟨referenced, asked, fun yes => kept ?_⟩
        rw [if_pos yes]
        exact SortedSet.mem_insert.mpr (.inl rfl)
      · exact named entry mem

theorem collectRunning_spec {running : List (Str × RunningInstance)}
    (ok : collectRunning host targets names running = .ok after) :
    names ⊆ after ∧ ∀ entry ∈ running, ∃ launchConfig referenced,
      entry.2.launchConfig = some launchConfig ∧
        referencesAnyTarget host targets launchConfig = .ok referenced ∧
        (referenced = true → runningName entry.1 launchConfig ∈ after) := by
  induction running generalizing names with
  | nil =>
    obtain rfl := Except.ok.inj ok
    exact ⟨fun _ mem => mem, fun _ mem => absurd mem List.not_mem_nil⟩
  | cons entry running ih =>
    obtain ⟨id, ⟨launchConfig⟩⟩ := entry
    cases launchConfig with
    | none => cases ok
    | some launchConfig =>
      obtain ⟨referenced, asked, rest⟩ := bind_eq_ok.mp ok
      obtain ⟨kept, named⟩ := ih rest
      refine ⟨fun name mem => kept ?_, fun entry mem => ?_⟩
      · split
        · exact SortedSet.subset_insert _ _ mem
        · exact mem
      · rcases List.mem_cons.mp mem with rfl | mem
        · refine ⟨launchConfig, referenced, rfl, asked, fun yes => kept ?_⟩
          rw [if_pos yes]
          exact SortedSet.mem_insert.mpr (.inl rfl)
        · exact named entry mem

end Names

/-- **Every configuration that uses a target is named**, where whoever uses one uses one
legibly; and an answer means that arguments and presets could be read. What uses a
target is said in terms of the files that paths mean (`Uses`), not of what the scanner
reads. -/
theorem instancesReferencingModels_names (host : Host) (instances : List (Str × InstanceConfig))
    (running : List (Str × RunningInstance)) (targets names : List Str)
    (files : ∀ instance_, Asked instances running instance_ → OneFilePerIdentity host instance_)
    (recognizable : ∀ instance_, Asked instances running instance_ →
      Recognizable host targets instance_)
    (ok : instancesReferencingModels host instances running targets = .ok names) :
    NamesEveryUser host instances running targets names ∧
      ∀ instance_, Asked instances running instance_ → ReadInFull host instance_ := by
  obtain ⟨saved, ofSaved, ofRunning⟩ := bind_eq_ok.mp ok
  obtain ⟨_, savedNamed⟩ := collectInstances_spec ofSaved
  obtain ⟨kept, runningNamed⟩ := collectRunning_spec ofRunning
  refine ⟨⟨fun entry mem uses => ?_, fun entry mem => ?_⟩, ?_⟩
  · have asked : Asked instances running entry.2 := .inl ⟨entry, mem, rfl⟩
    obtain ⟨referenced, answered, named⟩ := savedNamed entry mem
    exact kept (named ((referencesAnyTarget_spec answered).2 (files _ asked)
      (recognizable _ asked uses)))
  · obtain ⟨launchConfig, referenced, isConfig, answered, named⟩ := runningNamed entry mem
    have asked : Asked instances running launchConfig := .inr ⟨entry, mem, isConfig⟩
    exact ⟨launchConfig, isConfig, fun uses => named ((referencesAnyTarget_spec answered).2
      (files _ asked) (recognizable _ asked uses))⟩
  · intro instance_ asked
    rcases asked with ⟨entry, mem, rfl⟩ | ⟨entry, mem, isConfig⟩
    · obtain ⟨referenced, answered, _⟩ := savedNamed entry mem
      exact (referencesAnyTarget_spec answered).1 (files _ (.inl ⟨entry, mem, rfl⟩))
    · obtain ⟨launchConfig, referenced, isConfig', answered, _⟩ := runningNamed entry mem
      obtain rfl := Option.some.inj (isConfig'.symm.trans isConfig)
      exact (referencesAnyTarget_spec answered).1 (files _ (.inr ⟨entry, mem, isConfig⟩))

/-! ### Runs of the check -/

/-- A POSIX host without links: its files and directories, and one readable text
with its length. -/
def plainHost (files : List Str) (textPath text : Str) (len : Nat) : Host where
  windows := false
  toLowercase := id
  canonicalize path :=
    let full := if path.head? = some '/' then path else "/w/".toList ++ path
    if full ∈ files then some full else none
  canonicalize_canonicalize := by
    intro path real found
    have rooted : real ∈ files ∧ real.head? = some '/' := by
      by_cases absolute : path.head? = some '/'
      · simp only [absolute, if_true] at found
        split at found
        · rename_i mem
          obtain rfl := Option.some.inj found
          exact ⟨mem, absolute⟩
        · cases found
      · simp only [absolute, if_false] at found
        split at found
        · rename_i mem
          obtain rfl := Option.some.inj found
          exact ⟨mem, rfl⟩
        · cases found
    simp [rooted]
  isAbsolute path := path.head? = some '/'
  join directory path := if path.head? = some '/' then path else directory ++ '/' :: path
  parent path :=
    match rsplitOnce ['/'] path with
    | none => some []
    | some (directory, _) => some (if directory = [] then ['/'] else directory)
  fileName path :=
    match rsplitOnce ['/'] path with
    | none => some path
    | some (_, name) => some name
  workingDirectory := "/w".toList
  currentDirFault := none
  metadata path :=
    if path = textPath then .ok { isFile := true, len }
    else .error "No such file or directory (os error 2)"
  readToString path :=
    if path = textPath then .ok text else .error "No such file or directory (os error 2)"

def blankConfig : InstanceConfig where
  name := "Router".toList
  modelPath := []
  draftModelPath := []
  mmprojPath := []
  loraPath := []
  loraScaled := []
  modelsDir := []
  modelsPreset := []
  customArgs := []
  manualCommand := []

/-- A preset names the model by a relative path. -/
def presetHost : Host :=
  plainHost ["/w".toList, "/w/b.gguf".toList, "/w/models.ini".toList] "/w/models.ini".toList
    "[chat]\nmodel = b.gguf ; kept\n".toList 29

def presetConfig : InstanceConfig := { blankConfig with modelsPreset := "models.ini".toList }

theorem listedPath_wellFormed {path : Str} (model : IsModelPath path) :
    (⟨[], path, none⟩ : ListedPath).WellFormed :=
  ⟨fun _ mem => absurd mem List.not_mem_nil, model, fun _ mem => by cases mem⟩

theorem presetConfig_uses : LegibleUse presetHost presetConfig "/w/b.gguf".toList := by
  have reached : PresetReached presetHost presetConfig "/w/models.ini".toList :=
    .field (by decide)
  have entry : PresetEntry "/w/models.ini".toList "[chat]\nmodel = b.gguf ; kept\n".toList
      "model".toList "b.gguf".toList := ⟨"model = b.gguf ; kept".toList, by decide, 2, rfl⟩
  have value : ModelValue presetHost presetConfig true "b.gguf".toList :=
    .preset reached rfl entry (by decide)
  have formed : ∀ other ∈ [] ++ (⟨[], "b.gguf".toList, none⟩ : ListedPath) :: [],
      other.WellFormed := by
    intro other mem
    obtain rfl := List.mem_singleton.mp mem
    exact listedPath_wellFormed ⟨by decide, forall_of_all (by decide)⟩
  have begins : ∀ c ∈ "b.gguf".toList.head?, ¬ isWhitespace c ∧ c ≠ '\'' := by
    intro c first
    obtain rfl : 'b' = c := Option.some.inj first
    decide
  exact .model (.listed value formed rfl) ⟨begins, .inl rfl⟩ (.inl rfl)

theorem presetHost_oneFile : OneFilePerIdentity presetHost presetConfig := by
  have only : ∀ path contents, presetHost.readToString path = .ok contents →
      contents = "[chat]\nmodel = b.gguf ; kept\n".toList := by
    intro path contents read
    simp only [presetHost, plainHost] at read
    split at read
    · exact (Except.ok.inj read).symm
    · cases read
  exact fun _ _ _ _ _ _ _ read read' => (only _ _ read).trans (only _ _ read').symm

/-- A model that only a preset names, by its relative path, keeps its user. -/
theorem preset_user_named :
    NamesEveryUser presetHost [("i".toList, presetConfig)] [] ["/w/b.gguf".toList]
        ["Router".toList] ∧
      ∀ instance_, Asked [("i".toList, presetConfig)] [] instance_ →
        ReadInFull presetHost instance_ := by
  have only : ∀ instance_, Asked [("i".toList, presetConfig)] [] instance_ →
      instance_ = presetConfig := by
    rintro instance_ (⟨entry, mem, rfl⟩ | ⟨entry, mem, _⟩)
    · rw [List.mem_singleton.mp mem]
    · exact absurd mem List.not_mem_nil
  refine instancesReferencingModels_names presetHost [("i".toList, presetConfig)] []
    ["/w/b.gguf".toList] ["Router".toList] ?_ ?_ rfl
  · intro instance_ asked
    rw [only instance_ asked]
    exact presetHost_oneFile
  · intro instance_ asked _
    rw [only instance_ asked]
    exact ⟨_, List.mem_singleton_self _, presetConfig_uses⟩

def apostropheHost : Host :=
  plainHost ["/w".toList, "/w/it's.gguf".toList, "/w/b.gguf".toList] [] [] 0

/-- The first adapter's name has an apostrophe, the second one is the target. -/
def apostropheConfig : InstanceConfig :=
  { blankConfig with loraScaled := "/w/it's.gguf:1,/w/b.gguf:1".toList }

theorem apostropheConfig_uses : Uses apostropheHost apostropheConfig "/w/b.gguf".toList := by
  have formed : ∀ other ∈ [(⟨[], "/w/it's.gguf".toList, some ['1']⟩ : ListedPath)] ++
      ⟨[], "/w/b.gguf".toList, some ['1']⟩ :: [], other.WellFormed := by
    intro other mem
    have scale : ∀ c ∈ ['1'], c ≠ ',' ∧ ¬ isQuote c := forall_of_all (by decide)
    simp only [List.cons_append, List.nil_append, List.mem_cons, List.not_mem_nil, or_false] at mem
    rcases mem with rfl | rfl
    · exact ⟨forall_of_all (by decide), ⟨by decide, forall_of_all (by decide)⟩,
        fun _ mem => Option.some.inj mem ▸ scale⟩
    · exact ⟨forall_of_all (by decide), ⟨by decide, forall_of_all (by decide)⟩,
        fun _ mem => Option.some.inj mem ▸ scale⟩
  exact .model (.listed .loraScaled formed rfl) (.inl rfl)

def shardHost : Host :=
  plainHost ["/w".toList, "/w/Q-00001-of-00003.gguf".toList, "/w/Q-00002-of-00003.gguf".toList]
    [] [] 0

/-- The first shard, by its bare name. -/
def shardConfig : InstanceConfig :=
  { blankConfig with modelPath := "Q-00001-of-00003.gguf".toList }

theorem shardConfig_uses :
    Uses shardHost shardConfig "/w/Q-00002-of-00003.gguf".toList := by
  have model : IsModelPath "Q-00001-of-00003.gguf".toList :=
    ⟨by decide, forall_of_all (by decide)⟩
  refine .model (.field model (by decide)) (.inr ⟨"/w/Q-00001-of-00003.gguf".toList, ?_, rfl⟩)
  exact ⟨⟨['Q'], 1, 3⟩, ⟨['Q'], 2, 3⟩, "/w".toList, "/w".toList, rfl, rfl, rfl, rfl, rfl, rfl, rfl⟩

/-- **Users whose mention is not legible are not named**: a path behind an
apostrophe in its list, and a bare shard name for a sibling. -/
theorem illegible_users_unnamed :
    (instancesReferencingModels apostropheHost [("i".toList, apostropheConfig)] []
        ["/w/b.gguf".toList] = .ok [] ∧
      ¬ NamesEveryUser apostropheHost [("i".toList, apostropheConfig)] []
        ["/w/b.gguf".toList] []) ∧
    instancesReferencingModels shardHost [("i".toList, shardConfig)] []
        ["/w/Q-00002-of-00003.gguf".toList] = .ok [] ∧
      ¬ NamesEveryUser shardHost [("i".toList, shardConfig)] []
        ["/w/Q-00002-of-00003.gguf".toList] [] := by
  refine ⟨⟨rfl, fun named => ?_⟩, rfl, fun named => ?_⟩
  · exact absurd (named.saved _ List.mem_cons_self
      ⟨_, List.mem_cons_self, apostropheConfig_uses⟩) List.not_mem_nil
  · exact absurd (named.saved _ List.mem_cons_self
      ⟨_, List.mem_cons_self, shardConfig_uses⟩) List.not_mem_nil

end LlamaServerManager.References
