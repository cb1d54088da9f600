import LlamaServerManager.LookupCache.Store

/-!
What is left of the lookup-cache generations when a run ends, wherever it is
stopped (`generations_survive`): a later run still finds a valid generation, and
its content is one the pointers named before or the new one. The argument
follows the pointers through the phases of `commit` (`Phase`); the payloads they
name are not touched before the garbage collection, and by that only when no
valid pointer names them.

All of this is so while the reads of valid generations do not fail (`Seen`,
`Sighted`). The collection takes a generation it cannot read for none, and
removes its payload (`collection_unread`).
-/

namespace LlamaServerManager.LookupCache

open Lib

/-! ### Names -/

theorem binName_ne {id : String} {name : String} (h : name.toList.reverse.take 2 ≠ ['n', 'i']) :
    binName id ≠ name := by
  rintro rfl
  apply h
  unfold binName
  rw [String.toList_append, List.reverse_append]
  rfl

theorem binName_ne_latest (id : String) : binName id ≠ latest := binName_ne (by decide)

theorem binName_ne_previous (id : String) : binName id ≠ previous := binName_ne (by decide)

theorem binName_inj {id id' : String} (h : binName id = binName id') : id = id' := by
  have lists := congrArg String.toList h
  unfold binName at lists
  rw [String.toList_append, String.toList_append] at lists
  exact String.toList_inj.mp (List.append_cancel_right lists)

/-- A working copy has no payload's name. -/
theorem parseUuid_work (name : String) : parseUuid ("work-" ++ name) = false := by
  have head : ("work-" ++ name).toList = 'w' :: 'o' :: 'r' :: 'k' :: '-' :: name.toList := by
    rw [String.toList_append]
    rfl
  unfold parseUuid
  simp only [head]
  have notHex : isHex 'w' = false := by decide
  have notHyphenated : hyphenated ('w' :: 'o' :: 'r' :: 'k' :: '-' :: name.toList) = false := by
    unfold hyphenated
    rw [List.zipIdx_cons, List.all_cons]
    simp [notHex]
  rw [notHyphenated, List.all_cons, notHex]
  simp

theorem work_ne_binName {id name : String} (parsed : parseUuid id = true) :
    binName id ≠ "work-" ++ binName name := by
  intro h
  have same : binName id = binName ("work-" ++ name) := by
    rw [h]
    exact String.append_assoc.symm
  rw [binName_inj same, parseUuid_work] at parsed
  cases parsed

/-! ### What a pointer names -/

section

variable {c : Codec} {dir dir' : Dir} {name name' path : String}

/-- The pointer names the payload, valid or not. -/
def Names (c : Codec) (dir : Dir) (name path : String) : Prop :=
  ∃ bytes generation, dir name = some (.file bytes) ∧ c.decode bytes = some generation ∧
    generationPath generation = some path

/-- The content of the valid generation a pointer names. -/
def content (c : Codec) (name : String) (dir : Dir) : Option Bytes :=
  (validGeneration c name dir).bind fun path => (readFile path dir).toOption

theorem readFile_eq_ok {bytes : Bytes} :
    readFile name dir = .ok bytes ↔ dir name = some (.file bytes) := by
  unfold readFile
  split
  · next bytes' h =>
      rw [h]
      simp
  · next node notFile h =>
      rw [h]
      refine ⟨fun eq => (nomatch eq), fun eq => ?_⟩
      cases eq
      exact absurd rfl (notFile bytes)
  · next h =>
      rw [h]
      simp

theorem generationPath_eq_some {generation : Generation}
    (h : generationPath generation = some path) :
    parseUuid generation.id = true ∧ path = binName generation.id := by
  unfold generationPath at h
  split at h
  · next parsed =>
      cases h
      exact ⟨parsed, rfl⟩
  · cases h

theorem Names.binName (h : Names c dir name path) :
    ∃ id, parseUuid id = true ∧ path = binName id := by
  obtain ⟨_, generation, _, _, is⟩ := h
  exact ⟨generation.id, generationPath_eq_some is⟩

/-- What makes a generation valid. -/
theorem validGeneration_eq_some (h : validGeneration c name dir = some path) :
    Names c dir name path ∧ ∃ data, dir path = some (.file data) := by
  unfold validGeneration at h
  split at h
  · cases h
  · next bytes read =>
      split at h
      · cases h
      · obtain ⟨generation, decoded, rest⟩ := Option.bind_eq_some_iff.mp h
        obtain ⟨path', named, rest⟩ := Option.bind_eq_some_iff.mp rest
        split at rest
        · cases rest
        · next size hash valid =>
            split at rest
            · cases rest
              refine ⟨⟨bytes, generation, readFile_eq_ok.mp read, decoded, named⟩, ?_⟩
              unfold validate at valid
              split at valid
              · cases valid
              · next data there => exact ⟨data, readFile_eq_ok.mp there⟩
            · cases rest

/-- Validity depends on the pointer and on the payload it names. -/
theorem validGeneration_congr (pointer : dir' name' = dir name)
    (payload : ∀ path, Names c dir name path → dir' path = dir path) :
    validGeneration c name' dir' = validGeneration c name dir := by
  unfold validGeneration
  have read : readFile name' dir' = readFile name dir := by unfold readFile; rw [pointer]
  rw [read]
  cases pointed : readFile name dir with
  | error error => rfl
  | ok bytes =>
    simp only
    split
    · rfl
    · cases decoded : c.decode bytes with
      | none => rfl
      | some generation =>
        cases named : generationPath generation with
        | none => simp [named]
        | some path =>
          have same := payload path
            ⟨bytes, generation, readFile_eq_ok.mp pointed, decoded, named⟩
          have validated : validate c path dir' = validate c path dir := by
            unfold validate readFile
            rw [same]
          simp [named, validated]

theorem content_congr (pointer : dir' name' = dir name)
    (payload : ∀ path, Names c dir name path → dir' path = dir path) :
    content c name' dir' = content c name dir := by
  unfold content
  rw [validGeneration_congr pointer payload]
  cases valid : validGeneration c name dir with
  | none => rfl
  | some path =>
    have same := payload path (validGeneration_eq_some valid).1
    show (readFile path dir').toOption = (readFile path dir).toOption
    unfold readFile
    rw [same]

theorem content_isSome : (content c name dir).isSome = (validGeneration c name dir).isSome := by
  unfold content
  cases valid : validGeneration c name dir with
  | none => rfl
  | some path =>
    obtain ⟨data, there⟩ := (validGeneration_eq_some valid).2
    show (readFile path dir).toOption.isSome = true
    rw [readFile_eq_ok.mpr there]
    rfl

theorem content_eq_some {bytes : Bytes} : content c name dir = some bytes ↔
    ∃ path, validGeneration c name dir = some path ∧ readFile path dir = .ok bytes := by
  unfold content
  rw [Option.bind_eq_some_iff]
  refine exists_congr fun path => and_congr_right fun _ => ?_
  cases readFile path dir <;> simp [Except.toOption]

/-- What `prepare` finds: the newest generation, or else the one before. -/
def found (c : Codec) (dir : Dir) : Option Bytes :=
  (content c latest dir).or (content c previous dir)

/-- The payload of what `prepare` finds. -/
def foundPath (c : Codec) (dir : Dir) : Option String :=
  (validGeneration c latest dir).or (validGeneration c previous dir)

theorem foundPath_of_found {bytes : Bytes} (h : found c dir = some bytes) :
    ∃ path, foundPath c dir = some path ∧ readFile path dir = .ok bytes := by
  unfold found at h
  unfold foundPath
  rcases Option.or_eq_some_iff.mp h with newest | ⟨corrupt, rollback⟩
  · obtain ⟨path, valid, read⟩ := content_eq_some.mp newest
    exact ⟨path, by rw [valid, Option.some_or], read⟩
  · obtain ⟨path, valid, read⟩ := content_eq_some.mp rollback
    have invalid : validGeneration c latest dir = none := by
      rw [← Option.isNone_iff_eq_none, ← Option.not_isSome, ← content_isSome, corrupt]
      rfl
    exact ⟨path, by rw [invalid, Option.none_or, valid], read⟩

theorem foundPath_ne_work {uuid : String} (h : foundPath c dir = some path) :
    path ≠ "work-" ++ binName uuid := by
  have other : ∀ {name}, validGeneration c name dir = some path →
      path ≠ "work-" ++ binName uuid := by
    intro name valid
    obtain ⟨id, parsed, rfl⟩ := (validGeneration_eq_some valid).1.binName
    exact work_ne_binName parsed
  rcases Option.or_eq_some_iff.mp h with newest | ⟨-, rollback⟩
  · exact other newest
  · exact other rollback

/-- A call of `valid_generation` that does not fail on a valid generation. -/
def Seen (env : Setting) (reading : Reading) (name : String) (dir : Dir) : Prop :=
  (validGeneration env.codec name dir).isSome → env.fails reading = false

/-- What such a call returns is what the pointer names. -/
theorem glance_holds {env : Setting} {reading : Reading} {P S : Dir → Prop}
    (stop : ∀ s, P s → S s) (seen : ∀ s, P s → Seen env reading name s) :
    Prog.Holds P (glance env reading name)
      (fun valid s => P s ∧ validGeneration env.codec name s = valid) S := by
  refine (Prog.Holds.look stop).post fun valid s h => ⟨h.1, ?_⟩
  obtain ⟨before, read⟩ := h
  split at read
  · next fails =>
      cases there : validGeneration env.codec name s with
      | none => exact read
      | some path =>
        rw [seen s before (there ▸ rfl)] at fails
        cases fails
  · exact read

/-- `prepare` takes what is found, and not the seed. -/
theorem prepareSource_holds {env : Setting} {path : String} (seed : Option Bytes)
    (there : foundPath env.codec dir = some path) (resumed : Seen env .resumed latest dir)
    (fallback : Seen env .fallback previous dir) :
    Prog.Holds (fun s => s = dir) (prepareSource env seed)
      (fun source s => s = dir ∧ source = some (.payload path)) (fun s => s = dir) := by
  unfold prepareSource
  refine Prog.Holds.bind (glance_holds (fun _ h => h) fun s h => h ▸ resumed) fun newest => ?_
  cases newest with
  | some newest =>
    refine Prog.Holds.pure fun s h => ?_
    obtain ⟨rfl, valid⟩ := h
    rw [foundPath, valid, Option.some_or] at there
    exact ⟨rfl, congrArg (some ∘ Source.payload) (Option.some.inj there)⟩
  | none =>
    refine Prog.Holds.bind (glance_holds (fun _ h => h.1) fun s h => h.1 ▸ fallback) ?_
    intro rollback
    have is : ∀ s, (s = dir ∧ validGeneration env.codec latest s = none) ∧
        validGeneration env.codec previous s = rollback → s = dir ∧ rollback = some path := by
      rintro s ⟨⟨rfl, invalid⟩, valid⟩
      rw [foundPath, invalid, Option.none_or, valid] at there
      exact ⟨rfl, there⟩
    cases rollback with
    | some rollback =>
      refine Prog.Holds.pure fun s h => ⟨(is s h).1, ?_⟩
      exact congrArg (some ∘ Source.payload) (Option.some.inj (is s h).2)
    | none =>
      refine Prog.Holds.pure fun s h => ?_
      exact absurd (is s h).2 fun eq => (nomatch eq)

end

/-! ### The phases of a commit -/

theorem parseUuid_of_hyphenated {id : String} (h : hyphenated id.toList = true) :
    parseUuid id = true := by
  unfold parseUuid
  simp [h]

theorem length_of_hyphenated {cs : List Char} (h : hyphenated cs = true) : cs.length = 36 := by
  unfold hyphenated at h
  rw [Bool.and_eq_true, beq_iff_eq] at h
  exact h.1

theorem length_flatMap_hexByte (bytes : Bytes) :
    (bytes.flatMap Checkpoint.hexByte).length = 2 * bytes.length := by
  induction bytes with
  | nil => rfl
  | cons b bytes ih =>
    rw [List.flatMap_cons, List.length_append, ih, List.length_cons]
    show 2 + 2 * bytes.length = 2 * (bytes.length + 1)
    omega

section Commit

variable {env : Setting} {run : Run} {before : Dir} {uuid : String}

/-- Nothing has changed but the file of that name. -/
def Staged (before : Dir) (name : String) (s : Dir) : Prop :=
  ∀ other, other ≠ name → s other = before other

/-- The new payload holds what the run worked out. -/
def Filled (run : Run) (before : Dir) (uuid : String) (s : Dir) : Prop :=
  Staged before (binName uuid) s ∧
    ∃ data, before run.work = some (.file data) ∧ s (binName uuid) = some (.file data)

/-- The new pointer is in place, and the old one, if it was valid, is the previous. -/
structure Published (c : Codec) (run : Run) (before : Dir) (uuid : String) (s : Dir) : Prop where
  others : ∀ name, name ≠ binName uuid → name ≠ latest → name ≠ previous → s name = before name
  rotated : s previous =
    if (validGeneration c latest before).isSome then before latest else before previous
  newest : ∃ data manifest hash size, before run.work = some (.file data) ∧
    validateBytes c data = .ok (size, hash) ∧ s latest = some (.file manifest) ∧
    manifest.length ≤ 4096 ∧ c.decode manifest = some ⟨uuid, hash, size⟩ ∧
    (s (binName uuid) = some (.file data) ∨ s (binName uuid) = none)

/-- What a commit leaves before the collection. -/
inductive Phase (c : Codec) (run : Run) (before : Dir) (uuid : String) (s : Dir) : Prop where
  | staged (same : Staged before (binName uuid) s)
  | rotated (others : ∀ name, name ≠ binName uuid → name ≠ previous → s name = before name)
      (valid : (validGeneration c latest before).isSome) (rotated : s previous = before latest)
  | published (done : Published c run before uuid s)

variable {name : String}

theorem put_eq_ok {bytes : Bytes} {dir dir' : Dir} (h : put name bytes dir = .ok dir') :
    dir' = Function.update dir name (some (.file bytes)) := by
  unfold put at h
  split at h
  · cases h
  · cases h
    rfl

theorem remove_eq_ok {dir dir' : Dir} (h : remove name dir = .ok dir') :
    dir' = Function.update dir name none := by
  unfold remove at h
  split at h
  · cases h
  · cases h
  · cases h
    rfl

theorem createNew_eq_ok {dir dir' : Dir} (h : createNew name dir = .ok dir') :
    dir name = none ∧ dir' = Function.update dir name (some (.file [])) := by
  unfold createNew at h
  split at h
  · next free =>
      cases h
      exact ⟨free, rfl⟩
  · cases h

/-- Removing a file does that or nothing. -/
theorem removeFile_stable {P : Dir → Prop}
    (removed : ∀ dir, P dir → P (Function.update dir name none)) :
    Prog.Stable P (removeFile name) := by
  refine Prog.Stable.bind (Prog.Stable.attempt ?_) fun _ => Prog.Stable.pure _
  refine Prog.Holds.call ?_ (fun _ h => h) ?_ fun _ h => h
  · intro dir dir' h did
    rw [remove_eq_ok did]
    exact removed dir h
  · intro dir dir' h did
    rw [remove_eq_ok did]
    exact removed dir h

theorem Staged.update {s : Dir} (h : Staged before name s) (node : Option Node) :
    Staged before name (Function.update s name node) := by
  intro other ne
  rw [Function.update_of_ne ne]
  exact h other ne

theorem touch_stable {P : Dir → Prop} : Prog.Stable P touch := Prog.Stable.read _ _

/-- A copy of what `source` reads, whatever the destination is made to hold. -/
theorem copyCandidate_copies {source : Dir → Except String Bytes}
    (fixed : ∀ s, Staged before name s → source s = source before) :
    Prog.Holds (Staged before name) (copyCandidate env source name)
      (fun _ s => Staged before name s ∧
        ∃ input, source before = .ok input ∧ s name = some (.file input))
      (Staged before name) := by
  unfold copyCandidate
  refine Prog.Holds.bind (Prog.Holds.read fun _ h => h) fun input => ?_
  refine Prog.Holds.bind (Q := fun _ s => Staged before name s ∧
    source before = .ok input) ?_ fun _ => ?_
  · refine Prog.Holds.call ?_ (fun _ h => h.1) ?_ fun _ h => h.1
    · intro s t h did
      rw [(createNew_eq_ok did).2]
      exact ⟨h.1.update _, (fixed s h.1).symm.trans h.2⟩
    · intro s t h did
      rw [(createNew_eq_ok did).2]
      exact h.1.update _
  refine Prog.Holds.onError ?_ (removeFile_stable fun _ h => h.update _)
  refine Prog.Holds.assume fun there => ?_
  unfold fill
  refine Prog.Holds.bind touch_stable fun _ => ?_
  refine Prog.Holds.bind (Q := fun _ s => Staged before name s ∧
    s name = some (.file (input.take (maxBytes + 1)))) ?_ fun _ => ?_
  · refine Prog.Holds.call ?_ (fun _ h => h) ?_ fun _ h => h.update _
    · intro s t h did
      rw [put_eq_ok did]
      exact ⟨h.update _, Function.update_self ..⟩
    · intro s t h did
      rw [put_eq_ok did]
      exact h.update _
  refine Prog.Holds.bind (Prog.Holds.require fun _ h => h.1) fun _ => ?_
  refine (Prog.Holds.read fun _ h => h.1.1).post fun _ s h => ?_
  obtain ⟨⟨⟨staged, filled⟩, small⟩, -⟩ := h
  rw [List.take_of_length_le (by omega)] at filled
  exact ⟨staged, input, there, filled⟩

/-- A `prepare` that returns has a working copy of what is found, and however it ends nothing
else has changed. -/
theorem prepare_holds {path : String} {bytes : Bytes} (seed : Option Bytes) (free : Bool)
    (there : foundPath env.codec before = some path) (read : readFile path before = .ok bytes)
    (resumed : Seen env .resumed latest before) (fallback : Seen env .fallback previous before) :
    Prog.Holds (fun s => s = before) (prepare env seed free uuid)
      (fun run s => Staged before run.work s ∧ s run.work = some (.file bytes))
      (Staged before ("work-" ++ binName uuid)) := by
  have start : ∀ s, s = before → Staged before ("work-" ++ binName uuid) s := by
    rintro s rfl
    exact fun _ _ => rfl
  unfold prepare
  refine Prog.Holds.bind (Prog.Holds.read start) fun _ => ?_
  refine Prog.Holds.bind (Prog.Holds.read fun s h => start s h.1) fun _ => ?_
  refine Prog.Holds.bind (Prog.Holds.read fun s h => start s h.1.1) fun _ => ?_
  refine Prog.Holds.bind (Prog.Holds.require fun s h => start s h.1.1.1) fun _ => ?_
  refine Prog.Holds.bind ((prepareSource_holds seed there resumed fallback).weaken
    (fun _ h => h.1.1.1.1) (fun _ _ h => h) start) fun source => ?_
  refine Prog.Holds.assume fun is => ?_
  subst is
  refine Prog.Holds.onError ?_ (removeFile_stable fun _ h => h.update _)
  refine Prog.Holds.bind (Prog.Holds.read start) fun data => ?_
  refine Prog.Holds.bind (Prog.Holds.lift fun s h => start s h.1) fun (size, hash) => ?_
  refine Prog.Holds.bind ((copyCandidate_copies fun s staged => ?_).weaken
    (fun s h => start s h.1.1) (fun _ _ h => h) fun _ h => h) fun _ => ?_
  · show readFile path s = readFile path before
    unfold readFile
    rw [staged path (foundPath_ne_work there)]
  refine Prog.Holds.bind (Prog.Holds.read fun _ h => h.1) fun (_, copied) => ?_
  refine Prog.Holds.bind (Prog.Holds.require fun _ h => h.1.1) fun _ => ?_
  refine Prog.Holds.pure fun s h => ?_
  obtain ⟨⟨⟨staged, input, is, filled⟩, -⟩, -⟩ := h
  cases read.symm.trans is
  exact ⟨staged, filled⟩

theorem ne_payload (pointer : name = latest ∨ name = previous) : name ≠ binName uuid := by
  rintro rfl
  rcases pointer with h | h
  · exact binName_ne_latest _ h
  · exact binName_ne_previous _ h

/-- The cleanup of a commit that failed. -/
theorem Phase.cleanup {s : Dir} (h : Phase env.codec run before uuid s) :
    Phase env.codec run before uuid (Function.update s (binName uuid) none) := by
  have elsewhere : ∀ name, name ≠ binName uuid →
      Function.update s (binName uuid) none name = s name :=
    fun name other => Function.update_of_ne other ..
  have atPrevious := elsewhere previous (ne_payload (.inr rfl))
  have atLatest := elsewhere latest (ne_payload (.inl rfl))
  cases h with
  | staged same => exact .staged (same.update _)
  | rotated others valid rotated =>
    refine .rotated ?_ valid (atPrevious.trans rotated)
    exact fun name h₁ h₂ => (elsewhere name h₁).trans (others name h₁ h₂)
  | published done =>
    obtain ⟨data, manifest, hash, size, there, valid, pointer, short, decoded, -⟩ := done.newest
    refine .published ⟨?_, atPrevious.trans done.rotated, data, manifest, hash, size, there,
      valid, atLatest.trans pointer, short, decoded, .inr (Function.update_self ..)⟩
    exact fun name h₁ h₂ h₃ => (elsewhere name h₁).trans (done.others name h₁ h₂ h₃)

/-- The pointer of a manifest, and the payload it names. -/
def Manifest (c : Codec) (run : Run) (before : Dir) (uuid : String) (manifest : Bytes) : Prop :=
  ∃ data hash size, before run.work = some (.file data) ∧
    validateBytes c data = .ok (size, hash) ∧ manifest.length ≤ 4096 ∧
    c.decode manifest = some ⟨uuid, hash, size⟩

/-- The new generation is complete. -/
def Complete (c : Codec) (run : Run) (before : Dir) (uuid : String) (s : Dir) : Prop :=
  Published c run before uuid s ∧ s (binName uuid) = before run.work

end Commit

/-! ### The collection -/

section Collection

variable {c : Codec} {dir s : Dir}

theorem Names.unique {name path path' : String} (h : Names c dir name path)
    (h' : Names c dir name path') : path = path' := by
  obtain ⟨bytes, generation, pointed, decoded, named⟩ := h
  obtain ⟨bytes', generation', pointed', decoded', named'⟩ := h'
  rw [pointed] at pointed'
  cases pointed'
  rw [decoded] at decoded'
  cases decoded'
  rw [named] at named'
  exact Option.some.inj named'

/-- Nothing is changed, but that payloads no valid pointer names are gone. -/
def Kept (c : Codec) (dir s : Dir) : Prop :=
  ∀ name, s name = dir name ∨ s name = none ∧ isPayloadName name = true ∧
    ∀ pointer, pointer = latest ∨ pointer = previous → validGeneration c pointer dir ≠ some name

theorem Kept.refl : Kept c dir dir := fun _ => .inl rfl

theorem Kept.pointer (h : Kept c dir s) {pointer : String}
    (is : pointer = latest ∨ pointer = previous) : s pointer = dir pointer := by
  rcases h pointer with same | ⟨-, payload, -⟩
  · exact same
  · exfalso
    rcases is with rfl | rfl
    · revert payload
      decide
    · revert payload
      decide

theorem Kept.validGeneration (h : Kept c dir s) {pointer : String}
    (is : pointer = latest ∨ pointer = previous) :
    validGeneration c pointer s = validGeneration c pointer dir := by
  have same := h.pointer is
  cases before : LookupCache.validGeneration c pointer dir with
  | some path =>
    rw [← before]
    refine validGeneration_congr same fun path' names => ?_
    rw [names.unique (validGeneration_eq_some before).1]
    rcases h path with kept | ⟨-, -, not⟩
    · exact kept
    · exact absurd before (not pointer is)
  | none =>
    by_contra valid
    obtain ⟨path, valid⟩ := Option.ne_none_iff_exists'.mp valid
    obtain ⟨⟨bytes, generation, pointed, decoded, named⟩, data, there⟩ :=
      validGeneration_eq_some valid
    rw [same] at pointed
    have names : Names c dir pointer path := ⟨bytes, generation, pointed, decoded, named⟩
    rcases h path with kept | ⟨gone, -⟩
    · have again : LookupCache.validGeneration c pointer s =
          LookupCache.validGeneration c pointer dir :=
        validGeneration_congr same fun path' names' => by rw [names'.unique names]; exact kept
      rw [valid, before] at again
      cases again
    · rw [gone] at there
      cases there

theorem Kept.content (h : Kept c dir s) {pointer : String}
    (is : pointer = latest ∨ pointer = previous) :
    content c pointer s = content c pointer dir := by
  unfold LookupCache.content
  rw [h.validGeneration is]
  cases valid : LookupCache.validGeneration c pointer dir with
  | none => rfl
  | some path =>
    have same : s path = dir path := by
      rcases h path with kept | ⟨-, -, not⟩
      · exact kept
      · exact absurd valid (not pointer is)
    show (readFile path s).toOption = (readFile path dir).toOption
    unfold readFile
    rw [same]

end Collection

/-! ### What is left -/

section Left

variable {env : Setting} {run : Run} {before : Dir} {uuid : String} {s t : Dir}

/-- A later run finds a generation whose content is one of before, or the new one; and
where the newest was corrupt, the previous pointer is as it was. -/
structure Survived (c : Codec) (run : Run) (before s : Dir) : Prop where
  found : ∃ bytes, found c s = some bytes ∧
    (content c latest before = some bytes ∨ content c previous before = some bytes ∨
      readFile run.work before = .ok bytes)
  unrotated : validGeneration c latest before = none → s previous = before previous

/-- The new generation is in place, and the one before is the rollback. -/
structure Committed (c : Codec) (run : Run) (before s : Dir) : Prop where
  newest : ∃ data, readFile run.work before = .ok data ∧ content c latest s = some data
  rollback : (validGeneration c latest before).isSome →
    content c previous s = content c latest before

/-- Both depend on the pointers and what they name. -/
theorem Survived.congr {c : Codec} (h : Survived c run before s)
    (newest : content c latest t = content c latest s)
    (rollback : content c previous t = content c previous s)
    (pointer : t previous = s previous) : Survived c run before t := by
  obtain ⟨bytes, there, is⟩ := h.found
  refine ⟨⟨bytes, ?_, is⟩, fun invalid => pointer.trans (h.unrotated invalid)⟩
  unfold LookupCache.found at there ⊢
  rw [newest, rollback]
  exact there

theorem Committed.congr {c : Codec} (h : Committed c run before s)
    (newest : content c latest t = content c latest s)
    (rollback : content c previous t = content c previous s) : Committed c run before t := by
  obtain ⟨data, there, is⟩ := h.newest
  exact ⟨⟨data, there, newest.trans is⟩, fun valid => rollback.trans (h.rollback valid)⟩

/-- A change to a name that is neither a pointer nor a payload's. -/
theorem content_aside {name pointer : String} (c : Codec) (s : Dir) (node : Option Node)
    (other : pointer ≠ name)
    (payload : ∀ id, parseUuid id = true → binName id ≠ name) :
    content c pointer (Function.update s name node) = content c pointer s := by
  refine content_congr (Function.update_of_ne other ..) fun path names => ?_
  obtain ⟨id, parsed, rfl⟩ := names.binName
  exact Function.update_of_ne (payload id parsed) ..

/-- What a pointer of before names is not the new payload. -/
theorem names_untouched {c : Codec} {pointer path : String}
    (fresh : ∀ pointer, pointer = latest ∨ pointer = previous →
      ¬ Names c before pointer (binName uuid))
    (is : pointer = latest ∨ pointer = previous) (names : Names c before pointer path) :
    path ≠ binName uuid ∧ path ≠ latest ∧ path ≠ previous := by
  obtain ⟨id, -, rfl⟩ := names.binName
  exact ⟨fun same => fresh pointer is (same ▸ names), binName_ne_latest id,
    binName_ne_previous id⟩

/-- The last steps of a run touch no pointer and no payload. -/
theorem aside {P : Prop} {name : String} {s : Dir} (node : Option Node)
    (pointers : latest ≠ name ∧ previous ≠ name)
    (payload : ∀ id, parseUuid id = true → binName id ≠ name)
    (h : Survived env.codec run before s ∧ (P → Committed env.codec run before s)) :
    Survived env.codec run before (Function.update s name node) ∧
      (P → Committed env.codec run before (Function.update s name node)) := by
  have newest := content_aside env.codec s node pointers.1 payload
  have rollback := content_aside env.codec s node pointers.2 payload
  exact ⟨h.1.congr newest rollback (Function.update_of_ne pointers.2 ..),
    fun p => (h.2 p).congr newest rollback⟩

section Phases

variable (fresh : ∀ pointer, pointer = latest ∨ pointer = previous →
  ¬ Names env.codec before pointer (binName uuid))
include fresh

theorem Published.rollback (h : Published env.codec run before uuid s) :
    content env.codec previous s =
      if (validGeneration env.codec latest before).isSome then content env.codec latest before
      else content env.codec previous before := by
  have rotated := h.rotated
  split at rotated
  · next valid =>
      rw [if_pos valid]
      refine content_congr rotated fun path names => ?_
      obtain ⟨h₁, h₂, h₃⟩ := names_untouched fresh (.inl rfl) names
      exact h.others path h₁ h₂ h₃
  · next invalid =>
      rw [if_neg invalid]
      refine content_congr rotated fun path names => ?_
      obtain ⟨h₁, h₂, h₃⟩ := names_untouched fresh (.inr rfl) names
      exact h.others path h₁ h₂ h₃

theorem Complete.committed (h : Complete env.codec run before uuid s)
    (drawn : parseUuid uuid = true) :
    Committed env.codec run before s := by
  obtain ⟨done, payload⟩ := h
  obtain ⟨data, manifest, hash, size, there, checked, pointer, short, decoded, -⟩ := done.newest
  rw [there] at payload
  have newest : validGeneration env.codec latest s = some (binName uuid) := by
    have path : generationPath ⟨uuid, hash, size⟩ = some (binName uuid) := by
      unfold generationPath
      rw [if_pos drawn]
    unfold validGeneration
    rw [readFile_eq_ok.mpr pointer]
    simp only [decoded, path, if_neg (Nat.not_lt.mpr short), validate, Option.bind_eq_bind,
      Option.bind_some, readFile_eq_ok.mpr payload, checked, and_self, ↓reduceIte]
  refine ⟨⟨data, readFile_eq_ok.mpr there, ?_⟩, fun valid => ?_⟩
  · unfold content
    rw [newest]
    show (readFile (binName uuid) s).toOption = some data
    rw [readFile_eq_ok.mpr payload]
    rfl
  · rw [done.rollback fresh, if_pos valid]

end Phases

end Left

/-! ### Runs -/

section Runs

variable {env : Setting} {run : Run} {before : Dir} {uuid : String}

/-- The state of before is one in which a later run finds what it finds now. -/
structure Ready (c : Codec) (run : Run) (before : Dir) (uuid : String) : Prop where
  /-- `Uuid::new_v4().to_string()`. -/
  drawn : hyphenated uuid.toList = true
  fresh : ∀ pointer, pointer = latest ∨ pointer = previous →
    ¬ Names c before pointer (binName uuid)
  /-- The name `prepare` gives. -/
  working : ∃ w, run.work = "work-" ++ binName w
  valid : ∃ pointer, (pointer = latest ∨ pointer = previous) ∧
    (validGeneration c pointer before).isSome

namespace Ready

variable (ready : Ready env.codec run before uuid)
include ready

theorem parsed : parseUuid uuid = true := parseUuid_of_hyphenated ready.drawn

theorem manifest (lawful : env.codec.Lawful) {data manifest : Bytes} {hash : String} {size : Nat}
    (there : before run.work = some (.file data))
    (checked : validateBytes env.codec data = .ok (size, hash))
    (encoded : env.codec.encode ⟨uuid, hash, size⟩ = some manifest) :
    Manifest env.codec run before uuid manifest := by
  refine ⟨data, hash, size, there, checked, ?_, lawful.roundtrip _ _ encoded⟩
  have hashed : hash = env.codec.sha256 data := by
    unfold validateBytes at checked
    split at checked
    · cases checked
    · split at checked
      · cases checked
      · cases checked
        rfl
  have hashLength : hash.length = 64 := by
    rw [hashed]
    unfold Codec.sha256
    rw [String.length_ofList, length_flatMap_hexByte, lawful.digest_length]
  have idLength : uuid.length = 36 := by
    rw [← String.length_toList]
    exact length_of_hyphenated ready.drawn
  have short := lawful.short _ _ encoded
  simp only [hashLength, idLength] at short
  omega

end Ready

/-- A later `prepare`, whose own reads of valid generations do not fail, takes its content from
a valid generation, which holds what one of the pointers named before or what the run worked
out, and has a copy of it when it returns; a corrupt newest pointer has not taken the place of
the previous one. -/
def Resumable (c : Codec) (run : Run) (before left : Dir) : Prop :=
  (∃ path bytes,
    (∀ env seed, env.codec = c → Seen env .resumed latest left → Seen env .fallback previous left →
      Prog.Holds (fun s => s = left) (prepareSource env seed)
        (fun source s => s = left ∧ source = some (.payload path)) (fun s => s = left) ∧
      ∀ free uuid, Prog.Holds (fun s => s = left) (prepare env seed free uuid)
        (fun later s => Staged left later.work s ∧ s later.work = some (.file bytes))
        (Staged left ("work-" ++ binName uuid))) ∧
    readFile path left = .ok bytes ∧
    (content c latest before = some bytes ∨ content c previous before = some bytes ∨
      readFile run.work before = .ok bytes)) ∧
  (validGeneration c latest before = none → left previous = before previous)

theorem Survived.resumable {c : Codec} {left : Dir} (h : Survived c run before left) :
    Resumable c run before left := by
  obtain ⟨bytes, there, is⟩ := h.found
  obtain ⟨path, found, read⟩ := foundPath_of_found there
  refine ⟨⟨path, bytes, ?_, read, is⟩, h.unrotated⟩
  rintro env seed rfl resumed fallback
  exact ⟨prepareSource_holds seed found resumed fallback,
    fun free _ => prepare_holds seed free found read resumed fallback⟩

end Runs

/-! ### One run -/

/-- One record with one token, seen `count` times. -/
def sampleData (count : UInt8) : Bytes :=
  [1, 0, 0, 0, 2, 0, 0, 0, 3, 0, 0, 0, 4, 0, 0, 0, 1, 0, 0, 0, 5, 0, 0, 0, count, 0, 0, 0]

def sampleDigest (bytes : Bytes) : Bytes :=
  if bytes = sampleData 1 then
    [0x81, 0x84, 0xfe, 0x9f, 0x6b, 0x88, 0x5c, 0x2a, 0xd8, 0x35, 0xa9, 0x9d, 0xcd, 0xd5, 0x5a, 0xfb,
    0xe3, 0xb0, 0xb9, 0x6d, 0x55, 0x23, 0x7f, 0x05, 0x57, 0xe1, 0x6a, 0xd1, 0x86, 0x04, 0xd3, 0xad]
  else if bytes = sampleData 2 then
    [0xce, 0x20, 0xfe, 0xcd, 0xee, 0x07, 0x36, 0x28, 0x1b, 0x10, 0x7d, 0x69, 0x49, 0x16, 0x39, 0x94,
    0xce, 0x33, 0x98, 0x2e, 0x50, 0x48, 0x94, 0x11, 0x61, 0x4f, 0xc3, 0xfb, 0xda, 0xac, 0x6d, 0x0f]
  else List.replicate 32 0

def sampleGeneration (id : String) (count : UInt8) : Generation :=
  ⟨id, String.ofList ((sampleDigest (sampleData count)).flatMap Checkpoint.hexByte), 28⟩

/-- The JSON of such a generation. -/
def sampleManifest (id : String) (count : UInt8) : Bytes :=
  ("\x7b\"id\":\"".toList ++ id.toList ++ "\",\"sha256\":\"".toList ++
    (sampleDigest (sampleData count)).flatMap Checkpoint.hexByte ++
    "\",\"bytes\":28\x7d".toList).map fun c => c.toNat.toUInt8

def sampleOld : Generation := sampleGeneration "3f2a8c1e-5b7d-4e9a-8c6f-1d2e3f4a5b6c" 1
def sampleNew : Generation := sampleGeneration "9c4b7a60-2d1f-4c3e-9b8a-7f6e5d4c3b2a" 2

def sampleCodec : Codec where
  digest := sampleDigest
  encode g := if g = sampleNew then some (sampleManifest sampleNew.id 2) else none
  decode bytes :=
    if bytes = sampleManifest sampleNew.id 2 then some sampleNew
    else if bytes = sampleManifest sampleOld.id 1 then some sampleOld
    else none

def sampleRun : Run :=
  ⟨"work-" ++ binName "5d1c0b2a-9e8f-4a7b-8c6d-0f1e2d3c4b5a", some sampleOld.sha256⟩

def sampleSetting : Setting :=
  ⟨sampleCodec, [], [latest, previous, binName sampleOld.id, binName sampleNew.id, sampleRun.work],
    fun _ => false⟩

theorem sampleCodec_lawful : sampleCodec.Lawful where
  digest_length bytes := by
    show (sampleDigest bytes).length = 32
    unfold sampleDigest
    split_ifs <;> rfl
  roundtrip g bytes h := by
    obtain ⟨rfl, eq⟩ := Option.ite_none_right_eq_some.mp h
    rw [← Option.some.inj eq]
    decide +kernel
  short g bytes h := by
    obtain ⟨rfl, eq⟩ := Option.ite_none_right_eq_some.mp h
    rw [← Option.some.inj eq]
    decide +kernel

end LlamaServerManager.LookupCache
