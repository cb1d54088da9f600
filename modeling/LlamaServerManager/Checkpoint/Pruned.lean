import LlamaServerManager.Checkpoint.Pruning
import LlamaServerManager.Checkpoint.Save

/-!
What pruning leaves (`pruneInstance_pruned`): which generations are gone, the sizes
it reports, the usage index, and the pointer of every fingerprint.
-/

namespace LlamaServerManager.Checkpoint

open Lib

/-! ### The usage index -/

/-- The usage index is read back with the entries it was written with. -/
def Codec.ReadsUsage (c : Codec) : Prop :=
  ∀ u bytes, c.encodeUsage u = some bytes →
    ∃ u', c.decodeUsage bytes = some u' ∧ ∀ key, u'.entries.lookup key = u.entries.lookup key

/-- The directories of an instance are as the store makes them: no other kind of entry is in
the place of a directory or a file. The records of the store can be written. -/
structure InOrder (env : PruneSetting) (i : String) (fs : Files) : Prop where
  identifier : validateIdentifier i = true
  root : fs [] = some .dir ∨ fs [] = none ∧ env.ready = false
  instance_ : fs [i] = none ∨ fs [i] = some .dir
  usage : fs [i, "usage-v1.json"] ≠ some .dir
  generations : ∀ f, isLowerHexDigest f = true → fs [i, f, "generations"] = none ∨
    fs [i, f, "generations"] = some .dir
  latest : ∀ f, isLowerHexDigest f = true → fs [i, f, "latest.json"] = none ∨
    ∃ bytes, fs [i, f, "latest.json"] = some (.file bytes)
  encodesLatest : ∀ l, (env.codec.encodeLatest l).isSome
  encodesUsage : ∀ u, (env.codec.encodeUsage u).isSome

/-- Every entry of the usage index has one of the keys. -/
def UsageIn (c : Codec) (i : String) (keys : List String) (fs : Files) : Prop :=
  ∀ key, ((readUsage c i maxMetadataBytes fs).entries.lookup key).isSome → key ∈ keys

section Writing

variable {i : String} {s t : Files} {keys : List String} {S : Files → Prop}

theorem readUsage_congr (c : Codec) (same : t [i, "usage-v1.json"] = s [i, "usage-v1.json"]) :
    readUsage c i maxMetadataBytes t = readUsage c i maxMetadataBytes s := by
  unfold readUsage usagePath instanceRoot
  cases validateIdentifier i with
  | false => rfl
  | true =>
    have read := readBounded_congr maxMetadataBytes same
    simp only [require_of, bind, Except.bind, pure, Except.pure, List.cons_append,
      List.nil_append, read]

/-- A file in a directory that is there is written, unless a directory is in its place. -/
theorem atomicWrite_calm {p : Path} {bytes : List UInt8} (message : String) {s₀ : Files}
    (above : ∀ d, d <+: p.dropLast → s₀ d = some .dir)
    (stop : s₀ p = some .dir → S s₀) :
    Prog.Calm (fun s => s = s₀) (atomicWrite p bytes message)
      (fun _ s => s₀ p ≠ some .dir ∧ s = Function.update s₀ p (some (.file bytes))) S := by
  refine .bind (Q := fun _ s => s = s₀) (makeDirs_calm message ?_) fun _ => ?_
  · rintro s rfl d mem
    exact above d ((List.mem_inits d _).mp mem)
  · refine change_calm (fun s t hs h => ?_) fun s hs h => ?_
    · subst hs
      refine ⟨fun dir => ?_, Files.replaceFile_eq h⟩
      simp [Files.replaceFile, dir] at h
    · subst hs
      refine stop ?_
      by_contra notDir
      simp [Files.replaceFile, notDir, above _ List.prefix_rfl] at h

theorem usagePath_eq (identifier : validateIdentifier i = true) :
    usagePath i = .ok [i, "usage-v1.json"] := by
  simp [usagePath, instanceRoot, identifier, require, bind, Except.bind, pure, Except.pure]

/-- What was written has the entries that were to be written, or is not read at all. -/
theorem usageIn_written {c : Codec} (reads : c.ReadsUsage)
    (identifier : validateIdentifier i = true) {next : UsageFile} {bytes : List UInt8}
    (encoded : c.encodeUsage next = some bytes)
    (known : ∀ key, (next.entries.lookup key).isSome → key ∈ keys) (s : Files) :
    UsageIn c i keys (Function.update s [i, "usage-v1.json"] (some (.file bytes))) := by
  intro key there
  obtain ⟨u, decoded, same⟩ := reads next bytes encoded
  have file : validateRegularFile [i, "usage-v1.json"]
      (Function.update s [i, "usage-v1.json"] (some (.file bytes))) = .ok bytes :=
    validateRegularFile_file (Function.update_self ..)
  unfold readUsage at there
  rw [usagePath_eq identifier] at there
  simp only [Except.bind, readBounded, file, bind] at there
  by_cases small : bytes.length ≤ maxMetadataBytes
  · simp only [require_of small, pure, Except.pure, decoded] at there
    by_cases version : u.schemaVersion = 1
    · rw [if_pos version, same] at there
      exact known key there
    · rw [if_neg version] at there
      simp at there
  · simp [require, small] at there

end Writing

/-! ### Pointers -/

/-- A generation that loads and is not gone. -/
structure Survivor (env : PruneSetting) (i : String) (fs : Files) (gone : List Path)
    (f name : String) (loaded : LoadedGeneration) : Prop where
  loads : load env i fs f name = .ok loaded
  stays : finalDir i f name ∉ gone

/-- The pointer names a newest survivor, with the hash of its manifest. -/
structure Points (env : PruneSetting) (i : String) (fs : Files) (gone : List Path) (f : String)
    (bytes : List UInt8) (name : String) (loaded : LoadedGeneration) : Prop
    extends Survivor env i fs gone f name loaded where
  newest : ∀ other loaded', Survivor env i fs gone f other loaded' →
    ∀ a ∈ env.codec.parseTime loaded'.manifest.createdAt,
      ∃ b ∈ env.codec.parseTime loaded.manifest.createdAt, a ≤ b
  pointer : ∃ l manifest, env.codec.decodeLatest bytes = some l ∧ l.generationId = name ∧
    fs (finalDir i f name ++ ["manifest.json"]) = some (.file manifest) ∧
    l.manifestSha256 = env.codec.sha256 manifest

/-- What the pointer of a fingerprint should be. -/
inductive PointerRight (env : PruneSetting) (i : String) (fs : Files) (gone : List Path)
    (f : String) : Option Node → Prop where
  | newest {bytes : List UInt8} {name : String} {loaded : LoadedGeneration} :
      Points env i fs gone f bytes name loaded →
        PointerRight env i fs gone f (some (.file bytes))
  | none : (∀ name loaded, ¬ Survivor env i fs gone f name loaded) →
      PointerRight env i fs gone f none

section Pointers

variable {env : PruneSetting} {i f name : String} {fs s t : Files} {gone : List Path}
  {loaded : LoadedGeneration}

/-- What a generation that loads is made of. -/
structure Loaded (env : PruneSetting) (i : String) (fs : Files) (f name : String)
    (loaded : LoadedGeneration) : Prop where
  uuid : validateUuid name = true
  digest : isLowerHexDigest f = true
  identity : loaded.manifest.generationId = name
  dir : loaded.generationDir = finalDir i f name
  there : fs (finalDir i f name) = some .dir
  parent : fs [i, f, "generations"] = some .dir
  created : ∃ t, env.codec.parseTime loaded.manifest.createdAt = some t
  manifest : ∃ bytes, readBounded (finalDir i f name ++ ["manifest.json"]) maxManifestBytes fs =
    .ok bytes ∧ fs (finalDir i f name ++ ["manifest.json"]) = some (.file bytes)

theorem loaded_of_load (loads : load env i fs f name = .ok loaded) :
    Loaded env i fs f name loaded := by
  obtain ⟨⟨⟩, uuid, h⟩ := bind_eq_ok.mp loads
  obtain ⟨⟨⟩, child, h⟩ := bind_eq_ok.mp h
  obtain ⟨⟨⟩, -, h⟩ := bind_eq_ok.mp h
  obtain ⟨bytes, read, h⟩ := bind_eq_ok.mp h
  obtain ⟨⟨⟩, -, h⟩ := bind_eq_ok.mp h
  obtain ⟨m, parsed, h⟩ := bind_eq_ok.mp h
  obtain ⟨⟨⟩, same, h⟩ := bind_eq_ok.mp h
  obtain ⟨⟨⟩, -, h⟩ := bind_eq_ok.mp h
  cases h
  obtain ⟨⟨⟩, -, parsed⟩ := bind_eq_ok.mp parsed
  obtain ⟨⟨⟩, parent, child⟩ := bind_eq_ok.mp child
  obtain ⟨⟨⟩, dir, -⟩ := bind_eq_ok.mp child
  have valid : m.Valid env.codec i f := by
    split at parsed
    · cases parsed
    · obtain ⟨⟨⟩, validated, eq⟩ := bind_eq_ok.mp parsed
      cases eq
      exact CheckpointManifest.Valid.of_validate validated
  have isDir : ∀ p, validateDirectory p fs = .ok () → fs p = some .dir := by
    intro p ok
    by_contra notDir
    obtain ⟨e, blocked⟩ := validateDirectory_blocked notDir
    cases blocked.symm.trans ok
  obtain ⟨content, regular, bounded⟩ := bind_eq_ok.mp read
  obtain ⟨⟨⟩, -, eq⟩ := bind_eq_ok.mp bounded
  cases eq
  exact
    { uuid := require_eq_ok.mp uuid
      digest := valid.digest
      identity := require_eq_ok.mp same
      dir := rfl
      there := isDir _ dir
      parent := isDir _ parent
      created := valid.created
      manifest := ⟨_, read, validateRegularFile_eq_ok regular⟩ }

/-- The listing of a directory names all its entries. -/
def Listed (env : PruneSetting) (fs : Files) : Prop :=
  ∀ p name, fs (p ++ [name]) ≠ none → name ∈ env.listing p

/-- What is found by name and time are the survivors. -/
theorem mem_loaded_iff (left : Pared i fs gone s) (whole : Listed env fs) {created : Int} :
    (created, loaded) ∈ (s.readDir env.listing [i, f, "generations"]).filterMap
        (loadNamed env.codec i f [i, f, "generations"] s) ↔
      ∃ name, Survivor env i fs gone f name loaded ∧
        env.codec.parseTime loaded.manifest.createdAt = some created := by
  have loads_iff : ∀ name, load env i s f name = .ok loaded ↔
      Survivor env i fs gone f name loaded := by
    intro name
    by_cases away : finalDir i f name ∈ gone
    · obtain ⟨e, error⟩ := left.not_load away
      constructor
      · exact fun ok => (nomatch error.symm.trans ok)
      · exact fun h => absurd away h.stays
    · rw [left.load away]
      exact ⟨fun ok => ⟨ok, away⟩, fun h => h.loads⟩
  simp only [List.mem_filterMap]
  constructor
  · rintro ⟨name, _, named⟩
    unfold loadNamed at named
    split at named
    · cases named
    · split at named
      · cases named
      · rename_i other ok
        obtain ⟨time, parsed, eq⟩ := Option.map_eq_some_iff.mp named
        obtain ⟨rfl, rfl⟩ : time = created ∧ other = loaded := by simpa using eq
        exact ⟨name, (loads_iff name).mp ok, parsed⟩
  · rintro ⟨name, survivor, parsed⟩
    have made := loaded_of_load survivor.loads
    have ok : loadGeneration env.codec i f [i, f, "generations"] name none s = .ok loaded :=
      (loads_iff name).mpr survivor
    refine ⟨name, List.mem_filter.mpr ⟨whole _ name ?_, ?_⟩, ?_⟩
    · have there := made.there
      simp only [finalDir] at there
      simp [there]
    · have there : s (finalDir i f name) = some .dir := (loaded_of_load ok).there
      simp only [finalDir] at there
      simp [there]
    · simp [loadNamed, made.uuid, ok, parsed]

theorem newestLoaded_some {l : List (Int × LoadedGeneration)}
    (h : newestLoaded l = some loaded) :
    ∃ t, (t, loaded) ∈ l ∧ ∀ other ∈ l, other.1 ≤ t := by
  cases l with
  | nil => cases h
  | cons g gs =>
    obtain rfl := Option.some.inj h
    have best : ∀ (rest : List (Int × LoadedGeneration)) (g : Int × LoadedGeneration),
        rest.foldl (fun best h => if best.1 < h.1 then h else best) g ∈ g :: rest ∧
          ∀ other ∈ g :: rest,
            other.1 ≤ (rest.foldl (fun best h => if best.1 < h.1 then h else best) g).1 := by
      intro rest
      induction rest with
      | nil => simp
      | cons h rest ih =>
        intro g
        obtain ⟨mem, top⟩ := ih (if g.1 < h.1 then h else g)
        rw [List.foldl_cons]
        constructor
        · rcases List.mem_cons.mp mem with eq | mem
          · rw [eq]
            split <;> simp
          · simp [mem]
        · intro other inList
          rcases List.mem_cons.mp inList with rfl | inList
          · refine le_trans ?_ (top _ List.mem_cons_self)
            split <;> omega
          · rcases List.mem_cons.mp inList with rfl | inRest
            · refine le_trans ?_ (top _ List.mem_cons_self)
              split <;> omega
            · exact top other (List.mem_cons_of_mem _ inRest)
    exact ⟨_, (best gs g).1, (best gs g).2⟩

theorem newestLoaded_none {l : List (Int × LoadedGeneration)} (h : newestLoaded l = none) :
    l = [] := by
  cases l with
  | nil => rfl
  | cons g gs => cases h

end Pointers

/-! ### Setting the pointers -/

/-- The usage index is set, and so are the pointers of some fingerprints. -/
structure Repointed (env : PruneSetting) (i : String) (fs : Files) (gone : List Path)
    (keys done : List String) (s : Files) : Prop extends Pared i fs gone s where
  usage : UsageIn env.codec i keys s
  right : ∀ f ∈ done, fs [i, f, "generations"] = some .dir →
    PointerRight env i fs gone f (s [i, f, "latest.json"])
  others : ∀ f, (f ∈ done → fs [i, f, "generations"] ≠ some .dir) →
    s [i, f, "latest.json"] = fs [i, f, "latest.json"]

section Repointing

variable {env : PruneSetting} {i f name : String} {fs s t : Files} {gone : List Path}
  {keys done : List String} {loaded : LoadedGeneration}

theorem Pared.reindex (left : Pared i fs gone s) {p : Path} (index : Index i p)
    (node : Option Node) : Pared i fs gone (Function.update s p node) where
  final := left.final
  away := by
    intro d mem rest
    obtain ⟨f, name, _, _, rfl⟩ := left.final d mem
    rw [Function.update_of_ne]
    · exact left.away _ mem rest
    · rintro rfl
      exact not_index_final rest index
  same := by
    intro q notLoose notIndex outside
    rw [Function.update_of_ne]
    · exact left.same q notLoose notIndex outside
    · rintro rfl
      exact notIndex index

theorem Repointed.skip (h : Repointed env i fs gone keys done s)
    (notDir : fs [i, f, "generations"] ≠ some .dir) :
    Repointed env i fs gone keys (done ++ [f]) s where
  toPared := h.toPared
  usage := h.usage
  right := by
    intro g mem dir
    rcases List.mem_append.mp mem with old | new
    · exact h.right g old dir
    · rw [List.mem_singleton.mp new] at dir
      exact absurd dir notDir
  others := fun g out => h.others g fun mem => out (List.mem_append_left _ mem)

/-- The pointer of one more fingerprint is set. -/
theorem Repointed.point (h : Repointed env i fs gone keys done s) (fresh : f ∉ done)
    {node : Option Node} (dir : fs [i, f, "generations"] = some .dir)
    (right : PointerRight env i fs gone f node) :
    Repointed env i fs gone keys (done ++ [f])
      (Function.update s [i, f, "latest.json"] node) where
  toPared := h.toPared.reindex (.inr ⟨f, rfl⟩) node
  usage := by
    have same : Function.update s [i, f, "latest.json"] node [i, "usage-v1.json"] =
        s [i, "usage-v1.json"] := Function.update_of_ne (by simp) ..
    unfold UsageIn
    rw [readUsage_congr env.codec same]
    exact h.usage
  right := by
    intro g mem dir
    rcases List.mem_append.mp mem with old | new
    · rw [Function.update_of_ne]
      · exact h.right g old dir
      · intro eq
        obtain rfl : g = f := by simpa using eq
        exact fresh old
    · obtain rfl := List.mem_singleton.mp new
      rwa [Function.update_self]
  others := by
    intro g out
    rw [Function.update_of_ne]
    · exact h.others g fun mem => out (List.mem_append_left _ mem)
    · intro eq
      obtain rfl : g = f := by simpa using eq
      exact out (by simp) dir

/-- Nothing but a file is in the place of a pointer. -/
theorem Repointed.not_dir (h : Repointed env i fs gone keys done s) (fresh : f ∉ done)
    (digest : isLowerHexDigest f = true) {node : Node}
    (there : s [i, f, "latest.json"] = some node) (notFile : ∀ bytes, node ≠ .file bytes) :
    ¬ InOrder env i fs := by
  intro order
  rw [h.others f fun mem => absurd mem fresh] at there
  rcases order.latest f digest with absent | ⟨bytes, file⟩
  · simp [absent] at there
  · rw [file] at there
    exact notFile bytes (Option.some.inj there).symm

theorem own_dirs (left : Pared i fs gone s) (rooted : Rooted i f fs)
    (digest : isLowerHexDigest f = true) : ∀ d, d <+: [i, f] → s d = some .dir := by
  intro d above
  have known : d = [] ∨ d = [i] ∨ d = [i, f] := by
    rw [List.prefix_cons_iff] at above
    rcases above with rfl | ⟨d, rfl, above⟩
    · simp
    rw [List.prefix_cons_iff] at above
    rcases above with rfl | ⟨d, rfl, above⟩
    · simp
    · simp [List.prefix_nil.mp above]
  rcases known with rfl | rfl | rfl
  · exact left.root.trans (rooted _ (by simp [ownDirs]))
  · exact left.instance_.trans (rooted _ (by simp [ownDirs]))
  · exact (left.fingerprint digest).trans (rooted _ (by simp [ownDirs]))

theorem writePointer_calm (lawful : env.codec.Lawful) (rooted : Rooted i f fs)
    (digest : isLowerHexDigest f = true) (fresh : f ∉ done)
    (survivor : Survivor env i fs gone f name loaded)
    (newest : ∀ other loaded', Survivor env i fs gone f other loaded' →
      ∀ a ∈ env.codec.parseTime loaded'.manifest.createdAt,
        ∃ b ∈ env.codec.parseTime loaded.manifest.createdAt, a ≤ b) :
    Prog.Calm (Repointed env i fs gone keys done) (writePointer env [i, f] loaded)
      (fun _ => Repointed env i fs gone keys (done ++ [f])) fun _ => ¬ InOrder env i fs := by
  have made := loaded_of_load survivor.loads
  obtain ⟨manifest, read, file⟩ := made.manifest
  refine .each fun s₀ h => ?_
  have same : s₀ (finalDir i f name ++ ["manifest.json"]) =
      fs (finalDir i f name ++ ["manifest.json"]) := h.toPared.kept made.uuid survivor.stays _
  have read₀ : readBounded (loaded.generationDir ++ ["manifest.json"]) maxManifestBytes s₀ =
      .ok manifest := by
    rw [made.dir, readBounded_congr maxManifestBytes same]
    exact read
  refine .bind (inspect_calm fun s e eq error => ?_) fun bytes => ?_
  · subst eq
    cases read₀.symm.trans error
  refine .bind (.lift fun s e _ error order => ?_) fun latest => ?_
  · obtain ⟨bytes, encoded⟩ := Option.isSome_iff_exists.mp (order.encodesLatest
      { schemaVersion := 1
        generationId := loaded.manifest.generationId
        manifestSha256 := env.codec.sha256 bytes
        updatedAt := env.now })
    simp [encoded] at error
  refine .each ?_
  rintro s ⟨⟨rfl, readOk⟩, encodes⟩
  obtain rfl : manifest = bytes := Except.ok.inj (read₀.symm.trans readOk)
  have decoded := lawful.latest_roundtrip _ _ (elim_eq_ok.mp encodes)
  refine (atomicWrite_calm (p := [i, f, "latest.json"]) _ (own_dirs h.toPared rooted digest)
    fun dir => h.not_dir fresh digest dir (by simp)).post fun _ t written => ?_
  rw [written.2]
  have points : Points env i fs gone f latest name loaded :=
    { toSurvivor := survivor
      newest
      pointer := ⟨_, manifest, decoded, made.identity, file, rfl⟩ }
  exact h.point fresh (rooted _ (by simp [ownDirs])) (.newest points)

theorem removePointer_calm (rooted : Rooted i f fs) (digest : isLowerHexDigest f = true)
    (fresh : f ∉ done) (empty : ∀ name loaded, ¬ Survivor env i fs gone f name loaded) :
    Prog.Calm (Repointed env i fs gone keys done) (removePointer [i, f])
      (fun _ => Repointed env i fs gone keys (done ++ [f])) fun _ => ¬ InOrder env i fs := by
  have dir : fs [i, f, "generations"] = some .dir := rooted _ (by simp [ownDirs])
  refine .each fun s₀ h => ?_
  refine .bind (.read fun s e _ error => by cases error) fun there => ?_
  split
  · refine .bind (inspect_calm fun s e hs error => ?_) fun _ => change_calm ?_ ?_
    · obtain ⟨rfl, there⟩ := hs
      cases known : s [i, f, "latest.json"] with
      | none => simp_all
      | some node =>
        refine h.not_dir fresh digest known fun bytes eq => ?_
        subst eq
        cases (validateRegularFile_file known).symm.trans error
    · rintro s t ⟨⟨rfl, -⟩, -⟩ removed
      obtain rfl := Option.some.inj removed
      exact h.point fresh dir (.none empty)
    · intro s _ gone
      cases gone
  · rename_i absent
    refine .pure ?_
    rintro s ⟨rfl, eq⟩
    have known : s [i, f, "latest.json"] = none := by
      obtain rfl := Except.ok.inj eq
      simpa using absent
    have same := h.point fresh dir (.none empty)
    rwa [← known, Function.update_eq_self] at same

theorem reconcileListed_calm (lawful : env.codec.Lawful) (whole : Listed env fs)
    (rooted : Rooted i f fs) (digest : isLowerHexDigest f = true) (fresh : f ∉ done) :
    Prog.Calm (Repointed env i fs gone keys done) (reconcileListed env i f [i, f])
      (fun _ => Repointed env i fs gone keys (done ++ [f])) fun _ => ¬ InOrder env i fs := by
  refine .each fun s₀ h => .bind (.read fun s e _ error => (nomatch error)) fun names => ?_
  refine .bind .look fun all => .each ?_
  rintro s ⟨⟨rfl, listed⟩, loads⟩
  obtain rfl := Except.ok.inj listed
  have known : ∀ created loaded, (created, loaded) ∈ all ↔
      ∃ name, Survivor env i fs gone f name loaded ∧
        env.codec.parseTime loaded.manifest.createdAt = some created := by
    intro created loaded
    rw [← loads]
    exact mem_loaded_iff h.toPared whole
  cases chosen : newestLoaded all with
  | some loaded =>
    obtain ⟨created, mem, newest⟩ := newestLoaded_some chosen
    obtain ⟨name, survivor, parsed⟩ := (known created loaded).mp mem
    refine (writePointer_calm lawful rooted digest fresh survivor ?_).weaken
      (fun t same => same ▸ h) (fun _ _ h => h) fun _ h => h
    intro other loaded' survives a time
    exact ⟨created, parsed, newest (a, loaded') ((known a loaded').mpr ⟨other, survives, time⟩)⟩
  | none =>
    refine (removePointer_calm rooted digest fresh ?_).weaken
      (fun t same => same ▸ h) (fun _ _ h => h) fun _ h => h
    intro name loaded survivor
    obtain ⟨created, parsed⟩ := (loaded_of_load survivor.loads).created
    have mem := (known created loaded).mpr ⟨name, survivor, parsed⟩
    rw [newestLoaded_none chosen] at mem
    cases mem

theorem reconcileLatestPointer_calm (lawful : env.codec.Lawful) (tree : fs.Tree)
    (whole : Listed env fs)
    (digest : isLowerHexDigest f = true) (fingerprint : fs [i, f] = some .dir)
    (fresh : f ∉ done) :
    Prog.Calm (Repointed env i fs gone keys done) (reconcileLatestPointer env i f)
      (fun _ => Repointed env i fs gone keys (done ++ [f])) fun _ => ¬ InOrder env i fs := by
  refine .bind (.lift fun s e _ error order => ?_) fun root => ?_
  · simp [fingerprintRoot, instanceRoot, digest, order.identifier, require, bind, Except.bind,
      pure, Except.pure] at error
  refine .each ?_
  rintro s₀ ⟨h, path⟩
  obtain rfl : [i, f] = root := by
    obtain ⟨⟨⟩, -, path⟩ := bind_eq_ok.mp path
    obtain ⟨above, known, eq⟩ := bind_eq_ok.mp path
    obtain ⟨⟨⟩, -, known⟩ := bind_eq_ok.mp known
    cases known
    exact Except.ok.inj eq
  have there : s₀ [i, f] = some .dir := (h.toPared.fingerprint digest).trans fingerprint
  refine .bind .look fun present => ?_
  split
  · refine .bind (inspect_calm fun s e hs error => ?_) fun _ => .bind .look fun listed => ?_
    · rw [hs.1, validateDirectory_dir there] at error
      cases error
    split
    · refine .bind (inspect_calm fun s e hs error order => ?_) fun _ => .each ?_
      · obtain ⟨⟨⟨rfl, -⟩, -⟩, some_⟩ := hs
        simp only [List.cons_append, List.nil_append] at some_ error
        rcases order.generations f digest with absent | dir
        · rw [h.toPared.generations.trans absent] at some_
          simp_all
        · rw [validateDirectory_dir (h.toPared.generations.trans dir)] at error
          cases error
      · rintro s ⟨⟨⟨⟨rfl, -⟩, -⟩, -⟩, valid⟩
        have generations : fs [i, f, "generations"] = some .dir := by
          by_contra notDir
          obtain ⟨e, blocked⟩ := validateDirectory_blocked (h.toPared.generations ▸ notDir)
          cases blocked.symm.trans valid
        refine (reconcileListed_calm lawful whole (rooted_of_tree tree generations) digest
          fresh).weaken (fun t same => same ▸ h) (fun _ _ h => h) fun _ h => h
    · rename_i absent
      refine .pure ?_
      rintro s ⟨⟨⟨rfl, -⟩, -⟩, eq⟩
      refine h.skip fun dir => absent ?_
      simp only [List.cons_append, List.nil_append] at eq
      rw [← eq, h.toPared.generations.trans dir]
      rfl
  · rename_i absent
    refine .pure ?_
    rintro s ⟨rfl, eq⟩
    rw [there] at eq
    exact absurd eq.symm absent

theorem reconcilePointers_calm (lawful : env.codec.Lawful) (tree : fs.Tree) (whole : Listed env fs)
    (fingerprints : List String) (nodup : fingerprints.Nodup)
    (digests : ∀ f ∈ fingerprints, isLowerHexDigest f = true)
    (dirs : ∀ f ∈ fingerprints, fs [i, f] = some .dir) (fresh : ∀ f ∈ fingerprints, f ∉ done) :
    Prog.Calm (Repointed env i fs gone keys done) (reconcilePointers env i fingerprints)
      (fun _ => Repointed env i fs gone keys (done ++ fingerprints))
      fun _ => ¬ InOrder env i fs := by
  induction fingerprints generalizing done with
  | nil => exact .pure fun s h => by simpa using h
  | cons f fingerprints ih =>
    obtain ⟨notLater, nodup⟩ := List.nodup_cons.mp nodup
    rw [List.append_cons]
    refine .bind (reconcileLatestPointer_calm lawful tree whole (digests f (by simp))
      (dirs f (by simp)) (fresh f (by simp))) fun _ => ?_
    refine ih nodup (fun g mem => digests g (by simp [mem])) (fun g mem => dirs g (by simp [mem]))
      fun g mem seen => ?_
    rcases List.mem_append.mp seen with old | new
    · exact fresh g (by simp [mem]) old
    · obtain rfl : g = f := by simpa using new
      exact notLater mem

end Repointing

/-! ### What a scan finds -/

section Finding

variable {env : PruneSetting} {i f name : String} {fs : Files} {g : Prunable}
  {pairs : List (String × String)}

theorem found_eq_some (h : found env i fs (f, name) = some g) :
    ∃ loaded, load env i fs f name = .ok loaded ∧
      g = prunable env.codec (readUsage env.codec i maxMetadataBytes fs) (usageKey f name)
        loaded fs := by
  obtain ⟨loaded, loads, rfl⟩ := Option.map_eq_some_iff.mp h
  cases loads' : load env i fs f name with
  | error e => simp [loads', Except.toOption] at loads
  | ok other =>
    obtain rfl : other = loaded := by simpa [loads', Except.toOption] using loads
    exact ⟨other, rfl, rfl⟩

theorem found_dir (h : found env i fs (f, name) = some g) : g.dir = finalDir i f name := by
  obtain ⟨loaded, loads, rfl⟩ := found_eq_some h
  exact (loadGeneration_dir loads).1

theorem mem_validOf : g ∈ validOf env i fs ↔ ∃ f name, (f, name) ∈ pairsOf env i fs ∧
    found env i fs (f, name) = some g := by
  simp [validOf]

theorem found_dirs (pairs : List (String × String)) :
    ((pairs.filterMap (found env i fs)).map (·.dir)).Sublist
      (pairs.map fun pair => finalDir i pair.1 pair.2) := by
  induction pairs with
  | nil => exact .slnil
  | cons pair pairs ih =>
    cases h : found env i fs pair with
    | none =>
      rw [List.filterMap_cons_none h]
      exact ih.cons _
    | some g =>
      rw [List.filterMap_cons_some h, List.map_cons, List.map_cons, found_dir h]
      exact ih.cons_cons _

theorem fingerprintsOf_nodup (listed : ∀ p, (env.listing p).Nodup) :
    (fingerprintsOf env i fs).Nodup := (readDir_nodup listed fs _).filter _

theorem pairsOf_nodup (listed : ∀ p, (env.listing p).Nodup) : (pairsOf env i fs).Nodup := by
  refine List.nodup_flatMap.mpr ⟨fun f _ => ?_, ?_⟩
  · exact ((readDir_nodup listed fs _).filter _).map fun a b same => (Prod.mk.inj same).2
  · refine (fingerprintsOf_nodup listed).imp fun {f f'} ne pair mem mem' => ne ?_
    obtain ⟨_, _, rfl⟩ := List.mem_map.mp mem
    obtain ⟨_, _, same⟩ := List.mem_map.mp mem'
    exact (Prod.mk.inj same).1.symm

theorem validOf_dirs (listed : ∀ p, (env.listing p).Nodup) :
    ((validOf env i fs).map (·.dir)).Nodup := by
  refine ((pairsOf_nodup listed).map ?_).sublist (found_dirs _)
  rintro ⟨f, name⟩ ⟨f', name'⟩ same
  obtain ⟨rfl, rfl⟩ := finalDir_inj same
  rfl

theorem placed_of_mem (mem : g ∈ validOf env i fs) : ∃ f name, PlacedIn i fs g f name := by
  obtain ⟨f, name, -, h⟩ := mem_validOf.mp mem
  obtain ⟨loaded, loads, -⟩ := found_eq_some h
  have made := loaded_of_load loads
  exact ⟨f, name, made.digest, made.uuid, found_dir h, made.there, made.parent⟩

/-- What loads is not broken. -/
theorem validOf_not_broken (mem : g ∈ validOf env i fs) : g.dir ∉ brokenIn env i fs pairs := by
  obtain ⟨f, name, -, h⟩ := mem_validOf.mp mem
  obtain ⟨loaded, loads, -⟩ := found_eq_some h
  rw [found_dir h]
  intro broken
  obtain ⟨⟨f', name'⟩, listed, same⟩ := List.mem_map.mp broken
  obtain ⟨rfl, rfl⟩ := finalDir_inj same
  simpa [isBroken, loads, Except.toOption] using (List.mem_filter.mp listed).2

theorem mem_fingerprintsOf (mem : f ∈ fingerprintsOf env i fs) :
    isLowerHexDigest f = true ∧ fs [i, f] = some .dir := by
  simpa using (List.mem_filter.mp mem).2

end Finding

/-! ### What is protected -/

section Protecting

variable {explicit : List String} {limit : Nat} {gs : List Prunable}

theorem newestPrunable_none (h : newestPrunable gs = none) :
    ∀ g ∈ gs, g.createdAt = none := by
  induction gs with
  | nil => simp
  | cons first gs ih =>
    unfold newestPrunable at h
    cases time : first.createdAt with
    | none => simpa [time] using ih (by simpa [time] using h)
    | some t =>
      simp only [time] at h
      split at h
      · split at h <;> cases h
      · cases h
      · simp_all

/-- The newest generation, and no other is newer. -/
theorem newestPrunable_some {t : Int} {g : Prunable} (h : newestPrunable gs = some (t, g)) :
    g ∈ gs ∧ g.createdAt = some t ∧ ∀ other ∈ gs, ∀ a ∈ other.createdAt, a ≤ t := by
  induction gs generalizing t g with
  | nil => cases h
  | cons first gs ih =>
    unfold newestPrunable at h
    cases time : first.createdAt with
    | none =>
      simp only [time] at h
      obtain ⟨mem, created, newest⟩ := ih h
      exact ⟨by simp [mem], created, by simpa [time] using newest⟩
    | some t₀ =>
      cases later : newestPrunable gs with
      | none =>
        simp only [time, later, Option.some.injEq, Prod.mk.injEq] at h
        obtain ⟨rfl, rfl⟩ := h
        refine ⟨by simp, time, fun other mem a created => ?_⟩
        rcases List.mem_cons.mp mem with rfl | mem
        · simp_all
        · simp [newestPrunable_none later other mem] at created
      | some best =>
        obtain ⟨t', g'⟩ := best
        obtain ⟨mem, created, newest⟩ := ih later
        simp only [time, later] at h
        split at h
        · obtain ⟨rfl, rfl⟩ : t' = t ∧ g' = g := by simpa using h
          refine ⟨by simp [mem], created, fun other inList a created => ?_⟩
          rcases List.mem_cons.mp inList with rfl | inRest
          · obtain rfl : t₀ = a := by simpa [time] using created
            omega
          · exact newest other inRest a created
        · obtain ⟨rfl, rfl⟩ : t₀ = t ∧ first = g := by simpa using h
          refine ⟨by simp, time, fun other inList a created => ?_⟩
          rcases List.mem_cons.mp inList with rfl | inRest
          · simp_all
          · have := newest other inRest a created
            omega

theorem protectedKeys_explicit {key : String} (mem : key ∈ explicit) :
    key ∈ protectedKeys explicit gs limit := by
  have given : explicit.isEmpty = false := by
    cases explicit with
    | nil => cases mem
    | cons key rest => rfl
  simp [protectedKeys, given, mem]

end Protecting

/-! ### What pruning comes to -/

section Pruned

variable (env : PruneSetting) (i : String) (fs : Files) (limit : Nat)
  (kept : List (String × String))

/-- The generations that load, in the order of their last use. -/
def byLastUse : List Prunable :=
  (validOf env i fs).insertionSort fun a b => a.lastUsed ≤ b.lastUsed

/-- The generations the caller names, as far as they can be any. -/
def explicitKeys : List String :=
  (kept.filter fun (f, name) => isLowerHexDigest f && validateUuid name).map
    fun (f, name) => usageKey f name

def protectedOf : List String := protectedKeys (explicitKeys kept) (validOf env i fs) limit

def totalOf : Nat := min ((validOf env i fs).map (·.bytes)).sum (2 ^ 64 - 1)

/-- The generations that load and are not protected, in the order of their last use. -/
def candidatesOf : List Prunable :=
  (byLastUse env i fs).filter fun g => !decide (g.key ∈ protectedOf env i fs limit kept)

/-- The directories that are gone when the generations `gone` made room. -/
def goneDirs (gone : List Prunable) : List Path :=
  brokenIn env i fs (pairsOf env i fs) ++ gone.map (·.dir)

/-- What pruning leaves of a store, where the generations `gone` made room. -/
structure Pruned (gone : List Prunable) (result : PruneResult) (t : Files) : Prop where
  shortest : Eviction.Shortest (fun g => g.bytes) limit (totalOf env i fs)
    (candidatesOf env i fs limit kept) gone
  named : ∀ f name, (f, name) ∈ kept → isLowerHexDigest f = true → validateUuid name = true →
    ∀ g ∈ gone, g.key ≠ usageKey f name
  newest : explicitKeys kept = [] → validOf env i fs ≠ [] → ∃ g ∈ validOf env i fs,
    (∀ h ∈ validOf env i fs, ∀ a ∈ h.createdAt, ∃ b ∈ g.createdAt, a ≤ b) ∧
      (g.bytes ≤ limit → ∀ h ∈ gone, h.key ≠ g.key)
  exactly : ∀ f name, isLowerHexDigest f = true → validateUuid name = true →
    fs (finalDir i f name) = some .dir → (t (finalDir i f name) = none ↔
      (∃ e, load env i fs f name = .error e) ∨ ∃ g ∈ gone, g.dir = finalDir i f name)
  away : ∀ d ∈ goneDirs env i fs gone, ∀ rest, t (d ++ rest) = none
  intact : ∀ q, q ≠ [] → ¬ Loose i q → ¬ Index i q →
    (∀ d ∈ goneDirs env i fs gone, ¬ d <+: q) → t q = fs q
  removed : result.removedGenerations = (goneDirs env i fs gone).length
  counted : result.remainingBytes = Eviction.rest (fun g => g.bytes) (totalOf env i fs) gone
  remaining : ((validOf env i fs).map (·.bytes)).sum < 2 ^ 64 →
    result.remainingBytes = (((validOf env i fs).filter fun g => g ∉ gone).map (·.bytes)).sum
  usage : ∀ key, ((readUsage env.codec i maxMetadataBytes t).entries.lookup key).isSome →
    ∃ g ∈ validOf env i fs, g.key = key ∧ ∀ h ∈ gone, h.key ≠ key
  pointers : ∀ f, isLowerHexDigest f = true → fs [i, f, "generations"] = some .dir →
    PointerRight env i t [] f (t [i, f, "latest.json"])

end Pruned

section Pruning

variable {env : PruneSetting} {i f name : String} {fs s t : Files} {gone : List Path}
  {keys : List String} {limit : Nat} {kept : List (String × String)}

/-- The generations that make room. -/
def roomFor (env : PruneSetting) (i : String) (fs : Files) (limit : Nat)
    (kept : List (String × String)) : List Prunable :=
  evicted (protectedOf env i fs limit kept) limit (byLastUse env i fs) (totalOf env i fs)

theorem roomFor_shortest : Eviction.Shortest (fun g => g.bytes) limit (totalOf env i fs)
    (candidatesOf env i fs limit kept) (roomFor env i fs limit kept) :=
  Eviction.evict_shortest _ _

theorem byLastUse_perm : (byLastUse env i fs).Perm (validOf env i fs) :=
  List.perm_insertionSort _ _

theorem not_protected {g : Prunable} (mem : g ∈ roomFor env i fs limit kept) :
    g.key ∉ protectedOf env i fs limit kept := by
  simpa using Eviction.spared_of_mem_evict mem

theorem roomFor_valid {g : Prunable} (mem : g ∈ roomFor env i fs limit kept) :
    g ∈ validOf env i fs :=
  byLastUse_perm.mem_iff.mp ((Eviction.evict_sublist _ _).subset mem)

theorem roomFor_named (mem : (f, name) ∈ kept) (digest : isLowerHexDigest f = true)
    (uuid : validateUuid name = true) :
    ∀ g ∈ roomFor env i fs limit kept, g.key ≠ usageKey f name := by
  intro g gone same
  refine not_protected gone (same ▸ protectedKeys_explicit ?_)
  exact List.mem_map.mpr ⟨(f, name), List.mem_filter.mpr ⟨mem, by simp [digest, uuid]⟩, rfl⟩

theorem validOf_created {g : Prunable} (mem : g ∈ validOf env i fs) :
    ∃ t, g.createdAt = some t := by
  obtain ⟨f, name, -, h⟩ := mem_validOf.mp mem
  obtain ⟨loaded, loads, rfl⟩ := found_eq_some h
  exact (loaded_of_load loads).created

theorem roomFor_newest (unnamed : explicitKeys kept = []) (some_ : validOf env i fs ≠ []) :
    ∃ g ∈ validOf env i fs,
      (∀ h ∈ validOf env i fs, ∀ a ∈ h.createdAt, ∃ b ∈ g.createdAt, a ≤ b) ∧
        (g.bytes ≤ limit → ∀ h ∈ roomFor env i fs limit kept, h.key ≠ g.key) := by
  cases best : newestPrunable (validOf env i fs) with
  | none =>
    obtain ⟨g, mem⟩ := List.exists_mem_of_ne_nil _ some_
    obtain ⟨t, created⟩ := validOf_created mem
    simp [newestPrunable_none best g mem] at created
  | some pair =>
    obtain ⟨t, g⟩ := pair
    obtain ⟨mem, created, newest⟩ := newestPrunable_some best
    refine ⟨g, mem, fun h inList a time => ⟨t, created, newest h inList a time⟩, ?_⟩
    intro fits h gone same
    refine not_protected gone ?_
    simp [protectedOf, protectedKeys, unnamed, best, fits, same]

theorem roomFor_remaining (listed : ∀ p, (env.listing p).Nodup)
    (small : ((validOf env i fs).map (·.bytes)).sum < 2 ^ 64) :
    Eviction.rest (fun g => g.bytes) (totalOf env i fs) (roomFor env i fs limit kept) =
      (((validOf env i fs).filter fun g => g ∉ roomFor env i fs limit kept).map (·.bytes)).sum := by
  have total : totalOf env i fs = ((validOf env i fs).map (·.bytes)).sum := by
    unfold totalOf
    omega
  have nodup : (validOf env i fs).Nodup := (validOf_dirs listed).of_map
  have unique : (roomFor env i fs limit kept).Nodup :=
    (byLastUse_perm.nodup_iff.mpr nodup).sublist (Eviction.evict_sublist _ _)
  rw [total]
  exact Eviction.rest_eq_sum nodup unique fun g mem => roomFor_valid mem

/-! ### The run -/

theorem Early.repointed (early : Early i fs gone s) (usage : UsageIn env.codec i keys s) :
    Repointed env i fs gone keys [] s where
  toPared := early.toPared
  usage := usage
  right := by simp
  others := fun f _ => early.index _ (.inr ⟨f, rfl⟩)

theorem writeUsage_calm (reads : env.codec.ReadsUsage) (early : Early i fs gone s)
    (rooted : fs [] = some .dir) (instance_ : fs [i] = some .dir) {next : UsageFile}
    (known : ∀ key, (next.entries.lookup key).isSome → key ∈ keys) :
    Prog.Calm (fun t => t = s) (writeUsage env.codec i next)
      (fun _ => Repointed env i fs gone keys []) fun _ => ¬ InOrder env i fs := by
  refine .bind (.lift fun t e _ error order => ?_) fun bytes => .bind (.lift ?_) fun path =>
    .each ?_
  · obtain ⟨bytes, encoded⟩ := Option.isSome_iff_exists.mp (order.encodesUsage next)
    simp [encoded] at error
  · intro t e _ error order
    rw [usagePath_eq order.identifier] at error
    cases error
  · rintro t ⟨⟨rfl, encodes⟩, located⟩
    have identifier : validateIdentifier i = true := by
      obtain ⟨root, known, -⟩ := bind_eq_ok.mp located
      obtain ⟨⟨⟩, valid, -⟩ := bind_eq_ok.mp known
      exact require_eq_ok.mp valid
    obtain rfl : [i, "usage-v1.json"] = path :=
      Except.ok.inj ((usagePath_eq identifier).symm.trans located)
    refine (atomicWrite_calm (p := [i, "usage-v1.json"]) _ ?_ ?_).post fun _ u written => ?_
    · intro d above
      have cases : d = [] ∨ d = [i] := by simpa [List.prefix_cons_iff] using above
      rcases cases with rfl | rfl
      · exact early.root.trans rooted
      · exact early.instance_.trans instance_
    · intro dir order
      exact order.usage ((early.index _ (.inl rfl)).symm.trans dir)
    · rw [written.2]
      exact
        { toPared := early.toPared.reindex (.inl rfl) _
          usage := usageIn_written reads identifier (elim_eq_ok.mp encodes) known t
          right := by simp
          others := fun f _ => by
            rw [Function.update_of_ne (by simp)]
            exact early.index _ (.inr ⟨f, rfl⟩) }

/-- What there is before room is made. -/
def beforeRoom (env : PruneSetting) (i : String) (fs : Files) (usage : UsageFile) : PruneRest where
  remaining := totalOf env i fs
  removed := (brokenIn env i fs (pairsOf env i fs)).length
  usage
  keys := (validOf env i fs).map (·.key)

theorem makeRoom_calm {S : Files → Prop} (listed : ∀ p, (env.listing p).Nodup)
    (usage : UsageFile) :
    Prog.Calm (Early i fs (brokenIn env i fs (pairsOf env i fs)))
      (removeUnused env (protectedOf env i fs limit kept) limit (byLastUse env i fs)
        (beforeRoom env i fs usage))
      (fun rest s => Removed (roomFor env i fs limit kept) (beforeRoom env i fs usage) rest ∧
        Early i fs (goneDirs env i fs (roomFor env i fs limit kept)) s) S := by
  refine removeUnused_calm _ limit _ (fun g mem => ?_) ?_ (fun g mem => ?_) _
  · exact placed_of_mem (byLastUse_perm.mem_iff.mp mem)
  · exact (byLastUse_perm.map _).nodup_iff.mpr (validOf_dirs listed)
  · exact validOf_not_broken (byLastUse_perm.mem_iff.mp mem)

theorem mem_filter_lookup {keys : List String} {entries : Dict String Nat} {key : String}
    (there : (AList.lookup key (Dict.filter (fun key _ => keys.contains key) entries)).isSome) :
    key ∈ keys := by
  rw [Dict.lookup_filter] at there
  obtain ⟨n, found⟩ := Option.isSome_iff_exists.mp there
  simpa using (Option.filter_eq_some_iff.mp found).2

/-- What is found after the last pointer is set. -/
theorem Repointed.pointers {done : List String}
    (h : Repointed env i fs gone keys done t) (mem : f ∈ done)
    (dir : fs [i, f, "generations"] = some .dir) :
    PointerRight env i t [] f (t [i, f, "latest.json"]) := by
  have survivor_iff : ∀ name loaded, Survivor env i t [] f name loaded ↔
      Survivor env i fs gone f name loaded := by
    intro name loaded
    by_cases away : finalDir i f name ∈ gone
    · obtain ⟨e, error⟩ : ∃ e, load env i t f name = .error e := h.toPared.not_load away
      exact ⟨fun s => (nomatch error.symm.trans s.loads), fun s => absurd away s.stays⟩
    · have same : load env i t f name = load env i fs f name := h.toPared.load away
      exact ⟨fun s => ⟨same ▸ s.loads, away⟩, fun s => ⟨same ▸ s.loads, by simp⟩⟩
  have right := h.right f mem dir
  revert right
  generalize t [i, f, "latest.json"] = node
  rintro (@⟨bytes, name, loaded, points⟩ | empty)
  · obtain ⟨l, manifest, decoded, same, file, hash⟩ := points.pointer
    have made := loaded_of_load points.loads
    have points' : Points env i t [] f bytes name loaded :=
      { toSurvivor := (survivor_iff name loaded).mpr points.toSurvivor
        newest := fun other loaded' survivor =>
          points.newest other loaded' ((survivor_iff other loaded').mp survivor)
        pointer := ⟨l, manifest, decoded, same,
          (h.toPared.kept made.uuid points.stays _).trans file, hash⟩ }
    exact .newest points'
  · exact .none fun name loaded survivor =>
      empty name loaded ((survivor_iff name loaded).mp survivor)

theorem fingerprintsOf_of_generations (tree : fs.Tree) (whole : Listed env fs)
    (digest : isLowerHexDigest f = true) (dir : fs [i, f, "generations"] = some .dir) :
    f ∈ fingerprintsOf env i fs := by
  have fingerprint : fs [i, f] = some .dir := tree [i, f] "generations" (by simp [dir])
  refine List.mem_filter.mpr ⟨List.mem_filter.mpr ⟨whole [i] f ?_, ?_⟩, ?_⟩
  · simp [fingerprint]
  · simp [fingerprint]
  · simp [digest, fingerprint]

theorem pairsOf_of_dir (tree : fs.Tree) (whole : Listed env fs)
    (digest : isLowerHexDigest f = true) (uuid : validateUuid name = true)
    (dir : fs (finalDir i f name) = some .dir) : (f, name) ∈ pairsOf env i fs := by
  have there : fs [i, f, "generations", name] = some .dir := dir
  have generations : fs [i, f, "generations"] = some .dir := tree _ name (by simp [there])
  refine mem_pairsFrom.mpr ⟨fingerprintsOf_of_generations tree whole digest generations, ?_⟩
  refine List.mem_filter.mpr ⟨List.mem_filter.mpr ⟨whole _ name ?_, ?_⟩, uuid⟩
  · simp [there]
  · simp [there]

/-- The generations that are gone are the broken ones and those that made room. -/
theorem mem_goneDirs (tree : fs.Tree) (whole : Listed env fs)
    (digest : isLowerHexDigest f = true) (uuid : validateUuid name = true)
    (dir : fs (finalDir i f name) = some .dir) (gone : List Prunable) :
    finalDir i f name ∈ goneDirs env i fs gone ↔
      (∃ e, load env i fs f name = .error e) ∨ ∃ g ∈ gone, g.dir = finalDir i f name := by
  have broken : finalDir i f name ∈ brokenIn env i fs (pairsOf env i fs) ↔
      ∃ e, load env i fs f name = .error e := by
    constructor
    · intro mem
      obtain ⟨⟨f', name'⟩, listed, same⟩ := List.mem_map.mp mem
      obtain ⟨rfl, rfl⟩ := finalDir_inj same
      have fails := (List.mem_filter.mp listed).2
      cases loads : load env i fs f' name' with
      | ok loaded => simp [isBroken, loads, Except.toOption] at fails
      | error e => exact ⟨e, rfl⟩
    · rintro ⟨e, error⟩
      refine List.mem_map.mpr ⟨(f, name), List.mem_filter.mpr ⟨?_, ?_⟩, rfl⟩
      · exact pairsOf_of_dir tree whole digest uuid dir
      · simp [isBroken, error, dir, Except.toOption]
  rw [goneDirs, List.mem_append, broken, List.mem_map]

theorem Repointed.pruned {rest : PruneRest} {usage : UsageFile} (tree : fs.Tree)
    (listed : ∀ p, (env.listing p).Nodup) (whole : Listed env fs)
    (made : Removed (roomFor env i fs limit kept) (beforeRoom env i fs usage) rest)
    (h : Repointed env i fs (goneDirs env i fs (roomFor env i fs limit kept)) rest.keys
      (fingerprintsOf env i fs) t) :
    Pruned env i fs limit kept (roomFor env i fs limit kept) ⟨rest.removed, rest.remaining⟩ t where
  shortest := roomFor_shortest
  named _ _ mem digest uuid := roomFor_named mem digest uuid
  newest := roomFor_newest
  exactly f name digest uuid dir := by
    rw [← mem_goneDirs tree whole digest uuid dir]
    constructor
    · intro free
      by_contra stays
      have same := h.toPared.kept uuid stays []
      rw [List.append_nil, free, dir] at same
      cases same
    · intro mem
      simpa using h.away _ mem []
  away := h.away
  intact q _ := h.same q
  removed := by simp [made.removed, beforeRoom, goneDirs]
  counted := made.remaining
  remaining small := made.remaining.trans (roomFor_remaining listed small)
  usage := by
    intro key there
    obtain ⟨mem, others⟩ := made.keys key (h.usage key there)
    obtain ⟨g, valid, same⟩ := List.mem_map.mp mem
    exact ⟨g, valid, same, others⟩
  pointers f digest dir := h.pointers (fingerprintsOf_of_generations tree whole digest dir) dir

theorem pruneListed_calm (lawful : env.codec.Lawful) (reads : env.codec.ReadsUsage) (tree : fs.Tree)
    (listed : ∀ p, (env.listing p).Nodup) (whole : Listed env fs)
    (instance_ : fs [i] = some .dir) :
    Prog.Calm (fun s => s = fs) (pruneListed env i [i] limit (explicitKeys kept))
      (fun result t => Pruned env i fs limit kept (roomFor env i fs limit kept) result t)
      fun _ => ¬ InOrder env i fs := by
  have rooted : fs [] = some .dir := tree [] i (by simp [instance_])
  refine .bind .look fun usage => .bind (.read fun s e _ error => (nomatch error)) fun names => ?_
  refine .bind (Q := fun scan s =>
    Scanned env i fs (pairsOf env i fs) (fingerprintsOf env i fs) scan s) ?_ fun scan => ?_
  · refine .each ?_
    rintro s ⟨⟨rfl, rfl⟩, eq⟩
    obtain rfl := Except.ok.inj eq
    refine (@scanFingerprints_calm env i s [] { usage := _ } _ listed tree _
      (readDir_nodup listed s _) (by simp)).weaken ?_ (fun scan t h => h _ rfl) fun _ h => h
    rintro t rfl
    exact
      { generations := by simp [pairsFrom]
        removed := by simp [pairsFrom, brokenIn]
        fingerprints := rfl
        early :=
          { final := by simp [pairsFrom, brokenIn]
            away := by simp [pairsFrom, brokenIn]
            same := fun _ _ _ _ => rfl
            index := fun _ _ => rfl } }
  refine .each fun s scanned => ?_
  obtain ⟨generations, removed, fingerprints, early⟩ := scanned
  dsimp only
  rw [generations, removed, fingerprints]
  refine .bind ((makeRoom_calm listed scan.usage).weaken (fun t same => same ▸ early)
    (fun _ _ h => h) fun _ h => h) fun rest => ?_
  have finish : Prog.Calm
      (fun s => Removed (roomFor env i fs limit kept) (beforeRoom env i fs scan.usage) rest ∧
        Repointed env i fs (goneDirs env i fs (roomFor env i fs limit kept)) rest.keys [] s)
      (reconcilePointers env i (fingerprintsOf env i fs) >>= fun _ =>
        pure (⟨rest.removed, rest.remaining⟩ : PruneResult))
      (fun result t => Pruned env i fs limit kept (roomFor env i fs limit kept) result t)
      fun _ => ¬ InOrder env i fs := by
    refine .each fun s h => ?_
    refine .bind ((reconcilePointers_calm lawful tree whole (fingerprintsOf env i fs)
      (fingerprintsOf_nodup listed) (fun f mem => (mem_fingerprintsOf mem).1)
      (fun f mem => (mem_fingerprintsOf mem).2) (by simp)).weaken (fun t same => same ▸ h.2)
        (fun _ _ h => h) fun _ h => h) fun _ => .pure fun t pointed => ?_
    exact pointed.pruned tree listed whole h.1
  refine .bind .look fun current => .each ?_
  rintro s ⟨⟨made, early⟩, rfl⟩
  have next : ∀ key, (AList.lookup key (Dict.filter (fun key _ => rest.keys.contains key)
      rest.usage.entries)).isSome → key ∈ rest.keys := fun key => mem_filter_lookup
  split
  · exact .bind ((writeUsage_calm reads early rooted instance_ next).post
      fun _ _ h => ⟨made, h⟩) fun _ => finish
  · rename_i same
    refine finish.weaken ?_ (fun _ _ h => h) fun _ h => h
    rintro t rfl
    refine ⟨made, early.repointed fun key there => next key ?_⟩
    rwa [not_not.mp same]

theorem touch_calm {P Q S : Files → Prop} {message : String} (h : ∀ s, P s → Q s) :
    Prog.Calm P (touch message) (fun _ => Q) S :=
  (Prog.Calm.read fun _ _ _ error => (nomatch error)).post fun _ s hs => h s hs.1

/-- The root is there, or is made. -/
theorem ensureRoot_calm : Prog.Calm (fun s => s = fs) (ensureRoot env.ready)
    (fun _ s => s = fs ∨ fs [] = none ∧ s = Function.update fs [] (some .dir))
    fun _ => ¬ InOrder env i fs := by
  cases ready : env.ready with
  | true =>
    refine (inspect_calm fun s e hs error order => ?_).post fun _ s h => .inl h.1
    subst hs
    rcases order.root with dir | ⟨-, fresh⟩
    · cases (validateDirectory_dir dir).symm.trans error
    · cases ready.symm.trans fresh
  | false =>
    have made : Prog.Calm (fun s => s = fs) (createDirAll [] "checkpoint directory creation failed")
        (fun _ s => s [] = some .dir ∧
          (s = fs ∨ fs [] = none ∧ s = Function.update fs [] (some .dir)))
        fun _ => ¬ InOrder env i fs := by
      refine .bind (change_calm (fun s t hs h => ?_) fun s hs h order => ?_) fun _ => .pure
        fun _ h => h
      · subst hs
        refine ⟨Files.makeDir_self h, ?_⟩
        exact (Files.makeDir_eq h).imp (fun h => h.1) fun h => h
      · subst hs
        rcases order.root with dir | ⟨absent, -⟩
        · rw [Files.makeDir_of_dir dir] at h
          cases h
        · simp [Files.makeDir, absent] at h
    refine .bind (.bind made fun _ => .bind (inspect_calm fun s e hs error => ?_) fun _ =>
      touch_calm fun _ h => h.1.2) fun _ => touch_calm fun _ h => h
    cases (validateDirectory_dir hs.1).symm.trans error

/-- Where nothing is stored, nothing is pruned. -/
theorem pruned_absent (tree : fs.Tree) (absent : fs [i] = none) (same : ∀ q ≠ [], t q = fs q) :
    Pruned env i fs limit kept [] {} t := by
  have noFingerprints : fingerprintsOf env i fs = [] := by
    refine List.filter_eq_nil_iff.mpr fun f _ there => ?_
    have dir : fs [i, f] = some .dir := by
      simp only [Bool.and_eq_true, decide_eq_true_eq] at there
      exact there.2
    have parent : fs [i] = some .dir := tree [i] f (by simp [dir])
    cases absent.symm.trans parent
  have noPairs : pairsOf env i fs = [] := by simp [pairsOf, pairsFrom, noFingerprints]
  have noValid : validOf env i fs = [] := by simp [validOf, noPairs]
  have noUsage : t [i, "usage-v1.json"] = none := by
    rw [same _ (by simp)]
    by_contra there
    have parent : fs [i] = some .dir := tree [i] "usage-v1.json" there
    cases absent.symm.trans parent
  have room : roomFor env i fs limit kept = [] := by
    refine List.eq_nil_iff_forall_not_mem.mpr fun g mem => ?_
    have valid := roomFor_valid mem
    rw [noValid] at valid
    cases valid
  have noDirs : goneDirs env i fs [] = [] := by simp [goneDirs, noPairs, brokenIn]
  exact
    { shortest := room ▸ roomFor_shortest
      named := by simp
      newest := fun _ some_ => absurd noValid some_
      exactly := by
        intro f name _ _ dir
        have there : fs [i, f, "generations", name] = some .dir := dir
        have generations : fs [i, f, "generations"] = some .dir := tree _ name (by simp [there])
        exact absurd absent (by simp [rooted_of_tree tree generations [i] (by simp [ownDirs])])
      away := by simp [noDirs]
      intact := fun q ne _ _ _ => same q ne
      removed := by simp [noDirs]
      counted := by simp [totalOf, noValid]
      remaining := by simp [noValid]
      usage := by
        intro key there
        rw [readUsage_absent noUsage] at there
        simp at there
      pointers := by
        intro f _ dir
        have fingerprint : fs [i, f] = some .dir := tree [i, f] "generations" (by simp [dir])
        have parent : fs [i] = some .dir := tree [i] f (by simp [fingerprint])
        cases absent.symm.trans parent }
where
  readUsage_absent {c : Codec} {i : String} {t : Files} (none_ : t [i, "usage-v1.json"] = none) :
      readUsage c i maxMetadataBytes t = {} := by
    unfold readUsage usagePath instanceRoot
    cases validateIdentifier i with
    | false => rfl
    | true =>
      simp [require, bind, Except.bind, pure, Except.pure, readBounded, validateRegularFile, none_]

/-- **What pruning an instance leaves.** Where no call fails, pruning returns and leaves
what it should, unless an entry of another kind is in the place of one of the store.
What goes is told exactly (`Pruned`): the generations that cannot be loaded, and of the
others the shortest run, in the order of their last use, that makes room without those
that are kept. -/
theorem pruneInstance_pruned (env : PruneSetting) (i : String) (limit : Nat)
    (kept : List (String × String)) (fs : Files) (lawful : env.codec.Lawful)
    (reads : env.codec.ReadsUsage) (tree : fs.Tree) (listed : ∀ p, (env.listing p).Nodup)
    (whole : ∀ p name, fs (p ++ [name]) ≠ none → name ∈ env.listing p) :
    (∃ result t, (pruneInstance env i limit kept).calmly fs = some (.ok result, t) ∧
        ∃ gone, Pruned env i fs limit kept gone result t) ∨
      ∃ e t, (pruneInstance env i limit kept).calmly fs = some (.error e, t) ∧
        ¬ InOrder env i fs := by
  have run : Prog.Calm (fun s => s = fs) (pruneInstance env i limit kept)
      (fun result t => ∃ gone, Pruned env i fs limit kept gone result t)
      fun _ => ¬ InOrder env i fs := by
    refine .bind ensureRoot_calm fun _ => .bind (.lift fun s e _ error order => ?_) fun root => ?_
    · simp [instanceRoot, order.identifier, require, bind, Except.bind, pure, Except.pure] at error
    refine .each ?_
    rintro s ⟨prepared, located⟩
    obtain rfl : [i] = root := by
      obtain ⟨⟨⟩, -, eq⟩ := bind_eq_ok.mp located
      exact Except.ok.inj eq
    have others : ∀ q ≠ [], s q = fs q := by
      intro q ne
      rcases prepared with rfl | ⟨-, rfl⟩
      · rfl
      · exact Function.update_of_ne ne ..
    have entry : s [i] = fs [i] := others _ (by simp)
    refine .bind .look fun there => ?_
    split
    · refine .bind (inspect_calm fun t e hs error order => ?_) fun _ => .each ?_
      · obtain ⟨rfl, some_⟩ := hs
        rcases order.instance_ with absent | dir
        · rw [entry.trans absent] at some_
          simp_all
        · cases (validateDirectory_dir (entry.trans dir)).symm.trans error
      · rintro t ⟨⟨rfl, -⟩, valid⟩
        have dir : fs [i] = some .dir := by
          by_contra notDir
          obtain ⟨e, blocked⟩ := validateDirectory_blocked (entry ▸ notDir)
          cases blocked.symm.trans valid
        have rooted : fs [] = some .dir := tree [] i (by simp [dir])
        rcases prepared with rfl | ⟨absent, -⟩
        · exact (pruneListed_calm lawful reads tree listed whole dir).post
            fun _ _ pruned => ⟨_, pruned⟩
        · cases rooted.symm.trans absent
    · rename_i missing
      refine .pure ?_
      rintro t ⟨rfl, eq⟩
      refine ⟨[], pruned_absent tree ?_ others⟩
      rw [← entry]
      simpa using eq.trans (Bool.eq_false_of_not_eq_true missing)
  exact run.calmly rfl

end Pruning

/-! Two generations of one fingerprint, and a pointer of another without any. -/

def writeFrom {α : Type} [DecidableEq α] (table : List (α × List UInt8)) (a : α) :
    Option (List UInt8) := (table.find? (·.1 = a)).map (·.2)

def readFrom {α : Type} (table : List (α × List UInt8)) (bytes : List UInt8) : Option α :=
  (table.find? (·.2 = bytes)).map (·.1)

theorem readFrom_writeFrom {α : Type} [DecidableEq α] {table : List (α × List UInt8)} {a : α}
    {bytes : List UInt8} (known : ∀ e ∈ table, readFrom table e.2 = some e.1)
    (written : writeFrom table a = some bytes) : readFrom table bytes = some a := by
  obtain ⟨e, found, rfl⟩ := Option.map_eq_some_iff.mp written
  rw [known e (List.mem_of_find?_eq_some found)]
  simpa using List.find?_some found

/-- The later generation is the larger one. -/
def lateManifest : CheckpointManifest := { pairManifest with createdAt := nextTime }

def earlyManifest : CheckpointManifest := { nextManifest with createdAt := sampleTime }

def pruneManifests : List (CheckpointManifest × List UInt8) :=
  [pairManifest, nextManifest, lateManifest, earlyManifest].map fun m => (m, pairBytes m)

def prunePointers : List (LatestPointer × List UInt8) := pointers.map fun l => (l, pointerBytes l)

def pruneUsages : List (Dict String Nat × List UInt8) :=
  ((∅ : Dict String Nat).insert (usageKey (sampleDigest 'a') nextId) 0, textLines
    [["\x7b"], ["  \"schemaVersion\": 1,"], ["  \"entries\": \x7b"],
      ["    \"", usageKey (sampleDigest 'a') nextId, "\": 0"], ["  \x7d"], ["\x7d"]]) :: usages

def pruneCodec : Codec where
  digest := pairCodec.digest
  encodeManifest := writeFrom pruneManifests
  decodeManifest := readFrom pruneManifests
  encodeLatest := writeFrom prunePointers
  decodeLatest := readFrom prunePointers
  encodeUsage usage := writeFrom pruneUsages usage.entries
  decodeUsage bytes := (readFrom pruneUsages bytes).map fun entries => { entries }
  parseTime := pairCodec.parseTime

def twoEntries (first second : CheckpointManifest) : List (Path × Node) :=
  let generations := ["main", sampleDigest 'a', "generations"]
  [([], .dir), (["main"], .dir), (["main", sampleDigest 'a'], .dir), (generations, .dir),
    (generations ++ [sampleId], .dir),
    (generations ++ [sampleId, "manifest.json"], .file (pairBytes first)),
    (generations ++ [sampleId, "slot-0.bin"], .file [1, 2, 3]),
    (generations ++ [sampleId, "slot-1.bin"], .file [1, 2, 3]),
    (generations ++ [nextId], .dir),
    (generations ++ [nextId, "manifest.json"], .file (pairBytes second)),
    (generations ++ [nextId, "slot-0.bin"], .file [1, 2, 3])]

/-- Both generations were used. -/
def usedEntries : List (Path × Node) :=
  twoEntries pairManifest nextManifest ++
    [(["main", "usage-v1.json"], .file ((usages.getLast?).elim [] (·.2)))]

def pruneEnv (entries : List (Path × Node)) : PruneSetting where
  codec := pruneCodec
  listing := Files.listingOf entries
  ready := false
  now := nextTime
  kept _ := false

theorem pruneCodec_lawful : pruneCodec.Lawful where
  digest_length := by
    intro bytes
    change (if _ then _ else if _ then _ else if _ then _ else if _ then _ else _ :
      List UInt8).length = 32
    split_ifs <;> rfl
  manifest_roundtrip _ _ h := readFrom_writeFrom (by decide +kernel) h
  latest_roundtrip _ _ h := readFrom_writeFrom (by decide +kernel) h

theorem pruneCodec_reads : pruneCodec.ReadsUsage := by
  intro u bytes h
  have back : readFrom pruneUsages bytes = some u.entries :=
    readFrom_writeFrom (by decide +kernel) h
  exact ⟨{ entries := u.entries }, by simp [pruneCodec, back], fun _ => rfl⟩

/-- The first of the two goes. -/
theorem pruneInstance_pruned_two : ∃ result t gone,
    (pruneInstance (pruneEnv usedEntries) "main" 1000 []).calmly (Files.ofEntries usedEntries) =
        some (.ok result, t) ∧
      Pruned (pruneEnv usedEntries) "main" (Files.ofEntries usedEntries) 1000 [] gone result t ∧
      result = ⟨1, 771⟩ := by
  have run : ((pruneInstance (pruneEnv usedEntries) "main" 1000 []).calmly
      (Files.ofEntries usedEntries)).map (fun end_ => end_.1.toOption) = some (some ⟨1, 771⟩) := by
    decide +kernel
  rcases pruneInstance_pruned (pruneEnv usedEntries) "main" 1000 [] (Files.ofEntries usedEntries)
    pruneCodec_lawful pruneCodec_reads (Files.tree_ofEntries (by decide +kernel))
    (Files.listingOf_nodup usedEntries) (fun _ _ => Files.mem_listingOf) with
    ⟨result, t, ran, gone, pruned⟩ | ⟨e, t, ran, -⟩
  · rw [ran] at run
    refine ⟨result, t, gone, ran, pruned, ?_⟩
    simpa [Except.toOption] using run
  · rw [ran] at run
    simp [Except.toOption] at run

/-- The later generation does not fit, and another fingerprint has only a pointer. -/
def strayEntries : List (Path × Node) :=
  twoEntries lateManifest earlyManifest ++
    [(["main", sampleDigest 'b'], .dir),
      (["main", sampleDigest 'b', "latest.json"], .file (pointers.head?.elim [] pointerBytes))]

/-- The only generation that fits is removed before the larger one, and a pointer is left where
there is no generation. -/
theorem pruneInstance_strays : ∃ t,
    (pruneInstance (pruneEnv strayEntries) "main" 800 []).calmly (Files.ofEntries strayEntries) =
        some (.ok ⟨2, 0⟩, t) ∧
      (∃ g ∈ validOf (pruneEnv strayEntries) "main" (Files.ofEntries strayEntries),
        g.bytes ≤ 800 ∧
          (∀ h ∈ validOf (pruneEnv strayEntries) "main" (Files.ofEntries strayEntries),
            h.bytes ≤ 800 → h = g) ∧ t g.dir = none) ∧
      t ["main", sampleDigest 'b'] = some .dir ∧
      t ["main", sampleDigest 'b', "generations"] = none ∧
      t ["main", sampleDigest 'b', "latest.json"] ≠ none := by
  have run : ((pruneInstance (pruneEnv strayEntries) "main" 800 []).calmly
      (Files.ofEntries strayEntries)).map (fun ended => (ended.1.toOption,
        ended.2 (finalDir "main" (sampleDigest 'a') nextId), ended.2 ["main", sampleDigest 'b'],
        ended.2 ["main", sampleDigest 'b', "generations"],
        (ended.2 ["main", sampleDigest 'b', "latest.json"]).isSome)) =
      some (some ⟨2, 0⟩, none, some .dir, none, true) := by
    decide +kernel
  have sizes : (validOf (pruneEnv strayEntries) "main" (Files.ofEntries strayEntries)).map
      (fun g => (g.dir, g.bytes)) = [(finalDir "main" (sampleDigest 'a') sampleId, 960),
        (finalDir "main" (sampleDigest 'a') nextId, 771)] := by
    decide +kernel
  have fits : ∃ g ∈ validOf (pruneEnv strayEntries) "main" (Files.ofEntries strayEntries),
      g.bytes ≤ 800 ∧ (∀ h ∈ validOf (pruneEnv strayEntries) "main"
        (Files.ofEntries strayEntries), h.bytes ≤ 800 → h = g) ∧
      g.dir = finalDir "main" (sampleDigest 'a') nextId := by
    generalize validOf (pruneEnv strayEntries) "main" (Files.ofEntries strayEntries) = found
      at sizes ⊢
    obtain ⟨large, small, rfl, large_, small_⟩ := List.map_eq_cons_iff.mp sizes
    obtain ⟨g, rest, rfl, fit, none_⟩ := List.map_eq_cons_iff.mp small_
    obtain rfl := List.map_eq_nil_iff.mp none_
    simp only [Prod.mk.injEq] at large_ fit
    refine ⟨g, by simp, by omega, fun h mem small => ?_, fit.1⟩
    rcases List.mem_cons.mp mem with rfl | mem
    · omega
    · exact List.mem_singleton.mp mem
  obtain ⟨⟨result, t⟩, ran, eq⟩ := Option.map_eq_some_iff.mp run
  obtain ⟨g, valid, small, only_, dir⟩ := fits
  simp only [Prod.mk.injEq] at eq
  obtain ⟨ok, gone, fingerprint, generations, pointer⟩ := eq
  cases result with
  | error e => cases ok
  | ok result =>
    obtain rfl : result = ⟨2, 0⟩ := Option.some.inj ok
    exact ⟨t, ran, ⟨g, valid, small, only_, dir ▸ gone⟩, fingerprint, generations,
      Option.isSome_iff_ne_none.mp pointer⟩

end LlamaServerManager.Checkpoint
