import LlamaServerManager.Downloads.Steps

/-!
The agreement of the ownership ledger with the directory, and that the
operations keep it and spare the files of others.
-/

namespace LlamaServerManager.Downloads

open Lib
open Lib.Prog (view effect lift require raise attempt crashAt)

variable {d e : Disk} {task : Task} {path : Entry} {references : References}
  {crash : Option Nat}

/-! ### The ledger agrees with the directory -/

/-- The ledger of created files is right about the directory in both directions, so that
what a removal spares is what the task has not created. -/
structure Accounted (d : Disk) : Prop where
  present : ∀ path file, d.dir path = some file → file.identity < d.nextIdentity
  unborn : ∀ i, d.nextIdentity ≤ i → d.creator i = none
  /-- The ledger names only what the task has created. -/
  honest : ∀ task path expected, d.ledger task path = some expected →
    ∀ i ∈ expected, d.creator i = some task
  /-- What the task has created is named where it is. -/
  known : ∀ task name file, d.dir (.leaf name) = some file →
    d.creator file.identity = some task → d.owns task (.leaf name)
  unnamed : ∀ n, d.nextScratch ≤ n → d.dir (.scratch n) = none

/-- The files that are not the task's are where and as they were. -/
def Disk.Spares (d : Disk) (task : Task) (e : Disk) : Prop :=
  ∀ path file, d.dir path = some file → d.creator file.identity ≠ some task →
    e.dir path = some file

theorem Disk.Spares.refl (d : Disk) (task : Task) : d.Spares task d := fun _ _ found _ => found

theorem owns_of_eq {p : Entry} (dir : e.dir p = d.dir p)
    (ledger : e.ledger task p = d.ledger task p) :
    e.owns task p = d.owns task p := by
  unfold Disk.owns matchesIdentity
  rw [dir, ledger]

theorem insert_self (records : Ownership) (task : Task) (path : Entry) (identities : List Nat) :
    insert records task path identities task path = some identities := by
  unfold insert
  rw [Function.update_self, Function.update_self]

theorem insert_of_ne (records : Ownership) {task task' : Task} {path path' : Entry}
    (identities : List Nat) (ne : task' ≠ task ∨ path' ≠ path) :
    insert records task path identities task' path' = records task' path' := by
  unfold insert
  by_cases same : task' = task
  · subst same
    rw [Function.update_self]
    exact Function.update_of_ne (ne.resolve_left (not_not_intro rfl)) _ _
  · rw [Function.update_of_ne same]

namespace Accounted

variable (h : Accounted d)

include h

theorem owned_creator (owned : d.owns task path) {file : File} (found : d.dir path = some file) :
    d.creator file.identity = some task := by
  obtain ⟨expected, file', recorded, found', named⟩ := owns_iff.mp owned
  cases found.symm.trans found'
  exact h.honest task path expected recorded _ named

/-- No ledger entry names the next file. -/
theorem unborn_not_mem {expected : List Nat} (recorded : d.ledger task path = some expected) :
    d.nextIdentity ∉ expected := by
  intro named
  have creator := h.honest task path expected recorded _ named
  rw [h.unborn _ (Nat.le_refl _)] at creator
  cases creator

/-- Who has created a file does not change when the next one comes. -/
theorem creator_create {creator : Option Task} {content : List UInt8} {i : Nat} {task : Task}
    (born : d.creator i = some task) :
    (d.create creator path content).creator i = some task := by
  rw [Disk.create_creator, if_neg, born]
  rintro rfl
  rw [h.unborn _ (Nat.le_refl _)] at born
  cases born

/-- Taking a file away needs no record. -/
theorem unlink (path : Entry) : Accounted (d.unlink path) := by
  have before : ∀ {p file}, (d.unlink path).dir p = some file → p ≠ path ∧ d.dir p = some file := by
    intro p file there
    rw [Disk.unlink_dir] at there
    split_ifs at there with same
    exact ⟨same, there⟩
  refine ⟨fun p file there => h.present p file (before there).2, h.unborn, h.honest, ?_, ?_⟩
  · intro task name file there creator
    obtain ⟨apart, found⟩ := before there
    rw [owns_of_eq (there.trans found.symm) rfl]
    exact h.known task name file found creator
  · intro n later
    rw [Disk.unlink_dir, h.unnamed n later]
    exact ite_self none

/-- Writing into a file does not change whose it is. -/
theorem setContent (path : Entry) (content : List UInt8) :
    Accounted (d.setContent path content) := by
  have before : ∀ {p file}, (d.setContent path content).dir p = some file →
      ∃ old, d.dir p = some old ∧ old.identity = file.identity := by
    intro p file there
    rw [Disk.setContent_dir] at there
    split_ifs at there with same
    · subst same
      obtain ⟨old, found, rfl⟩ := Option.map_eq_some_iff.mp there
      exact ⟨old, found, rfl⟩
    · exact ⟨file, there, rfl⟩
  refine ⟨?_, h.unborn, h.honest, ?_, ?_⟩
  · intro p file there
    obtain ⟨old, found, same⟩ := before there
    rw [← same]
    exact h.present p old found
  · intro task name file there creator
    obtain ⟨old, found, same⟩ := before there
    rw [← same] at creator
    obtain ⟨expected, old', recorded, found', named⟩ :=
      owns_iff.mp (h.known task name old found creator)
    cases found.symm.trans found'
    exact owns_iff.mpr ⟨expected, file, recorded, there, same ▸ named⟩
  · intro n later
    rw [Disk.setContent_dir, h.unnamed n later]
    split_ifs with same
    · rw [← same, h.unnamed n later]
      rfl
    · rfl

/-- A file another program makes, or one with a new UUID in its name: nothing of
the ledger speaks of it. -/
theorem create {creator : Option Task} (path : Entry) (content : List UInt8)
    (unspoken : creator = none ∨ ∃ n, path = .scratch n)
    (named : ∀ n, d.nextScratch ≤ n → path ≠ .scratch n) :
    Accounted (d.create creator path content) := by
  refine ⟨?_, ?_, ?_, ?_, ?_⟩
  · intro p file there
    rw [Disk.create_dir] at there
    split_ifs at there
    · cases there
      exact Nat.lt_succ_self _
    · exact Nat.lt_succ_of_lt (h.present p file there)
  · intro i later
    rw [Disk.create_creator, if_neg (Nat.ne_of_gt later)]
    exact h.unborn i (Nat.le_of_succ_le later)
  · intro task p expected recorded i mem
    exact h.creator_create (h.honest task p expected recorded i mem)
  · intro task name file there creator'
    rw [Disk.create_dir] at there
    split_ifs at there with same
    · cases there
      rw [Disk.create_creator, if_pos rfl] at creator'
      obtain none | ⟨n, scratch⟩ := unspoken
      · rw [none] at creator'
        cases creator'
      · cases same.trans scratch
    · have older := Nat.ne_of_lt (h.present _ file there)
      rw [Disk.create_creator, if_neg older] at creator'
      have found : (d.create creator path content).dir (.leaf name) = d.dir (.leaf name) := by
        rw [Disk.create_dir, if_neg same]
      rw [owns_of_eq found rfl]
      exact h.known task name file there creator'
  · intro n later
    rw [Disk.create_dir, if_neg (named n later).symm]
    exact h.unnamed n later

/-- More UUIDs are drawn. -/
theorem drawScratch : Accounted d.drawScratch :=
  ⟨h.present, h.unborn, h.honest, h.known, fun n later => h.unnamed n (Nat.le_of_succ_le later)⟩

/-- A file with a new UUID in its name. -/
theorem scratch (creator : Option Task) (content : List UInt8) :
    Accounted (d.create creator (.scratch d.nextScratch) content).drawScratch := by
  refine h.drawScratch.create _ content (.inr ⟨_, rfl⟩) ?_
  rintro n later same
  cases same
  exact absurd later (Nat.not_succ_le_self _)

theorem isolate (path : Entry) : Accounted (d.isolate path) := by
  have dir : ∀ p, (d.isolate path).dir p =
      if p = .scratch d.nextScratch then d.dir path else if p = path then none else d.dir p :=
    fun _ => Disk.move_dir
  refine ⟨?_, h.unborn, h.honest, ?_, ?_⟩
  · intro p file there
    rw [dir] at there
    split_ifs at there
    · exact h.present _ file there
    · exact h.present p file there
  · intro task name file there creator
    have found := there
    rw [dir, if_neg (by rintro ⟨⟩)] at found
    split_ifs at found
    rw [owns_of_eq (there.trans found.symm) rfl]
    exact h.known task name file found creator
  · intro n later
    have apart : Entry.scratch n ≠ .scratch d.nextScratch := by
      rintro ⟨⟩
      exact absurd later (Nat.not_succ_le_self _)
    rw [dir, if_neg apart, h.unnamed n (Nat.le_of_succ_le later)]
    exact ite_self none

/-- A ledger entry for identities the task has created, among them the one of its
own file at that name. -/
theorem insert {expected : List Nat} (own : ∀ i ∈ expected, d.creator i = some task)
    (current : ∀ file, d.dir path = some file → d.creator file.identity = some task →
      file.identity ∈ expected) :
    Accounted (d.writeLedger (insert d.ledger task path expected)) := by
  refine ⟨h.present, h.unborn, ?_, ?_, h.unnamed⟩
  · intro task' p recorded eq i mem
    by_cases same : task' = task ∧ p = path
    · obtain ⟨rfl, rfl⟩ := same
      cases (insert_self ..).symm.trans eq
      exact own i mem
    · rw [not_and_or] at same
      exact h.honest task' p recorded ((insert_of_ne _ _ same).symm.trans eq) i mem
  · intro task' name file there creator
    by_cases same : task' = task ∧ .leaf name = path
    · obtain ⟨rfl, rfl⟩ := same
      exact owns_iff.mpr ⟨expected, file, insert_self .., there, current file there creator⟩
    · rw [not_and_or] at same
      have kept : (d.writeLedger (Downloads.insert d.ledger task path expected)).owns task'
          (.leaf name) = d.owns task' (.leaf name) :=
        owns_of_eq rfl (insert_of_ne d.ledger expected same)
      rw [kept]
      exact h.known task' name file there creator

/-- A file and its entry. -/
theorem adopt (task : Task) (named : ∀ n, path ≠ .scratch n) : Accounted (d.adopt task path) := by
  have dir : ∀ p, (d.adopt task path).dir p =
      if p = path then some ⟨d.nextIdentity, []⟩ else d.dir p :=
    fun _ => Disk.create_dir (some task) []
  have creator : ∀ i, (d.adopt task path).creator i =
      if i = d.nextIdentity then some task else d.creator i :=
    fun _ => Function.update_apply ..
  refine ⟨?_, ?_, ?_, ?_, ?_⟩
  · intro p file there
    rw [dir] at there
    split_ifs at there
    · cases there
      exact Nat.lt_succ_self _
    · exact Nat.lt_succ_of_lt (h.present p file there)
  · intro i later
    rw [creator, if_neg (Nat.ne_of_gt later)]
    exact h.unborn i (Nat.le_of_succ_le later)
  · intro task' p recorded eq i mem
    by_cases same : task' = task ∧ p = path
    · obtain ⟨rfl, rfl⟩ := same
      cases (insert_self ..).symm.trans eq
      cases List.mem_singleton.mp mem
      rw [creator, if_pos rfl]
    · rw [not_and_or] at same
      have before : d.ledger task' p = some recorded := (insert_of_ne _ _ same).symm.trans eq
      have born : (d.create (some task) path []).creator i = some task' :=
        h.creator_create (h.honest task' p recorded before i mem)
      exact born
  · intro task' name file there born
    have found := there
    rw [dir] at found
    split_ifs at found with same
    · cases found
      rw [creator, if_pos rfl] at born
      cases born
      refine owns_iff.mpr ⟨[d.nextIdentity], _, ?_, there, List.mem_singleton_self _⟩
      rw [same]
      exact insert_self ..
    · have older := Nat.ne_of_lt (h.present _ file found)
      rw [creator, if_neg older] at born
      have kept : (d.adopt task path).owns task' (.leaf name) = d.owns task' (.leaf name) :=
        owns_of_eq (there.trans found.symm) (insert_of_ne _ _ (.inr same))
      rw [kept]
      exact h.known task' name file found born
  · intro n later
    rw [dir, if_neg (named n).symm]
    exact h.unnamed n later

/-- The incoming file takes its place: at the destination it is named already. -/
theorem move {source : Entry} {destination : String}
    (named : ∀ file task, d.dir source = some file → d.creator file.identity = some task →
      ∃ expected, d.ledger task (.leaf destination) = some expected ∧ file.identity ∈ expected) :
    Accounted (d.move source (.leaf destination)) := by
  refine ⟨?_, h.unborn, h.honest, ?_, ?_⟩
  · intro p file there
    rw [Disk.move_dir] at there
    split_ifs at there
    · exact h.present _ file there
    · exact h.present p file there
  · intro task name file there creator
    have found := there
    rw [Disk.move_dir] at found
    split_ifs at found with same
    · obtain ⟨expected, recorded, mem⟩ := named file task found creator
      rw [same] at there ⊢
      exact owns_iff.mpr ⟨expected, file, recorded, there, mem⟩
    · have kept : (d.move source (.leaf destination)).owns task (.leaf name) =
          d.owns task (.leaf name) := owns_of_eq (there.trans found.symm) rfl
      rw [kept]
      exact h.known task name file found creator
  · intro n later
    rw [Disk.move_dir, if_neg (by rintro ⟨⟩), h.unnamed n later]
    exact ite_self none

end Accounted

/-! ### Foreign files -/

theorem spares_create (creator : Option Task) (content : List UInt8) (absent : d.dir path = none) :
    d.Spares task (d.create creator path content) := by
  intro p file found _
  rw [Disk.create_dir, if_neg]
  · exact found
  · rintro rfl
    cases absent.symm.trans found

theorem spares_adopt (absent : d.dir path = none) : d.Spares task (d.adopt task path) :=
  spares_create (some task) [] absent

namespace Accounted

variable (h : Accounted d)

include h

theorem spares_isolate (owned : d.owns task path) : d.Spares task (d.isolate path) := by
  intro p file found foreign
  have apart : p ≠ path := by
    rintro rfl
    exact foreign (h.owned_creator owned found)
  have dir : (d.isolate path).dir p =
      if p = .scratch d.nextScratch then d.dir path else if p = path then none else d.dir p :=
    Disk.move_dir
  rw [dir, if_neg, if_neg apart]
  · exact found
  · rintro rfl
    cases (h.unnamed _ (Nat.le_refl _)).symm.trans found

/-- What is at a name with a new UUID is not a file of before. -/
theorem spares_unlink_scratch (spares : d.Spares task e) :
    d.Spares task (e.unlink (.scratch d.nextScratch)) := by
  intro p file found foreign
  rw [Disk.unlink_dir, if_neg]
  · exact spares p file found foreign
  · rintro rfl
    cases (h.unnamed _ (Nat.le_refl _)).symm.trans found

theorem spares_setContent (owned : d.owns task path) (content : List UInt8) :
    d.Spares task (d.setContent path content) := by
  intro p file found foreign
  rw [Disk.setContent_dir, if_neg]
  · exact found
  · rintro rfl
    exact foreign (h.owned_creator owned found)

end Accounted

/-! ### Each operation -/

/-- What `prepare_replace` accepts and what it records. -/
theorem prepareReplace_ok {source destination : Entry} {records : Ownership}
    (ok : prepareReplace d.ledger task d.dir source destination = .ok records) :
    ∃ incoming expected, d.dir source = some incoming ∧ d.Free task destination ∧
      records = insert d.ledger task destination expected ∧ incoming.identity ∈ expected ∧
      (∀ file, d.dir destination = some file → file.identity ∈ expected) ∧
      ∀ i ∈ expected, i = incoming.identity ∨
        ∃ file, d.dir destination = some file ∧ i = file.identity := by
  unfold prepareReplace at ok
  split at ok
  · next occupant incoming there here =>
      split_ifs at ok with owned
      cases ok
      refine ⟨incoming, [occupant.identity, incoming.identity], here, fun _ => owned, rfl, ?_, ?_,
        ?_⟩
      · exact List.mem_cons_of_mem _ (List.mem_singleton_self _)
      · rintro file found
        cases there.symm.trans found
        exact List.mem_cons_self
      · intro i mem
        obtain rfl | mem := List.mem_cons.mp mem
        · exact .inr ⟨occupant, there, rfl⟩
        · exact .inl (List.mem_singleton.mp mem)
  · split_ifs at ok
  · next incoming there here =>
      cases ok
      refine ⟨incoming, [incoming.identity], here, ?_, rfl, List.mem_singleton_self _, ?_, ?_⟩
      · intro present
        rw [there] at present
        cases present
      · intro file found
        cases there.symm.trans found
      · intro i mem
        exact .inl (List.mem_singleton.mp mem)
  · cases ok

/-- A file created and moved aside is one created aside. -/
theorem isolate_create (absent : d.dir path = none) :
    (d.create (some task) path []).isolate path =
      (d.create (some task) (.scratch d.nextScratch) []).drawScratch := by
  have dirs : ((d.create (some task) path []).isolate path).dir =
      (d.create (some task) (.scratch d.nextScratch) []).drawScratch.dir := by
    funext p
    have left : ((d.create (some task) path []).isolate path).dir p =
        if p = .scratch d.nextScratch then (d.create (some task) path []).dir path
        else if p = path then none else (d.create (some task) path []).dir p := Disk.move_dir
    have right : (d.create (some task) (.scratch d.nextScratch) []).drawScratch.dir p =
        if p = .scratch d.nextScratch then some ⟨d.nextIdentity, []⟩ else d.dir p :=
      Disk.create_dir (some task) []
    rw [left, right, Disk.create_dir, if_pos rfl]
    split_ifs with scratch same
    · rfl
    · rw [same, absent]
    · rw [Disk.create_dir, if_neg same]
  show Disk.mk .. = Disk.mk ..
  congr 1

namespace Accounted

variable (h : Accounted d)

include h

theorem after_replace {source : Entry} {destination : String} (crash : Option Nat)
    (accountable : Step.Accountable d (.own task (.replace references source destination) crash)) :
    let after := (replace references task source (.leaf destination)).final (crashAt crash) d
    Accounted after ∧ d.Spares task after := by
  dsimp only
  obtain same | ⟨records, prepared, started, ok, ended⟩ := replace_final (d := d)
    references task source (.leaf destination) crash
  · rw [same]
    exact ⟨h, .refl d task⟩
  obtain ⟨incoming, expected, here, free, rfl, mem, current, only⟩ := prepareReplace_ok prepared
  have own : d.creator incoming.identity = some task := accountable started ok free incoming here
  have occupant : ∀ file, d.dir (.leaf destination) = some file →
      d.creator file.identity = some task := by
    intro file found
    refine h.owned_creator (free ?_) found
    rw [found]
    rfl
  have recorded :
      Accounted (d.writeLedger (Downloads.insert d.ledger task (.leaf destination) expected)) := by
    refine h.insert ?_ fun file found _ => current file found
    intro i hi
    obtain rfl | ⟨file, found, rfl⟩ := only i hi
    · exact own
    · exact occupant file found
  obtain ended | ended := ended
  · rw [ended]
    exact ⟨recorded, fun _ _ found _ => found⟩
  · rw [ended]
    refine ⟨recorded.move ?_, ?_⟩
    · intro file task' found creator
      cases here.symm.trans found
      cases own.symm.trans creator
      exact ⟨expected, insert_self .., mem⟩
    · intro p file found foreign
      rw [Disk.move_dir, if_neg, if_neg]
      · exact found
      · rintro rfl
        cases here.symm.trans found
        exact foreign own
      · rintro rfl
        exact foreign (occupant file found)

theorem after_openPartial {name : String} {append : Bool} (crash : Option Nat)
    (accountable : Step.Accountable d (.own task (.openPartial name append) crash)) :
    let after := (openPartial task (.leaf name) append).final (crashAt crash) d
    Accounted after ∧ d.Spares task after := by
  dsimp only
  by_cases present : (d.dir (.leaf name)).isSome
  · obtain same | ⟨owned, ended⟩ := openPartial_present task append crash present
    · rw [same]
      exact ⟨h, .refl d task⟩
    · rw [ended]
      exact ⟨h.setContent _ _, h.spares_setContent owned _⟩
  · have absent : d.dir (.leaf name) = none := Option.not_isSome_iff_eq_none.mp present
    rw [openPartial_absent absent, if_neg fun died => present (accountable died)]
    split_ifs
    · exact ⟨h, .refl d task⟩
    · exact ⟨h.adopt task (by rintro n ⟨⟩), spares_adopt absent⟩

theorem after_remove {name : String} (crash : Option Nat) :
    let after := (remove references task (.leaf name)).final (crashAt crash) d
    Accounted after ∧ d.Spares task after := by
  dsimp only
  obtain same | ⟨owned, ended | ended⟩ := remove_final (d := d) references task
    (.leaf name) crash
  · rw [same]
    exact ⟨h, .refl d task⟩
  · rw [ended]
    exact ⟨h.isolate _, h.spares_isolate owned⟩
  · rw [ended]
    exact ⟨(h.isolate _).unlink _, h.spares_unlink_scratch (h.spares_isolate owned)⟩

theorem after_stageWrite (content : List UInt8) (crash : Option Nat) :
    let after := (stageWrite task content).final (crashAt crash) d
    Accounted after ∧ d.Spares task after := by
  dsimp only
  have absent := h.unnamed _ (Nat.le_refl _)
  have spared : d.Spares task (d.create (some task) (.scratch d.nextScratch) []).drawScratch :=
    spares_create (some task) [] absent
  obtain same | ended | ended := stageWrite_final (d := d) task content crash
  · rw [same]
    exact ⟨h, .refl d task⟩
  · rw [ended]
    exact ⟨h.scratch _ _, spared⟩
  · rw [ended]
    refine ⟨(h.scratch _ _).setContent _ _, ?_⟩
    intro p file found foreign
    rw [Disk.setContent_dir, if_neg]
    · exact spared p file found foreign
    · rintro rfl
      cases absent.symm.trans found

/-- Each entry `record` writes is one `insert` allows. -/
theorem record_entries {paths : List (String × Nat)}
    (own : ∀ path identity, (path, identity) ∈ paths → d.creator identity = some task ∧
      ∀ file, d.dir (.leaf path) = some file → d.creator file.identity = some task →
        file.identity = identity) :
    Accounted (d.writeLedger ((paths.map fun (path, identity) => (Entry.leaf path, identity)).foldl
      (fun records (file, identity) => Downloads.insert records task file [identity])
      d.ledger)) := by
  induction paths generalizing d with
  | nil => exact h
  | cons entry paths ih =>
    obtain ⟨path, identity⟩ := entry
    obtain ⟨born, current⟩ := own path identity List.mem_cons_self
    have first : Accounted
        (d.writeLedger (Downloads.insert d.ledger task (.leaf path) [identity])) := by
      refine h.insert ?_ ?_
      · intro i mem
        rw [List.mem_singleton.mp mem]
        exact born
      · intro file found creator
        rw [current file found creator]
        exact List.mem_singleton_self _
    exact ih first fun path identity mem => own path identity (List.mem_cons_of_mem _ mem)

theorem after_record {paths : List (String × Nat)} (crash : Option Nat)
    (accountable : Step.Accountable d (.own task (.record paths) crash)) :
    let after := (record task (paths.map fun (path, identity) => (Entry.leaf path, identity))).final
      (crashAt crash) d
    Accounted after ∧ d.Spares task after := by
  dsimp only
  unfold Prog.final
  rw [record_run]
  split_ifs with died
  · exact ⟨h, .refl d task⟩
  · exact ⟨h.record_entries (accountable died), fun _ _ found _ => found⟩

/-- A file the ledger has not heard of yet is not owned. -/
theorem not_owns {file : File} (ledger : e.ledger = d.ledger) (found : e.dir path = some file)
    (new : file.identity = d.nextIdentity) : ¬ e.owns task path := by
  intro owned
  obtain ⟨expected, file', recorded, found', named⟩ := owns_iff.mp owned
  cases found.symm.trans found'
  rw [ledger] at recorded
  exact h.unborn_not_mem recorded (new ▸ named)

end Accounted

end LlamaServerManager.Downloads
