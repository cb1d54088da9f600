import LlamaServerManager.Downloads.Attempt
import LlamaServerManager.Downloads.Recovery
import Mathlib.Data.List.Infix

/-!
Attempts at an object that does not change: what is there is a part of the object from its first
byte on, wherever the connection is cut, the download paused or the process killed, and an attempt
that completes publishes the whole object.

* `Honors` — what the server answers.
* `Sound` — what is there of the object; `downloadSingleFile_ends` is the step lemma.
* `attempts_publish_object` — a run.
-/

namespace LlamaServerManager.Downloads

open Lib
open Lib.Prog (Holds Stable view effect attempt)

variable {target : Target} {references : References} {object : Bytes} {before : Option Bytes}

/-! ### Files -/

/-- The content of the file at a path. -/
def Disk.contentAt (d : Disk) (path : Entry) : Option Bytes := (d.dir path).map (·.content)

namespace Target

def part (target : Target) (d : Disk) : Option Bytes := d.contentAt target.temp

def whole (target : Target) (d : Disk) : Option Bytes := d.contentAt target.finalPath

theorem temp_ne_finalPath (target : Target) : target.temp ≠ target.finalPath := by
  intro same
  have length := congrArg String.length (Entry.leaf.inj same)
  rw [String.length_append] at length
  have : (".part").length = 5 := rfl
  omega

theorem metadata_ne_finalPath (target : Target) : target.metadata ≠ target.finalPath := by
  intro same
  have length := congrArg String.length (Entry.leaf.inj same)
  rw [String.length_append] at length
  have : (".part.json").length = 10 := rfl
  omega

theorem metadata_ne_temp (target : Target) : target.metadata ≠ target.temp := by
  intro same
  have length := congrArg String.length (Entry.leaf.inj same)
  rw [String.length_append, String.length_append] at length
  have : (".part.json").length = 10 := rfl
  have : (".part").length = 5 := rfl
  omega

end Target

variable {d e : Disk} {path : Entry} {P : Option Bytes → Option Bytes → Prop}

/-- What is said of the partial file and of the final one. -/
def Target.Says (target : Target) (P : Option Bytes → Option Bytes → Prop) (d : Disk) : Prop :=
  P (target.part d) (target.whole d)

theorem Target.Says.of_eq (h : target.Says P d) (temp : e.dir target.temp = d.dir target.temp)
    (final : e.dir target.finalPath = d.dir target.finalPath) : target.Says P e := by
  unfold Target.Says Target.part Target.whole Disk.contentAt at h ⊢
  rwa [temp, final]

/-- The files of a download, apart from one, are as they were. -/
def SameBut (path : Entry) (d e : Disk) : Prop :=
  ∀ name, .leaf name ≠ path → e.dir (.leaf name) = d.dir (.leaf name)

/-- A file is as it was, or gone. -/
def Shrinks (path : Entry) (d e : Disk) : Prop :=
  SameBut path d e ∧ (e.dir path = d.dir path ∨ e.dir path = none)

theorem Shrinks.refl (path : Entry) (d : Disk) : Shrinks path d d := ⟨fun _ _ => rfl, .inl rfl⟩

theorem Target.Says.sameBut (h : target.Says P d) (same : SameBut path d e)
    (temp : path ≠ target.temp) (final : path ≠ target.finalPath) : target.Says P e :=
  h.of_eq (same _ temp.symm) (same _ final.symm)

/-- It makes no difference to lose the partial file. -/
def Droppable (P : Option Bytes → Option Bytes → Prop) : Prop := ∀ p w, P p w → P none w

theorem Target.Says.shrinks (h : target.Says P d) (drop : Droppable P)
    (shrinks : Shrinks path d e) (other : path ≠ target.finalPath) : target.Says P e := by
  have final : e.dir target.finalPath = d.dir target.finalPath := shrinks.1 _ other.symm
  by_cases same : path = target.temp
  · subst same
    obtain temp | gone := shrinks.2
    · exact h.of_eq temp final
    · have part : target.part e = none := by simp [Target.part, Disk.contentAt, gone]
      have whole : target.whole e = target.whole d := by simp [Target.whole, Disk.contentAt, final]
      unfold Target.Says
      rw [part, whole]
      exact drop _ _ h
  · exact h.sameBut shrinks.1 same other

@[simp] theorem Disk.drawScratch_dir : d.drawScratch.dir = d.dir := rfl

theorem Disk.link_dir {source destination p : Entry} :
    (d.link source destination).dir p = if p = destination then d.dir source else d.dir p :=
  Function.update_apply ..

/-! ### The operations -/

theorem removeOwned_shrinks (name : String) (expected : List Nat) (d : Disk) :
    Holds (· = d) (removeOwned (.leaf name) expected) (fun _ => Shrinks (.leaf name) d)
      (Shrinks (.leaf name) d) := by
  have moved : Shrinks (.leaf name) d
      (d.move (.leaf name) (.scratch d.nextScratch)).drawScratch := by
    refine ⟨fun other ne => ?_, .inr ?_⟩
    · rw [Disk.drawScratch_dir, Disk.move_dir, if_neg nofun, if_neg ne]
    · rw [Disk.drawScratch_dir, Disk.move_dir, if_neg nofun, if_pos rfl]
  have unlinked : ∀ {e}, Shrinks (.leaf name) d e →
      Shrinks (.leaf name) d (e.unlink (.scratch d.nextScratch)) := by
    rintro e ⟨same, shrunk⟩
    refine ⟨fun other ne => ?_, ?_⟩
    · rw [Disk.unlink_dir, if_neg nofun]
      exact same other ne
    · rwa [Disk.unlink_dir, if_neg nofun]
  have back : Shrinks (.leaf name) d
      ((d.move (.leaf name) (.scratch d.nextScratch)).drawScratch.link (.scratch d.nextScratch)
        (.leaf name)) := by
    refine ⟨fun other ne => ?_, .inl ?_⟩
    · rw [Disk.link_dir, if_neg ne]
      exact moved.1 other ne
    · rw [Disk.link_dir, if_pos rfl, Disk.drawScratch_dir, Disk.move_dir, if_pos rfl]
  unfold removeOwned
  refine .bind .view fun isolated => .bind .view fun present => ?_
  refine .bind (.require ?_) fun _ => ?_
  · rintro e ⟨⟨rfl, -⟩, -⟩
    exact .refl _ _
  refine .bind (Q := fun _ e => isolated = .scratch d.nextScratch ∧
      e = (d.move (.leaf name) (.scratch d.nextScratch)).drawScratch) (.effect ?_ ?_)
    fun _ => .bind .view fun owned => ?_
  · rintro e ⟨⟨⟨rfl, rfl⟩, -⟩, -⟩
    exact ⟨rfl, rfl⟩
  · rintro e ⟨⟨⟨rfl, -⟩, -⟩, -⟩
    exact .refl _ _
  split
  · refine .effect ?_ ?_
    · rintro e ⟨⟨rfl, rfl⟩, -⟩
      exact unlinked moved
    · rintro e ⟨⟨-, rfl⟩, -⟩
      exact moved
  · refine .bind .view fun free => .bind (.require ?_) fun _ => ?_
    · rintro e ⟨⟨⟨-, rfl⟩, -⟩, -⟩
      exact moved
    refine .bind (Q := fun _ e => isolated = .scratch d.nextScratch ∧ Shrinks (.leaf name) d e)
      (.effect ?_ ?_) fun _ => ?_
    · rintro e ⟨⟨⟨⟨rfl, rfl⟩, -⟩, -⟩, -⟩
      exact ⟨rfl, back⟩
    · rintro e ⟨⟨⟨⟨-, rfl⟩, -⟩, -⟩, -⟩
      exact moved
    refine .bind (Q := fun _ => Shrinks (.leaf name) d) (.effect ?_ ?_) fun _ => ?_
    · rintro e ⟨rfl, shrinks⟩
      exact unlinked shrinks
    · exact fun e h => h.2
    · exact .raise fun e h => h

/-- A file of the task other than the final one is removed. -/
theorem stable_remove {name : String} (drop : Droppable P) (other : .leaf name ≠ target.finalPath) :
    Stable (target.Says P) (remove references target.task (.leaf name)) := by
  unfold remove
  refine .bind (.view _) fun owned => ?_
  split
  · refine .bind (.lift _) fun _ => .bind (.view _) fun expected => ?_
    refine Holds.each fun d h => (removeOwned_shrinks name expected d).weaken (fun _ eq => eq) ?_ ?_
    · exact fun _ e shrinks => h.shrinks drop shrinks other
    · exact fun e shrinks => h.shrinks drop shrinks other
  · exact .pure _

theorem stable_cleanup (drop : Droppable P) :
    Stable (target.Says P) (target.cleanupArtifactState references) := by
  unfold Target.cleanupArtifactState
  refine .bind (.attempt (stable_remove drop target.temp_ne_finalPath)) fun _ => ?_
  refine .bind (.attempt (stable_remove drop target.metadata_ne_finalPath)) fun _ => ?_
  exact .pure _

/-- `replace` moves the file, or leaves the directory as it was. -/
theorem replace_moves (source destination : Entry) (d : Disk) :
    Holds (· = d) (replace references target.task source destination)
      (fun _ e => (d.dir source).isSome ∧ e.dir = (d.move source destination).dir)
      (fun e => e.dir = d.dir) := by
  unfold replace
  refine .bind (.lift fun e eq => eq ▸ rfl) fun _ => .bind .view fun records => ?_
  refine .bind (.lift ?_) fun records => ?_
  · rintro e ⟨⟨rfl, -⟩, -⟩
    rfl
  refine .bind (Q := fun _ e => (d.dir source).isSome ∧ e = d.writeLedger records) (.effect ?_ ?_)
    fun _ => .effect ?_ ?_
  · rintro e ⟨⟨⟨rfl, -⟩, rfl⟩, ready⟩
    refine ⟨?_, rfl⟩
    unfold prepareReplace at ready
    split at ready
    · rename_i incoming
      simp [incoming]
    · split at ready <;> cases ready
    · rename_i incoming
      simp [incoming]
    · cases ready
  · rintro e ⟨⟨⟨rfl, -⟩, -⟩, -⟩
    rfl
  · rintro e ⟨there, rfl⟩
    exact ⟨there, rfl⟩
  · rintro e ⟨-, rfl⟩
    rfl

theorem stageWrite_keeps (content : Bytes) :
    Holds (target.Says P) (stageWrite target.task content)
      (fun scratch d => target.Says P d ∧ ∃ n, scratch = .scratch n) (target.Says P) := by
  unfold stageWrite
  refine .bind .view fun scratch => ?_
  refine .bind (Q := fun _ d => target.Says P d ∧ ∃ n, scratch = .scratch n) (.effect ?_ ?_)
    fun _ => ?_
  · rintro d ⟨h, rfl⟩
    refine ⟨h.of_eq ?_ ?_, _, rfl⟩
    · rw [Disk.drawScratch_dir, Disk.create_dir, if_neg nofun]
    · rw [Disk.drawScratch_dir, Disk.create_dir, if_neg nofun]
  · exact fun d h => h.1
  refine .bind (Q := fun _ d => target.Says P d ∧ ∃ n, scratch = .scratch n) (.effect ?_ ?_)
    fun _ => .pure fun d h => h
  · rintro d ⟨h, n, rfl⟩
    refine ⟨h.of_eq ?_ ?_, n, rfl⟩
    · rw [Disk.setContent_dir, if_neg nofun]
    · rw [Disk.setContent_dir, if_neg nofun]
  · exact fun d h => h.1

/-- The state of the download is written next to its files. -/
theorem stable_save (state : DownloadArtifactState) :
    Stable (target.Says P) (target.saveArtifactState references state) := by
  unfold Target.saveArtifactState
  refine Holds.bind (stageWrite_keeps _) fun scratch => ?_
  have replaced : Stable (fun d => target.Says P d ∧ ∃ n, scratch = .scratch n)
      (replace references target.task scratch target.metadata) := by
    refine Holds.each fun d h => (replace_moves scratch target.metadata d).weaken
      (fun _ eq => eq) ?_ ?_
    · rintro _ e ⟨-, moved⟩
      obtain ⟨h, n, rfl⟩ := h
      refine ⟨h.of_eq ?_ ?_, n, rfl⟩
      · rw [moved, Disk.move_dir, if_neg target.metadata_ne_temp.symm, if_neg nofun]
      · rw [moved, Disk.move_dir, if_neg target.metadata_ne_finalPath.symm, if_neg nofun]
    · intro e same
      obtain ⟨h, n, rfl⟩ := h
      exact ⟨h.of_eq (congrFun same _) (congrFun same _), n, rfl⟩
  refine Holds.weaken (Q := fun _ => target.Says P) (R := fun _ d => target.Says P d ∧
    ∃ n, scratch = .scratch n) (S := fun d => target.Says P d ∧ ∃ n, scratch = .scratch n)
    (Stable.bind replaced.attempt fun result => ?_) (fun _ h => h) (fun _ _ h => h.1) fun _ h => h.1
  cases result with
  | ok _ => exact .pure _
  | error _ =>
    refine .effect ?_
    rintro d ⟨h, n, rfl⟩
    refine ⟨h.of_eq ?_ ?_, n, rfl⟩
    · rw [Disk.unlink_dir, if_neg nofun]
    · rw [Disk.unlink_dir, if_neg nofun]

/-! ### The claim -/

/-- Apart from new, empty files, the directory is as it was. -/
def Claims (target : Target) (d e : Disk) : Prop :=
  ∀ name, e.dir (.leaf name) = d.dir (.leaf name) ∨
    .leaf name ≠ target.finalPath ∧ d.dir (.leaf name) = none ∧
      ∀ file ∈ e.dir (.leaf name), file.content = []

theorem Claims.refl (target : Target) (d : Disk) : Claims target d d := fun _ => .inl rfl

/-- The files that the claim has created. -/
def Creates (target : Target) (d : Disk) (created : List (Entry × Nat)) : Prop :=
  ∀ entry ∈ created, ∃ name, entry.1 = .leaf name ∧ .leaf name ≠ target.finalPath ∧
    d.dir (.leaf name) = none

theorem createFiles_claims {paths : List Entry} {created : List (Entry × Nat)}
    (known : Creates target d created)
    (leaves : ∀ path ∈ paths, ∃ name, path = .leaf name ∧ .leaf name ≠ target.finalPath) :
    Holds (Claims target d) (createFiles target.task paths created)
      (fun result e => Claims target d e ∧ Creates target d result.1) (Claims target d) := by
  induction paths generalizing created with
  | nil => exact .pure fun e h => ⟨h, known⟩
  | cons path paths ih =>
    obtain ⟨⟨name, rfl, other⟩, more⟩ := List.forall_mem_cons.mp leaves
    refine .bind .view fun present => .bind .view fun owned => ?_
    split
    · split
      · exact (ih known more).weaken (fun _ h => h.1.1) (fun _ _ h => h) fun _ h => h
      · exact .pure fun e h => ⟨h.1.1, known⟩
    · rename_i absent
      refine .bind .view fun identity => ?_
      refine .bind (Q := fun _ e => Claims target d e ∧ d.dir (.leaf name) = none) (.effect ?_ ?_)
        fun _ => .assume fun gone => ih ?_ more
      · rintro e ⟨⟨⟨claims, rfl⟩, -⟩, -⟩
        have gone : e.dir (.leaf name) = none := by simpa using absent
        have before : d.dir (.leaf name) = none :=
          (claims name).elim (fun same => same ▸ gone) fun new => new.2.1
        refine ⟨fun leaf => ?_, before⟩
        by_cases same : leaf = name
        · subst same
          refine .inr ⟨other, before, fun file mem => ?_⟩
          rw [Disk.create_dir, if_pos rfl] at mem
          exact (Option.some.inj mem) ▸ rfl
        · have kept : (e.create (some target.task) (.leaf name) []).dir (.leaf leaf) =
              e.dir (.leaf leaf) := by
            rw [Disk.create_dir, if_neg fun eq => same (Entry.leaf.inj eq)]
          rw [kept]
          exact claims leaf
      · exact fun e h => h.1.1.1
      · intro entry mem
        rcases List.mem_append.mp mem with mem | mem
        · exact known entry mem
        · rw [List.mem_singleton.mp mem]
          exact ⟨name, rfl, other, gone⟩

theorem removeCreated_claims {created : List (Entry × Nat)} (known : Creates target d created) :
    Stable (Claims target d) (removeCreated created) := by
  induction created with
  | nil => exact .pure _
  | cons entry created ih =>
    obtain ⟨path, identity⟩ := entry
    obtain ⟨⟨name, same, other, gone⟩, more⟩ := List.forall_mem_cons.mp known
    dsimp only at same
    subst same
    refine .bind (.attempt (Holds.each fun e claims => ?_)) fun _ => ih more
    have kept : ∀ t, Shrinks (.leaf name) e t → Claims target d t := by
      rintro t ⟨sameBut, shrunk⟩ leaf
      by_cases eq : leaf = name
      · subst eq
        obtain same | none_ := shrunk
        · rw [same]
          exact claims leaf
        · exact .inl (none_.trans gone.symm)
      · rw [sameBut leaf fun same => eq (Entry.leaf.inj same)]
        exact claims leaf
    exact (removeOwned_shrinks name [identity] e).weaken (fun _ h => h) (fun _ t => kept t) kept

theorem record_keeps (paths : List (Entry × Nat)) :
    Stable (Claims target d) (record target.task paths) := by
  unfold record
  exact .bind (.view _) fun records => .effect fun e claims => claims

/-- However a claim ends, it has at most added empty files. -/
theorem claim_claims (d : Disk) :
    Holds (· = d) (claim references target.task target.finalPath target.temp target.metadata)
      (fun _ => Claims target d) (Claims target d) := by
  have start : ∀ e, e = d → Claims target d e := fun e eq => eq ▸ .refl _ _
  have leaves : ∀ path ∈ [target.temp, target.metadata],
      ∃ name, path = .leaf name ∧ .leaf name ≠ target.finalPath := by
    intro path mem
    rcases List.mem_cons.mp mem with rfl | mem
    · exact ⟨_, rfl, target.temp_ne_finalPath⟩
    · rw [List.mem_singleton.mp mem]
      exact ⟨_, rfl, target.metadata_ne_finalPath⟩
  unfold claim
  refine .bind (.lift start) fun _ => .bind .view fun present => .bind .view fun owned => ?_
  refine .bind (.require fun e h => start e h.1.1.1) fun _ => ?_
  have none_yet : Creates target d [] := nofun
  refine .bind ((createFiles_claims none_yet leaves).weaken
    (fun e h => start e h.1.1.1.1) (fun _ _ h => h) fun _ h => h) fun result => ?_
  obtain ⟨created, result⟩ := result
  refine .assume fun known => ?_
  cases result with
  | ok _ => exact .onError (record_keeps _) (removeCreated_claims known)
  | error error => exact .bind (removeCreated_claims known) fun _ => .raise fun _ h => h

/-! ### The object -/

/-- What a server answers that holds the object and knows ranges (`bytes=n-`): the body is a part
of the object from where its range starts, and a total that is given is the length of the object.
A part without a total runs to the end of the object, by its declared length or, when it declares
none, by where it ends; a body that is no part does so likewise. -/
structure Response.Honors (object : Bytes) (request : Request) (response : Response) : Prop where
  ranged : response.status = 206 → 0 < request.resumeFrom ∧
    ∀ start last total,
      responseContentRange response.headers = some ⟨some start, some last, total⟩ →
      response.chunks.flatten <+: object.drop start ∧
      (∀ n ∈ total, n = object.length) ∧
      (total = none → ∀ n ∈ declaredLength response.headers, n + start = object.length) ∧
      (response.ending = .complete → total = none → declaredLength response.headers = none →
        response.chunks.flatten = object.drop start)
  full : isSuccess response.status → response.status ≠ 206 →
    response.chunks.flatten <+: object ∧
    (∀ n ∈ declaredLength response.headers, n = object.length) ∧
    (response.ending = .complete → declaredLength response.headers = none →
      response.chunks.flatten = object)
  unsatisfied : response.status = 416 → ∀ range ∈ responseContentRange response.headers,
    ∀ n ∈ range.total, n = object.length

/-- The server holds the object, whatever is asked of it; it may also not answer, fail, or cut
the connection anywhere. -/
def Honors (object : Bytes) (server : Request → Exchange) : Prop :=
  ∀ request response, server request = .answered response → response.Honors object request

/-- The partial file is a part of the object, and the final file is not touched before it is all of
it. -/
def Progress (object : Bytes) (before : Option Bytes) (part whole : Option Bytes) : Prop :=
  (∀ content ∈ part, content <+: object) ∧ (whole = before ∨ whole = some object)

/-- The first bytes of the object are there. -/
def Holding (object : Bytes) (before : Option Bytes) (n : Nat) (part whole : Option Bytes) : Prop :=
  part = some (object.take n) ∧ n ≤ object.length ∧ (whole = before ∨ whole = some object)

/-- The object is published. -/
def Published (object : Bytes) (part whole : Option Bytes) : Prop :=
  (∀ content ∈ part, content <+: object) ∧ whole = some object

def Sound (target : Target) (object : Bytes) (before : Option Bytes) (d : Disk) : Prop :=
  target.Says (Progress object before) d

/-- How an attempt ends. -/
def Ends (target : Target) (object : Bytes) (before : Option Bytes) (result : Finished)
    (d : Disk) : Prop :=
  Sound target object before d ∧ (result = .completed → target.whole d = some object)

theorem droppable_progress : Droppable (Progress object before) :=
  fun _ _ h => ⟨nofun, h.2⟩

theorem droppable_published : Droppable (Published object) := fun _ _ h => ⟨nofun, h.2⟩

theorem Holding.progress {n : Nat} {part whole : Option Bytes}
    (h : Holding object before n part whole) : Progress object before part whole := by
  obtain ⟨rfl, -, published⟩ := h
  refine ⟨fun content mem => ?_, published⟩
  obtain rfl := Option.some.inj mem
  exact List.take_prefix _ _

theorem Published.ends (h : target.Says (Published object) d) :
    Ends target object before .completed d :=
  ⟨⟨h.1, .inr h.2⟩, fun _ => h.2⟩

theorem Sound.ends {result : Finished} (h : Sound target object before d)
    (open_ : result ≠ .completed) : Ends target object before result d :=
  ⟨h, fun completed => absurd completed open_⟩

theorem Claims.sound (claims : Claims target d e) (h : Sound target object before d) :
    Sound target object before e := by
  have final : target.whole e = target.whole d := by
    obtain same | ⟨ne, -⟩ := claims target.fileName
    · exact congrArg (Option.map _) same
    · exact absurd rfl ne
  refine ⟨fun content mem => ?_, final ▸ h.2⟩
  obtain ⟨file, found, rfl⟩ := Option.map_eq_some_iff.mp mem
  obtain same | ⟨-, -, empty⟩ := claims (target.fileName ++ ".part")
  · exact h.1 _ (Option.map_eq_some_iff.mpr ⟨file, same ▸ found, rfl⟩)
  · rw [empty file found]
    exact List.nil_prefix

/-- The partial file holds all of the object and is published. -/
theorem replace_publishes :
    Holds (target.Says (Holding object before object.length))
      (replace references target.task target.temp target.finalPath)
      (fun _ => target.Says (Published object))
      (target.Says (Holding object before object.length)) := by
  refine Holds.each fun d h => (replace_moves target.temp target.finalPath d).weaken
    (fun _ eq => eq) ?_ ?_
  · rintro _ e ⟨-, moved⟩
    have part : target.part e = none := by
      unfold Target.part Disk.contentAt
      rw [moved, Disk.move_dir, if_neg target.temp_ne_finalPath, if_pos rfl]
      rfl
    have whole : target.whole e = target.part d := by
      unfold Target.whole Target.part Disk.contentAt
      rw [moved, Disk.move_dir, if_pos rfl]
    refine ⟨?_, ?_⟩
    · rw [part]
      exact nofun
    · rw [whole, h.1, List.take_length]
  · exact fun e same => h.of_eq (congrFun same _) (congrFun same _)

theorem partSize_eq (h : target.part d = some object) : target.partSize d = object.length := by
  unfold Target.part Disk.contentAt at h
  obtain ⟨file, found, rfl⟩ := Option.map_eq_some_iff.mp h
  simp [Target.partSize, found]

theorem Holding.partSize {n : Nat} (h : target.Says (Holding object before n) d) :
    target.partSize d = n := by
  rw [partSize_eq h.1, List.length_take, min_eq_left h.2.1]

/-! ### The attempt -/

section Attempt

variable {fileSize : Nat} {headers : Headers} {response : Response}

theorem save_ends {P : Option Bytes → Option Bytes → Prop} {result : Finished}
    (state : DownloadArtifactState) (open_ : result ≠ .completed)
    (weaker : ∀ p w, P p w → Progress object before p w) :
    Holds (target.Says P) (do
      target.saveArtifactState references state
      return result) (Ends target object before) (Sound target object before) :=
  .bind (Holds.weaken (stable_save state) (fun _ h => h) (fun _ _ h => weaker _ _ h)
    fun _ h => weaker _ _ h) fun _ => .pure fun _ h => Sound.ends h open_

theorem cleanup_ends {result : Finished} (open_ : result ≠ .completed) :
    Holds (Sound target object before) (do
      target.cleanupArtifactState references
      return result) (Ends target object before) (Sound target object before) :=
  .bind (stable_cleanup droppable_progress) fun _ => .pure fun _ h => Sound.ends h open_

theorem published_ends :
    Holds (target.Says (Published object)) (do
      target.cleanupArtifactState references
      return .completed) (Ends target object before) (Sound target object before) :=
  .bind (Holds.weaken (stable_cleanup droppable_published) (fun _ h => h) (fun _ _ h => h)
    fun _ h => (Published.ends h).1) fun _ => .pure fun _ h => Published.ends h

/-- The partial file is removed without a look at its owner. -/
theorem unlink_sound :
    Stable (Sound target object before) (effect (·.unlink target.temp) : Own Unit) := by
  refine .effect fun d h => ?_
  refine Target.Says.shrinks h droppable_progress ⟨fun name ne => ?_, .inr ?_⟩
    target.temp_ne_finalPath
  · rw [Disk.unlink_dir, if_neg ne]
  · rw [Disk.unlink_dir, if_pos rfl]

theorem answerUnsatisfied_ends
    (known : ∀ range ∈ responseContentRange headers, ∀ n ∈ range.total, n = object.length) :
    Holds (Sound target object before) (answerUnsatisfied target references fileSize headers)
      (Ends target object before) (Sound target object before) := by
  unfold answerUnsatisfied
  refine .bind .view fun size => ?_
  dsimp only
  split
  · rename_i complete
    -- the sizes agree, so what is there is the object
    have whole : Holds (fun d => Sound target object before d ∧ target.partSize d = size)
        (attempt (replace references target.task target.temp target.finalPath))
        (fun result => match result with
          | .ok _ => target.Says (Published object)
          | .error _ => Sound target object before) (Sound target object before) := by
      refine Holds.weaken (Holds.attempt replace_publishes) (fun d h => ?_) (fun result d h => ?_)
        fun d h => Holding.progress h
      · obtain ⟨⟨part, published⟩, rfl⟩ := h
        simp only [unsatisfiedRangeIsComplete, Bool.and_eq_true, decide_eq_true_eq] at complete
        obtain ⟨⟨positive, size⟩, remote⟩ := complete
        obtain ⟨range, found, total⟩ := Option.bind_eq_some_iff.mp remote
        have length := known range found fileSize total
        cases content : target.part d with
        | none =>
          unfold Target.part Disk.contentAt at content
          rw [Option.map_eq_none_iff] at content
          simp [Target.partSize, content] at size
          omega
        | some bytes =>
          have here := partSize_eq content
          have eq := (part bytes content).eq_of_length (by omega)
          refine ⟨?_, le_rfl, published⟩
          rw [content, eq, List.take_length]
      · cases result with
        | ok _ => exact h
        | error _ => exact Holding.progress h
    refine .bind whole fun result => ?_
    cases result with
    | ok _ => exact published_ends
    | error error => exact .pure fun _ h => Sound.ends h nofun
  · have forget : ∀ d, Sound target object before d ∧ target.partSize d = size →
        Sound target object before d := fun _ h => h.1
    split
    · refine Holds.weaken (.bind unlink_sound fun _ => .bind (stable_cleanup droppable_progress)
        fun _ => ?_) forget (fun _ _ h => h) fun _ h => h
      split
      · exact .pure fun _ h => Sound.ends h nofun
      · exact .pure fun _ h => Sound.ends h nofun
    · refine Holds.weaken (save_ends _ ?_ fun _ _ h => h) forget (fun _ _ h => h) fun _ h => h
      exact nofun

variable {n : Nat}

theorem append_holding {chunk : Bytes} (next : chunk <+: object.drop n)
    (h : target.Says (Holding object before n) d) :
    target.Says (Holding object before (n + chunk.length)) (target.append chunk d) := by
  obtain ⟨part, inside, published⟩ := h
  have there := part
  unfold Target.part Disk.contentAt at there
  obtain ⟨file, found, content⟩ := Option.map_eq_some_iff.mp there
  have longer : object.take n ++ chunk = object.take (n + chunk.length) := by
    rw [List.take_add, ← List.prefix_iff_eq_take.mp next]
  have fits := next.length_le
  rw [List.length_drop] at fits
  refine ⟨?_, by omega, ?_⟩
  · unfold Target.part Disk.contentAt Target.append
    rw [Disk.setContent_dir, if_pos rfl, found, Option.map_some, Option.map_some, Option.map_some,
      Option.getD_some, content, longer]
  · have final : target.whole (target.append chunk d) = target.whole d := by
      unfold Target.whole Disk.contentAt Target.append
      rw [Disk.setContent_dir, if_neg target.temp_ne_finalPath.symm]
    rwa [final]

theorem writeChunks_holding {chunks : List Bytes} (next : chunks.flatten <+: object.drop n) :
    Holds (target.Says (Holding object before n)) (writeChunks target chunks)
      (fun _ => target.Says (Holding object before (n + chunks.flatten.length)))
      (Sound target object before) := by
  induction chunks generalizing n with
  | nil => exact .pure fun d h => h
  | cons chunk chunks ih =>
    rw [List.flatten_cons] at next
    have first : chunk <+: object.drop n := (List.prefix_append _ _).trans next
    have rest : chunks.flatten <+: object.drop (n + chunk.length) := by
      obtain ⟨tail, whole⟩ := next
      refine ⟨tail, ?_⟩
      rw [← List.drop_drop, ← whole, List.append_assoc, List.drop_left]
    refine .bind (Q := fun _ => target.Says (Holding object before (n + chunk.length)))
      (.effect (fun d h => append_holding first h) fun d h => Holding.progress h) fun _ => ?_
    rw [List.flatten_cons, List.length_append, ← Nat.add_assoc]
    exact ih rest

/-- What is there stays for a partial answer; for another one the file begins anew. -/
theorem openPartial_holding {isPartial : Bool} (start : isPartial = false → n = 0) :
    Holds (target.Says fun p w => Progress object before p w ∧
        (isPartial = true → Holding object before n p w))
      (openPartial target.task target.temp isPartial)
      (fun _ => target.Says (Holding object before n)) (Sound target object before) := by
  refine Holds.each fun d h => ?_
  have published : target.whole d = before ∨ target.whole d = some object := h.1.2
  have anew : isPartial = false → ∀ e, e.contentAt target.temp = some [] →
      e.dir target.finalPath = d.dir target.finalPath →
        target.Says (Holding object before n) e := by
    intro full e empty final
    obtain rfl := start full
    refine ⟨empty, Nat.zero_le _, ?_⟩
    have whole : target.whole e = target.whole d := congrArg (Option.map _) final
    rwa [whole]
  unfold openPartial
  refine .bind .view fun found => ?_
  split
  · rename_i file
    refine .bind .view fun expected => ?_
    split
    · exact .raise fun e eq => eq.1.1 ▸ h.1
    · refine .bind (.require fun e eq => eq.1.1 ▸ h.1) fun _ => ?_
      split
      · rename_i partial_
        refine .pure ?_
        rintro e ⟨⟨⟨rfl, -⟩, -⟩, -⟩
        exact h.2 partial_
      · rename_i full
        rw [Bool.not_eq_true] at full
        refine .bind (Q := fun _ => target.Says (Holding object before n)) (.effect ?_ ?_) fun _ =>
          .pure fun _ h => h
        · rintro e ⟨⟨⟨rfl, found⟩, -⟩, -⟩
          refine anew full _ ?_ ?_
          · unfold Disk.contentAt
            rw [Disk.setContent_dir, if_pos rfl, found]
            rfl
          · rw [Disk.setContent_dir, if_neg target.temp_ne_finalPath.symm]
        · exact fun e eq => eq.1.1.1 ▸ h.1
  · refine .bind .view fun identity => ?_
    refine .bind (Q := fun _ => target.Says (Holding object before n)) (.effect ?_ ?_) fun _ => ?_
    · rintro e ⟨⟨rfl, absent⟩, -⟩
      have full : isPartial = false := by
        by_contra partial_
        have part := (h.2 (by simpa using partial_)).1
        simp [Target.part, Disk.contentAt, absent] at part
      refine anew full _ ?_ ?_
      · unfold Disk.contentAt
        rw [Disk.create_dir, if_pos rfl]
        rfl
      · rw [Disk.create_dir, if_neg target.temp_ne_finalPath.symm]
    · exact fun e eq => eq.1.1 ▸ h.1
    · refine .bind (Q := fun _ => target.Says (Holding object before n))
        (.effect (fun e h => h) fun e h => Holding.progress h) fun _ => .pure fun _ h => h

/-- A body of the declared length is whole, and so is one that has ended and declares none. -/
theorem finishDownload_ends {n total downloaded : Nat}
    (enough : (0 < authoritativeDownloadSize total fileSize →
      n = authoritativeDownloadSize total fileSize) → n = object.length) :
    Holds (target.Says (Holding object before n))
      (finishDownload target references fileSize headers total downloaded)
      (Ends target object before) (Sound target object before) := by
  unfold finishDownload
  refine .bind .view fun size => ?_
  dsimp only
  split
  · refine Holds.weaken (save_ends (P := Holding object before n) _ ?_ fun _ _ h => h.progress)
      (fun _ h => h.1) (fun _ _ h => h) fun _ h => h
    exact nofun
  · rename_i fits
    have whole : Holds (fun d => target.Says (Holding object before n) d ∧
        target.partSize d = size)
        (attempt (replace references target.task target.temp target.finalPath))
        (fun result => match result with
          | .ok _ => target.Says (Published object)
          | .error _ => target.Says (Holding object before object.length))
        (Sound target object before) := by
      refine Holds.weaken (Holds.attempt replace_publishes) (fun d h => ?_)
        (fun result d h => by cases result <;> exact h) fun d h => Holding.progress h
      obtain ⟨h, rfl⟩ := h
      rw [Holding.partSize h, not_and, not_not] at fits
      rwa [← enough fits]
    refine .bind whole fun result => ?_
    cases result with
    | ok _ => exact published_ends
    | error error => exact save_ends _ nofun fun _ _ h => h.progress

theorem saturatingAdd_eq {a b : Nat} (fits : a + b < 2 ^ 64) : saturatingAdd a b = a + b :=
  min_eq_left (by omega)

theorem enough_ranged {request : Request} (bounded : object.length < 2 ^ 64)
    (honors : response.Honors object request) (isPartial : response.status = 206) {last : Nat}
    {total : Option Nat} (positive : 0 < n)
    (range : responseContentRange response.headers = some ⟨some n, some last, total⟩)
    (inside : n ≤ object.length) (ended : response.ending = .complete)
    (fits : 0 < authoritativeDownloadSize (responseTotalSize response.headers n fileSize) fileSize →
      n + response.chunks.flatten.length =
        authoritativeDownloadSize (responseTotalSize response.headers n fileSize) fileSize) :
    n + response.chunks.flatten.length = object.length := by
  obtain ⟨-, ranged⟩ := honors.ranged isPartial
  obtain ⟨-, size, length, whole⟩ := ranged n last total range
  have known : ∀ t, responseTotalSize response.headers n fileSize = t → t = object.length →
      n + response.chunks.flatten.length = object.length := by
    rintro t rfl eq
    rw [eq, authoritativeDownloadSize, if_pos (by omega)] at fits
    exact fits (by omega)
  unfold responseTotalSize at known
  rw [if_pos positive, range] at known
  cases total with
  | some total => exact known total rfl (size total rfl)
  | none =>
    cases declared : declaredLength response.headers with
    | some l =>
      have eq := length rfl l declared
      rw [declared] at known
      exact known _ rfl ((saturatingAdd_eq (by omega)).trans eq)
    | none =>
      rw [whole ended rfl declared, List.length_drop]
      omega

theorem enough_full {request : Request} (bounded : object.length < 2 ^ 64)
    (honors : response.Honors object request) (success : isSuccess response.status = true)
    (full : response.status ≠ 206) (ended : response.ending = .complete)
    (fits : 0 < authoritativeDownloadSize (responseTotalSize response.headers 0 fileSize) fileSize →
      0 + response.chunks.flatten.length =
        authoritativeDownloadSize (responseTotalSize response.headers 0 fileSize) fileSize) :
    0 + response.chunks.flatten.length = object.length := by
  obtain ⟨part, length, whole⟩ := honors.full success full
  cases declared : declaredLength response.headers with
  | none => rw [whole ended declared, Nat.zero_add]
  | some l =>
    have eq := length l declared
    have total : responseTotalSize response.headers 0 fileSize = object.length := by
      unfold responseTotalSize
      rw [if_neg (Nat.lt_irrefl 0), declared]
      exact (saturatingAdd_eq (by omega)).trans (by omega)
    rw [total, authoritativeDownloadSize] at fits
    have short := part.length_le
    by_cases empty : object.length = 0
    · omega
    · rw [if_pos (Nat.pos_of_ne_zero empty)] at fits
      exact fits (Nat.pos_of_ne_zero empty)

theorem receive_ends {isPartial : Bool} (start : isPartial = false → n = 0)
    (next : response.chunks.flatten <+: object.drop n) (enough : response.ending = .complete →
      (0 < authoritativeDownloadSize (responseTotalSize response.headers n fileSize) fileSize →
        n + response.chunks.flatten.length =
          authoritativeDownloadSize (responseTotalSize response.headers n fileSize) fileSize) →
      n + response.chunks.flatten.length = object.length) :
    Holds (target.Says fun p w => Progress object before p w ∧
        (isPartial = true → Holding object before n p w))
      (receive target references fileSize response isPartial n)
      (Ends target object before) (Sound target object before) := by
  unfold receive
  refine .bind (Holds.attempt (openPartial_holding start)) fun opened => ?_
  cases opened with
  | error error => exact save_ends _ nofun fun _ _ h => h
  | ok _ =>
    refine .bind (writeChunks_holding next) fun _ => ?_
    dsimp only
    cases ending : response.ending with
    | complete => exact finishDownload_ends (enough ending)
    | failed error => exact save_ends _ nofun fun _ _ h => h.progress
    | idle => exact .pure fun _ h => Sound.ends (Holding.progress h) nofun
    | cancelled =>
      exact Holds.weaken (cleanup_ends nofun) (fun _ h => Holding.progress h) (fun _ _ h => h)
        fun _ h => h
    | paused => exact save_ends _ nofun fun _ _ h => h.progress

/-- The size of what is there. -/
def Measured (object : Bytes) (before : Option Bytes) (n : Nat) (part whole : Option Bytes) :
    Prop :=
  Progress object before part whole ∧ (part.map (·.length)).getD 0 = n

theorem Measured.holding {part whole : Option Bytes} (positive : 0 < n)
    (h : Measured object before n part whole) : Holding object before n part whole := by
  obtain ⟨⟨inside, published⟩, size⟩ := h
  cases part with
  | none =>
    simp only [Option.map_none, Option.getD_none] at size
    omega
  | some content =>
    simp only [Option.map_some, Option.getD_some] at size
    have there := inside content rfl
    refine ⟨?_, size ▸ there.length_le, published⟩
    rw [← size, ← List.prefix_iff_eq_take.mp there]

theorem answerSuccess_ends {request : Request} {artifact : Option DownloadArtifactState}
    (bounded : object.length < 2 ^ 64) (asked : request.resumeFrom = n)
    (honors : response.Honors object request) (success : isSuccess response.status = true) :
    Holds (target.Says (Measured object before n))
      (answerSuccess target references fileSize artifact n response)
      (Ends target object before) (Sound target object before) := by
  have sound : ∀ d, target.Says (Measured object before n) d → Sound target object before d :=
    fun _ h => h.1
  unfold answerSuccess
  dsimp only
  split
  · refine Holds.weaken (.bind unlink_sound fun _ => cleanup_ends ?_) sound (fun _ _ h => h)
      fun _ h => h
    exact nofun
  · rename_i valid
    refine .bind .view fun present => ?_
    split
    · exact Holds.weaken (cleanup_ends nofun) (fun d h => sound d h.1) (fun _ _ h => h) fun _ h => h
    · by_cases isPartial : response.status = 206
      · rw [decide_eq_true isPartial, if_pos isPartial]
        rw [if_pos isPartial] at valid
        obtain ⟨last, total, range⟩ := start_of_valid valid
        obtain ⟨positive, ranged⟩ := honors.ranged isPartial
        rw [asked] at positive
        obtain ⟨next, -⟩ := ranged n last total range
        refine Holds.each fun d h => ?_
        obtain ⟨h, -⟩ := h
        have held : target.Says (Holding object before n) d := Measured.holding positive h
        have start : true = false → n = 0 := nofun
        refine (receive_ends start next fun ended => enough_ranged bounded honors isPartial positive
          range held.2.1 ended).weaken ?_ (fun _ _ h => h) fun _ h => h
        rintro _ rfl
        exact ⟨h.1, fun _ => held⟩
      · rw [decide_eq_false isPartial, if_neg isPartial]
        refine (receive_ends (fun _ => rfl) (honors.full success isPartial).1 fun ended =>
          enough_full bounded honors success isPartial ended).weaken ?_ (fun _ _ h => h)
          fun _ h => h
        exact fun d h => ⟨h.1.1, nofun⟩

theorem answer_ends {request : Request} {artifact : Option DownloadArtifactState}
    (bounded : object.length < 2 ^ 64) (asked : request.resumeFrom = n)
    (honors : response.Honors object request) :
    Holds (target.Says (Measured object before n))
      (answer target references fileSize artifact n response)
      (Ends target object before) (Sound target object before) := by
  have sound : ∀ d, target.Says (Measured object before n) d → Sound target object before d :=
    fun _ h => h.1
  unfold answer
  refine .bind (Holds.weaken (stable_save (P := Measured object before n) _) (fun _ h => h)
    (fun _ _ h => h) fun d h => sound d h) fun _ => ?_
  split
  · rename_i unsatisfied
    exact (answerUnsatisfied_ends (honors.unsatisfied unsatisfied)).weaken sound (fun _ _ h => h)
      fun _ h => h
  · split
    · refine Holds.weaken (save_ends (P := Measured object before n) _ ?_ fun _ _ h => h.1)
        (fun _ h => h) (fun _ _ h => h) fun _ h => h
      exact nofun
    · rename_i success
      exact answerSuccess_ends bounded asked honors (by simpa using success)

/-- **One attempt** adds to the part of the object that is there, and publishes the object or
nothing. -/
theorem downloadSingleFile_ends {server : Request → Exchange} (bounded : object.length < 2 ^ 64)
    (honors : Honors object server) :
    Holds (Sound target object before) (downloadSingleFile target references fileSize server)
      (Ends target object before) (Sound target object before) := by
  have claimed : Stable (Sound target object before)
      (claim references target.task target.finalPath target.temp target.metadata) :=
    Holds.each fun d h => (claim_claims d).weaken (fun _ eq => eq)
      (fun _ _ claims => claims.sound h) fun _ claims => claims.sound h
  unfold downloadSingleFile
  refine .bind claimed.attempt fun result => ?_
  cases result with
  | error error => exact .pure fun _ h => Sound.ends h nofun
  | ok _ =>
    refine .bind .view fun artifact => .bind .view fun n => ?_
    have measured : ∀ d, (Sound target object before d ∧ target.loadArtifactState d = artifact) ∧
        target.partSize d = n → target.Says (Measured object before n) d := by
      rintro d ⟨⟨h, -⟩, rfl⟩
      refine ⟨h, ?_⟩
      unfold Target.part Disk.contentAt Target.partSize
      rw [Option.map_map]
      rfl
    refine Holds.weaken (P := target.Says (Measured object before n)) ?_ measured (fun _ _ h => h)
      fun _ h => h
    have sound : ∀ d, target.Says (Measured object before n) d → Sound target object before d :=
      fun _ h => h.1
    split
    · unfold endEarly
      refine Holds.weaken (.bind (stable_cleanup droppable_progress) fun _ =>
        .bind (stable_save _) fun _ => cleanup_ends ?_) sound (fun _ _ h => h) fun _ h => h
      exact nofun
    · exact .pure fun d h => Sound.ends (sound d h) nofun
    · exact save_ends _ nofun fun _ _ h => h.1
    · exact .pure fun d h => Sound.ends (sound d h) nofun
    · rename_i response answered
      exact answer_ends bounded rfl (honors _ _ answered)

end Attempt

/-! ### Runs -/

/-- One attempt of a run. Its fates decide where the process dies. -/
structure Trial where
  references : References
  fileSize : Nat
  server : Request → Exchange
  fates : Nat → Fate

namespace Trial

variable (target : Target) (trial : Trial) (d : Disk)

def ended : Ended String Finished :=
  (downloadSingleFile target trial.references trial.fileSize trial.server).ended trial.fates d

def final : Disk :=
  (downloadSingleFile target trial.references trial.fileSize trial.server).final trial.fates d

end Trial

/-- What the attempts leave, one after another. -/
def attempts (target : Target) (trials : List Trial) (d : Disk) : Disk :=
  trials.foldl (fun d trial => trial.final target d) d

theorem Trial.final_sound {trial : Trial} (bounded : object.length < 2 ^ 64)
    (honors : Honors object trial.server) (h : Sound target object before d) :
    Sound target object before (trial.final target d) :=
  (downloadSingleFile_ends bounded honors).final trial.fates h (fun _ _ ends => ends.1)
    fun _ sound => sound

theorem attempts_sound (bounded : object.length < 2 ^ 64) {trials : List Trial}
    (honor : ∀ trial ∈ trials, Honors object trial.server) (h : Sound target object before d) :
    Sound target object before (attempts target trials d) := by
  induction trials generalizing d with
  | nil => exact h
  | cons trial trials ih =>
    have first := Trial.final_sound bounded (honor trial List.mem_cons_self) h
    exact ih (fun trial mem => honor trial (List.mem_cons_of_mem _ mem)) first

/-- **Attempts publish the object or nothing.** Started without a partial file, at servers that
hold the object (`Honors`), and whatever became of the attempts so far: the partial file is a part
of the object from its first byte on, the final file is the one from before or the whole object,
and stays the object once it is; an attempt that reports completion has published it. -/
theorem attempts_publish_object (target : Target) (object : Bytes)
    (bounded : object.length < 2 ^ 64) (trials : List Trial) (last : Trial)
    (honor : ∀ trial ∈ last :: trials, Honors object trial.server) (d : Disk)
    (fresh : target.part d = none) :
    let e := attempts target trials d
    let f := last.final target e
    (∀ content ∈ target.part f, content <+: object) ∧
    (target.whole f = target.whole d ∨ target.whole f = some object) ∧
    (target.whole e = some object → target.whole f = some object) ∧
    (last.ended target e = .returned .completed → target.whole f = some object) := by
  intro e f
  have honors : Honors object last.server := honor last List.mem_cons_self
  have start : Sound target object (target.whole d) d := by
    refine ⟨?_, .inl rfl⟩
    rw [fresh]
    exact nofun
  have before : Sound target object (target.whole d) e :=
    attempts_sound bounded (fun trial mem => honor trial (List.mem_cons_of_mem _ mem)) start
  have after : Sound target object (target.whole d) f := Trial.final_sound bounded honors before
  refine ⟨after.1, after.2, fun published => ?_, fun completed => ?_⟩
  · have kept : Sound target object (target.whole e) f :=
      Trial.final_sound bounded honors ⟨before.1, .inl rfl⟩
    exact kept.2.elim (fun same => same.trans published) id
  · exact (((downloadSingleFile_ends bounded honors).ended last.fates before).1 _ completed).2 rfl

/-- The connection breaks after the first byte. -/
def breakingServer (request : Request) : Exchange :=
  if request.resumeFrom = 0 then
    .answered ⟨200, ⟨none, none, none, some "3".toList⟩, [[1]], .failed "connection reset"⟩
  else if request.resumeFrom = 1 then
    .answered
      ⟨206, ⟨none, none, some "bytes 1-2/3".toList, some "2".toList⟩, [[2], [3]], .complete⟩
  else .timedOut

def sampleTarget : Target where
  task := "task"
  fileName := "model.gguf"
  encode state := [state.expectedSize.toUInt8, state.downloadedSize.toUInt8]
  decode content :=
    if content.length = 2 then
      some ⟨(content.headD 0).toNat, (content.getLastD 0).toNat, none, none⟩
    else none

theorem breakingServer_honors : Honors [1, 2, 3] breakingServer := by
  intro request response answered
  unfold breakingServer at answered
  split at answered
  · cases answered
    refine ⟨by nofun, fun _ _ => ⟨by decide, by decide, by nofun⟩, by nofun⟩
  · split at answered
    · rename_i resumed
      cases answered
      refine ⟨fun _ => ⟨by omega, ?_⟩, fun _ full => absurd rfl full, by nofun⟩
      intro start last total range
      have parsed : some ⟨some 1, some 2, some 3⟩ = some (ParsedContentRange.mk start last total) :=
        range
      cases parsed
      exact ⟨by decide, by decide, by nofun, by nofun⟩
    · cases answered

/-- A process that dies when the first byte is written, and an attempt that goes on from it. -/
theorem attempts_publish_sample :
    sampleTarget.whole (Trial.final sampleTarget ⟨unreferenced, 3, breakingServer, Prog.calm⟩
      (attempts sampleTarget [⟨unreferenced, 3, breakingServer, Prog.crashAt (some 9)⟩]
        empty.disk)) = some [1, 2, 3] := by
  refine (attempts_publish_object sampleTarget [1, 2, 3] (by decide) _ _ ?_ _ rfl).2.2.2 ?_
  · intro trial mem
    have server : trial.server = breakingServer := by
      rcases List.mem_cons.mp mem with rfl | mem
      · rfl
      · rw [List.mem_singleton.mp mem]
    rw [server]
    exact breakingServer_honors
  · decide +kernel

end LlamaServerManager.Downloads
